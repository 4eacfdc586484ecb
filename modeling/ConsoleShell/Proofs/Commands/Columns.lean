/-
The listing of command names in columns.

Names are put into rows from left to right, and each begins at a multiple of sixteen columns.  A
row is ended where the next name would not fit into a terminal, or where little room is left.
The columns count bytes, and they count on names without newlines: rows are then the lines that
are printed.  The proof follows a row while it is being filled: what has been put into it so far
ends where the next name may begin.
-/
import ConsoleShell.Commands.Standard
import ConsoleShell.Proofs.Commands.Policy
import ConsoleShell.Proofs.Text.Splitting

namespace ConsoleShell

namespace Columns

open Commands (helpWidth helpFull helpColumn listing)

/-! ### Rows -/

/-- A name in a row, with the number of blanks behind it. -/
structure Cell where
  name : Bytes
  blanks : Nat
  deriving DecidableEq, Repr

/-- The bytes of a cell. -/
def Cell.text (c : Cell) : Bytes := c.name ++ Bytes.replicate c.blanks Ascii.space

/-- Names side by side. -/
abbrev Row := List Cell

/-- The bytes of a row. -/
def rowText (r : Row) : Bytes := r.flatMap Cell.text

/-- The number of bytes of a row. -/
def width (r : Row) : Nat := (rowText r).length

/-- The bytes of rows, each with a newline at its end. -/
def text (rows : List Row) : Bytes := rows.flatMap fun r => (rowText r).line

/-- The row is laid out for a terminal that shows a byte in each column: names begin at multiples of
sixteen columns and are kept apart by blanks, and the row is at most 78 columns wide unless it is a
single name. -/
structure Fits (r : Row) : Prop where
  aligned : ∀ front c back, r = front ++ c :: back → 16 ∣ width front
  apart : ∀ front c d back, r = front ++ c :: d :: back → 0 < c.blanks
  narrow : width r ≤ 78 ∨ ∃ name, r = [⟨name, 0⟩]

/-- A row may end in front of another one: it has 64 columns, or the first name of the other row
would go beyond 78 columns in it. -/
def Breaks (r r' : Row) : Prop := 64 ≤ width r ∨ ∃ c ∈ r'.head?, 78 < width r + c.name.length

section

variable {r front : Row} {c : Cell} {name : Bytes}

@[simp] lemma rowText_nil : rowText [] = [] := rfl

lemma rowText_concat (r : Row) (c : Cell) : rowText (r ++ [c]) = rowText r ++ c.text := by
  rw [rowText, List.flatMap_append, List.flatMap_singleton]
  rfl

lemma width_concat (r : Row) (c : Cell) :
    width (r ++ [c]) = width r + (c.name.length + c.blanks) := by
  rw [width, rowText_concat, List.length_append, Cell.text, List.length_append, Bytes.replicate,
    List.length_replicate]
  rfl

lemma text_cons (r : Row) (rows : List Row) :
    text (r :: rows) = rowText r ++ Ascii.newline :: text rows := by
  rw [text, List.flatMap_cons, Bytes.line, List.append_assoc]
  rfl

/-! ### The row that is being filled -/

/-- The row ends where the next name may begin, and has room left. -/
structure Filling (r : Row) : Prop where
  aligned : ∀ front, front <+: r → helpColumn ∣ width front
  apart : ∀ c ∈ r, 0 < c.blanks
  room : width r ≤ helpFull

namespace Filling

lemma nil : Filling [] where
  aligned front h := by
    rw [List.prefix_nil.1 h]
    exact dvd_zero _
  apart c hc := absurd hc List.not_mem_nil
  room := Nat.zero_le _

lemma eq_nil (h : Filling r) (hr : width r = 0) : r = [] := by
  rcases List.eq_nil_or_concat r with rfl | ⟨front, c, rfl⟩
  · rfl
  · have hblanks := h.apart c (by simp)
    rw [List.concat_eq_append, width_concat] at hr
    omega

/-- A name that ends before the last column is followed by blanks up to the next column. -/
lemma concat (h : Filling r) (hname : width r + name.length < helpFull) :
    Filling (r ++ [⟨name, helpColumn - (width r + name.length) % helpColumn⟩]) where
  aligned front hfront := by
    rcases List.prefix_concat_iff.1 hfront with rfl | hfront
    · rw [width_concat]
      simp only [helpColumn]
      omega
    · exact h.aligned front hfront
  apart c hc := by
    rcases List.mem_append.1 hc with hc | hc
    · exact h.apart c hc
    · obtain rfl := List.mem_singleton.1 hc
      simp only [helpColumn]
      omega
  room := by
    rw [width_concat]
    simp only [helpColumn, helpFull] at hname ⊢
    omega

/-- The row may be ended as it is. -/
lemma fits (h : Filling r) : Fits r where
  aligned front c back hr := h.aligned front ⟨c :: back, hr.symm⟩
  apart front c d back hr := h.apart c (by simp [hr])
  narrow := .inl (h.room.trans (by decide))

/-- The row may be ended behind one more name if that fits, or is alone in the row. -/
lemma fits_concat (h : Filling r) (hname : r = [] ∨ width r + name.length < helpWidth) :
    Fits (r ++ [⟨name, 0⟩]) where
  aligned front c back hr := by
    have hprefix : front ++ [c] <+: r ++ [⟨name, 0⟩] := ⟨back, by simp [hr]⟩
    rcases List.prefix_concat_iff.1 hprefix with heq | hprefix
    · rw [(List.append_inj' heq rfl).1]
      exact h.aligned r (List.prefix_refl r)
    · exact h.aligned front ((List.prefix_append front [c]).trans hprefix)
  apart front c d back hr := by
    have hprefix : (front ++ [c]) ++ [d] <+: r ++ [⟨name, 0⟩] := ⟨back, by simp [hr]⟩
    refine h.apart c ?_
    rcases List.prefix_concat_iff.1 hprefix with heq | hprefix
    · rw [← (List.append_inj' heq rfl).1]
      simp
    · exact hprefix.subset (by simp)
  narrow := by
    rcases hname with rfl | hname
    · exact .inr ⟨name, rfl⟩
    · refine .inl ?_
      rw [width_concat]
      simp only [helpWidth] at hname ⊢
      omega

end Filling

end

/-! ### Laying out names -/

/-- With a row filled so far, names are laid out in rows, the first of which goes on from there;
the pieces are what is printed for them. -/
structure LaysOut (r : Row) (names pieces : List Bytes) (rows : List Row) : Prop where
  names : rows.flatten.map Cell.name = r.map Cell.name ++ names
  text : rowText r ++ pieces.flatten = text rows
  fits : ∀ row ∈ rows, Fits row
  chain : rows.IsChain Breaks
  first : ∀ row ∈ rows.head?, r <+: row

namespace LaysOut

variable {r : Row} {name : Bytes} {names pieces : List Bytes} {rows : List Row}

lemma nil : LaysOut [] [] [] [] where
  names := rfl
  text := rfl
  fits _ h := absurd h List.not_mem_nil
  chain := .nil
  first _ h := by cases h

/-- The last row is ended. -/
lemma last (hr : Filling r) : LaysOut r [] [[Ascii.newline]] [r] where
  names := by simp
  text := by rw [text_cons]; rfl
  fits := List.forall_mem_singleton.2 hr.fits
  chain := .singleton r
  first row h := by
    obtain rfl := Option.some.inj h
    exact List.prefix_refl r

/-- A name is put into the row, which is ended behind it. -/
lemma full (hr : Filling r) (hname : r = [] ∨ width r + name.length < helpWidth)
    (hfull : helpFull ≤ width r + name.length) (h : LaysOut [] names pieces rows) :
    LaysOut r (name :: names) (name :: [Ascii.newline] :: pieces)
      ((r ++ [⟨name, 0⟩]) :: rows) where
  names := by simp [h.names]
  text := by
    rw [text_cons, ← h.text, rowText_concat]
    simp [Cell.text, Bytes.replicate]
  fits := List.forall_mem_cons.2 ⟨hr.fits_concat hname, h.fits⟩
  chain := by
    refine List.isChain_cons.2 ⟨fun row _ => .inl ?_, h.chain⟩
    rw [width_concat]
    exact hfull
  first row hrow := by
    obtain rfl := Option.some.inj hrow
    exact List.prefix_append r _

/-- A name is put into the row, and blanks behind it. -/
lemma padded {blanks : Nat} (h : LaysOut (r ++ [⟨name, blanks⟩]) names pieces rows) :
    LaysOut r (name :: names) (name :: Bytes.replicate blanks Ascii.space :: pieces) rows where
  names := by simp [h.names]
  text := by
    rw [← h.text, rowText_concat]
    simp [Cell.text]
  fits := h.fits
  chain := h.chain
  first row hrow := (List.prefix_append r _).trans (h.first row hrow)

/-- The row is ended in front of a name that does not fit. -/
lemma wrapped (hr : Filling r) (hname : helpWidth ≤ width r + name.length)
    (h : LaysOut [] (name :: names) pieces rows)
    (hfirst : ∀ row ∈ rows.head?, ∃ c, c.name = name ∧ [c] <+: row) :
    LaysOut r (name :: names) ([Ascii.newline] :: pieces) (r :: rows) where
  names := by simp [h.names]
  text := by
    rw [text_cons, ← h.text]
    simp
  fits := List.forall_mem_cons.2 ⟨hr.fits, h.fits⟩
  chain := by
    refine List.isChain_cons.2 ⟨fun row hrow => .inr ?_, h.chain⟩
    obtain ⟨c, rfl, back, rfl⟩ := hfirst row hrow
    exact ⟨c, rfl, hname⟩
  first row hrow := by
    obtain rfl := Option.some.inj hrow
    exact List.prefix_refl r

end LaysOut

/-! ### The listing -/

/-- The pieces from a name on that is put into the row at a column. -/
def placed (column : Nat) (name : Bytes) (names : List Bytes) : List Bytes :=
  let next := column + name.length
  if helpFull ≤ next then name :: [Ascii.newline] :: listing 0 names
  else
    let blanks := helpColumn - next % helpColumn
    name :: Bytes.replicate blanks Ascii.space :: listing (next + blanks) names

lemma listing_cons (column : Nat) (name : Bytes) (names : List Bytes) :
    listing column (name :: names) =
      if helpWidth ≤ column + name.length then [Ascii.newline] :: placed 0 name names
      else placed column name names := by
  rw [listing, Nat.add_comm name.length]
  by_cases hwrap : helpWidth ≤ column + name.length
  · simp only [hwrap, if_true, placed]
    split_ifs <;> rfl
  · simp only [hwrap, if_false, placed]
    split_ifs <;> rfl

/-- Where all names behind it are laid out from any row, so is a name that is put into a row. -/
lemma exists_rows_placed {r : Row} {name : Bytes} {names : List Bytes} (hr : Filling r)
    (hname : r = [] ∨ width r + name.length < helpWidth)
    (hrest : ∀ r, Filling r → ∃ rows, LaysOut r names (listing (width r) names) rows) :
    ∃ rows, LaysOut r (name :: names) (placed (width r) name names) rows ∧
      ∀ row ∈ rows.head?, ∃ c, c.name = name ∧ r ++ [c] <+: row := by
  simp only [placed]
  split_ifs with hfull
  · obtain ⟨rows, hrows⟩ := hrest [] .nil
    refine ⟨_, .full hr hname hfull hrows, fun row hrow => ⟨⟨name, 0⟩, rfl, ?_⟩⟩
    obtain rfl := Option.some.inj hrow
    exact List.prefix_refl _
  · have hfilling := hr.concat (not_le.1 hfull)
    obtain ⟨rows, hrows⟩ := hrest _ hfilling
    refine ⟨rows, .padded ?_, fun row hrow => ⟨_, rfl, hrows.first row hrow⟩⟩
    rwa [width_concat, ← Nat.add_assoc] at hrows

/-- From any row that is being filled, the listing lays out all names. -/
lemma exists_rows (names : List Bytes) :
    ∀ r, Filling r → ∃ rows, LaysOut r names (listing (width r) names) rows := by
  induction names with
  | nil =>
    intro r hr
    rw [listing]
    split_ifs with hwidth
    · obtain rfl := hr.eq_nil hwidth
      exact ⟨[], .nil⟩
    · exact ⟨[r], .last hr⟩
  | cons name names ih =>
    intro r hr
    rw [listing_cons]
    split_ifs with hwrap
    · obtain ⟨rows, hrows, hfirst⟩ := exists_rows_placed .nil (.inl rfl) ih
      exact ⟨r :: rows, .wrapped hr hwrap hrows hfirst⟩
    · obtain ⟨rows, hrows, -⟩ := exists_rows_placed hr (.inr (not_le.1 hwrap)) ih
      exact ⟨rows, hrows⟩

/-! ### The text of rows -/

lemma text_eq_nil_iff {rows : List Row} : text rows = [] ↔ rows = [] := by
  cases rows with
  | nil => exact iff_of_true rfl rfl
  | cons r rows => simp [text_cons]

lemma getLast?_text {rows : List Row} (h : rows ≠ []) :
    (text rows).getLast? = some Ascii.newline := by
  obtain ⟨front, r, rfl⟩ := List.eq_nil_or_concat rows |>.resolve_left h
  rw [List.concat_eq_append, text, List.flatMap_append, List.flatMap_singleton, Bytes.line,
    ← List.append_assoc, List.getLast?_concat]

lemma notMem_rowText {r : Row} (h : ∀ c ∈ r, Ascii.newline ∉ c.name) :
    Ascii.newline ∉ rowText r := by
  intro hmem
  obtain ⟨c, hc, hmem⟩ := List.mem_flatMap.1 hmem
  rcases List.mem_append.1 hmem with hname | hblank
  · exact h c hc hname
  · cases List.eq_of_mem_replicate hblank

/-- Rows are the lines of their text, if no name has a newline in it. -/
lemma splitOn_text {rows : List Row} (h : ∀ r ∈ rows, ∀ c ∈ r, Ascii.newline ∉ c.name) :
    Bytes.splitOn Ascii.newline (text rows) = rows.map rowText ++ [[]] := by
  induction rows with
  | nil => rfl
  | cons r rows ih =>
    obtain ⟨hr, hrows⟩ := List.forall_mem_cons.1 h
    rw [text_cons, Bytes.splitOn_append (notMem_rowText hr), ih hrows]
    rfl

/-! ### The command -/

/-- The text has been written to the standard output, in pieces. -/
def Printed (text : Bytes) (m m' : Machine) : Prop :=
  ∃ pieces : List Bytes, pieces.flatten = text ∧
    m' = pieces.foldl (fun m piece => m.write .standard piece) m

/-- What stands below the listing. -/
def hint : Bytes := "\nType 'help <command>' to see the arguments of <command>.  eg. 'help db*'\n"

lemma perform_each_print (invoke : Interpreter.Invoke) (pieces : List Bytes) (m : Machine) :
    Interpreter.perform invoke (Routine.each pieces Routine.print) m =
      some ((), pieces.foldl (fun m piece => m.write .standard piece) m) := by
  induction pieces generalizing m with
  | nil => rfl
  | cons piece pieces ih => exact ih (m.write .standard piece)

/-- Without patterns, the command prints the listing and the text below it. -/
lemma perform_help {args : Arguments} (hargs : ((args.words? 0).getD []).length ≤ 1)
    (m : Machine) (fuel : Nat) :
    ∃ m', m.perform fuel (Commands.help args) = some (.done, m') ∧
      Printed ((listing 0 (m.host.table.commands.map Command.name)).flatten ++ hint) m m' := by
  let pieces := listing 0 (m.host.table.commands.map Command.name)
  refine ⟨(pieces ++ [hint]).foldl (fun m piece => m.write .standard piece) m, ?_,
    pieces ++ [hint], by simp [pieces], rfl⟩
  have hprints : m.perform fuel (Routine.each pieces Routine.print >>= fun _ =>
        Routine.print hint >>= fun _ => pure Verdict.done) =
      some (.done, (pieces ++ [hint]).foldl (fun m piece => m.write .standard piece) m) := by
    show Interpreter.perform _ _ m = _
    rw [Interpreter.perform_bind, ShellM.bind_apply, perform_each_print, List.foldl_append]
    rfl
  have hpieces : pieces = listing 0
      ((m.host.table.commands.map Command.signature).map Signature.name) := by
    rw [List.map_map]
    rfl
  rw [← hprints, hpieces]
  unfold Commands.help
  generalize (args.words? 0).getD [] = words at hargs
  match words with
  | [] => rfl
  | [_] => rfl
  | _ :: _ :: _ => simp at hargs

/-- **The listing fits a terminal.**  For every list of names without newlines, the lines of the
listing are rows in which the names stand in order, and a newline ends each of them.  Each name
begins at a multiple of sixteen columns of its line, apart from the one before it, and a line is at
most 78 columns wide unless it is a single name; a line is ended only where it has 64 columns or
the next name would not fit.  The listing is empty only if there are no names, and ends with a
newline if it is not.  Columns count bytes.  This is what the command for help prints for the
names of the table, if it is given no patterns, and then the text below it. -/
theorem listing_fits_terminal {names : List Bytes}
    (hnames : ∀ name ∈ names, Ascii.newline ∉ name) :
    ∃ rows : List Row,
      (listing 0 names).flatten = text rows ∧
      Bytes.splitOn Ascii.newline (text rows) = rows.map rowText ++ [[]] ∧
      rows.flatten.map Cell.name = names ∧
      (∀ row ∈ rows, Fits row) ∧
      rows.IsChain Breaks ∧
      (text rows = [] ↔ names = []) ∧
      (text rows ≠ [] → (text rows).getLast? = some Ascii.newline) ∧
      ∀ m : Machine, m.host.table.commands.map Command.name = names →
        ∀ args : Arguments, ((args.words? 0).getD []).length ≤ 1 → ∀ fuel,
          ∃ m', m.perform fuel (Commands.help args) = some (.done, m') ∧
            Printed (text rows ++ hint) m m' := by
  obtain ⟨rows, hrows⟩ := exists_rows names [] .nil
  have hlisting : (listing 0 names).flatten = text rows := hrows.text
  have hcells : rows.flatten.map Cell.name = names := hrows.names
  refine ⟨rows, hlisting, ?_, hcells, hrows.fits, hrows.chain, ⟨fun h => ?_, fun h => ?_⟩,
    fun h => getLast?_text (mt text_eq_nil_iff.2 h), fun m hm args hargs fuel => ?_⟩
  · refine splitOn_text fun r hr c hc => hnames _ ?_
    rw [← hcells]
    exact List.mem_map_of_mem (List.mem_flatten_of_mem hr hc)
  · rw [← hcells, text_eq_nil_iff.1 h]
    rfl
  · rw [← hlisting, h]
    rfl
  · rw [← hlisting, ← hm]
    exact perform_help hargs m fuel

/-- The commands of every table in columns, and a name that is wider than a terminal. -/
theorem listing_fits_terminal_control :
    let m : Machine := { host := { table := CommandTable.control } }
    let wide : Bytes := List.replicate 90 120
    (∃ m', m.perform 0 (Commands.help [.words ["help"]]) = some (.done, m') ∧
      Printed
        ((("#               exit            help            iocshCmd        iocshLoad\n" : Bytes) ++
          "iocshRun        on              \n") ++ hint) m m') ∧
    ∃ rows : List Row, text rows = ("a               \n" : Bytes) ++ wide ++ "\n" ∧
      Bytes.splitOn Ascii.newline (text rows) = rows.map rowText ++ [[]] := by
  intro m wide
  constructor
  · have hnames : ∀ name ∈ (["#", "exit", "help", "iocshCmd", "iocshLoad", "iocshRun", "on"] :
        List Bytes), Ascii.newline ∉ name := by decide +kernel
    obtain ⟨rows, hlisting, -, -, -, -, -, -, hhelp⟩ := listing_fits_terminal hnames
    obtain ⟨m', hrun, hprinted⟩ := hhelp m (by decide +kernel) [.words ["help"]] (by decide) 0
    rw [← hlisting] at hprinted
    exact ⟨m', hrun, hprinted⟩
  · have hnames : ∀ name ∈ (["a", wide] : List Bytes), Ascii.newline ∉ name := by decide +kernel
    obtain ⟨rows, hlisting, hlines, -⟩ := listing_fits_terminal hnames
    exact ⟨rows, hlisting.symm.trans (by decide +kernel), hlines⟩

/-- The number of bytes of a text behind its last newline. -/
def column (front : Bytes) : Nat := (front.reverse.takeWhile fun b => b != Ascii.newline).length

/-- A command may have a newline in its name.  The name behind it then begins at a column of its
line that is not a multiple of sixteen. -/
theorem newline_in_name_moves_columns :
    let names : List Bytes := ["a\nb", "c"]
    (∀ name ∈ names, Signature.check { name } = .ok ()) ∧
    ∃ front back : Bytes, (listing 0 names).flatten = front ++ "c" ++ back ∧
      (∀ b ∈ ("c" : Bytes), b ∉ front ∧ b ∉ back) ∧ column front = 14 := by
  intro names
  exact ⟨by decide, "a\nb             ", "               \n", by decide +kernel,
    by decide +kernel, by decide +kernel⟩

end Columns

end ConsoleShell
