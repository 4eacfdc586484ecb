/-
Arguments in double quotes.

Scripts write an argument that refers to names in double quotes.  The line is read twice: first
references are replaced, which copies the quotes and puts values between them, and then the line
is split, which reads the quotes and all that stands between them again.  An argument survives
both if neither its text nor a value has a double quote, which would end the quotes, or a dollar
sign, which would begin a reference.  Separators, operators, backslashes and single quotes mean
nothing to either pass in between.
-/
import ConsoleShell.Proofs.Line.Printing
import ConsoleShell.Proofs.Substitution.Depth

namespace ConsoleShell

open Line (Quoting Lexed Symbol Ending Item)
open Substitution (Plain Expansion expand expandDefined expandFrom expandLevel reference)

namespace Line

/-! ### Separators and literal bytes -/

lemma lexed_separators {gap s : Bytes} {ts : List Symbol} {e : Ending}
    (hgap : ∀ c ∈ gap, c ∈ separators) (hs : Lexed s ts e) :
    Lexed (gap ++ s) (gap.map (fun _ => .separator) ++ ts) e := by
  induction gap with
  | nil => exact hs
  | cons c gap ih =>
    obtain ⟨hc, hgap⟩ := List.forall_mem_cons.1 hgap
    exact .separator hc (ih hgap)

lemma items_separators (gap : Bytes) (ts : List Symbol) :
    items (gap.map (fun _ => .separator) ++ ts) = items ts := by
  induction gap with
  | nil => rfl
  | cons c gap ih => exact ih

/-- What has no special bytes is read literally, unless an operator for output comes right after
it. -/
lemma lexed_literals {word s : Bytes} {ts : List Symbol} {e : Ending}
    (hword : ∀ c ∈ word, c ∉ special) (hnext : s.head? ≠ some Ascii.greater) (hs : Lexed s ts e) :
    Lexed (word ++ s) ((word.map fun c => .part [c]) ++ ts) e := by
  induction word with
  | nil => exact hs
  | cons c word ih =>
    obtain ⟨hc, hword⟩ := List.forall_mem_cons.1 hword
    refine .literal hc (fun _ => ?_) (ih hword)
    cases word with
    | nil => exact hnext
    | cons d word =>
      intro hd
      obtain rfl : d = Ascii.greater := by simpa using hd
      exact hword _ List.mem_cons_self (by decide)

/-- Words without operators are the arguments of their line. -/
lemma verdict_words {ws : List Bytes} (hne : ws ≠ []) :
    verdict (ws.map .word) .complete = .ok ⟨ws, []⟩ := by
  have hitems : (ws.map Piece.argument).flatMap Piece.items = ws.map Item.word := by
    rw [List.flatMap_map]
    exact List.map_eq_flatMap.symm
  have hnone : Piece.redirections (ws.map Piece.argument) = [] := by
    simp [Piece.redirections]
  have hall : Piece.arguments (ws.map Piece.argument) = ws := by
    simp [Piece.arguments, List.filterMap_map]
  have hverdict := @verdict_items (ws.map Piece.argument) (mt List.map_eq_nil_iff.1 hne)
    (by simp [hnone])
  rwa [hitems, hnone, hall, byDescriptor, List.mergeSort_nil] at hverdict

end Line

/-! ### Templates -/

/-- A part of a template: text that stands for itself, or a reference to a name, in braces or in
parentheses. -/
inductive Template.Chunk where
  | literal (text : Bytes)
  | reference (braces : Bool) (name : Bytes)
  deriving DecidableEq, Repr

/-- What is written between double quotes for an argument. -/
abbrev Template := List Template.Chunk

namespace Template

/-- A part as it is written. -/
def Chunk.print : Chunk → Bytes
  | .literal text => text
  | .reference true name => Ascii.dollar :: Ascii.openBrace :: (name ++ [Ascii.closeBrace])
  | .reference false name => Ascii.dollar :: Ascii.openParen :: (name ++ [Ascii.closeParen])

/-- What a part stands for; a name without a value stands for nothing. -/
def Chunk.value (lookup : Bytes → Option Bytes) : Chunk → Bytes
  | .literal text => text
  | .reference _ name => (lookup name).getD []

/-- The text means nothing in double quotes. -/
def Inert (text : Bytes) : Prop := Ascii.doubleQuote ∉ text ∧ Ascii.dollar ∉ text

/-- The text of the part is inert; its name is plain and has an inert value. -/
def Chunk.Quotable (lookup : Bytes → Option Bytes) : Chunk → Prop
  | .literal text => Inert text
  | .reference _ name => Plain name ∧ ∃ value, lookup name = some value ∧ Inert value

/-- A template as it is written. -/
def print (t : Template) : Bytes := t.flatMap Chunk.print

/-- What a template stands for. -/
def value (lookup : Bytes → Option Bytes) (t : Template) : Bytes := t.flatMap (Chunk.value lookup)

/-- An argument in double quotes, with what separates it from the word before it. -/
def quoted (arg : Bytes × Bytes) : Bytes :=
  arg.1 ++ Ascii.doubleQuote :: (arg.2 ++ [Ascii.doubleQuote])

/-- A word and arguments in double quotes. -/
def quotedLine (command : Bytes) (args : List (Bytes × Bytes)) : Bytes :=
  command ++ args.flatMap quoted

lemma print_cons (x : Chunk) (t : Template) : print (x :: t) = x.print ++ print t := rfl

lemma value_cons (lookup : Bytes → Option Bytes) (x : Chunk) (t : Template) :
    value lookup (x :: t) = x.value lookup ++ value lookup t := rfl

lemma inert_value {lookup : Bytes → Option Bytes} {t : Template}
    (ht : ∀ x ∈ t, x.Quotable lookup) : Inert (t.value lookup) := by
  have hchunk : ∀ x ∈ t, Inert (x.value lookup) := by
    intro x hx
    have hq := ht x hx
    cases x with
    | literal text => exact hq
    | reference braces name =>
      obtain ⟨-, value, hvalue, hinert⟩ := hq
      rw [Chunk.value, hvalue]
      exact hinert
  refine ⟨fun hmem => ?_, fun hmem => ?_⟩ <;> obtain ⟨x, hx, hmem⟩ := List.mem_flatMap.1 hmem
  · exact (hchunk x hx).1 hmem
  · exact (hchunk x hx).2 hmem

/-! ### Replacing references -/

section

variable {lookup : Bytes → Option Bytes} {n : Nat}

/-- What has no quote of its kind stays in quotes. -/
lemma read_quoted_of_notMem {q : UInt8} {text : Bytes} (h : q ∉ text) :
    Quoting.read (.quoted q) text = .quoted q := by
  induction text with
  | nil => rfl
  | cons c text ih =>
    obtain ⟨hc, htext⟩ := not_or.1 (mt List.mem_cons.2 h)
    rw [Quoting.read_cons, Quoting.byte, if_neg (Ne.symm hc), ih htext]

/-- In double quotes a reference to a plain name is replaced by its value, if that is inert. -/
lemma expandFrom_quoted_reference {name value : Bytes} (hname : Plain name)
    (hvalue : lookup name = some value) (hinert : Inert value) {o c : UInt8}
    (ho : Substitution.isOpen o = true) (hc : Substitution.isClose c = true) (rest : Bytes) :
    expandFrom (reference lookup (expandLevel lookup (n + 1))) (.quoted Ascii.doubleQuote)
        (Ascii.dollar :: o :: (name ++ c :: rest)) =
      (expandFrom (reference lookup (expandLevel lookup (n + 1))) (.quoted Ascii.doubleQuote)
        rest).map (Expansion.plain value).append := by
  have hresolved : reference lookup (expandLevel lookup (n + 1)) name = .ok (.plain value) :=
    (Substitution.reference_succ hname hvalue n).trans (Substitution.expandText_value hinert.2)
  rw [expandFrom, Substitution.expandText_body hname.balanced ho hc (by decide) (by decide),
    hresolved]
  rfl

lemma expandFrom_chunk {x : Chunk} (hx : x.Quotable lookup) (rest : Bytes) :
    expandFrom (reference lookup (expandLevel lookup (n + 1))) (.quoted Ascii.doubleQuote)
        (x.print ++ rest) =
      (expandFrom (reference lookup (expandLevel lookup (n + 1))) (.quoted Ascii.doubleQuote)
        rest).map (Expansion.plain (x.value lookup)).append := by
  cases x with
  | literal text =>
    rw [Chunk.print, Substitution.expandFrom_append_of_notMem _ hx.2, read_quoted_of_notMem hx.1]
    rfl
  | reference braces name =>
    obtain ⟨hname, value, hvalue, hinert⟩ := hx
    have hchunk := @expandFrom_quoted_reference lookup n name value hname hvalue hinert
    rw [Chunk.value, hvalue, Option.getD_some]
    cases braces with
    | true =>
      have hbraces := @hchunk Ascii.openBrace Ascii.closeBrace rfl rfl rest
      simpa [Chunk.print] using hbraces
    | false =>
      have hparentheses := @hchunk Ascii.openParen Ascii.closeParen rfl rfl rest
      simpa [Chunk.print] using hparentheses

/-- In double quotes a template is replaced by what it stands for. -/
lemma expandFrom_template {t : Template} (ht : ∀ x ∈ t, x.Quotable lookup) (rest : Bytes) :
    expandFrom (reference lookup (expandLevel lookup (n + 1))) (.quoted Ascii.doubleQuote)
        (t.print ++ rest) =
      (expandFrom (reference lookup (expandLevel lookup (n + 1))) (.quoted Ascii.doubleQuote)
        rest).map (Expansion.plain (t.value lookup)).append := by
  induction t with
  | nil =>
    show expandFrom _ _ rest = (expandFrom _ _ rest).map _
    cases expandFrom (reference lookup (expandLevel lookup (n + 1)))
      (.quoted Ascii.doubleQuote) rest <;> rfl
  | cons x t ih =>
    obtain ⟨hx, ht⟩ := List.forall_mem_cons.1 ht
    rw [print_cons, List.append_assoc, expandFrom_chunk hx, ih ht, Substitution.map_append,
      value_cons]
    rfl

/-- What stands between two arguments is read outside quotes. -/
lemma read_separators {gap : Bytes} (hgap : ∀ c ∈ gap, c ∈ Line.separators) :
    Quoting.read .bare gap = .bare := by
  induction gap with
  | nil => rfl
  | cons c gap ih =>
    obtain ⟨hc, hgap⟩ := List.forall_mem_cons.1 hgap
    rw [Quoting.read_cons, Line.byte_bare_of_separator ((Line.isSeparator_iff c).2 hc), ih hgap]

/-- Of an argument in double quotes only the template between the quotes is replaced, and what
comes after it is read outside quotes again. -/
lemma expandFrom_argument {gap : Bytes} {t : Template} (hgap : ∀ c ∈ gap, c ∈ Line.separators)
    (ht : ∀ x ∈ t, x.Quotable lookup) (rest : Bytes) :
    expandFrom (reference lookup (expandLevel lookup (n + 1))) .bare
        (quoted (gap, t.print) ++ rest) =
      (expandFrom (reference lookup (expandLevel lookup (n + 1))) .bare rest).map
        (Expansion.plain (quoted (gap, t.value lookup))).append := by
  have hopen : Ascii.dollar ∉ gap ++ [Ascii.doubleQuote] := by
    intro hmem
    rcases List.mem_append.1 hmem with hmem | hmem
    · exact absurd (hgap _ hmem) (by decide)
    · exact absurd hmem (by decide)
  have hread : Quoting.read .bare (gap ++ [Ascii.doubleQuote]) = .quoted Ascii.doubleQuote := by
    rw [Quoting.read_append, read_separators hgap]
    rfl
  have hclosed : Quoting.read (.quoted Ascii.doubleQuote) [Ascii.doubleQuote] = .bare := rfl
  have hparts : quoted (gap, t.print) ++ rest =
      (gap ++ [Ascii.doubleQuote]) ++ (t.print ++ ([Ascii.doubleQuote] ++ rest)) := by
    simp [quoted]
  rw [hparts, Substitution.expandFrom_append_of_notMem _ hopen, hread, expandFrom_template ht,
    Substitution.expandFrom_append_of_notMem _ (by decide), hclosed, Substitution.map_append,
    Substitution.map_append]
  simp [Expansion.append, Expansion.plain, quoted]

/-- The templates between the quotes are replaced by what they stand for, and nothing else
changes. -/
lemma expandFrom_arguments {args : List (Bytes × Template)}
    (hgap : ∀ a ∈ args, ∀ c ∈ a.1, c ∈ Line.separators)
    (htemplate : ∀ a ∈ args, ∀ x ∈ a.2, x.Quotable lookup) :
    expandFrom (reference lookup (expandLevel lookup (n + 1))) .bare
        (args.flatMap fun a => quoted (a.1, a.2.print)) =
      .ok (.plain (args.flatMap fun a => quoted (a.1, a.2.value lookup))) := by
  induction args with
  | nil => exact Substitution.expandFrom_nil .bare
  | cons a args ih =>
    obtain ⟨hgap, hgaps⟩ := List.forall_mem_cons.1 hgap
    obtain ⟨htemplate, htemplates⟩ := List.forall_mem_cons.1 htemplate
    rw [List.flatMap_cons, expandFrom_argument hgap htemplate, ih hgaps htemplates,
      List.flatMap_cons]
    rfl

end

/-! ### Splitting -/

/-- What the scanner sees of arguments in double quotes, each after a separator at least. -/
lemma exists_lexed_arguments {args : List (Bytes × Bytes)}
    (hgap : ∀ a ∈ args, a.1 ≠ [] ∧ ∀ c ∈ a.1, c ∈ Line.separators)
    (htext : ∀ a ∈ args, Ascii.doubleQuote ∉ a.2) :
    ∃ ts, Lexed (args.flatMap quoted) ts .complete ∧ Line.items ts = args.map (.word ·.2) ∧
      ∀ more, ts.head? ≠ some (.part more) := by
  induction args with
  | nil => exact ⟨[], .nil, rfl, by simp⟩
  | cons a args ih =>
    obtain ⟨gap, text⟩ := a
    obtain ⟨⟨hne, hgap⟩, hgaps⟩ := List.forall_mem_cons.1 hgap
    obtain ⟨htext, htexts⟩ := List.forall_mem_cons.1 htext
    obtain ⟨ts, hlexed, hitems, hhead⟩ := ih hgaps htexts
    -- the quoted text is a word of its own, as no part follows it
    have hquoted : Lexed (Ascii.doubleQuote :: (text ++ Ascii.doubleQuote :: args.flatMap quoted))
        (.part text :: ts) .complete := .quoted (by decide) htext hlexed
    have hword : Line.items (.part text :: ts) = .word text :: args.map (.word ·.2) := by
      have hparts := Line.items_parts text [] hhead
      rwa [List.map_nil, List.nil_append, List.append_nil, hitems] at hparts
    have hline : List.flatMap quoted ((gap, text) :: args) =
        gap ++ Ascii.doubleQuote :: (text ++ Ascii.doubleQuote :: args.flatMap quoted) := by
      simp [quoted]
    have hseparated := Line.lexed_separators hgap hquoted
    refine ⟨gap.map (fun _ => .separator) ++ .part text :: ts, hline ▸ hseparated, ?_, ?_⟩
    · rw [Line.items_separators, hword]
      rfl
    · cases gap with
      | nil => exact absurd rfl hne
      | cons c gap => simp

/-- A word and arguments in double quotes are split into the word and the texts between the
quotes. -/
lemma split_quotedLine {command : Bytes} {args : List (Bytes × Bytes)}
    (hne : command ≠ []) (hcommand : ∀ c ∈ command, c ∉ Line.special)
    (hgap : ∀ a ∈ args, a.1 ≠ [] ∧ ∀ c ∈ a.1, c ∈ Line.separators)
    (htext : ∀ a ∈ args, Ascii.doubleQuote ∉ a.2) :
    Line.split (quotedLine command args) = .ok ⟨command :: args.map Prod.snd, []⟩ := by
  obtain ⟨ts, hlexed, hitems, hhead⟩ := exists_lexed_arguments hgap htext
  -- a separator comes after the word, so that its last byte names no descriptor
  have hnext : (args.flatMap quoted).head? ≠ some Ascii.greater := by
    cases args with
    | nil => simp
    | cons a args =>
      obtain ⟨gap, text⟩ := a
      obtain ⟨⟨hgap, hseparators⟩, -⟩ := List.forall_mem_cons.1 hgap
      cases gap with
      | nil => exact absurd rfl hgap
      | cons c gap =>
        intro hc
        obtain rfl : c = Ascii.greater := by simpa [quoted] using hc
        exact absurd (hseparators _ List.mem_cons_self) (by decide)
  have hline := Line.lexed_literals hcommand hnext hlexed
  rw [quotedLine, Line.split_of_lexed hline]
  cases command with
  | nil => exact absurd rfl hne
  | cons c command =>
    have hword := Line.items_parts [c] command hhead
    have hwords : Item.word (c :: command) :: args.map (fun a => .word a.2) =
        ((c :: command) :: args.map Prod.snd).map .word := by
      simp
    rw [List.map_cons, List.cons_append, hword, hitems, List.singleton_append, hwords,
      Line.verdict_words (List.cons_ne_nil _ _)]

/-- **Arguments in double quotes arrive as they stand.**  Whatever is defined, take a line of a
plain word and templates in double quotes, with any separators between them.  If the texts of
the templates and the values of their names have neither double quotes nor dollar signs, then the
references of the line are all replaced, and the result is split into the word and one argument
for each template, the texts and values of which it consists one after the other, and no
redirections. -/
theorem split_expanded_templates (d : Definitions) (fallback : Bytes → Option Bytes)
    {command : Bytes} {args : List (Bytes × Template)} (hne : command ≠ [])
    (hcommand : ∀ c ∈ command, c ∉ Line.special ∧ c ≠ Ascii.dollar)
    (hgap : ∀ a ∈ args, a.1 ≠ [] ∧ ∀ c ∈ a.1, c ∈ Line.separators)
    (htemplate : ∀ a ∈ args, ∀ x ∈ a.2, x.Quotable (d.lookup fallback)) :
    ∃ line, expandDefined (d.lookup fallback)
        (quotedLine command (args.map fun a => (a.1, a.2.print))) = .ok line ∧
      Line.split line =
        .ok ⟨command :: args.map fun a => a.2.value (d.lookup fallback), []⟩ := by
  set lookup := d.lookup fallback
  refine ⟨quotedLine command (args.map fun a => (a.1, a.2.value lookup)), ?_, ?_⟩
  · have hread : Quoting.read .bare command = .bare := by
      refine Substitution.read_bare_of_forall fun c hc => ⟨?_, ?_⟩
      · rintro rfl
        exact (hcommand _ hc).1 (by decide)
      · rw [Bool.eq_false_iff, ne_eq, Line.isQuote_iff]
        intro hq
        exact (hcommand c hc).1 (by simp [Line.special, hq])
    have hcopied := @Substitution.expandFrom_append_of_notMem
      (reference lookup (expandLevel lookup Substitution.maxDepth)) command .bare
      (fun hmem => (hcommand _ hmem).2 rfl) (args.flatMap fun a => quoted (a.1, a.2.print))
    rw [hread, expandFrom_arguments (fun a ha => (hgap a ha).2) htemplate] at hcopied
    have hexpand : expand lookup (quotedLine command (args.map fun a => (a.1, a.2.print))) =
        .ok (.plain (quotedLine command (args.map fun a => (a.1, a.2.value lookup)))) := by
      rw [quotedLine, quotedLine, List.flatMap_map, List.flatMap_map]
      exact hcopied
    rw [expandDefined, hexpand]
    rfl
  · rw [split_quotedLine hne (fun c hc => (hcommand c hc).1), List.map_map]
    · rfl
    · intro a ha
      obtain ⟨b, hb, rfl⟩ := List.mem_map.1 ha
      exact hgap b hb
    · intro a ha
      obtain ⟨b, hb, rfl⟩ := List.mem_map.1 ha
      exact (inert_value (htemplate b hb)).1

/-- References of both forms to a value with separators, an operator, a single quote and a
backslash, next to text with the like, and an argument without text. -/
theorem split_expanded_templates_awkward :
    let lookup := ({ inner := [⟨"A", "x, ('\\ <y"⟩] } : Definitions).lookup fun _ => none
    ∃ line,
      expandDefined lookup ("p  \"it's $(A) >\\\",(\"$\x7bA\x7d\"\t\"\"" : Bytes) = .ok line ∧
        Line.split line = .ok ⟨["p", "it's x, ('\\ <y >\\", "x, ('\\ <y", ""], []⟩ := by
  intro lookup
  have hA (braces : Bool) : Chunk.Quotable lookup (.reference braces "A") := by
    refine ⟨?_, "x, ('\\ <y", by decide +kernel, by decide +kernel, by decide +kernel⟩
    rw [Plain]
    decide +kernel
  have hfirst : Inert "it's " := ⟨by decide +kernel, by decide +kernel⟩
  have hlast : Inert " >\\" := ⟨by decide +kernel, by decide +kernel⟩
  have hline := @split_expanded_templates { inner := [⟨"A", "x, ('\\ <y"⟩] } (fun _ => none) "p"
    [("  ", [.literal "it's ", .reference false "A", .literal " >\\"]),
      (",(", [.reference true "A"]), ("\t", [])]
    (by decide) (by decide +kernel) (by decide +kernel) (by
      simp only [List.forall_mem_cons, List.not_mem_nil, false_implies, implies_true, and_true]
      exact ⟨⟨hfirst, hA false, hlast⟩, hA true⟩)
  obtain ⟨line, hexpand, hsplit⟩ := hline
  refine ⟨line, Eq.trans ?_ hexpand, hsplit.trans ?_⟩
  · exact congrArg _ (by decide +kernel)
  · decide +kernel

end Template

end ConsoleShell
