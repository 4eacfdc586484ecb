/-
What the command for variables stores.

The command for variables reads a number and stores it, or says that it is none and changes
nothing.  Arguments of commands are read by other code.  This file compares the two: a text that
the command stores is taken as an argument with the same value, unless it has an underscore.  The
readers of numbers pass over underscores between digits, arguments refuse them before, and the
command for variables does not.
-/
import ConsoleShell.Proofs.Argument.Integer
import ConsoleShell.Proofs.Commands.Policy
import ConsoleShell.Proofs.Lookup

namespace ConsoleShell

/-! ### The two readings of a text -/

lemma Double.parseRounded?_of_parse {s : Bytes} {x : Double} (h : parse s = .ok x) :
    parseRounded? s = some x := by
  rw [parse] at h
  rw [parseRounded?]
  cases hspecial : special? s with
  | some y =>
    rw [hspecial] at h
    rw [Except.ok.inj h, Option.some_or]
  | none =>
    rw [hspecial] at h
    rw [Option.none_or]
    cases hfinite : finite? s with
    | none =>
      rw [hfinite] at h
      cases h
    | some y =>
      simp only [hfinite] at h
      split_ifs at h
      rw [Except.ok.inj h]

namespace Argument

variable {text : Bytes}

lemma parseInteger_of_parseSigned {n : Int} (h : Numeral.parseSigned text = .ok n) :
    parseInteger text = .ok n ↔ Ascii.underscore ∉ text := by
  by_cases hs : Ascii.underscore ∈ text
  · rw [parseInteger_of_underscore hs]
    exact iff_of_false (fun h => by cases h) (not_not.2 hs)
  · rw [parseInteger, if_neg (by simpa using hs), h]
    exact iff_of_true rfl hs

lemma parseDouble_of_parse {x : Double} (h : Double.parse text = .ok x) :
    parseDouble text = .ok x ↔ Ascii.underscore ∉ text := by
  by_cases hs : Ascii.underscore ∈ text
  · rw [parseDouble, if_pos (by simpa using hs)]
    exact iff_of_false (fun h => by cases h) (not_not.2 hs)
  · rw [parseDouble, if_neg (by simpa using hs), Double.parseRounded?_of_parse h]
    exact iff_of_true rfl hs

lemma convert_double {w : Bytes} (handle : Option Handle) (hw : w ≠ []) :
    convert handle .double (some w) = (parseDouble w).map .double := by
  rw [convert, Option.getD_some]
  simp [hw]

lemma convert_int_iff {n : Int} (handle : Option Handle) (h : Numeral.parseSigned text = .ok n) :
    convert handle .int (some text) = .ok (.int n) ↔ Ascii.underscore ∉ text := by
  have hne : text ≠ [] := by
    rintro rfl
    cases h
  rw [convert_int hne, ← parseInteger_of_parseSigned h]
  cases parseInteger text <;> simp [Except.map]

lemma convert_double_iff {x : Double} (handle : Option Handle) (h : Double.parse text = .ok x) :
    convert handle .double (some text) = .ok (.double x) ↔ Ascii.underscore ∉ text := by
  have hne : text ≠ [] := by
    rintro rfl
    cases h
  rw [convert_double handle hne, ← parseDouble_of_parse h]
  cases parseDouble text <;> simp [Except.map]

end Argument

/-! ### Cells -/

namespace CellValue

/-- The value as an argument of its kind. -/
def argument : CellValue → Argument
  | .int n => .int n
  | .double x => .double x

/-- The number that a text is for a variable of a kind. -/
def read? (kind : ArgumentKind) (text : Bytes) : Option CellValue :=
  match kind with
  | .int => (Numeral.parseSigned text).toOption.map .int
  | .double => (Double.parse text).toOption.map .double
  | _ => none

end CellValue

namespace Machine

lemma cells_writeTo (m : Machine) (fd : Nat) (e : Endpoint) (text : Bytes) :
    (m.writeTo fd e text).host.cells = m.host.cells := by
  cases e with
  | null => rfl
  | session => rfl
  | file h =>
    rw [writeTo, writeFile]
    split <;> rfl

lemma cell_of_cells {m m' : Machine} (h : m'.host.cells = m.host.cells) (s : Storage) :
    m'.cell s = m.cell s := by
  simp only [cell, h]

lemma cell_setCell_int (name : Bytes) (x : CellValue) (m : Machine) :
    (m.setCell (.int name) x).cell (.int name) = some x := by
  simp [cell, setCell]

lemma cell_setCell_double (name : Bytes) (x : CellValue) (m : Machine) :
    (m.setCell (.double name) x).cell (.double name) = some x := by
  simp [cell, setCell]

lemma cell_setCell_of_ne {s s' : Storage} (h : s' ≠ s) (x : CellValue) (m : Machine) :
    (m.setCell s x).cell s' = m.cell s' := by
  have hfind : (m.setCell s x).host.cells.find? (fun c => c.1 == s') =
      m.host.cells.find? fun c => c.1 == s' := by
    rw [setCell, List.find?_cons_of_neg (by simpa using h.symm)]
    exact find?_filter_key_of_ne Prod.fst h m.host.cells
  simp only [cell, hfind]

end Machine

namespace Interpreter

open Machine Commands

variable {m : Machine} {v : Variable} {name text : Bytes}

/-- What the command for variables says about a text that is no number. -/
def refusal (v : Variable) : Bytes :=
  match v.kind with
  | .int => ("Invalid integer value. Var " : Bytes) ++ v.name ++ " not changed."
  | _ => ("Invalid double value. Var " : Bytes) ++ v.name ++ " not changed."

/-- Called with a name and a text, the command does what it does for the variable. -/
lemma perform_var {invoke : Invoke} {m' : Machine}
    (hfound : m.host.table.findVariable? name = some v)
    (hassign : perform invoke (assignVariable v text) m = some ((), m')) :
    perform invoke (Commands.var [.string name true, .string text true]) m =
      some (.done, m') := by
  refine (perform_query_bind invoke (.findVariable name) _ m).trans ?_
  simp only [answer, hfound]
  rw [perform_bind, ShellM.bind_apply, hassign]
  rfl

lemma storage_of_checkVariable (hv : Table.checkVariable v = .ok ()) :
    (v.kind = .int ∧ ∃ cell, v.storage = .int cell) ∨
      (v.kind = .double ∧ ∃ cell, v.storage = .double cell) := by
  rw [Table.checkVariable] at hv
  split at hv
  · cases hv
  split at hv
  · rename_i cell hkind hstorage
    exact .inl ⟨hkind, cell, hstorage⟩
  · cases hv
  · rename_i cell hkind hstorage
    exact .inr ⟨hkind, cell, hstorage⟩
  · cases hv
  · cases hv

/-- The value is stored in the variable, and the other variables keep theirs. -/
def Stores (v : Variable) (x : CellValue) (m m' : Machine) : Prop :=
  m' = m.setCell v.storage x ∧ m'.cell v.storage = some x ∧
    ∀ s, s ≠ v.storage → m'.cell s = m.cell s

/-- The command has said that the text is no number, and all variables keep their values. -/
def Rejects (v : Variable) (m m' : Machine) : Prop :=
  m' = m.writeLine .error (refusal v) ∧ ∀ s, m'.cell s = m.cell s

/-- What the command does with a text for a variable: a number is stored, and is the argument
unless the text has an underscore; another text is refused. -/
structure Assigns (v : Variable) (text : Bytes) (m m' : Machine) : Prop where
  stores {x : CellValue} (hx : CellValue.read? v.kind text = some x) : Stores v x m m'
  argument {x : CellValue} (hx : CellValue.read? v.kind text = some x) (handle : Option Handle) :
    Argument.convert handle v.kind (some text) = .ok x.argument ↔ Ascii.underscore ∉ text
  refuses (hx : CellValue.read? v.kind text = none) : Rejects v m m'

/-- A text that is a number. -/
lemma assigns_of_read {x : CellValue} (hread : CellValue.read? v.kind text = some x)
    (hcell : (m.setCell v.storage x).cell v.storage = some x)
    (hargument : ∀ handle, Argument.convert handle v.kind (some text) = .ok x.argument ↔
      Ascii.underscore ∉ text) : Assigns v text m (m.setCell v.storage x) := by
  refine ⟨fun hx => ?_, fun hx handle => ?_, fun hx => by cases hread.symm.trans hx⟩
  · obtain rfl := Option.some.inj (hread.symm.trans hx)
    exact ⟨rfl, hcell, fun s hs => cell_setCell_of_ne hs _ m⟩
  · obtain rfl := Option.some.inj (hread.symm.trans hx)
    exact hargument handle

/-- A text that is none. -/
lemma assigns_of_not_read (hread : CellValue.read? v.kind text = none) :
    Assigns v text m (m.writeLine .error (refusal v)) where
  stores hx := by cases hread.symm.trans hx
  argument hx := by cases hread.symm.trans hx
  refuses _ := ⟨rfl, cell_of_cells (cells_writeTo m _ _ _)⟩

/-- A variable that a table takes gets the number that the text is, or keeps its value. -/
lemma perform_assignVariable (hv : Table.checkVariable v = .ok ()) (text : Bytes)
    (invoke : Invoke) (m : Machine) :
    ∃ m', perform invoke (assignVariable v text) m = some ((), m') ∧ Assigns v text m m' := by
  rcases storage_of_checkVariable hv with ⟨hkind, cell, hstorage⟩ | ⟨hkind, cell, hstorage⟩
  · have hrefusal : refusal v = ("Invalid integer value. Var " : Bytes) ++ v.name ++
        " not changed." := by rw [refusal, hkind]
    simp only [assignVariable, hstorage]
    cases hread : Numeral.parseSigned text with
    | ok n =>
      refine ⟨_, rfl, assigns_of_read ?_ ?_ fun handle => ?_⟩
      · rw [hkind, CellValue.read?, hread]
        rfl
      · rw [hstorage]
        exact cell_setCell_int cell _ m
      · rw [hkind]
        exact Argument.convert_int_iff handle hread
    | error f =>
      refine ⟨_, rfl, hrefusal ▸ assigns_of_not_read ?_⟩
      rw [hkind, CellValue.read?, hread]
      rfl
  · have hrefusal : refusal v = ("Invalid double value. Var " : Bytes) ++ v.name ++
        " not changed." := by rw [refusal, hkind]
    simp only [assignVariable, hstorage]
    cases hread : Double.parse text with
    | ok x =>
      refine ⟨_, rfl, assigns_of_read ?_ ?_ fun handle => ?_⟩
      · rw [hkind, CellValue.read?, hread]
        rfl
      · rw [hstorage]
        exact cell_setCell_double cell _ m
      · rw [hkind]
        exact Argument.convert_double_iff handle hread
    | error f =>
      refine ⟨_, rfl, hrefusal ▸ assigns_of_not_read ?_⟩
      rw [hkind, CellValue.read?, hread]
      rfl

/-- **What is stored and what arguments take.**  The command for variables, called with the name
of a variable and a text, stores the number that the text is, and a text that is no number leaves
all variables as they are.  A text that is stored is taken as an argument of the variable's kind,
with the same value, exactly if it has no underscore. -/
theorem stored_text_is_argument_iff (hfound : m.host.table.findVariable? name = some v)
    (hv : Table.checkVariable v = .ok ()) (handle : Option Handle) (command text : Bytes)
    (rest : List Bytes) (invoke : Invoke) :
    ∃ args m',
      Argument.bind handle Table.varSignature (command :: name :: text :: rest) = .ok args ∧
      perform invoke (Commands.var args) m = some (.done, m') ∧ Assigns v text m m' := by
  obtain ⟨m', hassign, hassigns⟩ := perform_assignVariable hv text invoke m
  exact ⟨_, m', rfl, perform_var hfound hassign, hassigns⟩

/-- A number in hexadecimal digits with a minus sign is stored, and the argument is the same. -/
theorem stored_text_is_argument_iff_hexadecimal :
    let v : Variable := ⟨"debug", .int, .int "debug"⟩
    let m := (({} : Machine).registerVariable v (.int 5)).2
    m.host.table.findVariable? "debug" = some v ∧ Table.checkVariable v = .ok () ∧
      m.cell v.storage = some (.int 5) ∧
      ∃ args m',
        Argument.bind none Table.varSignature ["var", "debug", "-0x10"] = .ok args ∧
        perform (Interpreter.invoke 0) (Commands.var args) m = some (.done, m') ∧
        m'.cell v.storage = some (.int (-16)) ∧
        Argument.convert none .int (some "-0x10") = .ok (.int (-16)) := by
  intro v m
  have hfound : m.host.table.findVariable? "debug" = some v := by decide
  have hv : Table.checkVariable v = .ok () := by decide
  have hread : CellValue.read? v.kind "-0x10" = some (.int (-16)) := by decide
  obtain ⟨args, m', hargs, hrun, hassigns⟩ :=
    stored_text_is_argument_iff hfound hv none "var" "-0x10" [] (Interpreter.invoke 0)
  exact ⟨hfound, hv, by decide, args, m', hargs, hrun, (hassigns.stores hread).2.1,
    (hassigns.argument hread none).2 (by decide)⟩

/-- Both variables take numbers with underscores, and arguments refuse them. -/
theorem stored_underscores_are_no_argument :
    let whole : Variable := ⟨"debug", .int, .int "debug"⟩
    let real : Variable := ⟨"timeout", .double, .double "timeout"⟩
    let m := ((({} : Machine).registerVariable whole (.int 5)).2.registerVariable real
      (.double (.zero false))).2
    (∃ m', perform (Interpreter.invoke 0)
        (Commands.var [.string "debug" true, .string "1_000" true]) m = some (.done, m') ∧
      m'.cell whole.storage = some (.int 1000)) ∧
    Argument.convert none .int (some "1_000") = .error (.illegalInteger "1_000") ∧
    (∃ m', perform (Interpreter.invoke 0)
        (Commands.var [.string "timeout" true, .string "1_0.5" true]) m = some (.done, m') ∧
      m'.cell real.storage = some (.double ⟨0x4025000000000000⟩)) ∧
    Argument.convert none .double (some "1_0.5") = .error (.illegalDouble "1_0.5") := by
  intro whole real m
  exact ⟨⟨_, rfl, by decide⟩, by decide, ⟨_, rfl, by decide⟩, by decide⟩

end Interpreter

end ConsoleShell
