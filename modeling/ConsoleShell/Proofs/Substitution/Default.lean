/-
Defaults of references.

A reference may name a text to take where its name has no value: the default, which stands after
an equals sign.  Two counts of brackets delimit it.  One looks for the bracket that closes the
reference and the other for the equals sign, and both pass over a default whose brackets are
balanced.  So the default of a name that has a value does nothing, even if it could not be
expanded itself, and the default of a name without a value is expanded in its place.
-/
import ConsoleShell.Proofs.Substitution.Depth

namespace ConsoleShell

namespace Substitution

open Line (isQuote)

/-! ### Outcomes -/

/-- Two lines come to the same: to one text, to the same names without a value, or to the same
fault.  The lines that are shown with the names are the lines themselves and may differ. -/
inductive Alike : Except Error Bytes → Except Error Bytes → Prop where
  | text (t : Bytes) : Alike (.ok t) (.ok t)
  | fault (f : Fault) : Alike (.error (.fault f)) (.error (.fault f))
  | undefined (names : List Bytes) (a b : Bytes) :
      Alike (.error (.undefined names a)) (.error (.undefined names b))

variable {lookup : Bytes → Option Bytes} {name text : Bytes}

lemma alike_expandDefined {a b : Bytes} (h : expand lookup a = expand lookup b) :
    Alike (expandDefined lookup a) (expandDefined lookup b) := by
  rw [expandDefined, expandDefined, h]
  cases expand lookup b with
  | error f => exact .fault f
  | ok x =>
    simp only
    split_ifs
    · exact .text x.text
    · exact .undefined x.undefined a b

/-! ### Bodies with a default -/

lemma balanced_default (hname : Plain name) (htext : Balanced text) :
    Balanced (name ++ Ascii.equals :: text) :=
  hname.balanced.append (.byte rfl rfl htext)

/-- The default of a plain name begins at the first equals sign. -/
lemma splitDefault_default (hname : Plain name) :
    splitDefault 0 (name ++ Ascii.equals :: text) = (name, some text) := by
  have hequals : splitDefault 0 (Ascii.equals :: text) = ([], some text) := by
    rw [splitDefault, if_pos (by simp)]
  rw [hname.splitDefault_append, hequals, List.append_nil]

/-- With a level left, a plain name with a default stands for what becomes of its value there, or
else of the default. -/
lemma reference_default (hname : Plain name) (n : Nat) :
    reference lookup (expandLevel lookup (n + 1)) (name ++ Ascii.equals :: text) =
      expandLevel lookup (n + 1) ((lookup name).getD text) := by
  have hexpanded : expandLevel lookup (n + 1) name = .ok (.plain name) :=
    expandText_value hname.dollar_notMem
  rw [reference, splitDefault_default hname]
  simp only [hexpanded, Expansion.plain]
  cases lookup name with
  | some value => simp only [Option.getD_some]; cases expandLevel lookup (n + 1) value <;> rfl
  | none => simp only [Option.getD_none]; cases expandLevel lookup (n + 1) text <;> rfl

/-! ### Lines -/

end Substitution

end ConsoleShell
