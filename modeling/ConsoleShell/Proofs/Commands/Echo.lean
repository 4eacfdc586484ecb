/-
Printing with `echo`.

The argument of `echo` is decoded piece by piece.  As every byte can be written as an octal escape,
and octal escapes mean nothing between double quotes, there is a line for every text that prints
it, whatever is defined.
-/
import ConsoleShell.Commands.Standard
import ConsoleShell.Proofs.Line.Template
import ConsoleShell.Proofs.Text.Escapes
import ConsoleShell.Shell.Interpreter

namespace ConsoleShell

namespace Echo

open Escapes (Piece octalText print unescape)
open Substitution (expand expandDefined expandLevel reference)

/-- The command that prints its argument. -/
def command : Command CommandBody := ⟨⟨"echo", [⟨"string", .string⟩], []⟩, Commands.echo⟩

lemma findCommand?_command : CommandTable.standard.findCommand? "echo" = some command := by
  rfl

/-- The line that prints a text: its octal escapes in double quotes. -/
def line (s : Bytes) : Bytes := Template.quotedLine "echo" [([Ascii.space], octalText s)]

lemma dollar_notMem_line (s : Bytes) : Ascii.dollar ∉ line s := by
  have htext := (Escapes.notMem_octalText s).2
  have hcommand : Ascii.dollar ∉ ("echo" : Bytes) := by decide +kernel
  simp only [line, Template.quotedLine, Template.quoted, List.mem_append, List.flatMap_cons,
    List.flatMap_nil, List.mem_cons, List.not_mem_nil, or_false, not_or]
  exact ⟨hcommand, by decide, by decide, htext, by decide⟩

/-- The line has no references. -/
lemma expandDefined_line (lookup : Bytes → Option Bytes) (s : Bytes) :
    expandDefined lookup (line s) = .ok (line s) := by
  have hcopied := @Substitution.expandFrom_append_of_notMem
    (reference lookup (expandLevel lookup Substitution.maxDepth)) (line s) .bare
    (dollar_notMem_line s) []
  rw [List.append_nil, Substitution.expandFrom_nil] at hcopied
  have hexpand : expand lookup (line s) = .ok (.plain (line s ++ [])) := hcopied
  rw [expandDefined, hexpand, List.append_nil]
  rfl

lemma split_line (s : Bytes) :
    Line.split (line s) = .ok ⟨["echo", octalText s], []⟩ := by
  refine Template.split_quotedLine (by decide +kernel) (by decide +kernel) ?_ ?_
  · intro a ha
    obtain rfl := List.mem_singleton.1 ha
    exact ⟨List.cons_ne_nil _ _, List.forall_mem_singleton.2 (by decide)⟩
  · intro a ha
    obtain rfl := List.mem_singleton.1 ha
    exact (Escapes.notMem_octalText s).1

lemma bind_command (handle : Option Handle) (text : Bytes) :
    Argument.bind handle command.signature ["echo", text] = .ok [.string text true] := rfl

/-- The command writes its decoded argument and a newline, and nothing else. -/
lemma perform_command (m : Machine) (fuel : Nat) (text : Bytes) :
    m.perform fuel (command.body [.string text true]) =
      some (.done, m.write .standard (unescape text).line) := rfl

/-- **Escapes are decoded exactly, and every text can be printed.**  A sequence of pieces is
replaced by the bytes that they stand for, and a text without backslashes is kept.  For every text
there is a line that is the same after references have been replaced, whatever is defined, and is
split into the name of `echo` and one argument, from which that command prints the text and a
newline. -/
theorem unescape_decodes_pieces :
    (∀ ps : List Piece, unescape (print ps) = ps.map Piece.value) ∧
      (∀ s : Bytes, Ascii.backslash ∉ s → unescape s = s) ∧
      ∀ s : Bytes, ∃ raw words,
        (∀ lookup, expandDefined lookup raw = .ok raw) ∧ Line.split raw = .ok ⟨words, []⟩ ∧
        ∃ c, CommandTable.standard.findCommand? (words.headD []) = some c ∧
          ∀ handle, ∃ args, Argument.bind handle c.signature words = .ok args ∧
            ∀ (m : Machine) (fuel : Nat),
              m.perform fuel (c.body args) = some (.done, m.write .standard s.line) := by
  have hpieces (ps : List Piece) : unescape (print ps) = ps.map Piece.value := by
    have hread := Escapes.unescape_print_append ps []
    rwa [List.append_nil, Escapes.unescape_nil, List.append_nil] at hread
  refine ⟨hpieces, fun s hs => ?_, fun s => ?_⟩
  · obtain ⟨ps, rfl, hvalue⟩ := Escapes.exists_plain hs
    rw [hpieces, hvalue]
  · refine ⟨line s, ["echo", octalText s], fun lookup => expandDefined_line lookup s,
      split_line s, command, findCommand?_command, fun handle => ?_⟩
    refine ⟨[.string (octalText s) true], bind_command handle _, fun m fuel => ?_⟩
    rw [perform_command, Escapes.unescape_octalText]

/-- Digits and a byte of a cut character behind escapes, and such a byte without escapes. -/
theorem unescape_decodes_pieces_followed_by_digits :
    unescape [92, 49, 48, 49, 49, 92, 120, 52, 97, 50, 92, 55, 55, 55, 0xC3, 92, 110, 120] =
        [65, 49, 74, 50, 255, 0xC3, 10, 120] ∧
      Ascii.backslash ∉ ([0xC3, 47] : Bytes) ∧ unescape [0xC3, 47] = [0xC3, 47] := by
  have hpieces := unescape_decodes_pieces.1
    [.octal 1 0 1, .plain 49 (by decide), .hexadecimal ⟨4, false⟩ ⟨10, false⟩,
      .plain 50 (by decide), .octal 7 7 7, .plain 0xC3 (by decide), .letter (110, 10) (by decide),
      .plain 120 (by decide)]
  have hplain : Ascii.backslash ∉ ([0xC3, 47] : Bytes) := by decide
  exact ⟨hpieces, hplain, unescape_decodes_pieces.2.1 _ hplain⟩

end Echo

end ConsoleShell
