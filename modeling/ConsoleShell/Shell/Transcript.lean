/-
Transcripts.

A transcript lists what was written to the two output streams of a session, in order.
Adjacent pieces for the same stream are one piece, and there are no empty pieces.
-/
import ConsoleShell.Shell.Machine

namespace ConsoleShell

/-- What was written to which stream, in order. -/
abbrev Transcript := List (Output × Bytes)

namespace Transcript

/-- Adds a piece in front. -/
def push (o : Output) (text : Bytes) : Transcript → Transcript
  | [] => if text.isEmpty then [] else [(o, text)]
  | (o', text') :: rest =>
    if text.isEmpty then (o', text') :: rest
    else if o = o' then (o, text ++ text') :: rest
    else (o, text) :: (o', text') :: rest

/-- The transcript of the traffic of a shell. -/
def ofTraffic (shell : Nat) : List Transfer → Transcript
  | [] => []
  | t :: ts =>
    let rest := ofTraffic shell ts
    if t.shell != shell then rest
    else match t.fd with
      | 1 => push .standard t.data rest
      | 2 => push .error t.data rest
      | _ => rest

end Transcript

end ConsoleShell
