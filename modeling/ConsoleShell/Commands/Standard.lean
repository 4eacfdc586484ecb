/-
Tables with the commands that come with the shell.
-/
import ConsoleShell.Commands.Control
import ConsoleShell.Commands.Stock
import ConsoleShell.Commands.Variables

namespace ConsoleShell

namespace CommandTable

/-- Registers a list of commands up to the first that is not taken. -/
def registerAll (t : CommandTable) : List (Command CommandBody) → CommandTable
  | [] => t
  | c :: cs =>
    let r := t.register c.signature (some c.body)
    match r.fault with
    | none => registerAll r.table cs
    | some _ => r.table

/-- The table with the commands that control the interpreter. -/
def control : CommandTable := registerAll {} Commands.control

/-- The table with the stock commands added. -/
def withStock (t : CommandTable) : CommandTable := t.registerAll Commands.stock

/-- The table that a process starts with. -/
def standard : CommandTable := control.withStock

/-- Registers a variable. -/
def addVariable (t : CommandTable) (v : Variable) : Table.Registration CommandBody :=
  t.registerVariable Commands.var v

end CommandTable

namespace Machine

/-- Takes over the outcome of a registration; what went wrong. -/
def adopt (m : Machine) (r : Table.Registration CommandBody) : Option Table.Fault × Machine :=
  let log := m.host.log ++ (r.notice.map Bytes.line).getD []
  (r.fault, { m with host := { m.host with table := r.table, log } })

/-- Registers a command; what went wrong. -/
def register (m : Machine) (s : Signature) (body : Option CommandBody) :
    Option Table.Fault × Machine :=
  m.adopt (m.host.table.register s body)

/-- Registers a variable, whose storage gets a value when it is first used; what went wrong. -/
def registerVariable (m : Machine) (v : Variable) (initial : CellValue) :
    Option Table.Fault × Machine :=
  let m := if m.host.cells.any fun c => c.1 == v.storage then m else m.setCell v.storage initial
  m.adopt (CommandTable.addVariable m.host.table v)

end Machine

end ConsoleShell
