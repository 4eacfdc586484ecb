/-
Suspensions of a shell.

An invocation that suspends itself makes a channel, announces it at the gate of its shell and
waits until the channel is closed.  Whoever resumes the shell closes the announced channel and
clears the announcement.  An invocation whose context is cancelled stops waiting and takes its
announcement back.
-/

namespace ConsoleShell

/-- Where the invocations of a shell suspend themselves. -/
structure Gate where
  /-- The number of channels that have been made; channels are numbered as they are made. -/
  made : Nat := 0
  /-- The channel that is announced. -/
  halted : Option Nat := none
  /-- The channels that have been closed, the latest first. -/
  closed : List Nat := []
  deriving DecidableEq, Repr

namespace Gate

/-- An invocation is suspended. -/
def isHalted (g : Gate) : Bool := g.halted.isSome

/-- Announces a new channel. -/
def announce (g : Gate) : Nat × Gate :=
  (g.made, { g with made := g.made + 1, halted := some g.made })

/-- Closes the announced channel and clears the announcement; none if nothing is announced. -/
def resume? (g : Gate) : Option Gate :=
  g.halted.map fun c => { g with halted := none, closed := c :: g.closed }

/-- Takes back the announcement of a channel, which may be cleared already. -/
def withdraw (g : Gate) (channel : Nat) : Gate :=
  if g.halted = some channel then { g with halted := none } else g

end Gate

end ConsoleShell
