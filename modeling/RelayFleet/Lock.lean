import RelayFleet.Duration

/-!
# The allocation lock

Whoever wants the lock draws a ticket and stands in line; the one in front has the lock. Giving it
back and giving up waiting are the same: one leaves the line. So the lock is fair, a free lock is
had at once, and who gives up delays nobody.
-/

namespace RelayFleet

/-- A place in the line of a lock. -/
abbrev Ticket := Nat

/-- A lock. -/
structure Lock where
  /-- The tickets in line, the holder's first. -/
  line : List Ticket
  /-- How many tickets were drawn. -/
  drawn : Nat
deriving Repr, DecidableEq, Inhabited

namespace Lock

/-- A free lock. -/
def free : Lock := ⟨[], 0⟩

/-- Whether someone has the lock. -/
def isHeld (l : Lock) : Bool := !l.line.isEmpty

/-- Whether a ticket has the lock. -/
def holds (l : Lock) (t : Ticket) : Bool := l.line.head? = some t

/-- Draws a ticket and stands in line. -/
def enter (l : Lock) : Ticket × Lock := (l.drawn, ⟨l.line ++ [l.drawn], l.drawn + 1⟩)

/-- Leaves the line, from any place in it. -/
def leave (l : Lock) (t : Ticket) : Lock := { l with line := l.line.erase t }

/-- The holder gives the lock back. -/
def release (l : Lock) : Lock := { l with line := l.line.tail }

end Lock

/-- The failure to get a lock in time. -/
structure LockTimeout where
  name : String
  waited : Duration
deriving Repr, DecidableEq, Inhabited

/-- The text of a failure to get a lock in time. -/
def LockTimeout.message (e : LockTimeout) : String :=
  "timed out after " ++ e.waited.text ++ " waiting for lock " ++ e.name

/-- The name of the lock under which relays are allocated. -/
def allocationLockName : String := "relay.alloc"

end RelayFleet
