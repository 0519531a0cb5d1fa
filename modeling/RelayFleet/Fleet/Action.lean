import RelayFleet.Allocation.Outcome
import RelayFleet.Event.Basic
import RelayFleet.Lock
import RelayFleet.Program
import RelayFleet.Provisioner.Call
import RelayFleet.Registry.Transaction
import RelayFleet.Zone.Directory

/-!
# Fleet programs

What a fleet does is written as programs over `Action`: transactions of its registry, calls to the
provisioner, the allocation lock, and the little else that it sees of the world. Between two actions
of one program actions of others may happen, and never inside an action.
-/

namespace RelayFleet

/-- A step of a fleet program. -/
inductive Action where
  | transact (t : Transaction)
  /-- Looks at the clock. -/
  | now
  | provision (c : ProvisionCall)
  /-- Waits for the allocation lock, so long at most. -/
  | acquire (timeout : Duration)
  /-- Gives the allocation lock back. -/
  | release
  | emit (e : Event)
  /-- Looks at the zone directory. -/
  | directory
  /-- Counts the outcome of an assignment. -/
  | record (o : AssignOutcome)
  /-- Looks at the counters. -/
  | counters
deriving Inhabited

/-- What an action is answered. -/
abbrev Action.Reply : Action → Type
  | .transact t => StoreResult t.Reply
  | .now => Millis
  | .provision c => c.Reply
  | .acquire _ => Except LockTimeout Unit
  | .release => Unit
  | .emit _ => Unit
  | .directory => ZoneDirectory
  | .record _ => Unit
  | .counters => AssignCounters

/-- A fleet program. -/
abbrev Fleet (α : Type) := Program Action.Reply α

namespace Fleet

variable {α ε : Type}

/-- A single action. -/
def perform (a : Action) : Fleet a.Reply := Program.question a

/-- Runs a transaction. -/
def transact (t : Transaction) : Fleet (StoreResult t.Reply) := perform (.transact t)

/-- Looks at the clock. -/
def now : Fleet Millis := perform .now

/-- Calls the provisioner. -/
def provision (c : ProvisionCall) : Fleet c.Reply := perform (.provision c)

/-- Announces an event. -/
def emit (e : Event) : Fleet Unit := perform (.emit e)

/-- Looks at the zone directory. -/
def directory : Fleet ZoneDirectory := perform .directory

/-- Counts the outcome of an assignment. -/
def record (o : AssignOutcome) : Fleet Unit := perform (.record o)

/-- Looks at the counters. -/
def counters : Fleet AssignCounters := perform .counters

/-- Runs a program while holding the allocation lock, which is given back however the program ends,
or does something else if the lock cannot be had in time. -/
def withLock (timeout : Duration) (busy : LockTimeout → Fleet α) (body : Fleet α) : Fleet α := do
  match ← perform (.acquire timeout) with
  | .error e => busy e
  | .ok () =>
    let a ← body
    perform .release
    return a

/-- Runs a transaction in a program that may fail. -/
def attempt (wrap : StoreError → ε) (t : Transaction) : ExceptT ε Fleet t.Reply :=
  ExceptT.mk do return (← transact t).mapError wrap

end Fleet

end RelayFleet
