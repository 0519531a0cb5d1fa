import RelayFleet.Fleet.Action
import RelayFleet.Scan.Loop
import RelayFleet.Simulation.Job

/-!
# Scripts

A script is a piece of a job, written one step after the other. What is left of the job when the
script is through is passed to it, so scripts compose as programs do.
-/

namespace RelayFleet.Simulation

/-- A piece of a job on states of type `σ` that yields a value of type `α`. -/
def Script (σ ρ α : Type) : Type := (α → Job σ ρ) → Job σ ρ

namespace Script

variable {σ ρ α : Type}

instance : Monad (Script σ ρ) where
  pure a := fun next => next a
  bind p f := fun next => p fun a => f a next

/-- What the jobs share, the lock and the clock among it. -/
def shared : Script σ ρ (Shared σ) := fun next => .get next

/-- The state. -/
def state : Script σ ρ σ := fun next => .get fun s => next s.state

/-- Changes the state and yields a value that depends on it. -/
def modifyGet (f : σ → α × σ) : Script σ ρ α := fun next =>
  .get fun s => .set (f s.state).2 (next (f s.state).1)

/-- Changes the state. -/
def modify (f : σ → σ) : Script σ ρ Unit := modifyGet fun s => ((), f s)

/-- Waits for so many milliseconds. -/
def sleep (ms : Nat) : Script σ ρ Unit := fun next =>
  .get fun s => .sleepUntil (s.time + ms) (next ())

/-- Waits for the lock, so long at most; says whether it was had. -/
def acquire (timeout : Duration) : Script σ ρ Bool := fun next =>
  .get fun s => .acquire (s.time + timeout.millisUp) next

/-- Gives the lock back. -/
def release : Script σ ρ Unit := fun next => .release (next ())

/-- Runs scripts together, in turns of this order. -/
def together (scripts : List (Script σ ρ ρ)) : Script σ ρ (List ρ) := fun next =>
  .join (scripts.map fun p => p .done) next

/-- The clock of the jobs. -/
def timer : Timer (Script σ ρ) where
  time := fun next => .get fun s => next s.time
  sleepUntil t := fun next => .sleepUntil t (next ())

/-- Runs a script alone, in at most so many turns. -/
def run (p : Script σ ρ ρ) (turns : Nat) (s : Shared σ) : Option ρ × Shared σ :=
  (p .done).run turns s

end Script

end RelayFleet.Simulation
