import RelayFleet.Lock

/-!
# Jobs on one clock

A job is work that now and then has to wait: for a time, for the lock, or for other jobs. Jobs that
run together share a state and take turns in a fixed order, each going on until it has to wait. When
all of them wait, the clock moves to the next time that one of them waits for; nothing else moves
it.
-/

namespace RelayFleet.Simulation

/-- What jobs share. -/
structure Shared (σ : Type) where
  state : σ
  lock : Lock
  /-- The time in milliseconds. -/
  time : Nat
deriving Inhabited

namespace Shared

/-- A state at time zero, the lock being free. -/
def start {σ : Type} (s : σ) : Shared σ := ⟨s, .free, 0⟩

end Shared

/-- A job that ends with a value of type `ρ`. -/
inductive Job (σ ρ : Type) where
  | done (r : ρ)
  | get (next : Shared σ → Job σ ρ)
  | set (s : σ) (next : Job σ ρ)
  | sleepUntil (t : Nat) (next : Job σ ρ)
  /-- Stands in line for the lock until a time; goes on with whether it has it. -/
  | acquire (deadline : Nat) (next : Bool → Job σ ρ)
  /-- Stands in line with a ticket. -/
  | await (ticket : Ticket) (deadline : Nat) (next : Bool → Job σ ρ)
  | release (next : Job σ ρ)
  /-- Waits for other jobs, which take turns in this order; goes on with their values. -/
  | join (jobs : List (Job σ ρ)) (next : List ρ → Job σ ρ)

namespace Job

variable {σ ρ : Type}

instance [Inhabited ρ] : Inhabited (Job σ ρ) := ⟨.done default⟩

/-- The value of a job that has ended. -/
def value? : Job σ ρ → Option ρ
  | .done r => some r
  | _ => none

mutual

/-- Runs a job until it ends or has to wait. -/
def poll : Job σ ρ → Shared σ → Job σ ρ × Shared σ
  | .done r, s => (.done r, s)
  | .get next, s => (next s).poll s
  | .set x next, s => next.poll { s with state := x }
  | .sleepUntil t next, s => if s.time < t then (.sleepUntil t next, s) else next.poll s
  | .acquire deadline next, s =>
    let (ticket, lock) := s.lock.enter
    if lock.holds ticket then (next true).poll { s with lock := lock }
    else if deadline ≤ s.time then (next false).poll { s with lock := lock.leave ticket }
    else (.await ticket deadline next, { s with lock := lock })
  | .await ticket deadline next, s =>
    if s.lock.holds ticket then (next true).poll s
    else if deadline ≤ s.time then (next false).poll { s with lock := s.lock.leave ticket }
    else (.await ticket deadline next, s)
  | .release next, s => next.poll { s with lock := s.lock.release }
  | .join jobs next, s =>
    let (jobs, s) := pollAll jobs s
    match jobs.mapM value? with
    | some rs => (next rs).poll s
    | none => (.join jobs next, s)

/-- Runs jobs in turn, each until it ends or has to wait. -/
def pollAll : List (Job σ ρ) → Shared σ → List (Job σ ρ) × Shared σ
  | [], s => ([], s)
  | j :: js, s =>
    let (j, s) := j.poll s
    let (js, s) := pollAll js s
    (j :: js, s)

end

mutual

/-- The next time that a waiting job waits for. -/
def nextTime? : Job σ ρ → Option Nat
  | .sleepUntil t _ => some t
  | .await _ deadline _ => some deadline
  | .join jobs _ => nextTimeOf? jobs
  | _ => none

/-- The next time that one of several waiting jobs waits for. -/
def nextTimeOf? : List (Job σ ρ) → Option Nat
  | [] => none
  | j :: js => Option.merge min j.nextTime? (nextTimeOf? js)

end

mutual

/-- Whether a waiting job has the lock by now. -/
def hasLock (l : Lock) : Job σ ρ → Bool
  | .await ticket _ _ => l.holds ticket
  | .join jobs _ => oneHasLock l jobs
  | _ => false

/-- Whether one of several waiting jobs has the lock by now. -/
def oneHasLock (l : Lock) : List (Job σ ρ) → Bool
  | [] => false
  | j :: js => j.hasLock l || oneHasLock l js

end

/-- Runs a job to its end, in at most so many turns. -/
def run (turns : Nat) (j : Job σ ρ) (s : Shared σ) : Option ρ × Shared σ :=
  match turns with
  | 0 => (none, s)
  | n + 1 =>
    let (j, s) := j.poll s
    match j with
    | .done r => (some r, s)
    | j =>
      if j.hasLock s.lock then j.run n s
      else match j.nextTime? with
        | some t => j.run n { s with time := max s.time t }
        | none => (none, s)

end Job

end RelayFleet.Simulation
