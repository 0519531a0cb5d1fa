/-!
# The scan loop

Passes follow each other: the first starts after a delay, each further one an interval after the end
of the one before. When the time has come to stop, no pass is started any more, and one that is in
progress is completed.
-/

namespace RelayFleet

/-- What a loop needs to know of time. -/
structure Timer (m : Type → Type) where
  /-- The time. -/
  time : m Nat
  /-- Waits until a time, not at all if it is past. -/
  sleepUntil : Nat → m Unit

namespace Timer

variable {m : Type → Type} [Monad m] {α : Type}

/-- Runs passes, the first one after `delay`, until `stop`; at most `rounds` of them. -/
def loop (t : Timer m) (pass : m α) (interval stop : Nat) (rounds delay : Nat) : m Unit :=
  match rounds with
  | 0 => pure ()
  | n + 1 => do
    let now ← t.time
    if now + delay < stop then
      t.sleepUntil (now + delay)
      let _ ← pass
      t.loop pass interval stop n interval
    else t.sleepUntil stop

/-- Runs passes until `stop`. With an interval there are no more passes than units of time. -/
def run (t : Timer m) (pass : m α) (initialDelay interval stop : Nat) : m Unit :=
  t.loop pass interval stop (stop + 1) initialDelay

end Timer

end RelayFleet
