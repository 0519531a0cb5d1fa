/-!
# Outcomes of assignments

An assignment ends well or with one of five errors. The counters say how often each came about; they
know an outcome by its word.
-/

namespace RelayFleet

/-- How an assignment ended. -/
inductive AssignOutcome where
  | ok
  | notAssignable
  | lockTimeout
  | capacityExhausted
  | noPublicAddress
  | stateError
deriving Repr, DecidableEq, Inhabited

namespace AssignOutcome

/-- Every outcome. -/
def all : List AssignOutcome :=
  [ok, notAssignable, lockTimeout, capacityExhausted, noPublicAddress, stateError]

/-- The word under which an outcome is counted. -/
def word : AssignOutcome → String
  | ok => "ok"
  | notAssignable => "not_assignable"
  | lockTimeout => "lock_timeout"
  | capacityExhausted => "capacity_exhausted"
  | noPublicAddress => "no_public_address"
  | stateError => "state_error"

/-- The outcome with a word. -/
def ofWord? (w : String) : Option AssignOutcome := all.find? (·.word == w)

end AssignOutcome

/-- How often each outcome came about. -/
structure AssignCounters where
  count : AssignOutcome → UInt64

namespace AssignCounters

/-- Counters at zero. -/
def zero : AssignCounters := ⟨fun _ => 0⟩

instance : Inhabited AssignCounters := ⟨zero⟩

/-- Counts one outcome. -/
def record (c : AssignCounters) (o : AssignOutcome) : AssignCounters :=
  ⟨fun p => if p = o then c.count p + 1 else c.count p⟩

/-- The count of the outcome with a word, zero if there is none. -/
def get (c : AssignCounters) (w : String) : UInt64 :=
  match AssignOutcome.ofWord? w with
  | some o => c.count o
  | none => 0

end AssignCounters

end RelayFleet
