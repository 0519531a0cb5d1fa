import RelayFleet.Relay.Basic

/-!
# Workloads and their bindings

A workload is a guest that asks for a remote-display session. The registry remembers in its binding
which relay it was last given. Workloads are assigned only in the phases in which they can show a
display.
-/

namespace RelayFleet

open Json Json.Decoder Json.Record

/-- The lifecycle phase of a workload. -/
inductive WorkloadPhase where
  | starting
  | running
  | stopping
  | stopped
  | migrating
  | error
  | destroyed
  | expunging
deriving Repr, DecidableEq, Inhabited

namespace WorkloadPhase

/-- Every phase. -/
def all : List WorkloadPhase :=
  [starting, running, stopping, stopped, migrating, error, destroyed, expunging]

/-- The word for a phase in records. -/
def word : WorkloadPhase → String
  | starting => "starting"
  | running => "running"
  | stopping => "stopping"
  | stopped => "stopped"
  | migrating => "migrating"
  | error => "error"
  | destroyed => "destroyed"
  | expunging => "expunging"

/-- The name of a phase in messages. -/
def label : WorkloadPhase → String
  | starting => "Starting"
  | running => "Running"
  | stopping => "Stopping"
  | stopped => "Stopped"
  | migrating => "Migrating"
  | error => "Error"
  | destroyed => "Destroyed"
  | expunging => "Expunging"

/-- The phases in which a workload may be given a relay. -/
def isAssignable (p : WorkloadPhase) : Bool :=
  p = starting ∨ p = running ∨ p = stopping ∨ p = migrating

/-- A phase in JSON. -/
def encode (p : WorkloadPhase) : Value := .string p.word

/-- A phase from JSON. -/
def decoder : Decoder WorkloadPhase := Decoder.word (all.map fun p => (p.word, p)) isNull

end WorkloadPhase

/-- A workload as the one who asks for a relay describes it. -/
structure Workload where
  id : WorkloadId
  phase : WorkloadPhase
deriving Repr, DecidableEq, Inhabited

namespace Workload

/-- A workload in JSON. -/
def encode (w : Workload) : Value :=
  .object [("id", .string w.id), ("phase", w.phase.encode)]

/-- The fields of a workload in JSON. -/
def record : Record Workload :=
  Workload.mk <$> required "id" string <*> required "phase" WorkloadPhase.decoder

/-- A workload from JSON. -/
def decoder : Decoder Workload := record.decoder

end Workload

/-- Which relay a workload was last given, and when. -/
structure Binding where
  workloadId : WorkloadId
  relayId : Option RelayId
  assignedAt : Millis
deriving Repr, DecidableEq, Inhabited

namespace Binding

/-- A binding in JSON. -/
def encode (b : Binding) : Value :=
  .object [
    ("workload_id", .string b.workloadId),
    ("relay_id", .ofString? b.relayId),
    ("assigned_at", .natural b.assignedAt.toNat)]

/-- The fields of a binding in JSON. -/
def record : Record Binding :=
  Binding.mk <$> required "workload_id" string <*> nullable "relay_id" string
    <*> required "assigned_at" uint64

/-- A binding from JSON. -/
def decoder : Decoder Binding := record.decoder

end Binding

end RelayFleet
