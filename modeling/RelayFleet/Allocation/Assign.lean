import RelayFleet.Allocation.Endpoint
import RelayFleet.Allocation.Policy
import RelayFleet.Allocation.Sticky
import RelayFleet.Fleet.Action

/-!
# Assigning relays to workloads

A workload goes back to its previous relay if that is still running in the wanted zone and has room
or carries a session of the workload; otherwise the policy picks among the running relays with room.
All of this happens under the allocation lock. The binding is written only when the relay is another
one than before.
-/

namespace RelayFleet

/-- How relays are assigned. -/
structure AssignRules where
  lockTimeout : Duration
  capacityPerInstance : UInt32
  stickyTimeout : Millis
  policy : PolicyKind
  endpoint : EndpointSettings
deriving Repr, DecidableEq, Inhabited

/-- A fleet program that ends with a value or with an allocation error. -/
abbrev AllocM (α : Type) := ExceptT AllocError Fleet α

namespace AssignRules

open Fleet AllocError

/-- The rules of settings. -/
def ofSettings (s : Settings) : AssignRules where
  lockTimeout := .ofSecs s.fleet.allocationLockTimeoutSecs.toNat
  capacityPerInstance := s.fleet.capacityPerInstance
  stickyTimeout := s.fleet.sessionStickyTimeoutMs
  policy := s.fleet.allocationPolicy
  endpoint := s.endpoint

/-- Whether a relay has room for a session. -/
def hasRoom (rules : AssignRules) (r : Relay) : Bool := r.activeSessions < rules.capacityPerInstance

/-- Whether a workload may go back to the relay it is bound to. -/
def mayKeep (rules : AssignRules) (zone : ZoneId) (now : Millis) (b : Binding) (r : Relay) : Bool :=
  r.state.isAssignable && r.zoneId == zone &&
    (rules.hasRoom r || hasPreviousSession rules.stickyTimeout now r b)

/-- The relay that a workload is bound to, if it may go back there. -/
def previousRelay (rules : AssignRules) (zone : ZoneId) (now : Millis) (b : Option Binding) :
    AllocM (Option Relay) := do
  match b with
  | some ⟨w, some id, assignedAt⟩ =>
    let r ← attempt store (.getRelay id)
    return r.filter (rules.mayKeep zone now ⟨w, some id, assignedAt⟩)
  | _ => return none

/-- The relay that the policy picks among the running ones of a zone that have room. -/
def selectFromPool (rules : AssignRules) (zone : ZoneId) : AllocM Relay := do
  let running ← attempt store (.listRelays fun r => r.state = .running && r.zoneId == zone)
  match rules.policy.select? (running.filter rules.hasRoom) with
  | some r => return r
  | none => throw (.capacityExhausted zone)

/-- Finds a relay while the lock is held. -/
def assignLocked (rules : AssignRules) (zone : ZoneId) (w : WorkloadId) : AllocM RelayEndpoint := do
  let now ← now
  let binding ← attempt store (.getBinding w)
  let relay ← match ← rules.previousRelay zone now binding with
    | some r => pure r
    | none => rules.selectFromPool zone
  let endpoint ← (RelayEndpoint.ofRelay relay rules.endpoint : Except AllocError RelayEndpoint)
  if binding.bind (·.relayId) ≠ some relay.id then
    attempt store (.putBinding ⟨w, some relay.id, now⟩)
    let _ ← attempt store
      (.updateRelay relay.id fun r => { r with lastAssignedAt := some now })
  return endpoint

/-- Finds a relay for a workload in a zone. -/
def assign (rules : AssignRules) (zone : ZoneId) (w : Workload) :
    Fleet (Except AllocError RelayEndpoint) :=
  if !w.phase.isAssignable then pure (.error (.notAssignable w.id w.phase))
  else withLock rules.lockTimeout (fun e => pure (.error (.lockTimeout e)))
    (rules.assignLocked zone w.id).run

end AssignRules

end RelayFleet
