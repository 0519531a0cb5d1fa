import RelayFleet.Lock
import RelayFleet.Registry.Basic

/-!
# Why a workload gets no relay
-/

namespace RelayFleet

/-- Why a workload was given no relay. -/
inductive AllocError where
  | notAssignable (w : WorkloadId) (phase : WorkloadPhase)
  | lockTimeout (e : LockTimeout)
  | capacityExhausted (zone : ZoneId)
  | noPublicAddress (id : RelayId)
  | store (e : StoreError)
deriving Repr, DecidableEq, Inhabited

namespace AllocError

/-- The text of a refused assignment. -/
def message : AllocError → String
  | notAssignable w phase =>
    "workload " ++ w ++ " is " ++ phase.label ++ " and cannot be given a relay"
  | lockTimeout e => "allocation lock busy: " ++ e.message
  | capacityExhausted zone => "no relay capacity available in zone " ++ zone
  | noPublicAddress id => "relay " ++ id ++ " has no public address"
  | store e => "state store error: " ++ e.message

/-- The code of an error, for those who are told of it and for the counters. -/
def code : AllocError → String
  | notAssignable _ _ => "not_assignable"
  | lockTimeout _ => "lock_timeout"
  | capacityExhausted _ => "capacity_exhausted"
  | noPublicAddress _ => "no_public_address"
  | store _ => "state_error"

end AllocError

end RelayFleet
