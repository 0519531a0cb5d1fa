import RelayFleet.Allocation.Assign
import RelayFleet.Proofs.Interleaving.Asks

/-!
# What an assignment asks for

Between getting the lock and giving it back an assignment asks for nothing but looks, the binding
and the time of the assignment in the row of the relay (`Action.IsBooking`). An error with which it
ends there is not one of those that it ends with if it never has the lock (`Unrefused`).
-/

namespace RelayFleet

open Asks

/-- An error of an assignment that never had the lock. -/
def AllocError.IsRefusal : AllocError → Prop
  | .notAssignable _ _ | .lockTimeout _ => True
  | _ => False

/-- What an assignment of a workload does under the lock. -/
inductive Action.IsBooking (w : WorkloadId) : Action → Prop
  | looks : IsBooking w .now
  | bound : IsBooking w (.transact (.getBinding w))
  | previous {id : RelayId} : IsBooking w (.transact (.getRelay id))
  | pool {keep : Relay → Bool} : IsBooking w (.transact (.listRelays keep))
  | binds {id : RelayId} {now : Millis} : IsBooking w (.transact (.putBinding ⟨w, some id, now⟩))
  /-- The time of the assignment is put down. -/
  | marks {id : RelayId} {now : Millis} :
    IsBooking w (.transact (.updateRelay id fun r => { r with lastAssignedAt := some now }))

/-- Booking leaves the lock and the ids and states of relays alone. -/
theorem Action.IsBooking.isPlain {w : WorkloadId} {a : Action} (h : a.IsBooking w) : a.IsPlain := by
  cases h with
  | marks => exact ⟨trivial, fun _ => ⟨rfl, rfl⟩⟩
  | _ => exact ⟨trivial, trivial⟩

namespace AssignRules

variable {rules : AssignRules} {zone : ZoneId} {w : WorkloadId}

/-- The end of an assignment that has had the lock. -/
def Unrefused {α : Type} (r : Except AllocError α) : Prop := ∀ e, r = .error e → ¬ e.IsRefusal

/-- Under the lock a transaction fails as the registry does. -/
theorem asks_store {t : Transaction} (h : Action.IsBooking w (.transact t)) :
    Asks (Action.IsBooking w) (Fleet.attempt .store t : AllocM t.Reply).run Unrefused := by
  refine (attempt h).mono (fun _ => id) ?_
  intro r hr e he
  obtain ⟨x, rfl⟩ := hr e he
  exact id

/-- Under the lock errors are passed on. -/
theorem asks_bind {α β : Type} {p : AllocM α} {f : α → AllocM β}
    (h : Asks (Action.IsBooking w) p.run Unrefused)
    (hf : ∀ a, Asks (Action.IsBooking w) (f a).run Unrefused) :
    Asks (Action.IsBooking w) (p >>= f).run Unrefused := by
  refine bindExcept h (fun a _ => hf a) ?_
  intro e he e' he'
  cases he'
  exact he e rfl

/-- Looking at the bound relay. -/
theorem asks_previousRelay {now : Millis} {b : Option Binding} :
    Asks (Action.IsBooking w) (rules.previousRelay zone now b).run Unrefused := by
  match b with
  | none => exact pure (by simp [Unrefused])
  | some ⟨_, none, _⟩ => exact pure (by simp [Unrefused])
  | some ⟨_, some _, _⟩ =>
    exact asks_bind (asks_store .previous) fun _ => pure (by simp [Unrefused])

/-- Choosing from the pool. -/
theorem asks_selectFromPool :
    Asks (Action.IsBooking w) (rules.selectFromPool zone).run Unrefused := by
  refine asks_bind (asks_store .pool) ?_
  intro running
  cases rules.policy.select? (running.filter rules.hasRoom) with
  | some r => exact pure (by simp [Unrefused])
  | none => exact pure (by simp [Unrefused, AllocError.IsRefusal])

/-- The endpoint of a relay is found without any action. -/
theorem asks_ofRelay {r : Relay} {s : EndpointSettings} :
    Asks (Action.IsBooking w) (liftM (RelayEndpoint.ofRelay r s) : AllocM RelayEndpoint).run
      Unrefused := by
  cases h : RelayEndpoint.ofRelay r s with
  | ok => exact pure (by simp [Unrefused])
  | error e =>
    refine pure ?_
    intro e' he'
    cases he'
    rw [RelayEndpoint.ofRelay] at h
    split at h <;> cases h
    exact id

/-- Under the lock an assignment books a relay, and is not refused. -/
theorem booking_assignLocked :
    Asks (Action.IsBooking w) (rules.assignLocked zone w).run Unrefused := by
  refine performed .looks fun now => asks_bind (asks_store .bound) fun binding =>
    asks_bind asks_previousRelay fun previous => ?_
  have hrelay : ∀ relay : Relay, Asks (Action.IsBooking w) (do
      let endpoint ← (RelayEndpoint.ofRelay relay rules.endpoint : Except AllocError RelayEndpoint)
      if binding.bind (·.relayId) ≠ some relay.id then
        Fleet.attempt .store (.putBinding ⟨w, some relay.id, now⟩)
        let _ ← Fleet.attempt .store
          (.updateRelay relay.id fun r => { r with lastAssignedAt := some now })
      return endpoint : AllocM RelayEndpoint).run Unrefused := by
    intro relay
    refine asks_bind asks_ofRelay ?_
    intro endpoint
    split
    · exact asks_bind (asks_store .binds) fun _ => asks_bind (asks_store .marks) fun _ =>
        pure (by simp [Unrefused])
    · exact pure (by simp [Unrefused])
  cases previous with
  | some relay => exact hrelay relay
  | none => exact asks_bind asks_selectFromPool hrelay

/-- Under the lock an assignment leaves the lock alone, and is not refused. -/
theorem asks_assignLocked : Asks Action.IsPlain (rules.assignLocked zone w).run Unrefused :=
  booking_assignLocked.mono (fun _ ha => ha.isPlain) fun _ => id

/-- An assignment asks for the lock, books a relay and gives the lock back. -/
theorem asks_assign_of {A : Action → Prop} {w : Workload} (hbooks : ∀ a, a.IsBooking w.id → A a)
    (hacquire : ∀ timeout, A (.acquire timeout)) (hrelease : A .release) :
    Asks A (rules.assign zone w) fun _ => True := by
  rw [assign]
  split
  · exact pure trivial
  · exact withLock (hacquire _) hrelease (fun _ => pure trivial)
      (booking_assignLocked.mono hbooks fun _ => id)

end AssignRules

end RelayFleet
