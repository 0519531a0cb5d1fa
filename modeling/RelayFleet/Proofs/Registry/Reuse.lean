import RelayFleet.Proofs.Allocation.Undisturbed
import RelayFleet.Proofs.Lifecycle.Effect
import RelayFleet.Proofs.Registry.Issuance
import RelayFleet.Proofs.Registry.Persistence

/-!
# Ids are never used again

The counter of ids is stored with the rows, so it lasts when a registry is closed and opened again
(`Reopened`): in all that a registry goes through, no id is issued twice and no relay is stored
where another one stands or stood (`Unreused`). An assignment names a relay that it has read
(`Operation.follows_naming`), which was therefore stored before, so its binding never comes to mean
a relay that is stored later (`Reopened.neverReuses`).
-/

namespace RelayFleet

open Protocol

/-! ## What happens to ids -/

namespace Action

/-- The id that an action is given. -/
def given? : (a : Action) → a.Reply → Option RelayId
  | .transact .nextRelayId, .ok id => some id
  | _, _ => none

/-- The relay that an action stores. -/
def stored? : Action → Option Relay
  | .transact (.putRelay r) => some r
  | _ => none

/-- The id of the relay to which an action binds a workload. -/
def bound? : Action → Option RelayId
  | .transact (.putBinding b) => b.relayId
  | _ => none

/-- The action is answered with a relay of this id. -/
def ShowsRelay (id : RelayId) : (a : Action) → a.Reply → Prop
  | .transact (.getRelay _), .ok (some r) => r.id = id
  | .transact (.listRelays _), .ok relays => ∃ r ∈ relays, r.id = id
  | _, _ => False

end Action

section
variable {ι α : Type} {h : List (Moment ι α)} {e : Moment ι α}

/-- The ids that were issued, in order. -/
def issuedIds (h : List (Moment ι α)) : List RelayId :=
  h.filterMap fun e => e.move.action.given? e.move.reply

/-- The ids of the relays that were stored, in order. -/
def storedIds (h : List (Moment ι α)) : List RelayId :=
  h.filterMap fun e => e.move.action.stored?.map (·.id)

/-- The relay under an id is removed. -/
def Moment.Removes (id : RelayId) (e : Moment ι α) : Prop :=
  e.move.action = .transact (.deleteRelay id) ∧ e.before.registry.relay? id ≠ none

/-- The ids that were issued with one more step. -/
theorem issuedIds_snoc (h : List (Moment ι α)) (e : Moment ι α) :
    issuedIds (h ++ [e]) = issuedIds h ++ (e.move.action.given? e.move.reply).toList := by
  simp only [issuedIds, List.filterMap_append, List.filterMap_cons, List.filterMap_nil]
  cases e.move.action.given? e.move.reply <;> rfl

/-- The ids under which relays were stored with one more step. -/
theorem storedIds_snoc (h : List (Moment ι α)) (e : Moment ι α) :
    storedIds (h ++ [e]) = storedIds h ++ (e.move.action.stored?.map (·.id)).toList := by
  simp only [storedIds, List.filterMap_append, List.filterMap_cons, List.filterMap_nil]
  cases e.move.action.stored? <;> rfl

/-- What is left of a registry has the ids that it has stored. -/
theorem Registry.Sound.get?_eq_none {g : Registry} {id : RelayId} (hg : g.Sound)
    (hid : g.relay? id = none) : g.relays.get? id = none := by
  cases htext : g.relays.get? id with
  | none => rfl
  | some text =>
    obtain ⟨r, hr, -⟩ := hg id text htext
    rw [Registry.relay?, htext, Option.bind_some, Registry.run?_of_decodeRow hr] at hid
    cases hid

/-! ## No id is used twice -/

/-- What has become of ids on the way to the registry `g`, `φ` being the ids under which calls may
store relays. -/
structure Unreused (h : List (Moment ι α)) (g : Registry) (φ : ι → Option RelayId) : Prop where
  issued_nodup : (issuedIds h).Nodup
  issued : ∀ id ∈ issuedIds h, g.HasIssued id
  stored_nodup : (storedIds h).Nodup
  stored : ∀ id ∈ storedIds h, id ∈ issuedIds h
  rows : ∀ id, g.relay? id ≠ none → id ∈ storedIds h
  pending : ∀ i id, φ i = some id → id ∈ issuedIds h ∧ id ∉ storedIds h
  /-- A relay is stored where there is none. -/
  absent : ∀ e ∈ h, ∀ r, e.move.action.stored? = some r →
    e.before.registry.relays.get? r.id = none
  /-- What is removed does not come back. -/
  removed : ∀ e ∈ h, ∀ id, e.Removes id → id ∈ storedIds h ∧ g.relay? id = none

namespace Unreused

/-- Nothing has become of the ids of a new registry. -/
theorem empty : Unreused ([] : List (Moment ι α)) .empty fun _ => none := by
  constructor <;> simp [issuedIds, storedIds]

variable [DecidableEq ι] {g : Registry} {φ : ι → Option RelayId} {φ' : Option RelayId}

/-- Actions that issue no id and store no relay. -/
theorem keeps {s : System ι α} {i : ι} {a : Action} {time : Millis} {r : a.Reply}
    (inv : Unreused h s.registry φ) (hg : s.registry.Sound) (ha : a.KeepsIds)
    (hφ : φ' = φ i ∨ φ' = none) :
    Unreused (h ++ [⟨s, i, a, time, r⟩]) (a.registryAfter time s.registry)
      (Function.update φ i φ') := by
  obtain ⟨-, hsequence, habsent⟩ := ha.registryAfter hg time
  have hgiven : a.given? r = none := by
    cases a with
    | transact t => cases t <;> first | rfl | cases ha
    | _ => rfl
  have hstored : a.stored? = none := by
    cases a with
    | transact t => cases t <;> first | rfl | cases ha
    | _ => rfl
  have hissuedIds : issuedIds (h ++ [⟨s, i, a, time, r⟩]) = issuedIds h := by
    rw [issuedIds_snoc, hgiven]
    exact List.append_nil _
  have hstoredIds : storedIds (h ++ [⟨s, i, a, time, r⟩]) = storedIds h := by
    rw [storedIds_snoc, hstored]
    exact List.append_nil _
  have hold : ∀ j id, Function.update φ i φ' j = some id → φ j = some id := by
    intro j id hj
    by_cases hji : j = i
    · subst hji
      rw [Function.update_self] at hj
      rcases hφ with rfl | rfl
      · exact hj
      · cases hj
    · rwa [Function.update_of_ne hji] at hj
  refine {
    issued_nodup := hissuedIds ▸ inv.issued_nodup
    issued := fun id hid => (inv.issued id (hissuedIds ▸ hid)).mono (hsequence ▸ UInt64.le_refl _)
    stored_nodup := hstoredIds ▸ inv.stored_nodup
    stored := fun id hid => hissuedIds ▸ inv.stored id (hstoredIds ▸ hid)
    rows := fun id hid => hstoredIds ▸ inv.rows id fun hnone => hid (habsent id hnone)
    pending := fun j id hj => by
      rw [hissuedIds, hstoredIds]
      exact inv.pending j id (hold j id hj)
    absent := ?_
    removed := ?_ }
  · intro e he x hx
    rcases List.mem_append.mp he with he | he
    · exact inv.absent e he x hx
    · obtain rfl := List.mem_singleton.mp he
      rw [show a.stored? = some x from hx] at hstored
      cases hstored
  · intro e he id hremoves
    rw [hstoredIds]
    rcases List.mem_append.mp he with he | he
    · obtain ⟨hid, hnone⟩ := inv.removed e he id hremoves
      exact ⟨hid, habsent id hnone⟩
    · obtain rfl := List.mem_singleton.mp he
      obtain ⟨haction, hrow⟩ := hremoves
      obtain rfl : a = .transact (.deleteRelay id) := haction
      refine ⟨inv.rows id hrow, ?_⟩
      show (s.registry.withoutRow id).relay? id = none
      rw [Registry.relay?_withoutRow, if_pos rfl]

/-- The next id is issued. -/
theorem issues {s : System ι α} {i : ι} {time : Millis} (inv : Unreused h s.registry φ)
    (hroom : s.registry.sequence.toNat + 1 < 2 ^ 64) :
    Unreused (h ++ [⟨s, i, .transact .nextRelayId, time, .ok s.registry.nextRelayId.1⟩])
      s.registry.nextRelayId.2 (Function.update φ i (some s.registry.nextRelayId.1)) := by
  have hnew := Registry.not_hasIssued_nextRelayId hroom
  have hmore : ∀ {id}, s.registry.HasIssued id → s.registry.nextRelayId.2.HasIssued id := fun h =>
    h.mono (UInt64.le_iff_toNat_le.mpr (by rw [Registry.toNat_sequence_nextRelayId hroom]; omega))
  have hfresh : s.registry.nextRelayId.1 ∉ issuedIds h := fun hid => hnew (inv.issued _ hid)
  have hissuedIds : issuedIds (h ++ [⟨s, i, .transact .nextRelayId, time,
      .ok s.registry.nextRelayId.1⟩]) = issuedIds h ++ [s.registry.nextRelayId.1] :=
    issuedIds_snoc ..
  have hstoredIds : storedIds (h ++ [⟨s, i, .transact .nextRelayId, time,
      .ok s.registry.nextRelayId.1⟩]) = storedIds h :=
    (storedIds_snoc ..).trans (List.append_nil _)
  refine {
    issued_nodup := ?_
    issued := fun id hid => ?_
    stored_nodup := hstoredIds ▸ inv.stored_nodup
    stored := fun id hid => ?_
    rows := fun id hid => hstoredIds ▸ inv.rows id hid
    pending := fun j id hj => ?_
    absent := fun e he x hx => ?_
    removed := fun e he id hremoves => ?_ }
  · rw [hissuedIds]
    refine List.nodup_append.mpr ⟨inv.issued_nodup, List.pairwise_singleton _ _, ?_⟩
    rintro id hid _ hid' rfl
    exact hfresh (List.mem_singleton.mp hid' ▸ hid)
  · rw [hissuedIds, List.mem_append, List.mem_singleton] at hid
    rcases hid with hid | rfl
    · exact hmore (inv.issued id hid)
    · exact Registry.hasIssued_nextRelayId
  · rw [hissuedIds]
    exact List.mem_append_left _ (inv.stored id (hstoredIds ▸ hid))
  · rw [hissuedIds, hstoredIds]
    by_cases hji : j = i
    · subst hji
      rw [Function.update_self] at hj
      cases hj
      exact ⟨by simp, fun hid => hfresh (inv.stored _ hid)⟩
    · rw [Function.update_of_ne hji] at hj
      exact (inv.pending j id hj).imp_left (List.mem_append_left _)
  · rcases List.mem_append.mp he with he | he
    · exact inv.absent e he x hx
    · obtain rfl := List.mem_singleton.mp he
      cases hx
  · rw [hstoredIds]
    rcases List.mem_append.mp he with he | he
    · exact inv.removed e he id hremoves
    · obtain rfl := List.mem_singleton.mp he
      cases hremoves.1

/-- A relay is stored under the id that was given for it. -/
theorem stores {s : System ι α} {i : ι} {r : Relay} {time : Millis} {x : StoreResult Unit}
    (inv : Unreused h s.registry φ) (hg : s.registry.Sound) (hi : φ i = some r.id)
    (hnone : s.registry.relay? r.id = none)
    (hunique : ∀ j, φ j = some r.id → j = i) :
    Unreused (h ++ [⟨s, i, .transact (.putRelay r), time, x⟩]) (s.registry.putRelay r)
      (Function.update φ i none) := by
  obtain ⟨hissued, hfresh⟩ := inv.pending i r.id hi
  have hissuedIds : issuedIds (h ++ [⟨s, i, .transact (.putRelay r), time, x⟩]) = issuedIds h :=
    (issuedIds_snoc ..).trans (List.append_nil _)
  have hstoredIds : storedIds (h ++ [⟨s, i, .transact (.putRelay r), time, x⟩]) =
      storedIds h ++ [r.id] :=
    storedIds_snoc ..
  have hrelay : ∀ id, (s.registry.putRelay r).relay? id =
      if id = r.id then some r else s.registry.relay? id :=
    fun id => Registry.relay?_withRow s.registry r.id id r
  refine {
    issued_nodup := hissuedIds ▸ inv.issued_nodup
    issued := fun id hid => inv.issued id (hissuedIds ▸ hid)
    stored_nodup := ?_
    stored := fun id hid => ?_
    rows := fun id hid => ?_
    pending := fun j id hj => ?_
    absent := fun e he y hy => ?_
    removed := fun e he id hremoves => ?_ }
  · rw [hstoredIds]
    refine List.nodup_append.mpr ⟨inv.stored_nodup, List.pairwise_singleton _ _, ?_⟩
    rintro id hid _ hid' rfl
    exact hfresh (List.mem_singleton.mp hid' ▸ hid)
  · rw [hissuedIds]
    rw [hstoredIds, List.mem_append, List.mem_singleton] at hid
    rcases hid with hid | rfl
    · exact inv.stored id hid
    · exact hissued
  · rw [hstoredIds, List.mem_append, List.mem_singleton]
    by_cases heq : id = r.id
    · exact .inr heq
    · rw [hrelay, if_neg heq] at hid
      exact .inl (inv.rows id hid)
  · rw [hissuedIds, hstoredIds, List.mem_append, List.mem_singleton]
    by_cases hji : j = i
    · subst hji
      rw [Function.update_self] at hj
      cases hj
    · rw [Function.update_of_ne hji] at hj
      obtain ⟨hid, hnot⟩ := inv.pending j id hj
      refine ⟨hid, ?_⟩
      rintro (hmem | rfl)
      · exact hnot hmem
      · exact hji (hunique j hj)
  · rcases List.mem_append.mp he with he | he
    · exact inv.absent e he y hy
    · obtain rfl := List.mem_singleton.mp he
      cases hy
      exact hg.get?_eq_none hnone
  · rcases List.mem_append.mp he with he | he
    · obtain ⟨hid, hgone⟩ := inv.removed e he id hremoves
      refine ⟨by rw [hstoredIds]; exact List.mem_append_left _ hid, ?_⟩
      rw [hrelay, if_neg, hgone]
      rintro rfl
      exact hfresh hid
    · obtain rfl := List.mem_singleton.mp he
      cases hremoves.1

/-- A step of a call that stores relays under ids that it was given. -/
theorem step {h' : List (Moment ι α)} {s s' : System ι α} {m : Move ι}
    (inv : Unreused h s.registry φ) (issuing : Issuing g h' s φ)
    (hids : IdsLast g (h' ++ [⟨s, m⟩])) (hs : RelayFleet.Step s m s')
    (hp : IssuanceStep (φ m.caller) m.action m.reply φ') :
    Unreused (h ++ [⟨s, m⟩]) s'.registry (Function.update φ m.caller φ') := by
  obtain ⟨hsound, hsequence, hnumbered⟩ := issuing
  rw [hs.registry_eq]
  obtain ⟨i, a, time, r⟩ := m
  have hanswers := hs.answers
  rw [IdsLast, issuedIn_snoc] at hids
  change IssuanceStep (φ i) a r φ' at hp
  generalize hstage : φ i = stage at hp
  cases hp with
  | keeps ha hφ => exact inv.keeps hsound ha (hstage ▸ hφ)
  | issues =>
    cases hanswers
    simp only [Action.issues, if_true] at hids
    exact inv.issues (by omega)
  | @stores r x =>
    exact inv.stores hsound hstage (hnumbered.pending_absent i r.id hstage)
      fun j hj => hnumbered.pending_unique j i r.id hj hstage

end Unreused

end

/-! ## Bindings name relays that were read -/

/-- The steps of a call that binds workloads to relays only that it has read. The stage is the ids
of these relays. -/
def naming : Protocol (RelayId → Prop) where
  Meets := Registry.Sound
  Step K a r K' := (∀ id, a.bound? = some id → K id) ∧ ∀ id, K' id → K id ∨ a.ShowsRelay id r

section
variable {K : RelayId → Prop}

/-- A program that binds nothing. -/
theorem Asks.follows_naming {α : Type} {p : Fleet α} {P : α → Prop}
    (h : Asks (fun a => a.bound? = none) p P) : naming.Follows K p fun K' a => K' = K ∧ P a := by
  induction p with
  | pure a => exact ⟨rfl, h⟩
  | ask a next ih =>
    refine fun r _ => ⟨K, ⟨fun id hid => ?_, fun _ => .inl⟩, ih r (h.2 r)⟩
    rw [h.1] at hid
    cases hid

namespace AssignRules

variable {rules : AssignRules} {zone : ZoneId} {w : WorkloadId} {now : Millis}

/-- The relay that a program ends with was read. -/
def HasRead (K : RelayId → Prop) (x : Except AllocError (Option Relay)) : Prop :=
  ∀ r, x = .ok (some r) → K r.id

/-- The relay to which a workload may go back was read. -/
theorem naming_previousRelay (b : Option Binding) :
    naming.Follows K (rules.previousRelay zone now b).run HasRead := by
  match b with
  | none => exact fun r hr => by cases hr
  | some ⟨_, none, _⟩ => exact fun r hr => by cases hr
  | some ⟨w, some id, time⟩ =>
    refine Follows.bindExcept (S := HasRead) (Follows.attempt fun x _ => ?_) ?_ ?_
    · refine ⟨fun id => Action.ShowsRelay id (.transact (.getRelay _)) x,
        ⟨nofun, fun _ => .inr⟩, ?_⟩
      rintro r hr
      rcases x with e | found
      · cases hr
      · cases hr
        rfl
    · intro K' found hread r hr
      have hfound : found.filter _ = some r := Except.ok.inj hr
      rw [Option.filter_eq_some_iff] at hfound
      exact hread r (congrArg _ hfound.1)
    · exact fun K' e _ r hr => by cases hr

/-- A relay of the pool was read. -/
theorem naming_selectFromPool :
    naming.Follows K (rules.selectFromPool zone).run
      fun K' x => ∀ r, x = .ok r → K' r.id := by
  refine Follows.bindExcept (S := fun K' x => ∀ relays, x = .ok relays → ∀ r ∈ relays, K' r.id)
    (Follows.attempt fun x _ => ?_) ?_ ?_
  · refine ⟨fun id => Action.ShowsRelay id (.transact (.listRelays _)) x,
      ⟨nofun, fun _ => .inr⟩, ?_⟩
    rintro relays hrelays r hr
    rcases x with e | found
    · cases hrelays
    · cases hrelays
      exact ⟨r, hr, rfl⟩
  · intro K' running hread
    cases hpick : rules.policy.select? (running.filter rules.hasRoom) with
    | none => exact fun r hr => by cases hr
    | some picked =>
      rintro r ⟨⟩
      have hmem := PolicyKind.mem_of_select? hpick
      exact hread running rfl _ (List.mem_filter.mp hmem).1
  · exact fun K' e _ r hr => by cases hr

/-- A workload is bound to a relay that was read. -/
theorem naming_book {binding : Option Binding} {r : Relay} (hr : K r.id) :
    naming.Follows K (rules.book binding w now r).run fun _ _ => True := by
  cases hendpoint : RelayEndpoint.ofRelay r rules.endpoint with
  | error e =>
    rw [book, hendpoint]
    exact trivial
  | ok endpoint =>
    rw [book, hendpoint]
    show naming.Follows K (ExceptT.run (if binding.bind (·.relayId) ≠ some r.id then _ else _)) _
    split
    · refine Follows.bindExcept (S := fun _ _ => True) (Follows.attempt fun x _ => ?_)
        (fun K' _ _ => ?_) fun _ _ _ => trivial
      · refine ⟨K, ⟨fun id hid => ?_, fun _ => .inl⟩, trivial⟩
        cases hid
        exact hr
      · have hmarks : Asks (fun a => a.bound? = none) (Fleet.attempt AllocError.store
            (.updateRelay r.id fun r => { r with lastAssignedAt := some now })).run
            fun _ => True :=
          Asks.attempt' rfl
        exact Follows.bindExcept hmarks.follows_naming (fun _ _ _ => trivial) fun _ _ _ => trivial
    · exact trivial

/-- An assignment under the lock binds the workload to a relay that it has read. -/
theorem naming_assignLocked :
    naming.Follows K (rules.assignLocked zone w).run fun _ _ => True := by
  have hlooks : ∀ a : Action, a.bound? = none →
      naming.Follows K (Fleet.perform a) fun K' _ => K' = K ∧ True :=
    fun a ha => (Asks.perform (A := fun a => a.bound? = none) ha).follows_naming
  refine Follows.lift (hlooks .now rfl) ?_
  rintro _ now ⟨rfl, -⟩
  have hbinding : Asks (fun a => a.bound? = none)
      (Fleet.attempt AllocError.store (.getBinding w)).run fun _ => True := Asks.attempt' rfl
  refine Follows.bindExcept hbinding.follows_naming ?_ fun _ _ _ => trivial
  rintro _ binding ⟨rfl, -⟩
  refine Follows.bindExcept (naming_previousRelay binding) ?_ fun _ _ _ => trivial
  intro K' previous hread
  cases previous with
  | some r => exact naming_book (hread r rfl)
  | none =>
    exact Follows.bindExcept naming_selectFromPool (fun _ r hr => naming_book (hr r rfl))
      fun _ _ _ => trivial

/-- An assignment binds its workload to a relay that it has read. -/
theorem naming_assign {w : Workload} :
    naming.Follows K (rules.assign zone w) fun _ _ => True := by
  have hlock : ∀ {K : RelayId → Prop} (a : Action), a.bound? = none →
      naming.Follows K (Fleet.perform a) fun K' _ => K' = K ∧ True :=
    fun a ha => (Asks.perform (A := fun a => a.bound? = none) ha).follows_naming
  rw [assign]
  split
  · exact trivial
  · refine Follows.bind (hlock (.acquire rules.lockTimeout) rfl) ?_
    rintro _ x ⟨rfl, -⟩
    rcases x with e | _
    · exact trivial
    · exact Follows.bind naming_assignLocked fun _ _ _ =>
        Follows.bind (hlock .release rfl) fun _ _ _ => trivial

end AssignRules

/-- Every call binds workloads to relays only that it has read. -/
theorem Operation.follows_naming (op : Operation) :
    naming.Follows K op.program fun _ _ => True := by
  have hnone : ∀ {α : Type} {p : Fleet α}, Asks (fun a => a.bound? = none) p (fun _ => True) →
      naming.Follows K p fun _ _ => True :=
    fun h => h.follows_naming.mono fun _ _ _ => trivial
  have hservice : ∀ a : Action, a.IsService → a.bound? = none := by
    intro a ha
    cases ha with
    | upkeep h => cases h <;> rfl
    | _ => rfl
  cases op with
  | assign => exact Follows.bind AssignRules.naming_assign fun _ _ _ => trivial
  | report id text =>
    have hreport : Asks (fun a => a.bound? = none) (applyReport id text) fun _ => True :=
      asks_applyReport_of rfl (fun _ _ _ => rfl) fun _ _ => rfl
    exact hnone hreport.map
  | _ => exact hnone ((Operation.service (by simp) (by simp)).mono hservice fun _ _ => trivial)

end

/-! ## Registries that are opened again -/

section
variable {ι : Type}

/-- What a registry goes through from its creation on: runs of operations, after each of which it is
closed, whatever calls are still in progress, and opened again for others. -/
inductive Reopened [DecidableEq ι] : List (Moment ι Outcome) → Registry → Prop
  | new : Reopened [] .empty
  | runs {h h' : List (Moment ι Outcome)} {g : Registry} {calls : ι → Operation}
    {s : System ι Outcome} (past : Reopened h g)
    (run : Run (System.start g fun i => (calls i).program) h' s) : Reopened (h ++ h') s.registry

variable {h h₀ : List (Moment ι Outcome)} {g : Registry} {calls : ι → Operation}
  {s : System ι Outcome}

/-- A relay that an action is answered with stands in the registry. -/
theorem Action.ShowsRelay.relay?_ne {a : Action} {id : RelayId} {time : Millis} {i : ι}
    {holder : Option ι} {r : a.Reply} (hshows : a.ShowsRelay id r) (hg : g.Sound)
    (hanswers : a.Answers time g i holder r) : g.relay? id ≠ none := by
  cases a with
  | transact t =>
    obtain rfl : r = (t.run time g).1 := hanswers
    cases t with
    | getRelay k =>
      simp only [Transaction.run, hg.getRelay] at hshows
      cases hr : g.relay? k with
      | none =>
        rw [hr] at hshows
        cases hshows
      | some x =>
        rw [hr] at hshows
        obtain rfl : x.id = id := hshows
        rw [hg.id_eq hr, hr]
        exact Option.some_ne_none x
    | listRelays keep =>
      simp only [Transaction.run, hg.listRelays] at hshows
      obtain ⟨x, hx, rfl⟩ := hshows
      rw [hg.mem_rows.mp (List.mem_filter.mp hx).1]
      exact Option.some_ne_none x
    | _ => cases hshows
  | _ => cases hshows

/-- Bindings name relays that were stored before. -/
def BoundToStored (h : List (Moment ι Outcome)) : Prop :=
  ∀ h₁ e h₂, h = h₁ ++ e :: h₂ → ∀ id, e.move.action.bound? = some id → id ∈ storedIds h₁

/-- A step that binds nothing but to a relay that was stored. -/
theorem BoundToStored.snoc {e : Moment ι Outcome} (hbound : BoundToStored h)
    (he : ∀ id, e.move.action.bound? = some id → id ∈ storedIds h) : BoundToStored (h ++ [e]) := by
  intro h₁ e' h₂ heq id hid
  rcases List.eq_nil_or_concat h₂ with rfl | ⟨h₃, e₃, rfl⟩
  · obtain ⟨rfl, hlast⟩ := List.append_inj' heq rfl
    cases hlast
    exact he id hid
  · rw [List.concat_eq_append, ← List.cons_append, ← List.append_assoc] at heq
    obtain ⟨rfl, -⟩ := List.append_inj' heq rfl
    exact hbound h₁ e' h₃ rfl id hid

variable [DecidableEq ι]

/-- A run goes on without using an id again. -/
theorem Run.unreused (past : Unreused h₀ g fun _ : ι => none) (hg : g.Sound) (hissued : g.Issued)
    (run : Run (System.start g fun i => (calls i).program) h s) (hids : IdsLast g h) :
    ∃ φ, Issuing g h s φ ∧ Unreused (h₀ ++ h) s.registry φ := by
  let inv (h : List (Moment ι Outcome)) (s : System ι Outcome) (φ : ι → Option RelayId) : Prop :=
    Issuing g h s φ ∧ Unreused (h₀ ++ h) s.registry φ
  have hinit : inv [] (System.start g fun i => (calls i).program) fun _ => none := by
    refine ⟨⟨hg, rfl, hissued, by simp, by simp, by simp⟩, ?_⟩
    rwa [List.append_nil]
  have hstep : ∀ h s φ m s' φ', Run (System.start g fun i => (calls i).program) h s →
      IdsLast g (h ++ [⟨s, m⟩]) → inv h s φ → RelayFleet.Step s m s' →
      IssuanceStep (φ m.caller) m.action m.reply φ' →
      inv (h ++ [⟨s, m⟩]) s' (Function.update φ m.caller φ') := by
    rintro h s φ m s' φ' - hids ⟨issuing, unreused⟩ hs hp
    refine ⟨issuing.step hids hs hp, ?_⟩
    rw [← List.append_assoc]
    exact unreused.step issuing hids hs hp
  obtain ⟨φ, hend, -⟩ := run.follows_while (fun _ _ => IdsLast.of_snoc)
    (fun i => (calls i).follows_issuance) hinit (fun _ _ _ inv => inv.1.sound) hstep hids
  exact ⟨φ, hend⟩

/-- A run goes on binding workloads to relays that were stored before. -/
theorem Run.boundToStored (past : Unreused h₀ g fun _ : ι => none) (hbound : BoundToStored h₀)
    (hg : g.Sound) (hissued : g.Issued)
    (run : Run (System.start g fun i => (calls i).program) h s) (hids : IdsLast g h) :
    BoundToStored (h₀ ++ h) := by
  let inv (h : List (Moment ι Outcome)) (s : System ι Outcome) (κ : ι → RelayId → Prop) : Prop :=
    s.registry.Sound ∧ (∀ i id, κ i id → id ∈ storedIds (h₀ ++ h)) ∧ BoundToStored (h₀ ++ h)
  have hstep : ∀ h s κ m s' K', Run (System.start g fun i => (calls i).program) h s →
      IdsLast g (h ++ [⟨s, m⟩]) → inv h s κ → RelayFleet.Step s m s' →
      naming.Step (κ m.caller) m.action m.reply K' →
      inv (h ++ [⟨s, m⟩]) s' (Function.update κ m.caller K') := by
    rintro h s κ m s' K' run hids ⟨hsound, hknown, hdone⟩ hs ⟨hbinds, hreads⟩
    obtain ⟨φ, issuing, unreused⟩ := run.unreused past hg hissued hids.of_snoc
    have hmore : ∀ {id}, id ∈ storedIds (h₀ ++ h) → id ∈ storedIds (h₀ ++ (h ++ [⟨s, m⟩])) := by
      intro id hid
      rw [← List.append_assoc, storedIds_snoc]
      exact List.mem_append_left _ hid
    refine ⟨?_, ?_, ?_⟩
    · rw [hs.registry_eq]
      exact ((run.step hs).regular _ (List.mem_append_right _ List.mem_cons_self)).sound hsound _
    · refine (Function.forall_update_iff κ fun i K => ∀ id, K id → id ∈ _).mpr
        ⟨fun id hid => hmore ?_, fun i _ id hid => hmore (hknown i id hid)⟩
      rcases hreads id hid with hid | hshows
      · exact hknown _ id hid
      · exact unreused.rows id (hshows.relay?_ne hsound hs.answers)
    · rw [← List.append_assoc]
      exact hdone.snoc fun id hid => hknown _ id (hbinds id hid)
  obtain ⟨_, ⟨-, -, hdone⟩, -⟩ := run.follows_while (Q := fun _ _ _ => True)
    (fun _ _ => IdsLast.of_snoc) (fun i => (calls i).follows_naming)
    (show inv [] _ fun _ _ => False from ⟨hg, nofun, by rwa [List.append_nil]⟩)
    (fun _ _ _ inv => inv.1) hstep hids
  exact hdone

/-- Where a registry stands that was opened again. -/
structure Standing (h : List (Moment ι Outcome)) (g : Registry) : Prop where
  sound : g.Sound
  issued : g.Issued
  sequence_eq : g.sequence.toNat = issuedIn h
  unreused : Unreused h g fun _ : ι => none
  bound : BoundToStored h

/-- Runs lead from one such registry to another, as long as there are ids left. -/
theorem Reopened.standing (past : Reopened h g) (hids : issuedIn h < 2 ^ 64) : Standing h g := by
  induction past with
  | new =>
    refine ⟨Registry.sound_empty, ?_, rfl, .empty, ?_⟩
    · exact fun id hid => absurd (Registry.relay?_empty id) hid
    · intro h₁ e h₂ heq
      simp at heq
  | @runs h h' g calls s past run ih =>
    rw [issuedIn_append] at hids
    obtain ⟨hsound, hissued, hsequence, unreused, hbound⟩ := ih (by omega)
    have hlast : IdsLast g h' := by
      rw [IdsLast, hsequence]
      exact hids
    obtain ⟨φ, issuing, hafter⟩ := run.unreused unreused hsound hissued hlast
    exact {
      sound := issuing.sound
      issued := issuing.numbered.issued
      sequence_eq := by rw [issuing.sequence_eq, hsequence, issuedIn_append]
      unreused := { hafter with pending := by simp }
      bound := run.boundToStored unreused hbound hsound hissued hlast }

/-- No id is used for two relays. -/
structure NeverReuses (h : List (Moment ι Outcome)) (g : Registry) : Prop where
  /-- All ids that were issued are different. -/
  issues : (issuedIds h).Nodup
  /-- A relay is stored where no row stands. -/
  stores : ∀ e ∈ h, ∀ r, e.move.action = .transact (.putRelay r) →
    e.before.registry.relays.get? r.id = none
  /-- Where a relay was removed no row stands any more. -/
  removes : ∀ e ∈ h, ∀ id, e.Removes id → g.relays.get? id = none
  /-- No relay that is stored after a binding was made has the id that the binding names. -/
  binds : ∀ h₁ e h₂, h = h₁ ++ e :: h₂ → ∀ b id, e.move.action = .transact (.putBinding b) →
    b.relayId = some id → ∀ e' ∈ h₂, ∀ r, e'.move.action = .transact (.putRelay r) → r.id ≠ id

/-- **Ids are never used again.** Whatever a registry goes through, with operations interleaved in
any way and any outcomes of the provisioner, and however often it is closed in the middle of them
and opened again: as long as fewer ids were issued than there are, all of them are different, no
relay is stored in the place of another one, no row ever stands again where a relay was removed, and
no binding comes to name a relay that is stored after it was made. -/
theorem Reopened.neverReuses (past : Reopened h g) (hids : issuedIn h < 2 ^ 64) :
    NeverReuses h g := by
  obtain ⟨hsound, -, -, unreused, hbound⟩ := past.standing hids
  refine ⟨unreused.issued_nodup, ?_, ?_, ?_⟩
  · intro e he r haction
    exact unreused.absent e he r (by rw [haction]; rfl)
  · intro e he id hremoves
    exact hsound.get?_eq_none (unreused.removed e he id hremoves).2
  · rintro h₁ e h₂ rfl b id haction hid e' he' r hstores rfl
    have hbefore := hbound h₁ e h₂ rfl r.id (by rw [haction]; exact hid)
    have hafter : r.id ∈ storedIds (e :: h₂) :=
      List.mem_filterMap.mpr ⟨e', List.mem_cons_of_mem _ he', by rw [hstores]; rfl⟩
    have hnodup := unreused.stored_nodup
    rw [storedIds, List.filterMap_append] at hnodup
    exact (List.nodup_append.mp hnodup).2.2 _ hbefore _ hafter rfl

end

/-- There are no resources for the first relay, the second one is made and destroyed, and after the
registry was opened again a third one is made. -/
def reopeningCalls : Fin 3 → Operation
  | 0 => .create "zone-a" default
  | 1 => .create "zone-a" default
  | 2 => .destroy (Registry.relayId 2)

/-- The third relay has an id of its own. -/
theorem Reopened.neverReuses_reopening :
    ∃ (h : List (Moment (Fin 3) Outcome)) (g : Registry), Reopened h g ∧ issuedIn h < 2 ^ 64 ∧
      issuedIds h = [Registry.relayId 1, Registry.relayId 2, Registry.relayId 3] ∧
      storedIds h = [Registry.relayId 2, Registry.relayId 3] ∧
      (∃ e ∈ h, e.Removes (Registry.relayId 2)) ∧ NeverReuses h g := by
  let second (s : RelayState) : Relay :=
    { Relay.fresh 0 (Registry.relayId 2) "zone-a" none 0 with state := s }
  let s₀ : System (Fin 3) Outcome := .start .empty fun i => (reopeningCalls i).program
  have hg : ({ Registry.empty with sequence := 2 } : Registry).Sound := Registry.sound_empty
  have refused := (((Run.start : Run s₀ [] s₀).perform
    0 rfl 0 (.ok (Registry.relayId 1)) rfl).perform
    0 rfl 0 (.error ⟨.allocate, "no host"⟩) trivial).perform 0 rfl 0 () trivial
  have created := ((((refused.perform 1 rfl 0 (.ok (Registry.relayId 2)) rfl).perform
    1 rfl 0 (.ok ⟨none, 0⟩) trivial).perform 1 rfl 0 0 rfl).perform
    1 rfl 0 (.ok ()) rfl).perform 1 rfl 0 () trivial
  have destroying := created.changeRow hg rfl rfl 2 rfl 0 (second .destroyed) rfl
  have removed := (((destroying.perform 2 rfl 0 (.ok ()) trivial).perform 2 rfl 0 _ rfl).perform
    2 rfl 0 () trivial)
  have opened := Reopened.new.runs removed
  let g : Registry := (Registry.withRow { Registry.empty with sequence := 2 }
    (Registry.relayId 2) (second .destroyed)).withoutRow (Registry.relayId 2)
  have opened : Reopened _ g := Reopened.new.runs removed
  let s₁ : System (Fin 3) Outcome := .start g fun i => (reopeningCalls i).program
  have again := (((((Run.start : Run s₁ [] s₁).perform
    0 rfl 0 (.ok (Registry.relayId 3)) rfl).perform
    0 rfl 0 (.ok ⟨none, 0⟩) trivial).perform 0 rfl 0 0 rfl).perform
    0 rfl 0 (.ok ()) rfl).perform 0 rfl 0 () trivial
  have past := opened.runs again
  refine ⟨_, _, past, by decide, rfl, rfl, ⟨_, List.mem_of_getElem? (i := 10) rfl, rfl, ?_⟩,
    past.neverReuses (by decide)⟩
  exact ne_of_eq_of_ne ((Registry.relay?_withRow _ _ _ _).trans (if_pos rfl))
    (Option.some_ne_none _)

end RelayFleet
