import RelayFleet.Proofs.Allocation.Undisturbed
import RelayFleet.Proofs.Interleaving.Coupled
import RelayFleet.Proofs.Scan.Expansion

/-!
# Zones do not see each other

An assignment sees the rows of its zone and the binding of its workload. On two registries in which
these are the same (`Registry.Alike`) it ends with the same and makes the same changes
(`AssignRules.coupled_assign`), although it reads the row that the binding names, whatever zone that
is in, and looks through all rows for the pool: what it reads of other zones it drops before it
decides anything. Nor does an assignment or an expansion touch what belongs to other zones
(`Registry.SameBeyond`).
-/

namespace RelayFleet

namespace Registry

/-- The registries have the same rows in the zone and the same binding of the workload. -/
structure Alike (zone : ZoneId) (w : WorkloadId) (g g' : Registry) : Prop where
  rows : ∀ id r, r.zoneId = zone → (g'.relay? id = some r ↔ g.relay? id = some r)
  binding : g'.bindings.get? w = g.bindings.get? w

/-- The relay of the zone is in both registries. -/
structure Shared (zone : ZoneId) (g g' : Registry) (r : Relay) : Prop where
  zoneId_eq : r.zoneId = zone
  row : g.relay? r.id = some r
  row' : g'.relay? r.id = some r

/-- The registry with the changes of an assignment, which puts a binding down and writes the row of
the relay that the binding names, or does nothing. -/
def booked (g : Registry) : Option (Binding × Relay) → Registry
  | none => g
  | some (b, r) => (g.putBinding b).withRow r.id r

/-- The rows of relays of other zones are the same texts in both registries. -/
def SameBeyond (zone : ZoneId) (g g' : Registry) : Prop :=
  ∀ id text r, Relay.decoder.run? text = some r → r.zoneId ≠ zone →
    (g'.relays.get? id = some text ↔ g.relays.get? id = some text)

section
variable {zone : ZoneId} {w : WorkloadId} {g g' : Registry} {id : RelayId} {r : Relay}

/-- A relay of the zone is in both registries or in none. -/
theorem Alike.shared (alike : Alike zone w g g') (hr : g.relay? r.id = some r)
    (hzone : r.zoneId = zone) : Shared zone g g' r :=
  ⟨hzone, hr, (alike.rows r.id r hzone).mpr hr⟩

/-- Both registries have the same binding of the workload. -/
theorem Alike.getBinding (alike : Alike zone w g g') : g'.getBinding w = g.getBinding w := by
  unfold Registry.getBinding
  rw [alike.binding]

/-- What is chosen among the relays of the zone is the same in both registries. -/
theorem Alike.filter_rows (alike : Alike zone w g g') (hg : g.Sound) (hg' : g'.Sound)
    (p : Relay → Bool) :
    (g'.rows.filter fun r => p r && r.zoneId == zone) =
      g.rows.filter fun r => p r && r.zoneId == zone := by
  have hrows : ∀ k : Registry, (k.rows.filter fun r => p r && r.zoneId == zone) =
      (k.zoneRows zone).filter p := fun k => (List.filter_filter ..).symm
  rw [hrows, hrows, hg.zoneRows_congr hg' alike.rows]

/-- A row of the zone is written where none of another zone stands. -/
theorem sameBeyond_withRow (hzone : r.zoneId = zone)
    (hold : ∀ x, g.relay? id = some x → x.zoneId = zone) :
    SameBeyond zone g (g.withRow id r) := by
  intro k text x hx hne
  show (g.relays.insert id r.encode.render).get? k = some text ↔ _
  rw [Table.get?_insert]
  split
  · next hk =>
    subst hk
    constructor
    · rintro ⟨⟩
      rw [run?_of_decodeRow (decodeRow_encode r)] at hx
      cases hx
      exact absurd hzone hne
    · intro htext
      refine absurd (hold x ?_) hne
      rw [relay?, htext, Option.bind_some, hx]
  · rfl

/-- A row of the zone is removed. -/
theorem sameBeyond_withoutRow (hold : ∀ x, g.relay? id = some x → x.zoneId = zone) :
    SameBeyond zone g (g.withoutRow id) := by
  intro k text x hx hne
  show (g.relays.erase id).get? k = some text ↔ _
  rw [Table.get?_erase]
  split
  · next hk =>
    subst hk
    refine ⟨nofun, fun htext => absurd (hold x ?_) hne⟩
    rw [relay?, htext, Option.bind_some, hx]
  · rfl

end

end Registry

/-! ## What an assignment sees -/

namespace AssignRules

variable {rules : AssignRules} {zone : ZoneId} {w : WorkloadId} {now : Millis} {g g' : Registry}

/-- A workload may stay on relays of the zone only. -/
theorem zoneId_of_mayKeep {b : Binding} {r : Relay} (h : rules.mayKeep zone now b r) :
    r.zoneId = zone := by
  unfold mayKeep at h
  simp only [Bool.and_eq_true, beq_iff_eq] at h
  exact h.1.2

section
variable (hg : g.Sound) (hg' : g'.Sound) (alike : g.Alike zone w g')
include hg hg' alike

/-- The relay to which a workload may go back is a relay of the zone, whatever the binding names. -/
theorem coupled_previousRelay (b : Option Binding) :
    Coupled (fun x h h' => (h = g ∧ h' = g') ∧ ∀ r, x = .ok (some r) → g.Shared zone g' r)
      g (rules.previousRelay zone now b).run g' (rules.previousRelay zone now b).run := by
  have hnone : Coupled (fun (x : Except AllocError (Option Relay)) h h' => (h = g ∧ h' = g') ∧
      ∀ r, x = .ok (some r) → g.Shared zone g' r) g (pure (.ok none)) g' (pure (.ok none)) := by
    refine .pure ⟨⟨rfl, rfl⟩, fun r hr => ?_⟩
    cases hr
  match b with
  | none => exact hnone
  | some ⟨_, none, _⟩ => exact hnone
  | some ⟨w', some id, time⟩ =>
    -- the two registries may answer differently, so the rules for single transactions do not apply
    refine .ask fun _ x x' hx hx' _ => ?_
    have hlooks : ∀ {k : Registry} {y : StoreResult (Option Relay)} {time : Millis}, k.Sound →
        Action.Permits time k (.transact (.getRelay id)) y → y = .ok (k.relay? id) :=
      fun hk hy => Eq.trans hy (hk.getRelay id)
    obtain rfl := hlooks hg hx
    obtain rfl := hlooks hg' hx'
    have hsame : (g'.relay? id).filter (rules.mayKeep zone now ⟨w', some id, time⟩) =
        (g.relay? id).filter (rules.mayKeep zone now ⟨w', some id, time⟩) := by
      refine Option.ext fun r => ?_
      rw [Option.filter_eq_some_iff, Option.filter_eq_some_iff]
      exact and_congr_left fun hkeep => alike.rows id r (zoneId_of_mayKeep hkeep)
    show Coupled _ g (pure (Except.ok ((g.relay? id).filter _)))
      g' (pure (Except.ok ((g'.relay? id).filter _)))
    rw [hsame]
    refine .pure ⟨⟨rfl, rfl⟩, fun r hr => ?_⟩
    rw [Except.ok.injEq, Option.filter_eq_some_iff] at hr
    obtain ⟨hr, hkeep⟩ := hr
    have hid := hg.id_eq hr
    subst hid
    exact alike.shared hr (zoneId_of_mayKeep hkeep)

/-- The pool is the same in both registries. -/
theorem coupled_selectFromPool :
    Coupled (fun x h h' => (h = g ∧ h' = g') ∧ ∀ r, x = .ok r → g.Shared zone g' r)
      g (rules.selectFromPool zone).run g' (rules.selectFromPool zone).run := by
  have hpool := alike.filter_rows hg hg' fun r => decide (r.state = .running)
  refine .bindExcept (.look (fun _ => congrArg (·, g) (hg.listRelays _))
    fun _ => congrArg (·, g') ((hg'.listRelays _).trans (congrArg _ hpool))) ?_ ?_
  · rintro running _ _ ⟨hrunning, rfl, rfl⟩
    cases hrunning
    split
    · next picked hpick =>
      refine .pure ⟨⟨rfl, rfl⟩, ?_⟩
      rintro _ ⟨⟩
      have hmem := PolicyKind.mem_of_select? hpick
      simp only [List.mem_filter, hg.mem_rows, Bool.and_eq_true, decide_eq_true_eq,
        beq_iff_eq] at hmem
      exact alike.shared hmem.1.1 hmem.1.2.2
    · refine .pure ⟨⟨rfl, rfl⟩, fun r hr => ?_⟩
      cases hr
  · rintro e _ _ ⟨hfails, -⟩
    cases hfails

omit alike in
/-- A relay of the zone is booked in both registries. -/
theorem coupled_book (b : Option Binding) {r : Relay} (hr : g.Shared zone g' r) :
    Coupled (fun _ h h' => ∃ change, h = g.booked change ∧ h' = g'.booked change)
      g (rules.book b w now r).run g' (rules.book b w now r).run := by
  cases hendpoint : RelayEndpoint.ofRelay r rules.endpoint with
  | error e =>
    rw [book, hendpoint]
    exact .pure ⟨none, rfl, rfl⟩
  | ok endpoint =>
    rw [book, hendpoint]
    show Coupled _ g (ExceptT.run (if b.bind (·.relayId) ≠ some r.id then _ else _)) g'
      (ExceptT.run (if b.bind (·.relayId) ≠ some r.id then _ else _))
    split
    · have hputs : ∀ (k : Registry) time, (Transaction.putBinding ⟨w, some r.id, now⟩).run time k =
          (.ok (), k.putBinding ⟨w, some r.id, now⟩) := fun _ _ => rfl
      have hput : (g.putBinding ⟨w, some r.id, now⟩).Sound := hg.congr rfl
      have hput' : (g'.putBinding ⟨w, some r.id, now⟩).Sound := hg'.congr rfl
      refine .bindExcept (.attempt (hputs g) (hputs g')) ?_ ?_
      · rintro _ _ _ ⟨_, -, rfl, rfl⟩
        refine .bindExcept (.attempt (fun time => hput.updateRelay_some hr.row time _)
          fun time => hput'.updateRelay_some hr.row' time _) ?_ ?_
        · rintro _ _ _ ⟨time, -, rfl, rfl⟩
          exact .pure ⟨some (⟨w, some r.id, now⟩,
            { r with lastAssignedAt := some now, updatedAt := time }), rfl, rfl⟩
        · rintro e _ _ ⟨_, hfails, -⟩
          cases hfails
      · rintro e _ _ ⟨_, hfails, -⟩
        cases hfails
    · exact .pure ⟨none, rfl, rfl⟩

/-- An assignment under the lock. -/
theorem coupled_assignLocked :
    Coupled (fun _ h h' => ∃ change, h = g.booked change ∧ h' = g'.booked change)
      g (rules.assignLocked zone w).run g' (rules.assignLocked zone w).run := by
  refine .ask fun time now now' hnow hnow' _ => ?_
  obtain rfl : now = time := hnow
  obtain rfl : now' = now := hnow'
  refine .bindExcept (.look (fun _ => rfl) fun _ => congrArg (·, g') alike.getBinding) ?_ ?_
  · rintro binding _ _ ⟨-, rfl, rfl⟩
    refine .bindExcept (coupled_previousRelay hg hg' alike binding) ?_ ?_
    · rintro previous _ _ ⟨⟨rfl, rfl⟩, hshared⟩
      cases previous with
      | some r => exact coupled_book hg hg' binding (hshared r rfl)
      | none =>
        refine .bindExcept (coupled_selectFromPool hg hg' alike) ?_ ?_
        · rintro r _ _ ⟨⟨rfl, rfl⟩, hpicked⟩
          exact coupled_book hg hg' binding (hpicked r rfl)
        · rintro e _ _ ⟨⟨rfl, rfl⟩, -⟩
          exact ⟨none, rfl, rfl⟩
    · rintro e _ _ ⟨⟨rfl, rfl⟩, -⟩
      exact ⟨none, rfl, rfl⟩
  · rintro e _ _ ⟨-, rfl, rfl⟩
    exact ⟨none, rfl, rfl⟩

end

/-- An assignment sees its zone and its workload only. -/
theorem coupled_assign {w : Workload} (hg : g.Sound) (hg' : g'.Sound)
    (alike : g.Alike zone w.id g') :
    Coupled (fun _ h h' => ∃ change, h = g.booked change ∧ h' = g'.booked change)
      g (rules.assign zone w) g' (rules.assign zone w) := by
  unfold assign
  split
  · exact .pure ⟨none, rfl, rfl⟩
  · exact .withLock (fun _ => .pure ⟨none, rfl, rfl⟩) (coupled_assignLocked hg hg' alike)

end AssignRules

/-! ## What an assignment and an expansion touch -/

section
variable {zone : ZoneId} {g g' : Registry}

/-- An assignment touches its zone and its workload only. -/
theorem Booked.sameBeyond {rules : AssignRules} {w : WorkloadId} {now : Millis}
    {x : Except AllocError RelayEndpoint} (h : Booked rules zone w now g x g') :
    g.SameBeyond zone g' ∧ ∀ v, v ≠ w → g'.bindings.get? v = g.bindings.get? v := by
  cases h with
  | unreadable | exhausted | unreachable | stays =>
    exact ⟨fun _ _ _ _ _ => Iff.rfl, fun _ _ => rfl⟩
  | @moves r endpoint time finds endpoint_eq =>
    have offers := finds.offers endpoint_eq
    refine ⟨?_, fun v hv => ?_⟩
    · have hold : ∀ x, g.relay? r.id = some x → x.zoneId = zone := by
        intro x hx
        rw [offers.row] at hx
        cases hx
        exact offers.zoneId_eq
      exact Registry.sameBeyond_withRow (g := g.putBinding ⟨w, some r.id, now⟩)
        (r := { r with lastAssignedAt := some now, updatedAt := time }) offers.zoneId_eq hold
    · show (g.bindings.insert w _).get? v = _
      rw [Table.get?_insert, if_neg hv]

/-- An expansion touches its zone only, where no row stands under the id that is issued next. -/
theorem Expansion.sameBeyond {rules : ScanRules} {l : List Deed}
    {x : Except ExpandError StageOutcome} (h : Expansion rules zone g l x g')
    (hfree : g.relay? g.nextRelayId.1 = none) :
    g.SameBeyond zone g' ∧ g'.bindings = g.bindings := by
  have hpooled : ∀ {id r}, g.Pooled zone id r → ∀ x, g.relay? id = some x → x.zoneId = zone := by
    intro id r pooled x hx
    rw [pooled.relay?_eq] at hx
    cases hx
    exact pooled.zoneId_eq
  have hnew : ∀ x, g.nextRelayId.2.relay? g.nextRelayId.1 = some x → x.zoneId = zone := by
    intro x hx
    rw [g.relay?_issued, hfree] at hx
    cases hx
  cases h with
  | waits | skips | refuses => exact ⟨fun _ _ _ _ _ => Iff.rfl, rfl⟩
  | restarts _ pooled | keeps _ pooled =>
    exact ⟨Registry.sameBeyond_withRow pooled.zoneId_eq (hpooled pooled), rfl⟩
  | drops _ pooled => exact ⟨Registry.sameBeyond_withoutRow (hpooled pooled), rfl⟩
  | stores _ _ id_eq zoneId_eq | launches _ _ id_eq zoneId_eq =>
    exact ⟨Registry.sameBeyond_withRow zoneId_eq (id_eq ▸ hnew), rfl⟩

end

/-! ## Isolation -/

/-- What a workload gets in a zone does not depend on anything outside that differs in the two
registries, and nothing is done outside. -/
structure Isolated (zone : ZoneId) (w : Workload) (g g' : Registry) : Prop where
  /-- While the same happens around them, assignments end alike and make the same changes. -/
  assigns : ∀ (rules : AssignRules) l l' x x' k k', Alone g (rules.assign zone w) l x k →
    Alone g' (rules.assign zone w) l' x' k' → Together l l' →
    x' = x ∧ ∃ change, k = g.booked change ∧ k' = g'.booked change
  /-- Whatever an assignment ends with, it can end with beside the other registry. -/
  assigns' : ∀ (rules : AssignRules) l x k, Alone g (rules.assign zone w) l x k →
    ∃ l' k', Alone g' (rules.assign zone w) l' x k' ∧ Together l l'
  assign_leaves : ∀ (rules : AssignRules) l x k, Alone g (rules.assign zone w) l x k →
    g.SameBeyond zone k ∧ ∀ v, v ≠ w.id → k.bindings.get? v = g.bindings.get? v
  expand_leaves : ∀ (rules : ScanRules) l x k, Alone g (rules.expand zone) l x k →
    g.SameBeyond zone k ∧ k.bindings = g.bindings

/-- **Zones are isolated from each other.** On two registries that have the same rows in a zone and
the same binding of a workload, and that may differ in everything else, an assignment of the
workload in the zone ends with the same and makes the same changes. Neither an assignment nor an
expansion, whatever the provisioner does, touches a row of another zone or the binding of another
workload. -/
theorem Registry.Alike.isolated {zone : ZoneId} {w : Workload} {g g' : Registry}
    (alike : g.Alike zone w.id g') (hg : g.Sound) (hg' : g'.Sound)
    (hfree : g.relay? g.nextRelayId.1 = none) : Isolated zone w g g' where
  assigns rules l l' x x' k k' run run' together :=
    (AssignRules.coupled_assign hg hg' alike).alone run run' together
  assigns' rules l x k run := by
    obtain ⟨l', k', run', together, -⟩ :=
      (AssignRules.coupled_assign hg hg' alike).exists_together run
    exact ⟨l', k', run', together⟩
  assign_leaves rules l x k run := by
    rcases (run.assign hg).1 with ⟨-, -, rfl⟩ | ⟨e, -, rfl⟩ | ⟨now, -, booked⟩
    · exact ⟨fun _ _ _ _ _ => Iff.rfl, fun _ _ => rfl⟩
    · exact ⟨fun _ _ _ _ _ => Iff.rfl, fun _ _ => rfl⟩
    · exact booked.sameBeyond
  expand_leaves rules l x k run := (run.expand hg).1.sameBeyond hfree

/-- A workload is bound to a relay of another zone, which is gone in the second registry. -/
theorem Registry.Alike.isolated_foreign_relay :
    ∃ (w : Workload) (g g' : Registry), g.Sound ∧ g'.Sound ∧ g.relay? g.nextRelayId.1 = none ∧
      g.Alike "zone-a" w.id g' ∧ g.IsBound w.id (Registry.relayId 2) ∧
      g.relay? (Registry.relayId 2) ≠ none ∧ g'.relay? (Registry.relayId 2) = none ∧
      Isolated "zone-a" w g g' := by
  let near : Relay := Relay.fresh 0 (Registry.relayId 1) "zone-a" (some "host") 0
  let far : Relay := Relay.fresh 0 (Registry.relayId 2) "zone-b" (some "host") 0
  let b : Binding := ⟨(default : Workload).id, some (Registry.relayId 2), 0⟩
  let blank : Registry := { Registry.empty with sequence := 2 }
  let g' := (blank.withRow (Registry.relayId 1) near).putBinding b
  let g := g'.withRow (Registry.relayId 2) far
  have hid : ∀ {m n}, m ≠ n → Registry.relayId m ≠ Registry.relayId n :=
    fun hne heq => hne (relayId_injective heq)
  have hrow' : ∀ id, g'.relay? id = if id = Registry.relayId 1 then some near else none :=
    fun id => blank.relay?_withRow (Registry.relayId 1) id near
  have hrow : ∀ id, g.relay? id = if id = Registry.relayId 2 then some far else g'.relay? id :=
    fun id => g'.relay?_withRow (Registry.relayId 2) id far
  have hgone : g'.relay? (Registry.relayId 2) = none := by
    rw [hrow', if_neg (hid (by decide))]
  have hfree : g.relay? g.nextRelayId.1 = none := by
    show g.relay? (Registry.relayId 3) = none
    rw [hrow, if_neg (hid (by decide)), hrow', if_neg (hid (by decide))]
  have hbindings : ∀ (k : Registry) id r, k.bindings = (k.withRow id r).bindings :=
    fun _ _ _ => rfl
  have alike : g.Alike "zone-a" b.workloadId g' := by
    refine ⟨fun id r hzone => ?_, congrArg (·.get? b.workloadId) (hbindings g' _ far)⟩
    rw [hrow]
    split
    · next heq =>
      rw [heq, hgone]
      refine ⟨nofun, ?_⟩
      rintro ⟨⟩
      exact absurd hzone (by decide)
    · rfl
  have hbound : g.getBinding b.workloadId = .ok (some b) := by
    have hget : g.bindings.get? b.workloadId = some b.encode.render :=
      (blank.bindings.get?_insert b.workloadId b.workloadId _).trans (if_pos rfl)
    rw [Registry.getBinding, hget]
    simp [Binding.decodeRow_encode]
  have hblank : blank.Sound := Registry.sound_empty
  have hnear : (blank.withRow (Registry.relayId 1) near).Sound := hblank.withRow rfl
  have hg' : g'.Sound := hnear.congr rfl
  have hg : g.Sound := hg'.withRow rfl
  exact ⟨default, g, g', hg, hg', hfree, alike, ⟨b, hbound, rfl⟩,
    ne_of_eq_of_ne ((hrow _).trans (if_pos rfl)) (Option.some_ne_none far), hgone,
    alike.isolated hg hg' hfree⟩

end RelayFleet
