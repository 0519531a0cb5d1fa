import RelayFleet.Allocation.Assign
import RelayFleet.Proofs.Interleaving.Alone
import RelayFleet.Proofs.Registry.Rows

/-!
# What an assignment does when nobody interrupts it

An assignment that nobody interrupts is refused, does not get the lock, or finds a relay. This is
the one on which the workload may stay (`AssignRules.Keeps`), otherwise the one that the policy
picks from the pool (`AssignRules.Picks`), if there is any. If the relay has an address, the
workload stays there and nothing is written, or it is bound to the relay; otherwise the assignment
fails and binds nothing (`Booked`, `Alone.assign`).
-/

namespace RelayFleet

/-- A binding is put down. -/
def Deed.Binds (d : Deed) : Prop := ∃ b, d.action = .transact (.putBinding b)

/-- The clock is read at this time. -/
def Deed.Reads (now : Millis) (d : Deed) : Prop := d.action = .now ∧ d.time = now

namespace PolicyKind

/-- A policy prefers one relay to another. -/
def Prefers : PolicyKind → Relay → Relay → Prop
  | firstFit, r, x => r.id < x.id
  | leastLoaded, r, x =>
    r.activeSessions < x.activeSessions ∨ r.activeSessions = x.activeSessions ∧ r.id < x.id

variable {p : PolicyKind} {candidates : List Relay} {r : Relay}

/-- A policy picks none only where there is none. -/
theorem select?_eq_none (h : p.select? candidates = none) : candidates = [] := by
  cases p with
  | firstFit => exact List.head?_eq_none_iff.mp h
  | leastLoaded =>
    cases candidates with
    | nil => rfl
    | cons c rest =>
      change leastLoaded? (c :: rest) = none at h
      unfold leastLoaded? at h
      split at h <;> cases h

/-- A candidate that a policy picks is one of the candidates. -/
theorem mem_of_select? (h : p.select? candidates = some r) : r ∈ candidates := by
  have hleast : ∀ {candidates : List Relay} {r : Relay}, leastLoaded? candidates = some r →
      r ∈ candidates := by
    intro candidates
    induction candidates with
    | nil => exact nofun
    | cons c rest ih =>
      intro r h
      unfold leastLoaded? at h
      split at h
      · cases h
        exact List.mem_cons_self
      · next best hbest =>
        cases h
        split
        · exact List.mem_cons_self
        · exact List.mem_cons_of_mem _ (ih hbest)
  cases p with
  | firstFit => exact List.mem_of_head? h
  | leastLoaded => exact hleast h

/-- Of candidates in the order of their ids a policy picks the one that it prefers to all others. -/
theorem prefers_of_select? (hasc : candidates.Pairwise fun a b => a.id < b.id)
    (h : p.select? candidates = some r) : ∀ x ∈ candidates, x = r ∨ p.Prefers r x := by
  have hleast : ∀ {candidates : List Relay} {r : Relay},
      (candidates.Pairwise fun a b => a.id < b.id) → leastLoaded? candidates = some r →
      ∀ x ∈ candidates, x = r ∨ leastLoaded.Prefers r x := by
    intro candidates
    induction candidates with
    | nil => exact fun _ _ x hx => (List.not_mem_nil hx).elim
    | cons c rest ih =>
      intro r hasc h
      obtain ⟨hfirst, hrest⟩ := List.pairwise_cons.mp hasc
      unfold leastLoaded? at h
      split at h
      · next hnone =>
        cases h
        rw [select?_eq_none (p := leastLoaded) hnone]
        simp
      · next best hbest =>
        cases h
        have hbetter := ih hrest hbest
        refine List.forall_mem_cons.mpr ?_
        split
        · next hle =>
          -- the others have no fewer sessions than the best of them
          refine ⟨.inl rfl, fun x hx => .inr ?_⟩
          have hbound : best.activeSessions ≤ x.activeSessions := by
            rcases hbetter x hx with rfl | hlt | ⟨heq, -⟩
            · exact UInt32.le_refl _
            · exact UInt32.le_of_lt hlt
            · exact heq ▸ UInt32.le_refl _
          rcases UInt32.lt_or_eq_of_le (UInt32.le_trans hle hbound) with hlt | heq
          · exact .inl hlt
          · exact .inr ⟨heq, hfirst x hx⟩
        · next hgt => exact ⟨.inr (.inl (UInt32.not_le.mp hgt)), hbetter⟩
  cases p with
  | firstFit =>
    cases candidates with
    | nil => cases h
    | cons c rest =>
      cases h
      refine List.forall_mem_cons.mpr ⟨.inl rfl, fun x hx => .inr ?_⟩
      exact (List.pairwise_cons.mp hasc).1 x hx
  | leastLoaded => exact hleast hasc h

/-- It does not prefer two relays to each other. -/
theorem Prefers.asymm {x : Relay} (h : p.Prefers r x) (h' : p.Prefers x r) : False := by
  cases p with
  | firstFit => exact String.lt_irrefl _ (String.lt_trans h h')
  | leastLoaded =>
    rcases h with h | ⟨heq, h⟩ <;> rcases h' with h' | ⟨heq', h'⟩
    · exact UInt32.lt_irrefl _ (UInt32.lt_trans h h')
    · exact UInt32.lt_irrefl _ (heq' ▸ h)
    · exact UInt32.lt_irrefl _ (heq ▸ h')
    · exact String.lt_irrefl _ (String.lt_trans h h')

end PolicyKind

/-- The workload is bound to the relay. -/
def Registry.IsBound (g : Registry) (w : WorkloadId) (id : RelayId) : Prop :=
  ∃ b, g.getBinding w = .ok (some b) ∧ b.relayId = some id

namespace AssignRules

/-- A running relay of the zone is at this endpoint. -/
structure Offers (rules : AssignRules) (zone : ZoneId) (g : Registry) (r : Relay)
    (endpoint : RelayEndpoint) : Prop where
  row : g.relay? r.id = some r
  state_eq : r.state = .running
  zoneId_eq : r.zoneId = zone
  endpoint_eq : RelayEndpoint.ofRelay r rules.endpoint = .ok endpoint

/-- The workload is bound to the relay, and may stay there at this time. -/
def Keeps (rules : AssignRules) (zone : ZoneId) (w : WorkloadId) (now : Millis) (g : Registry)
    (r : Relay) : Prop :=
  ∃ b, g.getBinding w = .ok (some b) ∧ b.relayId = some r.id ∧ g.relay? r.id = some r ∧
    rules.mayKeep zone now b r

/-- A workload is bound to one relay. -/
theorem Keeps.unique {rules : AssignRules} {zone : ZoneId} {w : WorkloadId} {now : Millis}
    {g : Registry} {r r' : Relay} (h : rules.Keeps zone w now g r)
    (h' : rules.Keeps zone w now g r') : r' = r := by
  obtain ⟨b, hb, hid, hr, -⟩ := h
  obtain ⟨b', hb', hid', hr', -⟩ := h'
  rw [hb] at hb'
  cases hb'
  rw [hid] at hid'
  rw [← Option.some.inj hid', hr] at hr'
  exact (Option.some.inj hr').symm

/-- The relay is running in the zone and has room. -/
structure Eligible (rules : AssignRules) (zone : ZoneId) (g : Registry) (r : Relay) : Prop where
  row : g.relay? r.id = some r
  state_eq : r.state = .running
  zoneId_eq : r.zoneId = zone
  room : r.activeSessions < rules.capacityPerInstance

/-- The policy prefers the relay to all others that are running in the zone and have room. -/
structure Picks (rules : AssignRules) (zone : ZoneId) (g : Registry) (r : Relay) : Prop where
  eligible : rules.Eligible zone g r
  preferred : ∀ x, rules.Eligible zone g x → x = r ∨ rules.policy.Prefers r x

/-- The workload may stay on the relay, or it may stay on none and the policy picks the relay. -/
def Finds (rules : AssignRules) (zone : ZoneId) (w : WorkloadId) (now : Millis) (g : Registry)
    (r : Relay) : Prop :=
  rules.Keeps zone w now g r ∨ (∀ x, ¬ rules.Keeps zone w now g x) ∧ rules.Picks zone g r

/-- What an assignment does that has found a relay. -/
def book (rules : AssignRules) (binding : Option Binding) (w : WorkloadId) (now : Millis)
    (r : Relay) : AllocM RelayEndpoint := do
  let endpoint ← (RelayEndpoint.ofRelay r rules.endpoint : Except AllocError RelayEndpoint)
  if binding.bind (·.relayId) ≠ some r.id then
    Fleet.attempt .store (.putBinding ⟨w, some r.id, now⟩)
    let _ ← Fleet.attempt .store
      (.updateRelay r.id fun r => { r with lastAssignedAt := some now })
  return endpoint

end AssignRules

namespace AssignRules

variable {rules : AssignRules} {zone : ZoneId} {w : WorkloadId} {now : Millis} {g : Registry}
  {r r' : Relay}

/-- A workload may stay on the relay only to which it is bound. -/
theorem Keeps.isBound (h : rules.Keeps zone w now g r) : g.IsBound w r.id := by
  obtain ⟨b, hb, hid, -⟩ := h
  exact ⟨b, hb, hid⟩

/-- A relay on which a workload may stay is running in the zone. -/
theorem Keeps.running (h : rules.Keeps zone w now g r) :
    g.relay? r.id = some r ∧ r.state = .running ∧ r.zoneId = zone := by
  obtain ⟨b, -, -, hr, hmay⟩ := h
  simp only [mayKeep, RelayState.isAssignable, Bool.and_eq_true, decide_eq_true_eq,
    beq_iff_eq] at hmay
  exact ⟨hr, hmay.1⟩

/-- The policy picks one relay. -/
theorem Picks.unique (h : rules.Picks zone g r) (h' : rules.Picks zone g r') : r' = r := by
  rcases h.preferred r' h'.eligible with heq | hlt
  · exact heq
  · rcases h'.preferred r h.eligible with heq | hlt'
    · exact heq.symm
    · exact (hlt.asymm hlt').elim

/-- An assignment finds one relay. -/
theorem Finds.unique (h : rules.Finds zone w now g r) (h' : rules.Finds zone w now g r') :
    r' = r := by
  rcases h with h | ⟨hnone, h⟩ <;> rcases h' with h' | ⟨hnone', h'⟩
  · exact h.unique h'
  · exact absurd h (hnone' r)
  · exact absurd h' (hnone r')
  · exact h.unique h'

/-- A relay that an assignment finds is running in the zone. -/
theorem Finds.offers {endpoint : RelayEndpoint} (h : rules.Finds zone w now g r)
    (hendpoint : RelayEndpoint.ofRelay r rules.endpoint = .ok endpoint) :
    rules.Offers zone g r endpoint := by
  rcases h with h | ⟨-, h⟩
  · obtain ⟨hr, hstate, hzone⟩ := h.running
    exact ⟨hr, hstate, hzone, hendpoint⟩
  · exact ⟨h.eligible.row, h.eligible.state_eq, h.eligible.zoneId_eq, hendpoint⟩

/-- The relays that are running in the zone and have room are those of a listing. -/
theorem mem_pool_iff (hg : g.Sound) :
    r ∈ (g.rows.filter fun r => r.state = .running && r.zoneId == zone).filter rules.hasRoom ↔
      rules.Eligible zone g r := by
  simp only [List.mem_filter, hg.mem_rows, hasRoom, Bool.and_eq_true, decide_eq_true_eq,
    beq_iff_eq]
  exact ⟨fun ⟨⟨hr, hstate, hzone⟩, hroom⟩ => ⟨hr, hstate, hzone, hroom⟩,
    fun ⟨hr, hstate, hzone, hroom⟩ => ⟨⟨hr, hstate, hzone⟩, hroom⟩⟩

end AssignRules

/-- How an assignment ends that has the lock. -/
inductive Booked (rules : AssignRules) (zone : ZoneId) (w : WorkloadId) (now : Millis)
    (g : Registry) : Except AllocError RelayEndpoint → Registry → Prop
  /-- The binding cannot be read. -/
  | unreadable {e : StoreError} (binding_eq : g.getBinding w = .error e) :
    Booked rules zone w now g (.error (.store e)) g
  /-- There is no relay for the workload. -/
  | exhausted (lost : ∀ r, ¬ rules.Keeps zone w now g r) (full : ∀ r, ¬ rules.Eligible zone g r) :
    Booked rules zone w now g (.error (.capacityExhausted zone)) g
  /-- The relay has no address. -/
  | unreachable {r : Relay} (finds : rules.Finds zone w now g r)
    (address : r.publicAddress = none) :
    Booked rules zone w now g (.error (.noPublicAddress r.id)) g
  /-- The workload stays on its relay. -/
  | stays {r : Relay} {endpoint : RelayEndpoint} (finds : rules.Finds zone w now g r)
    (endpoint_eq : RelayEndpoint.ofRelay r rules.endpoint = .ok endpoint)
    (bound : g.IsBound w r.id) : Booked rules zone w now g (.ok endpoint) g
  /-- The workload is bound to another relay. -/
  | moves {r : Relay} {endpoint : RelayEndpoint} {time : Millis}
    (finds : rules.Finds zone w now g r)
    (endpoint_eq : RelayEndpoint.ofRelay r rules.endpoint = .ok endpoint)
    (free : ¬ g.IsBound w r.id) :
    Booked rules zone w now g (.ok endpoint)
      ((g.putBinding ⟨w, some r.id, now⟩).withRow r.id
        { r with lastAssignedAt := some now, updatedAt := time })

namespace Alone

variable {rules : AssignRules} {zone : ZoneId} {w : WorkloadId} {now : Millis} {g g' : Registry}
  {l : List Deed}

/-- Looking at the bound relay finds it if the workload may stay there. -/
theorem previousRelay {binding : Option Binding} {x : Except AllocError (Option Relay)}
    (hg : g.Sound) (hbinding : g.getBinding w = .ok binding)
    (h : Alone g (rules.previousRelay zone now binding).run l x g') :
    g' = g ∧ (∀ d ∈ l, ¬ d.Binds) ∧ ∃ found, x = .ok found ∧
      ∀ r, found = some r ↔ rules.Keeps zone w now g r := by
  have hnone : (∀ b, binding = some b → b.relayId = none) →
      ∀ r, none = some r ↔ rules.Keeps zone w now g r := by
    intro hfree r
    refine ⟨nofun, ?_⟩
    rintro ⟨b, hb, hid, -⟩
    rw [hbinding] at hb
    rw [hfree b (Except.ok.inj hb)] at hid
    cases hid
  match binding with
  | none =>
    obtain ⟨rfl, rfl, rfl⟩ := of_pure h
    exact ⟨rfl, List.forall_mem_nil _, none, rfl, hnone (by simp)⟩
  | some ⟨_, none, _⟩ =>
    obtain ⟨rfl, rfl, rfl⟩ := of_pure h
    exact ⟨rfl, List.forall_mem_nil _, none, rfl, hnone (by simp)⟩
  | some ⟨w', some id, assignedAt⟩ =>
    obtain ⟨time, l₂, rfl, h₂⟩ := attempted h fun _ => congrArg (·, g) (hg.getRelay id)
    obtain ⟨rfl, rfl, rfl⟩ := of_pure h₂
    refine ⟨rfl, by simp [Deed.Binds], _, rfl, fun r => ?_⟩
    rw [Option.filter_eq_some_iff]
    constructor
    · rintro ⟨hr, hkeep⟩
      have hid := hg.id_eq hr
      exact ⟨_, hbinding, congrArg some hid.symm, hid.symm ▸ hr, hkeep⟩
    · rintro ⟨b, hb, hid, hr, hkeep⟩
      rw [hbinding] at hb
      cases hb
      cases hid
      exact ⟨hr, hkeep⟩

/-- The policy picks from the relays of the zone that are running and have room, if there is any. -/
theorem selectFromPool {x : Except AllocError Relay} (hg : g.Sound)
    (h : Alone g (rules.selectFromPool zone).run l x g') :
    g' = g ∧ (∀ d ∈ l, ¬ d.Binds) ∧
      ((∃ r, x = .ok r ∧ rules.Picks zone g r) ∨
        x = .error (.capacityExhausted zone) ∧ ∀ r, ¬ rules.Eligible zone g r) := by
  obtain ⟨time, l₂, rfl, h₂⟩ := attempted h fun _ => congrArg (·, g) (hg.listRelays _)
  split at h₂
  · next r hpick =>
    obtain ⟨rfl, rfl, rfl⟩ := of_pure h₂
    have hasc := (hg.pairwise_rows.filter
      fun r => r.state = .running && r.zoneId == zone).filter rules.hasRoom
    refine ⟨rfl, by simp [Deed.Binds], .inl ⟨r, rfl, ?_, fun x hx => ?_⟩⟩
    · exact (AssignRules.mem_pool_iff hg).mp (PolicyKind.mem_of_select? hpick)
    · exact PolicyKind.prefers_of_select? hasc hpick x ((AssignRules.mem_pool_iff hg).mpr hx)
  · next hpick =>
    obtain ⟨rfl, rfl, rfl⟩ := of_pure h₂
    refine ⟨rfl, by simp [Deed.Binds], .inr ⟨rfl, fun r hr => ?_⟩⟩
    have hmem := (AssignRules.mem_pool_iff hg).mpr hr
    rw [PolicyKind.select?_eq_none hpick] at hmem
    cases hmem

/-- An assignment that has found a relay. -/
theorem book {binding : Option Binding} {r : Relay} {x : Except AllocError RelayEndpoint}
    (hg : g.Sound) (hbinding : g.getBinding w = .ok binding) (finds : rules.Finds zone w now g r)
    (h : Alone g (rules.book binding w now r).run l x g') :
    Booked rules zone w now g x g' ∧ ∀ e, x = .error e → ∀ d ∈ l, ¬ d.Binds := by
  obtain ⟨l₁, y, g₁, l₂, rfl, h₁, h₂⟩ := h.bind
  cases hendpoint : RelayEndpoint.ofRelay r rules.endpoint with
  | error e =>
    rw [hendpoint] at h₁
    obtain ⟨rfl, rfl, rfl⟩ := of_pure h₁
    obtain ⟨rfl, rfl, rfl⟩ := of_pure h₂
    refine ⟨?_, fun _ _ => List.forall_mem_nil _⟩
    unfold RelayEndpoint.ofRelay at hendpoint
    split at hendpoint
    · next haddress =>
      cases hendpoint
      exact .unreachable finds haddress
    · cases hendpoint
  | ok endpoint =>
    rw [hendpoint] at h₁
    obtain ⟨rfl, rfl, rfl⟩ := of_pure h₁
    have hiff : binding.bind (·.relayId) = some r.id ↔ g₁.IsBound w r.id := by
      rw [Option.bind_eq_some_iff, Registry.IsBound, hbinding]
      exact exists_congr fun b => and_congr_left fun _ => Except.ok.injEq .. ▸ Iff.rfl
    change Alone g₁ (ExceptT.run (if binding.bind (·.relayId) ≠ some r.id then _ else _)) l₂ x g'
      at h₂
    split at h₂
    · next hfree =>
      have hput : (g₁.putBinding ⟨w, some r.id, now⟩).Sound := hg.congr rfl
      obtain ⟨_, l₃, rfl, h₃⟩ := attempted h₂ fun _ => rfl
      obtain ⟨_, l₄, rfl, h₄⟩ := attempted h₃ fun time =>
        hput.updateRelay_some (finds.offers hendpoint).row time _
      obtain ⟨rfl, rfl, rfl⟩ := of_pure h₄
      exact ⟨.moves finds hendpoint fun hbound => hfree (hiff.mpr hbound), fun e he => by cases he⟩
    · next hbound =>
      obtain ⟨rfl, rfl, rfl⟩ := of_pure h₂
      exact ⟨.stays finds hendpoint (hiff.mp (not_not.mp hbound)), nofun⟩

/-- An assignment under the lock. -/
theorem assignLocked {x : Except AllocError RelayEndpoint} (hg : g.Sound)
    (h : Alone g (rules.assignLocked zone w).run l x g') :
    (∃ now, (∃ d ∈ l, d.Reads now) ∧ Booked rules zone w now g x g') ∧
      ∀ e, x = .error e → ∀ d ∈ l, ¬ d.Binds := by
  obtain ⟨time, now, l₁, permits, rfl, h₁⟩ := h.performed
  obtain rfl : now = time := permits
  change Alone g _ l₁ x g' at h₁
  suffices Booked rules zone w now g x g' ∧ ∀ e, x = .error e → ∀ d ∈ l₁, ¬ d.Binds from
    ⟨⟨now, ⟨_, List.mem_cons_self, rfl, rfl⟩, this.1⟩, fun e he =>
      List.forall_mem_cons.mpr ⟨by simp [Deed.Binds], this.2 e he⟩⟩
  cases hbinding : g.getBinding w with
  | error e =>
    rcases h₁.andThen with ⟨e, rfl, h₂⟩ | ⟨l₂, binding, g₂, l₃, rfl, h₂, h₃⟩
    · obtain ⟨t, hx, rfl, rfl : g' = g⟩ := h₂.attempt
      change _ = (g'.getBinding w).mapError AllocError.store at hx
      rw [hbinding] at hx
      cases hx
      exact ⟨.unreadable hbinding, fun _ _ => by simp [Deed.Binds]⟩
    · obtain ⟨t, hx, -, -⟩ := h₂.attempt
      change _ = (g.getBinding w).mapError AllocError.store at hx
      rw [hbinding] at hx
      cases hx
  | ok binding =>
    obtain ⟨t, l₂, rfl, h₂⟩ := attempted h₁ fun _ => congrArg (·, g) hbinding
    suffices Booked rules zone w now g x g' ∧ ∀ e, x = .error e → ∀ d ∈ l₂, ¬ d.Binds from
      this.imp_right fun hrest e he => List.forall_mem_cons.mpr ⟨by simp [Deed.Binds], hrest e he⟩
    rcases h₂.andThen with ⟨e, rfl, h₃⟩ | ⟨l₃, found, g₃, l₄, rfl, h₃, h₄⟩
    · obtain ⟨-, -, _, hx, -⟩ := h₃.previousRelay hg hbinding
      cases hx
    · obtain ⟨rfl, hquiet, _, hx, hfound⟩ := h₃.previousRelay hg hbinding
      cases hx
      suffices Booked rules zone w now g₃ x g' ∧ ∀ e, x = .error e → ∀ d ∈ l₄, ¬ d.Binds from
        this.imp_right fun hrest e he => List.forall_mem_append.mpr ⟨hquiet, hrest e he⟩
      cases found with
      | some r => exact book hg hbinding (.inl ((hfound r).mp rfl)) h₄
      | none =>
        have hnone : ∀ r, ¬ rules.Keeps zone w now g₃ r := fun r hr => by
          cases (hfound r).mpr hr
        rcases h₄.andThen with ⟨e, rfl, h₅⟩ | ⟨l₅, r, g₅, l₆, rfl, h₅, h₆⟩
        · obtain ⟨rfl, hquiet', ⟨r, hx, -⟩ | ⟨hx, hfull⟩⟩ := h₅.selectFromPool hg
          · cases hx
          · cases hx
            exact ⟨.exhausted hnone hfull, fun _ _ => hquiet'⟩
        · obtain ⟨rfl, hquiet', ⟨r, hx, hpicks⟩ | ⟨hx, -⟩⟩ := h₅.selectFromPool hg
          · cases hx
            exact (book hg hbinding (.inr ⟨hnone, hpicks⟩) h₆).imp_right
              fun hrest e he => List.forall_mem_append.mpr ⟨hquiet', hrest e he⟩
          · cases hx

/-- An assignment is refused, does not get the lock, or is done under the lock. -/
theorem assign_cases {w : Workload} {x : Except AllocError RelayEndpoint}
    (h : Alone g (rules.assign zone w) l x g') :
    (w.phase.isAssignable = false ∧ l = [] ∧ x = .error (.notAssignable w.id w.phase) ∧ g' = g) ∨
      (w.phase.isAssignable ∧ ∃ time e, l = [⟨g, .acquire rules.lockTimeout, time, .error e⟩] ∧
        x = .error (.lockTimeout e) ∧ g' = g) ∨
      w.phase.isAssignable ∧ ∃ time l₁ time', l = ⟨g, .acquire rules.lockTimeout, time, .ok ()⟩ ::
          l₁ ++ [⟨g', .release, time', ()⟩] ∧
        Alone g (rules.assignLocked zone w.id).run l₁ x g' := by
  unfold AssignRules.assign at h
  split at h
  · next hphase =>
    obtain ⟨rfl, rfl, rfl⟩ := of_pure h
    exact .inl ⟨by simpa using hphase, rfl, rfl, rfl⟩
  · next hphase =>
    have hphase : w.phase.isAssignable := by simpa using hphase
    rcases h.withLock with ⟨time, e, l₁, rfl, h₁⟩ | ⟨time, l₁, time', rfl, h₁⟩
    · obtain ⟨rfl, rfl, rfl⟩ := of_pure h₁
      exact .inr (.inl ⟨hphase, time, e, rfl, rfl, rfl⟩)
    · exact .inr (.inr ⟨hphase, time, l₁, time', rfl, h₁⟩)

/-- An assignment. -/
theorem assign {w : Workload} {x : Except AllocError RelayEndpoint} (hg : g.Sound)
    (h : Alone g (rules.assign zone w) l x g') :
    ((w.phase.isAssignable = false ∧ x = .error (.notAssignable w.id w.phase) ∧ g' = g) ∨
      (∃ e, x = .error (.lockTimeout e) ∧ g' = g) ∨
      ∃ now, (∃ d ∈ l, d.Reads now) ∧ Booked rules zone w.id now g x g') ∧
      ∀ e, x = .error e → ∀ d ∈ l, ¬ d.Binds := by
  rcases h.assign_cases with ⟨hphase, rfl, rfl, rfl⟩ | ⟨-, time, e, rfl, rfl, rfl⟩ |
    ⟨-, time, l₁, time', rfl, h₁⟩
  · exact ⟨.inl ⟨hphase, rfl, rfl⟩, fun _ _ => List.forall_mem_nil _⟩
  · exact ⟨.inr (.inl ⟨e, rfl, rfl⟩), fun _ _ => by simp [Deed.Binds]⟩
  · obtain ⟨⟨now, ⟨d, hd, hreads⟩, hbooked⟩, hfails⟩ := h₁.assignLocked hg
    refine ⟨.inr (.inr ⟨now, ⟨d, by simp [hd], hreads⟩, hbooked⟩), fun e he => ?_⟩
    have hinner := hfails e he
    simp only [List.cons_append, List.forall_mem_cons, List.forall_mem_append,
      List.not_mem_nil, false_implies, implies_true, and_true]
    exact ⟨by simp [Deed.Binds], hinner, by simp [Deed.Binds]⟩

end Alone

end RelayFleet
