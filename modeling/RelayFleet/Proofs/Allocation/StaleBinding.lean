import RelayFleet.Proofs.Allocation.Choice
import RelayFleet.Proofs.Allocation.Refusal

/-!
# Stale bindings

A binding is stale for an assignment in a zone if it names no relay, or one that is gone, does not
run or is in another zone (`Registry.Stale`). An assignment looks the relay up and does not go back
to it, and the relay that it picks instead is another one, since that runs in the zone. So the
binding is written as if there had been none (`Placed`), and the assignment answers and writes what
it does where the stale binding is removed (`GoesThrough.assign_stale`).
-/

namespace RelayFleet

/-! ## What the clock shows -/

/-- What the clock shows in a deed that puts it down. -/
def Deed.reading? : Deed → Option Millis
  | ⟨_, .now, time, _⟩ | ⟨_, .transact (.updateRelay _ _), time, _⟩ => some time
  | _ => none

/-- What the clock shows on the way, wherever it is put down. -/
def clockOf (l : List Deed) : List Millis := l.filterMap Deed.reading?

/-- What the clock shows is not put down. -/
def Action.IsTimeless : Action → Prop
  | .now | .transact (.updateRelay _ _) => False
  | _ => True

/-- A deed of this kind puts down no time, and any other one does. -/
theorem Deed.reading?_eq (d : Deed) :
    (d.action.IsTimeless ∧ d.reading? = none) ∨
      ¬ d.action.IsTimeless ∧ d.reading? = some d.time := by
  obtain ⟨g, a, time, r⟩ := d
  cases a with
  | transact t => cases t <;> simp [Action.IsTimeless, reading?]
  | _ => simp [Action.IsTimeless, reading?]

/-- Deeds of this kind put down no time. -/
theorem clockOf_eq_nil {l : List Deed} (h : ∀ d ∈ l, d.action.IsTimeless) : clockOf l = [] := by
  refine List.filterMap_eq_nil_iff.mpr fun d hd => ?_
  rcases d.reading?_eq with ⟨-, hnone⟩ | ⟨htimed, -⟩
  · exact hnone
  · exact absurd (h d hd) htimed

/-- What the clock shows on the way further on. -/
theorem clockOf_append (l l' : List Deed) : clockOf (l ++ l') = clockOf l ++ clockOf l' :=
  List.filterMap_append

/-- Getting the lock and giving it back puts down no time. -/
theorem clockOf_within (g g' : Registry) (timeout : Duration) (time time' : Millis)
    (l : List Deed) :
    clockOf (⟨g, .acquire timeout, time, .ok ()⟩ :: l ++ [⟨g', .release, time', ()⟩]) =
      clockOf l :=
  (clockOf_append l _).trans (List.append_nil _)

/-- Every program can go to its end alone while the clock shows what is given, as far as this
reaches. -/
theorem exists_alone_reading {α : Type} (p : Fleet α) (readings : List Millis) (g : Registry) :
    ∃ l x g', Alone g p l x g' ∧ (clockOf l <+: readings ∨ readings <+: clockOf l) := by
  induction p generalizing g readings with
  | pure x => exact ⟨[], x, g, .pure, .inl List.nil_prefix⟩
  | ask a next ih =>
    by_cases ha : a.IsTimeless
    · obtain ⟨r, permits⟩ := a.exists_permits 0 g
      obtain ⟨l, x, g', rest, hclock⟩ := ih r readings (a.registryAfter 0 g)
      refine ⟨_, x, g', .ask permits rest, ?_⟩
      rcases Deed.reading?_eq ⟨g, a, 0, r⟩ with ⟨-, hnone⟩ | ⟨htimed, -⟩
      · rwa [clockOf, List.filterMap_cons_none hnone]
      · exact absurd ha htimed
    · obtain ⟨r, permits⟩ := a.exists_permits (readings.headD 0) g
      obtain ⟨l, x, g', rest, hclock⟩ :=
        ih r readings.tail (a.registryAfter (readings.headD 0) g)
      refine ⟨_, x, g', .ask permits rest, ?_⟩
      rcases Deed.reading?_eq ⟨g, a, readings.headD 0, r⟩ with ⟨htimeless, -⟩ | ⟨-, htime⟩
      · exact absurd htimeless ha
      · rw [clockOf, List.filterMap_cons_some htime]
        cases readings with
        | nil => exact .inr List.nil_prefix
        | cons time readings =>
          exact hclock.imp (List.prefix_cons_inj time).mpr (List.prefix_cons_inj time).mpr

/-! ## Bindings that do not lead back -/

/-- The relay of the binding is not a running one of the zone. -/
def Binding.Lost (zone : ZoneId) (g : Registry) (b : Binding) : Prop :=
  ∀ id r, b.relayId = some id → g.relay? id = some r → r.state ≠ .running ∨ r.zoneId ≠ zone

/-- The workload has a binding, which is of no use in the zone. -/
def Registry.Stale (zone : ZoneId) (w : WorkloadId) (g : Registry) : Prop :=
  ∃ b, g.getBinding w = .ok (some b) ∧ b.Lost zone g

/-- The workload has no binding, or none that is of use in the zone. -/
def Registry.Unsettled (zone : ZoneId) (w : WorkloadId) (g : Registry) : Prop :=
  ∃ binding, g.getBinding w = .ok binding ∧ ∀ b, binding = some b → b.Lost zone g

/-- How an assignment under the lock ends whose workload has no binding of use, and what the clock
shows on the way. -/
inductive Placed (rules : AssignRules) (zone : ZoneId) (w : WorkloadId) (g : Registry) :
    List Millis → Except AllocError RelayEndpoint → Registry → Prop
  | exhausted {now : Millis} (full : ∀ r, ¬ rules.Eligible zone g r) :
    Placed rules zone w g [now] (.error (.capacityExhausted zone)) g
  | unreachable {r : Relay} {e : AllocError} {now : Millis} (picks : rules.Picks zone g r)
    (endpoint_eq : RelayEndpoint.ofRelay r rules.endpoint = .error e) :
    Placed rules zone w g [now] (.error e) g
  | moves {r : Relay} {endpoint : RelayEndpoint} {now later : Millis} (picks : rules.Picks zone g r)
    (endpoint_eq : RelayEndpoint.ofRelay r rules.endpoint = .ok endpoint) :
    Placed rules zone w g [now, later] (.ok endpoint)
      ((g.putBinding ⟨w, some r.id, now⟩).withRow r.id
        { r with lastAssignedAt := some now, updatedAt := later })

/-- A relay that the policy picks is not the one of a binding that is of no use. -/
theorem Binding.Lost.relayId_ne {rules : AssignRules} {zone : ZoneId} {g : Registry} {b : Binding}
    {r : Relay} (h : b.Lost zone g) (picks : rules.Picks zone g r) : b.relayId ≠ some r.id := by
  intro hid
  rcases h r.id r hid picks.eligible.row with hstate | hzone
  · exact hstate picks.eligible.state_eq
  · exact hzone picks.eligible.zoneId_eq

/-- A workload may not stay on the relay of such a binding. -/
theorem Registry.Unsettled.not_keeps {rules : AssignRules} {zone : ZoneId} {w : WorkloadId}
    {now : Millis} {g : Registry} (h : g.Unsettled zone w) (r : Relay) :
    ¬ rules.Keeps zone w now g r := by
  intro keeps
  obtain ⟨hrow, hstate, hzone⟩ := keeps.running
  obtain ⟨b, hb, hid, -⟩ := keeps
  obtain ⟨binding, hbinding, hlost⟩ := h
  rw [hbinding] at hb
  rcases hlost b (Except.ok.inj hb) r.id r hid hrow with hnot | hnot
  · exact hnot hstate
  · exact hnot hzone

namespace Alone

variable {rules : AssignRules} {zone : ZoneId} {w : WorkloadId} {g g' : Registry} {l : List Deed}
  {x : Except AllocError RelayEndpoint} {now : Millis} {binding : Option Binding}

/-- Looking at the bound relay puts down no time. -/
theorem clockOf_previousRelay {x : Except AllocError (Option Relay)}
    (h : Alone g (rules.previousRelay zone now binding).run l x g') : clockOf l = [] := by
  refine clockOf_eq_nil (h.asks (P := fun _ => True) ?_).1
  match binding with
  | none => exact .pure trivial
  | some ⟨_, none, _⟩ => exact .pure trivial
  | some ⟨_, some _, _⟩ => exact .andThen (.attempt' trivial) fun _ => .pure trivial

/-- Picking from the pool puts down no time. -/
theorem clockOf_selectFromPool {x : Except AllocError Relay}
    (h : Alone g (rules.selectFromPool zone).run l x g') : clockOf l = [] := by
  refine clockOf_eq_nil (h.asks (P := fun _ => True) ?_).1
  refine .andThen (.attempt' trivial) fun running => ?_
  cases rules.policy.select? (running.filter rules.hasRoom) <;> exact .pure trivial

/-- The relay that was picked is booked. -/
theorem placed_book {r : Relay} (hlost : ∀ b, binding = some b → b.Lost zone g)
    (picks : rules.Picks zone g r) (h : Alone g (rules.book binding w now r).run l x g') :
    Placed rules zone w g (now :: clockOf l) x g' := by
  obtain ⟨l₁, y, g₁, l₂, rfl, h₁, h₂⟩ := h.bind
  cases hendpoint : RelayEndpoint.ofRelay r rules.endpoint with
  | error e =>
    rw [hendpoint] at h₁
    obtain ⟨rfl, rfl, rfl⟩ := of_pure h₁
    obtain ⟨rfl, rfl, rfl⟩ := of_pure h₂
    exact .unreachable picks hendpoint
  | ok endpoint =>
    rw [hendpoint] at h₁
    obtain ⟨rfl, rfl, rfl⟩ := of_pure h₁
    have hother : binding.bind (·.relayId) ≠ some r.id := by
      intro hbound
      obtain ⟨b, hb, hid⟩ := Option.bind_eq_some_iff.mp hbound
      exact (hlost b hb).relayId_ne picks hid
    change Alone g₁ (ExceptT.run (if binding.bind (·.relayId) ≠ some r.id then _ else _)) l₂ x g'
      at h₂
    rw [if_pos hother] at h₂
    obtain ⟨_, l₃, rfl, h₃⟩ := attempted h₂ fun _ => rfl
    have hrow : (g₁.putBinding ⟨w, some r.id, now⟩).relay? r.id = some r := picks.eligible.row
    obtain ⟨later, l₄, rfl, h₄⟩ := attempted h₃ fun time => Registry.updateRelay_some hrow time _
    obtain ⟨rfl, rfl, rfl⟩ := of_pure h₄
    exact .moves picks hendpoint

/-- An assignment under the lock does not go back to a relay that is of no use. -/
theorem placed (hg : g.Sound) (hunsettled : g.Unsettled zone w)
    (h : Alone g (rules.assignLocked zone w).run l x g') :
    Placed rules zone w g (clockOf l) x g' := by
  obtain ⟨time, now, l₁, permits, rfl, h₁⟩ := h.performed
  obtain rfl : now = time := permits
  change Alone g _ l₁ x g' at h₁
  obtain ⟨binding, hbinding, hlost⟩ := id hunsettled
  obtain ⟨_, l₂, rfl, h₂⟩ := attempted h₁ fun _ => congrArg (·, g) hbinding
  show Placed rules zone w g (now :: clockOf l₂) x g'
  rcases h₂.andThen with ⟨e, -, h₃⟩ | ⟨l₃, found, g₃, l₄, rfl, h₃, h₄⟩
  · obtain ⟨-, -, _, hx, -⟩ := h₃.previousRelay hg hbinding
    cases hx
  rw [clockOf_append, h₃.clockOf_previousRelay, List.nil_append]
  obtain ⟨rfl, -, _, hx, hfound⟩ := h₃.previousRelay hg hbinding
  cases hx
  cases found with
  | some r => exact absurd ((hfound r).mp rfl) (hunsettled.not_keeps r)
  | none =>
    rcases h₄.andThen with ⟨e, rfl, h₅⟩ | ⟨l₅, r, g₅, l₆, rfl, h₅, h₆⟩
    · rw [h₅.clockOf_selectFromPool]
      obtain ⟨rfl, -, ⟨r, hx, -⟩ | ⟨hx, hfull⟩⟩ := h₅.selectFromPool hg
      · cases hx
      · cases hx
        exact .exhausted hfull
    · rw [clockOf_append, h₅.clockOf_selectFromPool, List.nil_append]
      obtain ⟨rfl, -, ⟨r, hx, hpicks⟩ | ⟨hx, -⟩⟩ := h₅.selectFromPool hg
      · cases hx
        exact placed_book hlost hpicks h₆
      · cases hx

end Alone

/-! ## Registries that differ in bindings -/

/-- An entry takes the same place whether or not there was one with its key. -/
theorem Table.insertEntry_filter {α : Type} (key : String) (a : α) {entries : List (String × α)}
    (h : Ascending entries) :
    insertEntry key a (entries.filter (·.1 ≠ key)) = insertEntry key a entries := by
  have hall : ∀ {l : List (String × α)}, (∀ e ∈ l, key < e.1) → l.filter (·.1 ≠ key) = l :=
    fun hl => List.filter_eq_self.mpr fun e he => by simpa using (String.ne_of_lt (hl e he)).symm
  induction entries with
  | nil => rfl
  | cons x rest ih =>
    obtain ⟨k, b⟩ := x
    obtain ⟨hk, hrest⟩ := List.pairwise_cons.mp h
    by_cases heq : k = key
    · subst heq
      rw [List.filter_cons_of_neg (by simp), hall hk]
      cases rest with
      | nil => simp [insertEntry]
      | cons y rest =>
        have hlt : k < y.1 := hk y List.mem_cons_self
        simp [insertEntry, hlt]
    · rw [List.filter_cons_of_pos (by simpa using heq)]
      by_cases hlt : key < k
      · rw [hall fun e he => String.lt_trans hlt (hk e he)]
      · simp only [insertEntry, hlt, Ne.symm heq, if_false, ih hrest]

/-- A binding that is written may have been removed before. -/
theorem Registry.putBinding_deleteBinding (g : Registry) (b : Binding) :
    (g.deleteBinding b.workloadId).2.putBinding b = g.putBinding b := by
  unfold putBinding deleteBinding Table.insert Table.erase
  simp only [Table.insertEntry_filter _ _ g.bindings.ascending]

/-- The policy picks by the relays alone. -/
theorem AssignRules.Picks.congr {rules : AssignRules} {zone : ZoneId} {g g₀ : Registry} {r : Relay}
    (hrelays : g₀.relays = g.relays) (h : rules.Picks zone g r) : rules.Picks zone g₀ r := by
  have heligible : ∀ x, rules.Eligible zone g₀ x ↔ rules.Eligible zone g x := fun x =>
    ⟨fun ⟨hrow, hstate, hzone, hroom⟩ =>
        ⟨Registry.relay?_congr hrelays x.id ▸ hrow, hstate, hzone, hroom⟩,
      fun ⟨hrow, hstate, hzone, hroom⟩ =>
        ⟨(Registry.relay?_congr hrelays x.id).trans hrow, hstate, hzone, hroom⟩⟩
  exact ⟨(heligible r).mpr h.eligible, fun x hx => h.preferred x ((heligible x).mp hx)⟩

/-- On the same relays such assignments answer the same and look at the clock as often. -/
theorem Placed.compare {rules : AssignRules} {zone : ZoneId} {w : WorkloadId}
    {g g' g₀ g₀' : Registry} {x x₀ : Except AllocError RelayEndpoint} {ρ ρ₀ : List Millis}
    (hrelays : g₀.relays = g.relays) (h : Placed rules zone w g ρ x g')
    (h₀ : Placed rules zone w g₀ ρ₀ x₀ g₀') : x₀ = x ∧ ρ₀.length = ρ.length := by
  have hsame : ∀ {r r₀}, rules.Picks zone g r → rules.Picks zone g₀ r₀ → r₀ = r :=
    fun picks picks₀ => (picks.congr hrelays).unique picks₀
  cases h with
  | exhausted full =>
    cases h₀ with
    | exhausted => exact ⟨rfl, rfl⟩
    | unreachable picks | moves picks => exact absurd (picks.congr hrelays.symm).eligible (full _)
  | unreachable picks endpoint_eq =>
    cases h₀ with
    | exhausted full => exact absurd (picks.congr hrelays).eligible (full _)
    | unreachable picks₀ endpoint_eq₀ =>
      obtain rfl := hsame picks picks₀
      cases endpoint_eq.symm.trans endpoint_eq₀
      exact ⟨rfl, rfl⟩
    | moves picks₀ endpoint_eq₀ =>
      obtain rfl := hsame picks picks₀
      cases endpoint_eq.symm.trans endpoint_eq₀
  | moves picks endpoint_eq =>
    cases h₀ with
    | exhausted full => exact absurd (picks.congr hrelays).eligible (full _)
    | unreachable picks₀ endpoint_eq₀ =>
      obtain rfl := hsame picks picks₀
      cases endpoint_eq.symm.trans endpoint_eq₀
    | moves picks₀ endpoint_eq₀ =>
      obtain rfl := hsame picks picks₀
      cases endpoint_eq.symm.trans endpoint_eq₀
      exact ⟨rfl, rfl⟩

/-- What an assignment leaves of a registry from which a binding of no use was removed. -/
theorem Placed.of_deleteBinding {rules : AssignRules} {zone : ZoneId} {w : WorkloadId}
    {g g' g₀' : Registry} {x : Except AllocError RelayEndpoint} {ρ : List Millis}
    (h : Placed rules zone w g ρ x g')
    (h₀ : Placed rules zone w (g.deleteBinding w).2 ρ x g₀') :
    (∀ endpoint, x = .ok endpoint → g₀' = g') ∧
      ∀ e, x = .error e → g' = g ∧ g₀' = (g.deleteBinding w).2 := by
  have hrelays : (g.deleteBinding w).2.relays = g.relays := rfl
  cases h with
  | exhausted full =>
    cases h₀ with
    | exhausted => exact ⟨nofun, fun _ _ => ⟨rfl, rfl⟩⟩
    | unreachable picks => exact absurd (picks.congr hrelays.symm).eligible (full _)
  | unreachable picks =>
    cases h₀ with
    | exhausted | unreachable => exact ⟨nofun, fun _ _ => ⟨rfl, rfl⟩⟩
  | @moves r endpoint now later picks =>
    cases h₀ with
    | @moves r₀ _ _ _ picks₀ =>
      obtain rfl : r₀ = r := (picks.congr hrelays).unique picks₀
      refine ⟨fun _ _ => ?_, nofun⟩
      rw [g.putBinding_deleteBinding ⟨w, some r₀.id, now⟩]

/-! ## Assignments -/

/-- A binding that was removed is gone. -/
theorem Registry.getBinding_deleteBinding (g : Registry) (w : WorkloadId) :
    (g.deleteBinding w).2.getBinding w = .ok none := by
  have hgone : (g.deleteBinding w).2.bindings.get? w = none :=
    (g.bindings.get?_erase w w).trans (if_pos rfl)
  rw [getBinding, hgone]

/-- A stale binding is of no use. -/
theorem Registry.Stale.unsettled {zone : ZoneId} {w : WorkloadId} {g : Registry}
    (h : g.Stale zone w) : g.Unsettled zone w := by
  obtain ⟨b, hb, hlost⟩ := h
  refine ⟨some b, hb, ?_⟩
  rintro _ ⟨⟩
  exact hlost

/-- How an assignment ends whose workload has no binding of use, and what the clock shows on the
way. -/
inductive Served (rules : AssignRules) (zone : ZoneId) (w : Workload) (g : Registry) :
    List Millis → Except AllocError RelayEndpoint → Registry → Prop
  | refused (phase : w.phase.isAssignable = false) :
    Served rules zone w g [] (.error (.notAssignable w.id w.phase)) g
  | late (phase : w.phase.isAssignable) :
    Served rules zone w g [] (.error (.lockTimeout ⟨allocationLockName, rules.lockTimeout⟩)) g
  | placed {ρ : List Millis} {x : Except AllocError RelayEndpoint} {g' : Registry}
    (phase : w.phase.isAssignable) (h : Placed rules zone w.id g ρ x g') :
    Served rules zone w g ρ x g'

/-- What an assignment answers, and what it leaves of a registry from which a binding of no use was
removed. -/
theorem Served.of_deleteBinding {rules : AssignRules} {zone : ZoneId} {w : Workload}
    {g g' g₀' : Registry} {x x₀ : Except AllocError RelayEndpoint} {ρ : List Millis}
    (h : Served rules zone w g ρ x g')
    (h₀ : Served rules zone w (g.deleteBinding w.id).2 ρ x₀ g₀') :
    x₀ = x ∧ (∀ endpoint, x = .ok endpoint → g₀' = g') ∧
      ∀ e, x = .error e → g' = g ∧ g₀' = (g.deleteBinding w.id).2 := by
  cases h with
  | refused phase =>
    cases h₀ with
    | refused => exact ⟨rfl, nofun, fun _ _ => ⟨rfl, rfl⟩⟩
    | late phase₀ | placed phase₀ =>
      rw [phase] at phase₀
      cases phase₀
  | late phase =>
    cases h₀ with
    | refused phase₀ =>
      rw [phase] at phase₀
      cases phase₀
    | late => exact ⟨rfl, nofun, fun _ _ => ⟨rfl, rfl⟩⟩
    | placed _ h₀ => cases h₀
  | placed phase h =>
    cases h₀ with
    | refused phase₀ =>
      rw [phase] at phase₀
      cases phase₀
    | late => cases h
    | placed _ h₀ =>
      have hrelays : (g.deleteBinding w.id).2.relays = g.relays := rfl
      obtain rfl := (h.compare hrelays h₀).1
      exact ⟨rfl, h.of_deleteBinding h₀⟩

namespace GoesThrough

variable {ι : Type} [DecidableEq ι] {i : ι} {s s' s₀ s₀' : System ι Outcome}
  {h h₀ : List (Moment ι Outcome)} {rules : AssignRules} {zone : ZoneId} {w : Workload}
  {x x₀ : Except AllocError RelayEndpoint}

/-- An assignment whose workload has no binding of use. -/
theorem served (hg : s.registry.Sound) (hunsettled : s.registry.Unsettled zone w.id)
    (through : GoesThrough (Operation.assign rules zone w).program i s h s' (.assigned x)) :
    Served rules zone w s.registry (clockOf (h.map Moment.deed)) x s'.registry := by
  obtain ⟨hfits, -⟩ := through.run.fits through.lone
  rcases through.alone_assign.assign_cases with ⟨hphase, hl, rfl, hsame⟩ |
    ⟨hphase, time, e, hl, rfl, hsame⟩ | ⟨hphase, time, l, time', hl, hlocked⟩
  · rw [hl, hsame]
    exact .refused hphase
  · rw [hl] at hfits ⊢
    obtain ⟨rfl, -⟩ := hfits
    rw [hsame]
    exact .late hphase
  · rw [hl, clockOf_within]
    exact .placed hphase (hlocked.placed hg hunsettled)

/-- An assignment whose workload has no binding of use can go through on the same relays as on
another registry. -/
theorem exists_served (hg : s.registry.Sound) (hunsettled : s.registry.Unsettled zone w.id)
    (hg₀ : s₀.registry.Sound) (hunsettled₀ : s₀.registry.Unsettled zone w.id)
    (hrelays : s₀.registry.relays = s.registry.relays) (hholder : s₀.holder = s.holder)
    (hbegins : s₀.calls i = s.calls i)
    (through : GoesThrough (Operation.assign rules zone w).program i s h s' (.assigned x)) :
    ∃ h₀ s₀', GoesThrough (Operation.assign rules zone w).program i s₀ h₀ s₀' (.assigned x) ∧
      clockOf (h₀.map Moment.deed) = clockOf (h.map Moment.deed) := by
  suffices ∃ l g', Alone s₀.registry (rules.assign zone w) l x g' ∧ Fits i s₀.holder l ∧
      clockOf l = clockOf (h.map Moment.deed) by
    obtain ⟨l, g', alone, hfits, hclock⟩ := this
    have hprogram : Alone s₀.registry (Operation.assign rules zone w).program l (.assigned x)
        g' := by
      rw [← List.append_nil l]
      exact alone.followed .pure
    obtain ⟨h₀, s₀', through₀, hdeeds, -⟩ :=
      hprogram.goesThrough (hbegins.trans through.begins) hfits
    exact ⟨h₀, s₀', through₀, hdeeds ▸ hclock⟩
  rw [hholder]
  obtain ⟨hfits, -⟩ := through.run.fits through.lone
  rcases through.alone_assign.assign_cases with ⟨hphase, hl, rfl, -⟩ |
    ⟨hphase, time, e, hl, rfl, -⟩ | ⟨hphase, time, l, time', hl, hlocked⟩
  · rw [hl, AssignRules.assign, if_pos (by simp [hphase])]
    exact ⟨[], _, .pure, trivial, rfl⟩
  · rw [hl] at hfits ⊢
    rw [AssignRules.assign, if_neg (by simp [hphase])]
    exact ⟨[⟨s₀.registry, .acquire rules.lockTimeout, time, .error e⟩], _, .ask trivial .pure,
      ⟨hfits.1, trivial⟩, rfl⟩
  · rw [hl] at hfits ⊢
    have hfree : s.holder = none := hfits.1
    obtain ⟨l₀, x₀, g₀', hlocked₀, hclock⟩ :=
      exists_alone_reading (rules.assignLocked zone w.id).run (clockOf l) s₀.registry
    obtain ⟨rfl, hlength⟩ :=
      (hlocked.placed hg hunsettled).compare hrelays (hlocked₀.placed hg₀ hunsettled₀)
    obtain ⟨alone, hfits₀⟩ := hlocked₀.assign_of_locked hphase i 0
    refine ⟨_, _, alone, hfree ▸ hfits₀, ?_⟩
    rw [clockOf_within]
    refine (clockOf_within _ _ _ _ _ l₀).trans ?_
    rcases hclock with hclock | hclock
    · exact hclock.eq_of_length hlength
    · exact (hclock.eq_of_length hlength.symm).symm

/-- **A stale binding is the same as none.** The rows of a registry decode and stand under their own
ids, and the binding of a workload is stale in the zone for which the workload asks. Compared are
assignments that nobody interrupts on this registry and on the one without the binding, while the
clock shows the same wherever it is put down (a call that gets the lock looks at the clock, so both
get the lock or neither does). They answer the same. Where they succeed the registries are equal
afterwards, and where they fail both are as they were. What can be answered on the one registry
while the clock shows this or that can be answered on the other one. -/
theorem assign_stale (hg : s.registry.Sound) (hstale : s.registry.Stale zone w.id)
    (hreg : s₀.registry = (s.registry.deleteBinding w.id).2) :
    (∀ h s' x h₀ s₀' x₀,
      GoesThrough (Operation.assign rules zone w).program i s h s' (.assigned x) →
      GoesThrough (Operation.assign rules zone w).program i s₀ h₀ s₀' (.assigned x₀) →
      clockOf (h₀.map Moment.deed) = clockOf (h.map Moment.deed) →
      x₀ = x ∧ (∀ endpoint, x = .ok endpoint → s₀'.registry = s'.registry) ∧
        ∀ e, x = .error e → s'.registry = s.registry ∧ s₀'.registry = s₀.registry) ∧
    (s₀.holder = s.holder → s₀.calls i = s.calls i → ∀ x readings,
      (∃ h s', GoesThrough (Operation.assign rules zone w).program i s h s' (.assigned x) ∧
        clockOf (h.map Moment.deed) = readings) ↔
      ∃ h₀ s₀', GoesThrough (Operation.assign rules zone w).program i s₀ h₀ s₀' (.assigned x) ∧
        clockOf (h₀.map Moment.deed) = readings) := by
  have hrelays : s₀.registry.relays = s.registry.relays := hreg ▸ rfl
  have hg₀ : s₀.registry.Sound := hg.congr hrelays
  have hunsettled := hstale.unsettled
  have hunsettled₀ : s₀.registry.Unsettled zone w.id :=
    ⟨none, hreg ▸ s.registry.getBinding_deleteBinding w.id, nofun⟩
  constructor
  · intro h s' x h₀ s₀' x₀ through through₀ hclock
    have served := through.served hg hunsettled
    have served₀ := through₀.served hg₀ hunsettled₀
    rw [hclock] at served₀
    rw [hreg] at served₀ ⊢
    exact served.of_deleteBinding served₀
  · intro hholder hbegins x readings
    constructor
    · rintro ⟨h, s', through, rfl⟩
      exact through.exists_served hg hunsettled hg₀ hunsettled₀ hrelays hholder hbegins
    · rintro ⟨h₀, s₀', through₀, rfl⟩
      exact through₀.exists_served hg₀ hunsettled₀ hg hunsettled hrelays.symm hholder.symm
        hbegins.symm

end GoesThrough

/-- The relay to which the workload is bound is gone, and another one is idle. -/
def orphanedRegistry : Registry :=
  returningRegistry.withRow idleRelay.id idleRelay

/-- The workload of a relay that is gone gets the idle one, and nothing tells afterwards that it was
bound before. -/
theorem GoesThrough.assign_stale_gone :
    let call : Operation := .assign returningRules "zone-a" ⟨"w", .running⟩
    ∃ (h h₀ : List (Moment Unit Outcome)) (s' s₀' : System Unit Outcome),
      GoesThrough call.program () (.start orphanedRegistry fun _ => call.program) h s'
        (.assigned (.ok { returningEndpoint with relayId := idleRelay.id })) ∧
      GoesThrough call.program ()
        (.start (orphanedRegistry.deleteBinding "w").2 fun _ => call.program) h₀ s₀'
        (.assigned (.ok { returningEndpoint with relayId := idleRelay.id })) ∧
      s₀'.registry = s'.registry := by
  intro call
  have hg : orphanedRegistry.Sound := Registry.Sound.withRow (Registry.sound_empty.congr rfl) rfl
  have hrow : ∀ id r, orphanedRegistry.relay? id = some r → id = idleRelay.id ∧ r = idleRelay := by
    intro id r hr
    rw [orphanedRegistry, Registry.relay?_withRow] at hr
    split at hr
    · next hid => exact ⟨hid, (Option.some.inj hr).symm⟩
    · cases hr
  have hstale : orphanedRegistry.Stale "zone-a" "w" := by
    have hbinding : orphanedRegistry.getBinding "w" =
        .ok (some ⟨"w", some (Registry.relayId 1), 0⟩) := by
      rw [orphanedRegistry, Registry.getBinding_withRow, getBinding_returningRegistry]
    refine ⟨_, hbinding, fun id r hid hr => ?_⟩
    cases hid
    exact absurd (hrow _ r hr).1 (by decide)
  have eligible : returningRules.Eligible "zone-a" orphanedRegistry idleRelay :=
    ⟨Registry.relay?_withRow_self .., rfl, rfl, by decide⟩
  let s : System Unit Outcome := .start orphanedRegistry fun _ => call.program
  let s₀ : System Unit Outcome :=
    .start (orphanedRegistry.deleteBinding "w").2 fun _ => call.program
  obtain ⟨l, x, g', alone, hfits, -, hlock⟩ :=
    Alone.exists_assign (w := ⟨"w", .running⟩) returningRules "zone-a" () rfl 0 orphanedRegistry
  obtain ⟨h, s', through, -, -⟩ := Alone.goesThrough
    (show Alone s.registry call.program (l ++ []) (.assigned x) g' from alone.followed .pure)
    (s := s) rfl (by rwa [List.append_nil])
  have hx : x = .ok { returningEndpoint with relayId := idleRelay.id } := by
    obtain ⟨ρ, g', served⟩ :
        ∃ ρ g', Served returningRules "zone-a" ⟨"w", .running⟩ orphanedRegistry ρ x g' :=
      ⟨_, _, GoesThrough.served (s := s) hg hstale.unsettled through⟩
    cases served with
    | refused phase => cases phase
    | late => exact absurd rfl (hlock _)
    | placed _ placed =>
      cases placed with
      | exhausted full => exact absurd eligible (full _)
      | @unreachable r _ _ picks endpoint_eq =>
        obtain rfl := (hrow _ r picks.eligible.row).2
        cases endpoint_eq
      | @moves r _ _ _ picks endpoint_eq =>
        obtain rfl := (hrow _ r picks.eligible.row).2
        exact endpoint_eq.symm
  have hreg : s₀.registry = (s.registry.deleteBinding "w").2 := rfl
  obtain ⟨hsame, hother⟩ :=
    GoesThrough.assign_stale (s := s) (i := ()) (w := ⟨"w", .running⟩) hg hstale hreg
  obtain ⟨h₀, s₀', through₀, hclock⟩ := (hother rfl rfl x _).mp ⟨h, s', through, rfl⟩
  obtain ⟨-, hregistry, -⟩ := hsame h s' x h₀ s₀' x through through₀ hclock
  subst hx
  exact ⟨h, h₀, s', s₀', through, through₀, hregistry _ rfl⟩

end RelayFleet
