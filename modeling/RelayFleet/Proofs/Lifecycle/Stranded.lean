import RelayFleet.Proofs.Lifecycle.Effect
import RelayFleet.Proofs.Scan.Operations

/-!
# Relays that nobody sees to any more

A relay that is starting, stopping, being fenced or being destroyed is seen to by the call that
moved it there, with one exception: a stop that fails gives the relay the state back that it was in
when the stop began, and a boot or a fencing that was going on then may have ended since. So a relay
whose calls are all over is stopped, running or migrating unless a failed stop left it `starting` or
`ha`, which does happen (`Run.settled_iff`, `Run.stranding`).
-/

namespace RelayFleet

open Protocol

/-- A state in which nothing is owed to a relay. -/
def RelayState.IsSettled (s : RelayState) : Prop := s = .stopped ∨ s = .running ∨ s = .migrating

section
variable {ι α : Type} {s₀ s s' : System ι α} {h : List (Moment ι α)}
  {φ : ι → Stage} {φ' : Stage} {m : Move ι} {id : RelayId} {x : RelayState}

/-- The provisioner could not stop a relay. -/
def Move.FailsStop (m : Move ι) (id : RelayId) : Prop :=
  ∃ time e, m = ⟨m.caller, .provision (.stop id), time, .error e⟩

/-- The relay is in state `x`. -/
def Registry.IsIn (g : Registry) (id : RelayId) (x : RelayState) : Prop :=
  ∃ r, g.relay? id = some r ∧ r.state = x

/-- A stop of the relay failed, its caller gave the relay back state `x`, and the relay has been in
this state ever since. -/
def GivenBack (h : List (Moment ι α)) (s : System ι α) (id : RelayId) (x : RelayState) : Prop :=
  ∃ h₁ e h₂, h = h₁ ++ e :: h₂ ∧ e.move.action = .transact (.restoring id x) ∧
    (∃ f ∈ h₁, f.move.caller = e.move.caller ∧ f.move.FailsStop id) ∧
    (∀ f ∈ h₂, f.before.registry.IsIn id x) ∧ s.registry.IsIn id x

/-- The relay stays as it was given back. -/
theorem GivenBack.snoc (hback : GivenBack h s id x) (hin : s'.registry.IsIn id x) :
    GivenBack (h ++ [⟨s, m⟩]) s' id x := by
  obtain ⟨h₁, e, h₂, rfl, haction, hfails, hsince, hnow⟩ := hback
  refine ⟨h₁, e, h₂ ++ [⟨s, m⟩], by simp, haction, hfails, fun f hf => ?_, hin⟩
  rcases List.mem_append.mp hf with hf | hf
  · exact hsince f hf
  · rw [List.mem_singleton.mp hf]
    exact hnow

/-! ## The states that are given back -/

/-- The state that is to be given back is one from which the operation was legal. -/
def Duty.IsSourced : Duty → Prop
  | .stopping _ x | .stopFailed _ x => x = .starting ∨ x = .running ∨ x = .ha ∨ x = .migrating
  | .destroying _ x | .destroyFailed _ x => x = .stopped
  | _ => True

/-- A state that is put by is one from which the operation was legal. -/
theorem Duty.isSourced_next (d : Duty) (op : RelayOp) (id : RelayId) (s : RelayState) :
    (d.next op id s).IsSourced := by
  simp only [Duty.next]
  split
  case h_5 hs => cases s <;> simp_all [nextState, IsSourced]
  case h_6 hs => cases s <;> simp_all [nextState, IsSourced]
  all_goals trivial

/-- Every step keeps what is put by. -/
theorem Stage.Step.isSourced {rights : Rights} {φ φ' : Stage} {a : Action} {r : a.Reply}
    (hs : Stage.Step rights φ a r φ') (h : φ.duty.IsSourced) : φ'.duty.IsSourced := by
  cases hs with
  | looks | switches => exact h
  | operates => exact Duty.isSourced_next _ _ _ _
  | provisions calls => cases calls <;> first | exact h | trivial
  | _ => trivial

/-- Only a failed stop leads to giving back a state to a relay that was to be stopped. -/
theorem Stage.Step.failsStop {rights : Rights} {φ φ' : Stage} {m : Move ι}
    (hs : Stage.Step rights φ m.action m.reply φ') (h : φ'.duty = .stopFailed id x) :
    φ.duty = .stopFailed id x ∨ m.FailsStop id := by
  obtain ⟨i, a, time, r⟩ := m
  cases hs with
  | looks | switches => exact .inl h
  | @operates _ d _ choose _ change =>
    refine absurd h ?_
    generalize choose change.before = op
    simp only [Duty.next]
    split <;> simp
  | provisions calls => cases calls <;> cases h; exact .inr ⟨time, _, rfl⟩
  | _ => cases h

/-! ## Who sees to a relay -/

variable [DecidableEq ι]

/-- A relay in state `x` needs nothing, or is seen to, or was left there by a failed stop. -/
def Accounted (h : List (Moment ι α)) (s : System ι α) (φ : ι → Stage) (id : RelayId)
    (x : RelayState) : Prop :=
  x.IsSettled ∨ (∃ i, (φ i).duty.Tends id x) ∨ (x = .starting ∨ x = .ha) ∧ GivenBack h s id x

/-- A relay whose state is not touched stays accounted for. -/
theorem Accounted.snoc (hx : Accounted h s φ id x) (hin : s'.registry.IsIn id x)
    (htends : (φ m.caller).duty.Tends id x → φ'.duty.Tends id x) :
    Accounted (h ++ [⟨s, m⟩]) s' (Function.update φ m.caller φ') id x := by
  rcases hx with hx | ⟨i, hi⟩ | ⟨hx, hback⟩
  · exact .inl hx
  · refine .inr (.inl ⟨i, ?_⟩)
    by_cases hc : i = m.caller
    · subst hc
      simpa using htends hi
    · simpa [Function.update_of_ne hc] using hi
  · exact .inr (.inr ⟨hx, hback.snoc hin⟩)

/-- Every relay is accounted for. -/
structure SeenTo (h : List (Moment ι α)) (s : System ι α) (φ : ι → Stage) : Prop where
  sound : s.registry.Sound
  isSourced : ∀ i, (φ i).duty.IsSourced
  failsStop : ∀ i id x, (φ i).duty = .stopFailed id x →
    ∃ f ∈ h, f.move.caller = i ∧ f.move.FailsStop id
  accounted : ∀ id r, s.registry.relay? id = some r → Accounted h s φ id r.state

/-- A relay whose row was written is accounted for if the state in it is, and so are the others. -/
theorem SeenTo.accounted_withRow (inv : SeenTo h s φ) {r : Relay}
    (hwrite : s'.registry = s.registry.withRow id r)
    (hid : Accounted (h ++ [⟨s, m⟩]) s' (Function.update φ m.caller φ') id r.state)
    (hown : ∀ k x, (φ m.caller).duty.Tends k x → k = id) (k : RelayId) (r' : Relay)
    (hr' : s'.registry.relay? k = some r') :
    Accounted (h ++ [⟨s, m⟩]) s' (Function.update φ m.caller φ') k r'.state := by
  have hr := hr'
  rw [hwrite, Registry.relay?_withRow] at hr
  by_cases hk : k = id
  · rw [if_pos hk] at hr
    cases hr
    exact hk ▸ hid
  · rw [if_neg hk] at hr
    exact (inv.accounted k r' hr).snoc ⟨r', hr', rfl⟩ fun ht => absurd (hown k _ ht) hk

/-- A call that has to give back a state to a relay it was to stop has seen the stop fail. -/
theorem SeenTo.failsStop_step {rights : Rights} (inv : SeenTo h s φ)
    (hp : Stage.Step rights (φ m.caller) m.action m.reply φ') (i : ι) (id : RelayId)
    (x : RelayState) (hi : (Function.update φ m.caller φ' i).duty = .stopFailed id x) :
    ∃ f ∈ h ++ [⟨s, m⟩], f.move.caller = i ∧ f.move.FailsStop id := by
  have hold : (φ i).duty = .stopFailed id x →
      ∃ f ∈ h ++ [⟨s, m⟩], f.move.caller = i ∧ f.move.FailsStop id := by
    intro hi
    obtain ⟨f, hf, hfi⟩ := inv.failsStop i id x hi
    exact ⟨f, List.mem_append_left _ hf, hfi⟩
  by_cases hc : i = m.caller
  · subst hc
    rw [Function.update_self] at hi
    rcases hp.failsStop hi with hi | hm
    · exact hold hi
    · exact ⟨⟨s, m⟩, by simp, rfl, hm⟩
  · rw [Function.update_of_ne hc] at hi
    exact hold hi

/-- Operations keep relays accounted for. -/
theorem SeenTo.accounted_moves {rights : Rights} (inv : SeenTo h s φ) {hold : Hold} {d : Duty}
    {op : RelayOp} {r r' : Relay} (hduty : (φ m.caller).duty = d)
    (hduty' : φ'.duty = d.next op id r.state) (hr : s.registry.relay? id = some r)
    (asks : d.Asks rights hold op id) (hmoved : r.Moved op r')
    (hwrite : s'.registry = s.registry.withRow id r') (k : RelayId) (r₁ : Relay)
    (hr₁ : s'.registry.relay? k = some r₁) :
    Accounted (h ++ [⟨s, m⟩]) s' (Function.update φ m.caller φ') k r₁.state := by
  refine inv.accounted_withRow hwrite ?_ ?_ k r₁ hr₁
  · have hstate := hmoved.state_eq
    have hin : s'.registry.IsIn id (r.state.after op) :=
      ⟨r', by simp [hwrite, Registry.relay?_withRow], hstate⟩
    rw [hstate]
    rcases Duty.tends_next asks r.state with hx | hx | ⟨hx, hnot⟩
    · exact .inl hx
    · exact .inr (.inl ⟨m.caller, by simpa [hduty'] using hx⟩)
    · -- the relay stays in a state that the caller was not to see to
      rw [hx] at hin ⊢
      refine (inv.accounted id r hr).snoc hin ?_
      intro ht
      rw [hduty] at ht
      exact absurd ht hnot
  · intro k x ht
    rw [hduty] at ht
    exact asks.eq_of_tends ht

/-- Giving back a state keeps relays accounted for: the one that gets back a state of a boot or a
fencing was given it back by a failed stop. -/
theorem SeenTo.accounted_restores (inv : SeenTo h s φ) {d : Duty} {r' : Relay}
    (hduty : (φ m.caller).duty = d) (hd : d = .stopFailed id x ∨ d = .destroyFailed id x)
    (haction : m.action = .transact (.restoring id x)) (hstate : r'.state = x)
    (hwrite : s'.registry = s.registry.withRow id r') (k : RelayId) (r₁ : Relay)
    (hr₁ : s'.registry.relay? k = some r₁) :
    Accounted (h ++ [⟨s, m⟩]) s' (Function.update φ m.caller φ') k r₁.state := by
  refine inv.accounted_withRow hwrite ?_ ?_ k r₁ hr₁
  · have hin : s'.registry.IsIn id x := ⟨r', by simp [hwrite, Registry.relay?_withRow], hstate⟩
    have hsource := inv.isSourced m.caller
    rw [hduty] at hsource
    rw [hstate]
    rcases hd with rfl | rfl
    · obtain ⟨f, hf, hcaller, hfails⟩ := inv.failsStop _ _ _ hduty
      have hback : GivenBack (h ++ [⟨s, m⟩]) s' id x :=
        ⟨h, ⟨s, m⟩, [], rfl, haction, ⟨f, hf, hcaller, hfails⟩, by simp, hin⟩
      rcases hsource with rfl | rfl | rfl | rfl
      · exact .inr (.inr ⟨.inl rfl, hback⟩)
      · exact .inl (.inr (.inl rfl))
      · exact .inr (.inr ⟨.inr rfl, hback⟩)
      · exact .inl (.inr (.inr rfl))
    · exact .inl (.inl hsource)
  · intro k y ht
    rw [hduty] at ht
    exact Duty.eq_of_tends_of_failed hd ht

/-- Removing a relay keeps the others accounted for. -/
theorem SeenTo.accounted_removes (inv : SeenTo h s φ) (hduty : (φ m.caller).duty = .gone id)
    (hwrite : s'.registry = s.registry.withoutRow id) (k : RelayId) (r₁ : Relay)
    (hr₁ : s'.registry.relay? k = some r₁) :
    Accounted (h ++ [⟨s, m⟩]) s' (Function.update φ m.caller φ') k r₁.state := by
  have hr := hr₁
  rw [hwrite, Registry.relay?_withoutRow] at hr
  by_cases hne : k = id
  · simp [hne] at hr
  · rw [if_neg hne] at hr
    refine (inv.accounted k r₁ hr).snoc ⟨r₁, hr₁, rfl⟩ ?_
    intro ht
    rw [hduty] at ht
    cases hr : r₁.state <;> rw [hr] at ht <;> first | exact absurd ht.symm hne | cases ht

/-- Every step keeps relays accounted for. -/
theorem SeenTo.step {rights : Rights} (inv : SeenTo h s φ) (hs : RelayFleet.Step s m s')
    (hp : Stage.Step rights (φ m.caller) m.action m.reply φ') :
    SeenTo (h ++ [⟨s, m⟩]) s' (Function.update φ m.caller φ') := by
  have heffect := hp.effect_of_step hs inv.sound
  refine ⟨heffect.sound inv.sound, ?_, inv.failsStop_step hp, ?_⟩
  · intro i
    by_cases hc : i = m.caller
    · subst hc
      simpa using hp.isSourced (inv.isSourced _)
    · simpa [Function.update_of_ne hc] using inv.isSourced i
  · generalize hstage : φ m.caller = ψ at heffect
    generalize hact : m.action = a at heffect
    generalize hreg : s'.registry = g at heffect
    have hduty : (φ m.caller).duty = ψ.duty := by rw [hstage]
    cases heffect with
    | keeps relays tends =>
      intro id r hr
      have hr₀ : s.registry.relay? id = some r := (Registry.relay?_congr relays id).symm.trans hr
      exact (inv.accounted id r hr₀).snoc ⟨r, hreg ▸ hr, rfl⟩ (hstage ▸ tends id r hr₀)
    | moves hr asks hmoved => exact hreg ▸ inv.accounted_moves hduty rfl hr asks hmoved hreg
    | restores hd _ _ hstate => exact hreg ▸ inv.accounted_restores hduty hd hact hstate hreg
    | removes => exact hreg ▸ inv.accounted_removes hduty hreg
    | stores hstate =>
      refine hreg ▸ inv.accounted_withRow hreg (.inl (.inl hstate)) ?_
      intro k y ht
      rw [hduty] at ht
      cases y <;> cases ht

/-- In a run of calls that treat relays well, from a registry without relays, every relay is
accounted for. -/
theorem Run.seenTo {rights : Rights} {g : Registry} {calls : ι → Fleet α} {Q : ι → Stage → α → Prop}
    (hg : g.Sound) (hempty : ∀ id, g.relay? id = none)
    (hcalls : ∀ i, (conduct rights Registry.Sound).Follows .rest (calls i) (Q i))
    (run : Run (System.start g calls) h s) :
    ∃ φ, SeenTo h s φ ∧ ∀ i, (conduct rights Registry.Sound).Follows (φ i) (s.calls i) (Q i) := by
  refine run.follows hcalls ?_ (fun _ _ _ inv => inv.sound)
    fun _ _ _ _ _ _ _ inv hs hp => inv.step hs hp
  refine ⟨hg, fun _ => trivial, fun i id x hi => (by cases hi), ?_⟩
  intro id r hr
  rw [System.start, hempty] at hr
  cases hr

end

/-! ## Runs of lifecycle calls -/

/-- What the operations on relays may do. -/
def Rights.ofOperators : Rights where
  rules := default
  operates _ := True
  creates := True
  switches := False

/-- A call of the lifecycle. -/
def Operation.IsLifecycle : Operation → Prop
  | create _ _ | start _ | stop _ | destroy _ | reboot _ | agentDisconnected _
  | migrationStarted _ | migrationCompleted _ => True
  | _ => False

/-- A call of the lifecycle follows the protocol of calls. -/
theorem Operation.IsLifecycle.follows {op : Operation} (h : op.IsLifecycle) :
    (conduct .ofOperators Registry.Sound).Follows .rest op.program fun φ _ => φ = .rest := by
  refine Operation.IsAllowed.follows ?_
  cases op with
  | migrationCompleted => exact fun _ => trivial
  | assign | report | expand | pass | tick | setMode | resumeMode => cases h
  | _ => trivial

/-- A relay is made, started and stopped. -/
def strandingCalls : Fin 3 → Operation
  | 0 => .create "zone-a" default
  | 1 => .start (Registry.relayId 1)
  | 2 => .stop (Registry.relayId 1)

/-- These calls are of the lifecycle. -/
theorem isLifecycle_strandingCalls : ∀ i, (strandingCalls i).IsLifecycle
  | 0 => trivial
  | 1 => trivial
  | 2 => trivial

/-- The stop begins while the relay boots, and fails when the boot is over. -/
theorem Run.stranding :
    ∃ (h : List (Moment (Fin 3) Outcome)) (s : System (Fin 3) Outcome) (r : Relay),
      Run (System.start .empty fun i => (strandingCalls i).program) h s ∧ s.Finished ∧
      s.registry.relay? (Registry.relayId 1) = some r ∧ r.state = .starting := by
  let s₀ : System (Fin 3) Outcome := .start .empty fun i => (strandingCalls i).program
  let r (x : RelayState) : Relay :=
    { Relay.fresh 0 (Registry.relayId 1) "zone-a" none 0 with state := x }
  have hg : ({ Registry.empty with sequence := 1 } : Registry).Sound := Registry.sound_empty
  have created := (((((Run.start : Run s₀ [] s₀).perform
    0 rfl 0 (.ok (Registry.relayId 1)) rfl).perform 0 rfl 0 (.ok ⟨none, 0⟩) trivial).perform
    0 rfl 0 0 rfl).perform 0 rfl 0 (.ok ()) rfl).perform 0 rfl 0 () trivial
  have starting := created.changeRow hg rfl rfl 1 rfl 0 (r .starting) rfl
  have stopping := starting.changeRow hg rfl rfl 2 rfl 0 (r .stopping) rfl
  have booted := (stopping.perform 1 rfl 0 (.ok ()) trivial).changeRow
    hg rfl rfl 1 rfl 0 (r .stopping) rfl
  have restored := (booted.perform
    2 rfl 0 (.error ⟨.stop, "timeout"⟩) trivial).changeRow hg rfl rfl 2 rfl 0 (r .starting) rfl
  refine ⟨_, _, r .starting, restored, fun i => ?_, Registry.relay?_withRow_self _ _ _, rfl⟩
  match i with
  | 0 => exact ⟨_, rfl⟩
  | 1 => exact ⟨_, rfl⟩
  | 2 => exact ⟨_, rfl⟩

/-- A relay of which no call is left is settled, or a failed stop gave it back `starting` or `ha`,
and nothing has moved it since. -/
theorem Run.settled_or_givenBack {ι : Type} [DecidableEq ι] {calls : ι → Operation}
    (hcalls : ∀ i, (calls i).IsLifecycle) {h : List (Moment ι Outcome)} {s : System ι Outcome}
    (run : Run (System.start .empty fun i => (calls i).program) h s) (hfinished : s.Finished)
    {id : RelayId} {r : Relay} (hr : s.registry.relay? id = some r) :
    r.state.IsSettled ∨ (r.state = .starting ∨ r.state = .ha) ∧ GivenBack h s id r.state := by
  obtain ⟨φ, inv, hφ⟩ := run.seenTo Registry.sound_empty (fun _ => rfl) fun i => (hcalls i).follows
  rcases inv.accounted id r hr with hx | ⟨i, hi⟩ | hx
  · exact .inl hx
  · -- the call that sees to the relay is over, so it has no duty
    obtain ⟨a, ha⟩ := hfinished i
    have hrest := hφ i
    rw [ha] at hrest
    have hrest : φ i = .rest := hrest
    rw [hrest] at hi
    cases hx : r.state <;> rw [hx] at hi <;> cases hi
  · exact .inr hx

/-- **Relays are left alone in an unfinished state by failed stops only.** When any number of
lifecycle calls, run from a registry without relays in any order of steps and with any outcomes of
the provisioner, are over, all relays are stopped, running or migrating if and only if there is none
to which a failed stop gave back `starting` or `ha` and that nothing has moved since. -/
theorem Run.settled_iff {ι : Type} [DecidableEq ι] {calls : ι → Operation}
    (hcalls : ∀ i, (calls i).IsLifecycle) {h : List (Moment ι Outcome)} {s : System ι Outcome}
    (run : Run (System.start .empty fun i => (calls i).program) h s) (hfinished : s.Finished) :
    (∀ id r, s.registry.relay? id = some r → r.state.IsSettled) ↔
      ∀ id, ¬ GivenBack h s id .starting ∧ ¬ GivenBack h s id .ha := by
  constructor
  · intro hsettled id
    have hnot : ∀ x, ¬ RelayState.IsSettled x → ¬ GivenBack h s id x := by
      rintro x hx ⟨-, -, -, -, -, -, -, r, hr, rfl⟩
      exact hx (hsettled id r hr)
    exact ⟨hnot _ (by simp [RelayState.IsSettled]), hnot _ (by simp [RelayState.IsSettled])⟩
  · intro hnone id r hr
    rcases run.settled_or_givenBack hcalls hfinished hr with hx | ⟨hx | hx, hback⟩
    · exact hx
    · exact absurd (hx ▸ hback) (hnone id).1
    · exact absurd (hx ▸ hback) (hnone id).2

/-- There is a run at whose end a failed stop has given a relay back as `starting` or `ha`. -/
theorem Run.settled_iff_stranding :
    ∃ (h : List (Moment (Fin 3) Outcome)) (s : System (Fin 3) Outcome),
      Run (System.start .empty fun i => (strandingCalls i).program) h s ∧ s.Finished ∧
      ∃ id, GivenBack h s id .starting ∨ GivenBack h s id .ha := by
  obtain ⟨h, s, r, run, hfinished, hr, hx⟩ := Run.stranding
  refine ⟨h, s, run, hfinished, ?_⟩
  by_contra hnone
  have hsettled := (Run.settled_iff isLifecycle_strandingCalls run hfinished).mpr fun id =>
    ⟨fun hback => hnone ⟨id, .inl hback⟩, fun hback => hnone ⟨id, .inr hback⟩⟩
  have hunsettled := hsettled _ r hr
  simp [hx, RelayState.IsSettled] at hunsettled

/-- It is not so that relays are always stopped, running or migrating when all calls are over. -/
theorem Run.not_always_settled :
    ¬ ∀ (calls : Fin 3 → Operation), (∀ i, (calls i).IsLifecycle) →
      ∀ (h : List (Moment (Fin 3) Outcome)) (s : System (Fin 3) Outcome),
        Run (System.start .empty fun i => (calls i).program) h s → s.Finished →
        ∀ id r, s.registry.relay? id = some r → r.state.IsSettled := by
  intro hclaim
  obtain ⟨h, s, r, run, hfinished, hr, hx⟩ := Run.stranding
  have hsettled := hclaim strandingCalls isLifecycle_strandingCalls h s run hfinished _ r hr
  simp [hx, RelayState.IsSettled] at hsettled

end RelayFleet
