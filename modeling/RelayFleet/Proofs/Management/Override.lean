import RelayFleet.Proofs.Lifecycle.Boot
import RelayFleet.Proofs.Management.Drain

/-!
# What becomes of a switch

A switch has found or stored its mode (`Moment.Confirms`) when it returns. Calls that go on then may
still store another mode: a tick that has read `suspending` stores `resetSuspending` after its last
stop, a tick that ends a drain stores what it takes for the mode before, and another switch may have
read the mode earlier (`Moment.Overrides`). The mode of a switch is the stored one exactly if none
of this has come after it (`Run.keeps_iff`).
-/

namespace RelayFleet

open Protocol

/-! ## The stored mode -/

namespace Registry

/-- The stored mode is `m`. -/
def InMode (g : Registry) (m : Mode) : Prop := ∃ r, g.getMode = .ok r ∧ r.current = m

variable {g g' : Registry} {m : Mode}

/-- It is known from the record that is read. -/
theorem inMode_iff {r : ModeRecord} (h : g.getMode = .ok r) : g.InMode m ↔ r.current = m := by
  simp [InMode, h]

/-- It is the same while the same is read. -/
theorem inMode_congr (h : g'.getMode = g.getMode) : g'.InMode m ↔ g.InMode m := by
  rw [InMode, h, InMode]

end Registry

/-! ## Confirmed and overridden modes -/

section
variable {ι α : Type}

/-- A mode is stored. -/
def Moment.Stores (m : Mode) (e : Moment ι α) : Prop :=
  ∃ r, e.move.action = .transact (.putMode r) ∧ r.current = m

/-- The call finds or stores the mode. -/
def Moment.Confirms (i : ι) (m : Mode) (e : Moment ι α) : Prop :=
  e.move.caller = i ∧ (e.move.action = .transact .getMode ∧ e.InMode m ∨ e.Stores m)

/-- A call stores another mode than `m`. -/
inductive Moment.Overrides (calls : ι → Operation) (m : Mode) (e : Moment ι α) : Prop
  /-- A tick goes on with the drain that it has found. -/
  | drains (call : calls e.move.caller = .tick) (stores : e.Stores .resetSuspending)
    (ne : .resetSuspending ≠ m)
  /-- A tick ends the drain. -/
  | resumes {m' : Mode} (call : calls e.move.caller = .tick) (stores : e.Stores m')
    (rests : ¬ m'.isDraining) (ne : m' ≠ m)
  /-- Another switch. -/
  | switches {m' : Mode} (call : calls e.move.caller = .setMode m') (stores : e.Stores m')
    (ne : m' ≠ m)

/-- The mode was overridden since the call found or stored it, and has not been stored again. -/
def Overridden (calls : ι → Operation) (i : ι) (m : Mode) (h : List (Moment ι α)) : Prop :=
  Since (Moment.Overrides calls m) (fun e => e.Confirms i m ∨ e.Stores m) h

variable {calls : ι → Operation} {h : List (Moment ι α)} {e : Moment ι α} {i : ι} {m m' : Mode}
  {r r' : ModeRecord}

/-- One mode only is stored at a moment. -/
theorem Moment.Stores.eq (h : e.Stores m) (h' : e.Stores m') : m = m' := by
  obtain ⟨r, haction, rfl⟩ := h
  obtain ⟨r', haction', rfl⟩ := h'
  rw [haction] at haction'
  cases haction'
  rfl

/-- A move that leaves the mode alone stores none. -/
theorem Moment.not_stores_of_keepsMode (h : e.move.action.KeepsMode) : ¬ e.Stores m := by
  rintro ⟨r, haction, -⟩
  rw [haction] at h
  exact h

/-- What overrides a mode stores another one. -/
theorem Moment.Overrides.stores (h : e.Overrides calls m) : ∃ m', e.Stores m' ∧ m' ≠ m := by
  cases h with
  | drains _ stores ne => exact ⟨_, stores, ne⟩
  | resumes _ stores _ ne => exact ⟨_, stores, ne⟩
  | switches _ stores ne => exact ⟨_, stores, ne⟩

/-- A call that stores another mode overrides. -/
theorem Operation.Rewrites.overrides (h : (calls e.move.caller).Rewrites r r')
    (haction : e.move.action = .transact (.putMode r')) (hne : r'.current ≠ m) :
    e.Overrides calls m := by
  have hstores : e.Stores r'.current := ⟨r', haction, rfl⟩
  generalize hc : calls e.move.caller = c at h
  cases h with
  | sets => exact .switches hc hstores hne
  | advances => exact .drains hc hstores hne
  | resumes => exact .resumes hc hstores r.not_isDraining_resumeTarget hne

/-- A call that leaves the mode alone finds the mode that is stored. -/
theorem Moment.Confirms.inMode (h : e.Confirms i m) (hkeeps : e.move.action.KeepsMode) :
    e.before.registry.InMode m := by
  rcases h.2 with ⟨-, hin⟩ | hstores
  · exact hin
  · exact absurd hstores (not_stores_of_keepsMode hkeeps)

/-- A move that leaves the mode alone ends that it is overridden only by finding it. -/
theorem overridden_snoc_of_keepsMode (hkeeps : e.move.action.KeepsMode) :
    Overridden calls i m (h ++ [e]) ↔ Overridden calls i m h ∧ ¬ e.Confirms i m := by
  have hnot : ∀ {m'}, ¬ e.Stores m' := Moment.not_stores_of_keepsMode hkeeps
  have hleaves : ¬ e.Overrides calls m := fun ho =>
    let ⟨_, hstores, _⟩ := ho.stores
    hnot hstores
  rw [Overridden, Since.snoc_iff]
  simp [hleaves, hnot, Overridden]

/-- When a mode is stored, the others are overridden. -/
theorem overridden_snoc_of_stores (hstores : e.Stores m')
    (hother : m' ≠ m → e.Overrides calls m) : Overridden calls i m (h ++ [e]) ↔ ¬ m' = m := by
  rw [Overridden, Since.snoc_iff]
  by_cases hm : m' = m
  · subst hm
    have hleaves : ¬ e.Overrides calls m' := fun ho =>
      let ⟨_, hthis, hne⟩ := ho.stores
      hne (hthis.eq hstores)
    simp [hstores, hleaves]
  · simp [hm, hother hm]

end

/-! ## The protocol of a switch -/

/-- The steps of a call of which only some are known: the stage says whether it has found or stored
the mode `m`. -/
inductive Confirmation (m : Mode) : Bool → (a : Action) → a.Reply → Bool → Prop
  | goes {φ : Bool} {a : Action} {r : a.Reply} : Confirmation m φ a r φ
  | finds {φ : Bool} {r : ModeRecord} (hr : r.current = m) :
    Confirmation m φ (.transact .getMode) (.ok r) true
  | stores {φ : Bool} {r : ModeRecord} {x : StoreResult Unit} (hr : r.current = m) :
    Confirmation m φ (.transact (.putMode r)) x true

/-- The protocol of calls that find or store the mode `m`. -/
def confirmation (m : Mode) : Protocol Bool where
  Meets _ := True
  Step := Confirmation m

/-- Every program follows it. -/
theorem follows_confirmation {α : Type} (m : Mode) {φ : Bool} (p : Fleet α) :
    (confirmation m).Follows φ p fun _ _ => True := by
  induction p with
  | pure a => trivial
  | ask a next ih => exact fun r _ => ⟨φ, .goes, ih r⟩

/-- What a switch to `m` answers: a record with this mode, which it has found or stored. -/
def Outcome.Confirmed (m : Mode) (φ : Bool) : Outcome → Prop
  | .mode (.ok r) => φ = true ∧ r.current = m
  | _ => True

/-- A switch answers with its mode after it has found or stored it. -/
theorem Operation.confirmed_setMode (m : Mode) :
    (confirmation m).Follows false (Operation.setMode m).program (Outcome.Confirmed m) := by
  refine Follows.bind (Q := fun φ x => ∀ r, x = .ok r → φ = true ∧ r.current = m) ?_ ?_
  · refine Follows.bindExcept (S := fun φ x => ∀ r, x = .ok r → r.current = m → φ = true) ?_ ?_
      fun _ _ _ r h => by cases h
    · refine Follows.attempt fun x _ => ?_
      rcases x with e | r
      · exact ⟨_, .goes, fun r h => by cases h⟩
      · by_cases hr : r.current = m
        · exact ⟨_, .finds hr, fun _ _ _ => rfl⟩
        · refine ⟨_, .goes, ?_⟩
          rintro _ ⟨⟩ h
          exact absurd h hr
    · intro φ r hfound
      split
      · next hr =>
        rintro _ ⟨⟩
        exact ⟨hfound r rfl hr, hr⟩
      · have hput : (confirmation m).Follows φ (Management.query (.putMode (r.switched m))).run
            fun φ _ => φ = true := Follows.attempt fun x _ => ⟨true, .stores rfl, rfl⟩
        refine Follows.bindExcept hput ?_ fun _ _ _ r h => by cases h
        rintro φ - hφ _ ⟨⟩
        exact ⟨hφ, rfl⟩
  · intro φ x hx
    cases x with
    | error e => trivial
    | ok r => exact hx r rfl

/-! ## Runs -/

section
variable {ι : Type} [DecidableEq ι] {calls : ι → Operation} {h : List (Moment ι Outcome)}
  {s s' : System ι Outcome} {g : Registry} {i : ι} {m : Mode} {φ' : Reading} {mv : Move ι}

/-- Who has found or stored the mode has done so in one of the moves. -/
theorem Confirmation.confirms {φ : ι → Bool} {φ' : Bool}
    (inv : φ i = true → ∃ e ∈ h, e.Confirms i m) (hs : RelayFleet.Step s mv s')
    (hp : Confirmation m (φ mv.caller) mv.action mv.reply φ')
    (hφ : Function.update φ mv.caller φ' i = true) : ∃ e ∈ h ++ [⟨s, mv⟩], e.Confirms i m := by
  by_cases hold : φ i = true
  · obtain ⟨e, he, hc⟩ := inv hold
    exact ⟨e, List.mem_append_left _ he, hc⟩
  · have hcaller : mv.caller = i := by
      by_contra hne
      exact hold ((Function.update_of_ne (Ne.symm hne) φ' φ).symm.trans hφ)
    subst hcaller
    rw [Function.update_self] at hφ
    refine ⟨⟨s, mv⟩, by simp, rfl, ?_⟩
    obtain ⟨k, a, time, x⟩ := mv
    have hanswers := hs.answers
    dsimp only at hp hanswers hold ⊢
    cases hp with
    | goes => exact absurd hφ hold
    | finds hr => exact .inl ⟨rfl, _, hanswers.symm, hr⟩
    | stores hr => exact .inr ⟨_, rfl, hr⟩

/-- A switch that has answered with a record has found or stored its mode. -/
theorem Run.confirms (hi : calls i = .setMode m)
    (run : Run (System.start g fun k => (calls k).program) h s) {r : ModeRecord}
    (hdone : s.calls i = .pure (.mode (.ok r))) : r.current = m ∧ ∃ e ∈ h, e.Confirms i m := by
  have hcalls : ∀ k, (confirmation m).Follows false (calls k).program
      fun φ x => k = i → x.Confirmed m φ := by
    intro k
    by_cases hk : k = i
    · rw [hk, hi]
      exact (Operation.confirmed_setMode m).mono fun _ _ hx _ => hx
    · exact (follows_confirmation m _).mono fun _ _ _ hki => absurd hki hk
  have hinit : (fun _ : ι => false) i = true →
      ∃ e ∈ ([] : List (Moment ι Outcome)), e.Confirms i m := nofun
  obtain ⟨φ, inv, hf⟩ := run.follows
    (I := fun h _ φ => φ i = true → ∃ e ∈ h, e.Confirms i m) hcalls hinit
    (fun _ _ _ _ => trivial) fun _ _ _ _ _ _ _ inv hs hp => Confirmation.confirms inv hs hp
  have hend := hf i
  rw [hdone] at hend
  obtain ⟨hφ, hr⟩ := hend rfl
  exact ⟨hr, inv hφ⟩

/-- A step leaves the mode, or stores one that its call makes of what it has read. -/
theorem Reading.Step.mode (hs : RelayFleet.Step s mv s') {φ : Reading}
    (hp : Reading.Step φ mv.action mv.reply φ') :
    s'.registry.getMode = s.registry.getMode ∧ mv.action.KeepsMode ∨
      ∃ r r', φ.call.Rewrites r r' ∧ mv.action = .transact (.putMode r') ∧
        s'.registry.getMode = .ok r' := by
  obtain ⟨k, a, time, x⟩ := mv
  have hreg := hs.registry_eq
  dsimp only at hp hreg ⊢
  cases hp with
  | keeps ha => exact .inl ⟨hreg ▸ ha.getMode_eq time s.registry, ha⟩
  | reads => exact .inl ⟨congrArg Registry.getMode hreg, trivial⟩
  | @writes _ r r' _ hr =>
    exact .inr ⟨r, r', hr, rfl, hreg ▸ Registry.getMode_putMode s.registry r'⟩

/-- Once a switch has found or stored its mode, this is the stored one unless it was overridden. -/
structure Kept (calls : ι → Operation) (i : ι) (m : Mode) (h : List (Moment ι Outcome))
    (g : Registry) (φ : ι → Reading) : Prop where
  call : ∀ k, (φ k).call = calls k
  inMode_iff : (∃ e ∈ h, e.Confirms i m) → (g.InMode m ↔ ¬ Overridden calls i m h)

/-- Every step keeps to this. -/
theorem Kept.step {φ : ι → Reading} (inv : Kept calls i m h s.registry φ)
    (hs : RelayFleet.Step s mv s') (hp : Reading.Step (φ mv.caller) mv.action mv.reply φ') :
    Kept calls i m (h ++ [⟨s, mv⟩]) s'.registry (Function.update φ mv.caller φ') := by
  refine ⟨(Function.forall_update_iff φ fun k x => x.call = calls k).mpr
    ⟨hp.call_eq.trans (inv.call _), fun k _ => inv.call k⟩, ?_⟩
  rintro ⟨e, he, hconfirms⟩
  rcases hp.mode hs with ⟨hsame, hkeeps⟩ | ⟨r, r', hrewrites, haction, hnow⟩
  · rw [overridden_snoc_of_keepsMode hkeeps, Registry.inMode_congr hsame]
    by_cases hlast : (⟨s, mv⟩ : Moment ι Outcome).Confirms i m
    · simpa [hlast] using hlast.inMode hkeeps
    · have hearlier : e ∈ h := by
        rcases List.mem_append.mp he with he | he
        · exact he
        · exact absurd (List.mem_singleton.mp he ▸ hconfirms) hlast
      simpa [hlast] using inv.inMode_iff ⟨e, hearlier, hconfirms⟩
  · rw [inv.call] at hrewrites
    rw [overridden_snoc_of_stores ⟨r', haction, rfl⟩ (hrewrites.overrides haction),
      Registry.inMode_iff hnow, not_not]

/-- **A switch is kept unless another call overrides it.** However switches, ticks and calls about
relays are interleaved, and whatever the provisioner answers, a switch to a mode that has returned a
record has returned one with this mode, and this is the stored mode if and only if, since the switch
has found or stored it, no tick has gone on with a drain, no tick has ended one with another mode
and no other switch has stored another mode, or the mode has been stored again after that. -/
theorem Run.keeps_iff (hcalls : ∀ k, (calls k).IsModeCall ∨ (calls k).IsErrand)
    (hi : calls i = .setMode m) (run : Run (System.start g fun k => (calls k).program) h s)
    {r : ModeRecord} (hdone : s.calls i = .pure (.mode (.ok r))) :
    r.current = m ∧ (s.registry.InMode m ↔ ¬ Overridden calls i m h) := by
  obtain ⟨hr, hconfirmed⟩ := run.confirms hi hdone
  obtain ⟨φ, inv, -⟩ := run.follows (I := fun h s φ => Kept calls i m h s.registry φ)
    (fun k => Operation.follows_readings (hcalls k))
    ⟨fun _ => rfl, by rintro ⟨e, he, -⟩; cases he⟩ (fun _ _ _ _ => trivial)
    fun _ _ _ _ _ _ _ inv hs hp => inv.step hs hp
  exact ⟨hr, inv.inMode_iff hconfirmed⟩

end

/-! ## A switch that is lost -/

section
variable {ι α : Type}

/-- The call makes the first move of the run and the last one. -/
def Spans (h : List (Moment ι α)) (i : ι) : Prop :=
  ∃ l, h.map (·.move.caller) = i :: (l ++ [i])

/-- After the call has begun no other switch begins. -/
def LastSwitch (calls : ι → Operation) (h : List (Moment ι α)) (i : ι) : Prop :=
  ∀ h₁ e h₂ m, h = h₁ ++ e :: h₂ → calls e.move.caller = .setMode m → Begun h₁ i →
    Begun h₁ e.move.caller

end

/-- A tick and a switch to `manual`. -/
def overridingCalls : Fin 2 → Operation
  | 0 => .tick
  | 1 => .setMode .manual

/-- The relay of the run below. -/
def overridingRelay (x : RelayState) : Relay :=
  { Relay.fresh 0 "relay-1" "zone-a" none 0 with state := x }

/-- The registry of the run below: the mode is `suspending` and the relay runs. -/
def overridingRegistry : Registry :=
  (Registry.empty.putMode ⟨.suspending, .auto⟩).withRow "relay-1" (overridingRelay .running)

/-- The relay that runs is listed. -/
theorem listRelays_overridingRegistry :
    overridingRegistry.listRelays (·.state = .running) = .ok [overridingRelay .running] := by
  have hempty : (Registry.empty.putMode ⟨.suspending, .auto⟩).Sound := Registry.sound_empty
  have hsound : overridingRegistry.Sound := hempty.withRow rfl
  rw [hsound.listRelays, overridingRegistry, Registry.rows_withRow_of_empty rfl]
  rfl

/-- The switch is made while the tick has the relay stopped, and the tick overrides it then. -/
theorem Run.overriding :
    ∃ (h : List (Moment (Fin 2) Outcome)) (s : System (Fin 2) Outcome),
      Run (System.start overridingRegistry fun i => (overridingCalls i).program) h s ∧
      Spans h 0 ∧ s.Finished ∧ s.calls 1 = .pure (.mode (.ok ⟨.manual, .suspending⟩)) ∧
      s.registry.InMode .resetSuspending := by
  let s₀ : System (Fin 2) Outcome :=
    .start overridingRegistry fun i => (overridingCalls i).program
  have hsound (m : ModeRecord) : (Registry.empty.putMode m).Sound := Registry.sound_empty
  have found := ((Run.start : Run s₀ [] s₀).perform 0 rfl 0 (.ok ⟨.suspending, .auto⟩)
    (Registry.getMode_putMode .empty _).symm).perform 0 rfl 0 _ listRelays_overridingRegistry.symm
  have stopping := found.changeRow (hsound ⟨.suspending, .auto⟩) rfl rfl 0 rfl 0
    (overridingRelay .stopping) rfl
  have switched := (stopping.perform 1 rfl 0 (.ok ⟨.suspending, .auto⟩)
    (Registry.getMode_putMode .empty _).symm).perform 1 rfl 0 (.ok ()) rfl
  have stopped := (switched.perform 0 rfl 0 (.ok ()) trivial).changeRow
    (hsound ⟨.manual, .suspending⟩) rfl rfl 0 rfl 0 (overridingRelay .stopped) rfl
  have drained := stopped.perform 0 rfl 0 (.ok ()) rfl
  refine ⟨_, _, drained, ⟨[0, 0, 1, 1, 0, 0], rfl⟩, ?_, rfl, _,
    Registry.getMode_putMode .empty _, rfl⟩
  intro i
  match i with
  | 0 => exact ⟨_, rfl⟩
  | 1 => exact ⟨_, rfl⟩

/-- One of these calls is a switch, the other one a tick. -/
theorem isModeCall_overridingCalls : ∀ i, (overridingCalls i).IsModeCall
  | 0 => trivial
  | 1 => trivial

/-- In this run the switch is overridden. -/
theorem Run.keeps_iff_overriding :
    ∃ (h : List (Moment (Fin 2) Outcome)) (s : System (Fin 2) Outcome),
      Run (System.start overridingRegistry fun i => (overridingCalls i).program) h s ∧
      s.calls 1 = .pure (.mode (.ok ⟨.manual, .suspending⟩)) ∧
      Overridden overridingCalls 1 .manual h := by
  obtain ⟨h, s, run, -, -, hdone, r, hr, hreset⟩ := Run.overriding
  refine ⟨h, s, run, hdone, ?_⟩
  by_contra hnot
  have hcalls : ∀ i, (overridingCalls i).IsModeCall ∨ (overridingCalls i).IsErrand := fun i =>
    .inl (isModeCall_overridingCalls i)
  have hkept := (run.keeps_iff hcalls rfl hdone).2.mpr hnot
  rw [Registry.inMode_iff hr, hreset] at hkept
  cases hkept

/-- It is not so that a switch made while a tick runs is always kept. -/
theorem Run.not_always_keeps :
    ¬ ∀ (n : ℕ) (g : Registry) (calls : Fin (n + 1) → Operation) (i : Fin (n + 1)) (m : Mode)
        (h : List (Moment (Fin (n + 1)) Outcome)) (s : System (Fin (n + 1)) Outcome)
        (r : ModeRecord),
      g.Sound → (∃ m₀, g.InMode m₀ ∧ m₀.isDraining) → calls 0 = .tick →
      (∀ k, k ≠ 0 → ∃ m, calls k = .setMode m) → calls i = .setMode m → ¬ m.isDraining →
      Run (System.start g fun k => (calls k).program) h s → Spans h 0 → LastSwitch calls h i →
      s.Finished → s.calls i = .pure (.mode (.ok r)) → r.current = m → s.registry.InMode m := by
  intro hclaim
  obtain ⟨h, s, run, hspans, hfinished, hdone, r, hr, hreset⟩ := Run.overriding
  have hsound : (Registry.empty.putMode ⟨.suspending, .auto⟩).Sound := Registry.sound_empty
  have hlast : LastSwitch overridingCalls h 1 := by
    rintro h₁ ⟨_, k, _⟩ h₂ m' - hset hbegun
    match k with
    | 0 => cases hset
    | 1 => exact hbegun
  have hkept := hclaim 1 overridingRegistry overridingCalls 1 .manual h s _ (hsound.withRow rfl)
    ⟨_, ⟨_, Registry.getMode_putMode .empty _, rfl⟩, rfl⟩ rfl
    (fun k hk => ⟨.manual, by
      match k with
      | 0 => exact absurd rfl hk
      | 1 => rfl⟩) rfl (by decide) run hspans hlast hfinished hdone rfl
  rw [Registry.inMode_iff hr, hreset] at hkept
  cases hkept

end RelayFleet
