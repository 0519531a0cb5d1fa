import Mathlib.Order.Fin.Basic
import RelayFleet.Proofs.Interleaving.Since
import RelayFleet.Proofs.Lifecycle.Errand

/-!
# What a drain gives back

The record of the mode has one place for the mode before. A switch puts the mode that it leaves
there, also where this is a drain, and a resume goes back to `auto` where it finds a drain there. So
the tick that ends a drain gives back the mode that the drain interrupted, unless somebody has
switched from one draining mode to the other since: then it gives back `auto`
(`Run.restores_iff`). The calls that change the mode are made one after the other here
(`OneByOne`), and any others go on besides them.
-/

namespace RelayFleet

open Protocol

/-! ## Calls that change the mode -/

namespace Operation

/-- A switch of the mode or a tick. -/
def IsModeCall : Operation → Prop
  | setMode _ | tick => True
  | _ => False

/-- How a call changes the mode that it has read. -/
inductive Rewrites : Operation → ModeRecord → ModeRecord → Prop
  | sets {m : Mode} {r : ModeRecord} : Rewrites (.setMode m) r (r.switched m)
  | advances {r : ModeRecord} (hr : r.current = .suspending) :
    Rewrites .tick r { r with current := .resetSuspending }
  | resumes {r : ModeRecord} : Rewrites .tick r { r with current := r.resumeTarget }

/-- Only a switch or a tick changes the mode. -/
theorem Rewrites.isModeCall {c : Operation} {r r' : ModeRecord} (h : c.Rewrites r r') :
    c.IsModeCall := by
  cases h <;> trivial

end Operation

/-- A call and the mode that it has read and may still change. -/
structure Reading where
  call : Operation
  seen : Option ModeRecord

/-- The steps of a call that changes no mode but one that it has read. -/
inductive Reading.Step : Reading → (a : Action) → a.Reply → Reading → Prop
  | keeps {φ : Reading} {a : Action} {r : a.Reply} (ha : a.KeepsMode) : Step φ a r φ
  | reads {c : Operation} {seen : Option ModeRecord} {r : ModeRecord} :
    Step ⟨c, seen⟩ (.transact .getMode) (.ok r) ⟨c, some r⟩
  | writes {c : Operation} {r r' : ModeRecord} {x : StoreResult Unit} (hr : c.Rewrites r r') :
    Step ⟨c, some r⟩ (.transact (.putMode r')) x ⟨c, none⟩

/-- A call stays what it is. -/
theorem Reading.Step.call_eq {φ φ' : Reading} {a : Action} {r : a.Reply} (h : Step φ a r φ') :
    φ'.call = φ.call := by
  cases h <;> rfl

/-- The protocol of the mode. -/
def readings : Protocol Reading where
  Meets _ := True
  Step := Reading.Step

/-- A program that leaves the mode alone reads nothing that it would have to put down. -/
theorem Asks.follows_readings {α : Type} {p : Fleet α} {P : α → Prop} {φ : Reading}
    (h : Asks Action.KeepsMode p P) : readings.Follows φ p fun φ' a => φ' = φ ∧ P a := by
  induction p with
  | pure a => exact ⟨rfl, h⟩
  | ask a next ih => exact fun r _ => ⟨φ, .keeps h.1, ih r (h.2 r)⟩

/-- An errand leaves the mode alone. -/
theorem Operation.IsErrand.asks_keepsMode {c : Operation} (h : c.IsErrand) :
    Asks Action.KeepsMode c.program fun _ => True := by
  have hlifecycle : c.IsLifecycle → Asks Action.KeepsMode c.program fun _ => True :=
    fun h => h.asks.mono (fun _ ha => ha.1.keepsMode) fun _ _ => trivial
  cases c with
  | assign => exact AssignRules.asks_assign.map.mono (fun _ ha => ha.keepsMode) fun _ => id
  | report => exact asks_applyReport.map.mono (fun _ ha => ha.keepsMode) fun _ => id
  | expand | pass | tick | setMode | resumeMode => cases h
  | _ => exact hlifecycle trivial

namespace Management

variable {c : Operation} {seen : Option ModeRecord} {r r' : ModeRecord} {m : Mode}

/-- Reading the mode. -/
theorem readings_get : readings.Follows ⟨c, seen⟩ get.run fun φ x => ∀ r, x = .ok r →
    φ = ⟨c, some r⟩ := by
  refine Follows.attempt fun x _ => ?_
  cases x with
  | ok r =>
    refine ⟨_, .reads, ?_⟩
    rintro _ ⟨⟩
    rfl
  | error e => exact ⟨_, .keeps trivial, fun r h => by cases h⟩

/-- Putting down the mode that is made of the one that was read. -/
theorem readings_put (h : c.Rewrites r r') :
    readings.Follows ⟨c, some r⟩ (query (.putMode r')).run fun _ _ => True :=
  Follows.attempt fun _ _ => ⟨_, .writes h, trivial⟩

/-- A switch puts down what it makes of the mode that it has read. -/
theorem readings_set : readings.Follows ⟨.setMode m, seen⟩ (set m).run fun _ _ => True := by
  refine Follows.bindExcept readings_get ?_ fun _ _ _ => trivial
  intro φ r hr
  rw [hr r rfl]
  split
  · trivial
  · exact Follows.bindExcept (readings_put .sets) (fun _ _ _ => trivial) fun _ _ _ => trivial

/-- A resume puts down what it makes of the mode that it has read. -/
theorem readings_resume : readings.Follows ⟨.tick, seen⟩ resume.run fun _ _ => True := by
  refine Follows.bindExcept readings_get ?_ fun _ _ _ => trivial
  intro φ r hr
  rw [hr r rfl]
  split
  · trivial
  · exact Follows.bindExcept (readings_put .resumes) (fun _ _ _ => trivial) fun _ _ _ => trivial

/-- Stopping relays leaves the mode alone. -/
theorem asks_stopRunning : Asks Action.KeepsMode stopRunning.run fun _ => True :=
  upkeep_stopRunning.mono (fun _ ha => ha.isWork.keepsMode) fun _ => id

/-- Stopping relays reads nothing that it would have to put down. -/
theorem readings_stopRunning {φ : Reading} :
    readings.Follows φ stopRunning.run fun φ' _ => φ' = φ :=
  asks_stopRunning.follows_readings.mono fun _ _ h => h.1

/-- A tick puts down what it makes of the mode that it has read last. -/
theorem readings_tick : readings.Follows ⟨.tick, seen⟩ tick.run fun _ _ => True := by
  refine Follows.bindExcept readings_get ?_ fun _ _ _ => trivial
  intro φ r hr
  rw [hr r rfl]
  split
  · trivial
  · trivial
  · next hcurrent =>
    refine Follows.bindExcept readings_stopRunning ?_ fun _ _ _ => trivial
    rintro φ _ rfl
    exact Follows.bindExcept (readings_put (.advances hcurrent)) (fun _ _ _ => trivial)
      fun _ _ _ => trivial
  · refine Follows.bindExcept readings_stopRunning ?_ fun _ _ _ => trivial
    rintro φ _ rfl
    refine Follows.bindExcept (Asks.attempt' trivial).follows_readings ?_ fun _ _ _ => trivial
    rintro φ remaining ⟨rfl, -⟩
    split
    · exact Follows.bindExcept readings_resume (fun _ _ _ => trivial) fun _ _ _ => trivial
    · trivial

end Management

/-- Switches, ticks and errands change no mode but one that they have read. -/
theorem Operation.follows_readings {c : Operation} (h : c.IsModeCall ∨ c.IsErrand) :
    readings.Follows ⟨c, none⟩ c.program fun _ _ => True := by
  rcases h with hmode | herrand
  · cases c with
    | setMode => exact Follows.bind Management.readings_set fun _ _ _ => trivial
    | tick => exact Follows.bind Management.readings_tick fun _ _ _ => trivial
    | _ => cases hmode
  · exact herrand.asks_keepsMode.follows_readings.mono fun _ _ _ => trivial

/-! ## The course of a drain -/

section
variable {ι α : Type}

/-- At this moment the mode is `m`. -/
def Moment.InMode (m : Mode) (e : Moment ι α) : Prop :=
  ∃ r, e.before.registry.getMode = .ok r ∧ r.current = m

/-- At this moment there is no drain. -/
def Moment.Rests (e : Moment ι α) : Prop := ∃ m, e.InMode m ∧ ¬ m.isDraining

/-- The mode was `m` when there last was no drain. -/
def Interrupted (m : Mode) (h : List (Moment ι α)) : Prop :=
  Since (fun e => e.InMode m ∧ ¬ m.isDraining) Moment.Rests h

/-- The mode at a moment is the stored one. -/
theorem Moment.inMode_iff {e : Moment ι α} {r : ModeRecord} {m : Mode}
    (hr : e.before.registry.getMode = .ok r) : e.InMode m ↔ m = r.current := by
  simp [Moment.InMode, hr, eq_comm]

/-- Whether there is a drain at a moment is seen from the stored mode. -/
theorem Moment.rests_iff {e : Moment ι α} {r : ModeRecord}
    (hr : e.before.registry.getMode = .ok r) : e.Rests ↔ ¬ r.current.isDraining := by
  simp [Moment.Rests, Moment.inMode_iff hr]

/-- What a drain has interrupted is no drain. -/
theorem Interrupted.not_isDraining {m : Mode} {h : List (Moment ι α)} (hm : Interrupted m h) :
    ¬ m.isDraining := by
  obtain ⟨_, _, _, -, ⟨-, hm⟩, -⟩ := hm
  exact hm

/-- A switch from one draining mode to the other. -/
def Moment.Redrains (calls : ι → Operation) (e : Moment ι α) : Prop :=
  ∃ m m' r, calls e.move.caller = .setMode m' ∧ e.move.action = .transact (.putMode r) ∧
    e.InMode m ∧ m.isDraining ∧ r.current.isDraining

/-- There was such a switch in the drain that is under way. -/
def Redrained (calls : ι → Operation) (h : List (Moment ι α)) : Prop :=
  Since (Moment.Redrains calls) Moment.Rests h

/-- A tick ends a drain: it restores the mode `m`. -/
def Moment.Restores (calls : ι → Operation) (m : Mode) (e : Moment ι α) : Prop :=
  ∃ r, calls e.move.caller = .tick ∧ e.InMode .resetSuspending ∧
    e.move.action = .transact (.putMode r) ∧ r.current = m

/-- After a step of the call another one has made a step that may change the mode. -/
def Outdated (calls : ι → Operation) (h : List (Moment ι α)) (i : ι) : Prop :=
  ∃ h₁ e h₂, h = h₁ ++ e :: h₂ ∧ Begun h₁ i ∧ e.move.caller ≠ i ∧
    (calls e.move.caller).IsModeCall

/-- The calls that may change the mode are made one after the other. -/
def OneByOne (calls : ι → Operation) (h : List (Moment ι α)) : Prop :=
  ∀ h₁ e h₂, h = h₁ ++ e :: h₂ → (calls e.move.caller).IsModeCall →
    ¬ Outdated calls h₁ e.move.caller

/-- What is outdated stays outdated. -/
theorem Outdated.snoc {calls : ι → Operation} {h : List (Moment ι α)} {i : ι}
    (hi : Outdated calls h i) (e : Moment ι α) : Outdated calls (h ++ [e]) i := by
  obtain ⟨h₁, f, h₂, rfl, hbegun, hne, hmode⟩ := hi
  exact ⟨h₁, f, h₂ ++ [e], by simp, hbegun, hne, hmode⟩

/-- A run goes through runs of its kind. -/
theorem OneByOne.of_append {calls : ι → Operation} {h h' : List (Moment ι α)}
    (hone : OneByOne calls (h ++ h')) : OneByOne calls h := by
  rintro h₁ f h₂ rfl hmode
  exact hone h₁ f (h₂ ++ h') (by simp) hmode

/-- The record remembers the mode that a drain has interrupted, or a draining mode if there was a
switch between these since. -/
def ModeRecord.Remembers (calls : ι → Operation) (h : List (Moment ι α)) (r : ModeRecord) : Prop :=
  r.current.isDraining → ∀ m, Interrupted m h →
    (¬ Redrained calls h → r.previous = m) ∧ (Redrained calls h → r.previous.isDraining)

/-- A resume goes back to no drain. -/
theorem ModeRecord.not_isDraining_resumeTarget (r : ModeRecord) : ¬ r.resumeTarget.isDraining := by
  simp only [ModeRecord.resumeTarget]
  split
  · simp [Mode.isDraining]
  · assumption

section
variable {calls : ι → Operation} {h : List (Moment ι α)} {e : Moment ι α} {r r' : ModeRecord}

/-- A step leaves the record, or changes it as its call does. -/
def Moment.Makes (calls : ι → Operation) (e : Moment ι α) (r r' : ModeRecord) : Prop :=
  r' = r ∧ e.move.action.KeepsMode ∨
    (calls e.move.caller).Rewrites r r' ∧ e.move.action = .transact (.putMode r')

/-- A drain goes on with a switch between draining modes, or without the place for the mode before
being written to. -/
theorem Moment.Makes.goes_on (hstep : e.Makes calls r r')
    (hmode : e.before.registry.getMode = .ok r) (hwas : r.current.isDraining)
    (hdrain : r'.current.isDraining) :
    e.Redrains calls ∧ r'.previous = r.current ∨ ¬ e.Redrains calls ∧ r'.previous = r.previous := by
  unfold Moment.Makes at hstep
  generalize hc : calls e.move.caller = c at hstep
  rcases hstep with ⟨rfl, hkeeps⟩ | ⟨hrewrites, haction⟩
  · refine .inr ⟨?_, rfl⟩
    rintro ⟨_, _, _, -, haction, -⟩
    rw [haction] at hkeeps
    exact hkeeps
  · cases hrewrites with
    | @sets m =>
      have hin : e.InMode r.current := (Moment.inMode_iff hmode).mpr rfl
      exact .inl ⟨⟨r.current, m, _, hc, haction, hin, hwas, hdrain⟩, rfl⟩
    | advances =>
      refine .inr ⟨?_, rfl⟩
      rintro ⟨_, _, _, hset, -⟩
      rw [hc] at hset
      cases hset
    | resumes => exact absurd hdrain r.not_isDraining_resumeTarget

/-- A drain begins with a switch, which keeps the mode that it leaves. -/
theorem Moment.Makes.begins (hstep : e.Makes calls r r') (hwas : ¬ r.current.isDraining)
    (hdrain : r'.current.isDraining) : r'.previous = r.current := by
  unfold Moment.Makes at hstep
  generalize calls e.move.caller = c at hstep
  rcases hstep with ⟨rfl, -⟩ | ⟨hrewrites, -⟩
  · exact absurd hdrain hwas
  · cases hrewrites with
    | sets => rfl
    | advances hr => exact absurd (by rw [hr]; rfl) hwas
    | resumes => exact absurd hdrain r.not_isDraining_resumeTarget

/-- What the record remembers after one more step. -/
theorem ModeRecord.Remembers.snoc (hr : r.Remembers calls h) (hstep : e.Makes calls r r')
    (hmode : e.before.registry.getMode = .ok r) : r'.Remembers calls (h ++ [e]) := by
  have hin : ∀ m, e.InMode m ↔ m = r.current := fun _ => Moment.inMode_iff hmode
  have hrests : e.Rests ↔ ¬ r.current.isDraining := Moment.rests_iff hmode
  intro hdrain m hm
  by_cases hwas : r.current.isDraining
  · have hresting : ¬ e.Rests := fun h => hrests.mp h hwas
    have hm : Interrupted m h := by
      rcases Since.snoc_iff.mp hm with hnow | ⟨hm, -⟩
      · exact absurd ⟨m, hnow⟩ hresting
      · exact hm
    obtain ⟨hplain, hlost⟩ := hr hwas m hm
    have hagain : Redrained calls (h ++ [e]) ↔ e.Redrains calls ∨ Redrained calls h :=
      Since.snoc_iff.trans (or_congr_right (and_iff_left hresting))
    rcases hstep.goes_on hmode hwas hdrain with ⟨hre, hprevious⟩ | ⟨hre, hprevious⟩
    · simp [hagain, hre, hprevious, hwas]
    · simpa [hagain, hre, hprevious] using ⟨hplain, hlost⟩
  · have hresting : e.Rests := hrests.mpr hwas
    have hnot : ¬ Redrained calls (h ++ [e]) := by
      intro hre
      rcases Since.snoc_iff.mp hre with ⟨m', _, _, -, -, hin', hdrain', -⟩ | ⟨-, hnot⟩
      · exact hwas ((hin m').mp hin' ▸ hdrain')
      · exact hnot hresting
    have hm : m = r.current := by
      rcases Since.snoc_iff.mp hm with ⟨hnow, -⟩ | ⟨-, hnot⟩
      · exact (hin m).mp hnow
      · exact absurd hresting hnot
    exact ⟨fun _ => (hstep.begins hwas hdrain).trans hm.symm, fun hre => absurd hre hnot⟩

end

end

/-- What is known of the mode while calls change it one after the other. -/
structure Recalls {ι : Type} (calls : ι → Operation) (h : List (Moment ι Outcome)) (g : Registry)
    (φ : ι → Reading) : Prop where
  call : ∀ i, (φ i).call = calls i
  begun : ∀ i, (φ i).seen ≠ none → Begun h i
  seen : ∀ i r, (calls i).IsModeCall → (φ i).seen = some r →
    g.getMode = .ok r ∨ Outdated calls h i
  remembers : ∀ r, g.getMode = .ok r → r.Remembers calls h

/-- An action that leaves the mode alone leaves what is read of it. -/
theorem Action.KeepsMode.getMode_eq {a : Action} (ha : a.KeepsMode) (time : Millis)
    (g : Registry) : (a.registryAfter time g).getMode = g.getMode := by
  have hcongr : ∀ {g' : Registry}, g'.mode = g.mode → g'.getMode = g.getMode := by
    intro g' h
    rw [Registry.getMode, h, Registry.getMode]
  cases a with
  | transact t =>
    cases t with
    | putMode => cases ha
    | updateRelay id change =>
      simp only [Action.registryAfter, Transaction.run, Registry.updateRelay]
      split <;> exact hcongr rfl
    | releaseBindings id workloads =>
      simp only [Action.registryAfter, Transaction.run, Registry.releaseBindings]
      split <;> exact hcongr rfl
    | _ => exact hcongr rfl
  | _ => rfl

section
variable {ι : Type} [DecidableEq ι] {calls : ι → Operation} {h : List (Moment ι Outcome)}
  {s s' : System ι Outcome} {m : Move ι} {φ : ι → Reading} {φ' : Reading}

/-- A step leaves the mode, or changes it as its call does. -/
theorem Recalls.mode_step (inv : Recalls calls h s.registry φ)
    (hone : OneByOne calls (h ++ [⟨s, m⟩])) (hs : RelayFleet.Step s m s')
    (hp : Reading.Step (φ m.caller) m.action m.reply φ') :
    s'.registry.getMode = s.registry.getMode ∧ m.action.KeepsMode ∨
      ∃ r r', s.registry.getMode = .ok r ∧ (calls m.caller).Rewrites r r' ∧
        m.action = .transact (.putMode r') ∧ s'.registry.getMode = .ok r' := by
  obtain ⟨i, a, time, x⟩ := m
  have hreg := hs.registry_eq
  have hcall := inv.call i
  have hseen := inv.seen i
  dsimp only at hp hreg ⊢
  generalize φ i = ψ at hp hcall hseen
  cases hp with
  | keeps ha => exact .inl ⟨hreg ▸ ha.getMode_eq time s.registry, ha⟩
  | reads => exact .inl ⟨congrArg Registry.getMode hreg, trivial⟩
  | @writes _ r r' _ hr =>
    subst hcall
    have hfresh : ¬ Outdated calls h i := hone h _ [] rfl hr.isModeCall
    refine .inr ⟨r, r', (hseen r hr.isModeCall rfl).resolve_right hfresh, hr, rfl, ?_⟩
    rw [hreg]
    exact Registry.getMode_putMode s.registry r'

/-- Whoever has read the mode still knows it, unless another call has come between. -/
theorem Recalls.seen_step (inv : Recalls calls h s.registry φ)
    (hs : RelayFleet.Step s m s') (hp : Reading.Step (φ m.caller) m.action m.reply φ')
    (hmode : s'.registry.getMode = s.registry.getMode ∨ (calls m.caller).IsModeCall) (i : ι)
    {r : ModeRecord} (hi : (calls i).IsModeCall)
    (hseen : (Function.update φ m.caller φ' i).seen = some r) :
    s'.registry.getMode = .ok r ∨ Outdated calls (h ++ [⟨s, m⟩]) i := by
  by_cases him : i = m.caller
  · subst him
    rw [Function.update_self] at hseen
    have hbefore := inv.seen m.caller
    obtain ⟨i, a, time, x⟩ := m
    have hreg := hs.registry_eq
    have hanswers := hs.answers
    dsimp only at hp hreg hanswers hseen hbefore hi ⊢
    generalize φ i = ψ at hp hbefore
    cases hp with
    | keeps ha =>
      rw [hreg, ha.getMode_eq]
      exact (hbefore r hi hseen).imp_right fun h => h.snoc _
    | reads =>
      cases hseen
      rw [hreg]
      exact .inl hanswers.symm
    | writes => cases hseen
  · rw [Function.update_of_ne him] at hseen
    rcases inv.seen i r hi hseen with hr | hout
    · rcases hmode with hsame | hcaller
      · exact .inl (hsame.trans hr)
      · have hbegun : Begun h i := inv.begun i (by simp [hseen])
        exact .inr ⟨h, ⟨s, m⟩, [], rfl, hbegun, Ne.symm him, hcaller⟩
    · exact .inr (hout.snoc _)

/-- Every step keeps what is known of the mode. -/
theorem Recalls.step (inv : Recalls calls h s.registry φ)
    (hone : OneByOne calls (h ++ [⟨s, m⟩])) (hs : RelayFleet.Step s m s')
    (hp : Reading.Step (φ m.caller) m.action m.reply φ') :
    Recalls calls (h ++ [⟨s, m⟩]) s'.registry (Function.update φ m.caller φ') := by
  have hmode := inv.mode_step hone hs hp
  refine ⟨?_, ?_, fun i r => inv.seen_step hs hp ?_ i, fun r' hr' => ?_⟩
  · refine (Function.forall_update_iff φ fun i x => x.call = calls i).mpr
      ⟨hp.call_eq.trans (inv.call _), fun i _ => inv.call i⟩
  · refine (Function.forall_update_iff φ fun i x => x.seen ≠ none → Begun _ i).mpr
      ⟨fun _ => begun_snoc_self h ⟨s, m⟩, fun i _ hi => (inv.begun i hi).snoc _⟩
  · rcases hmode with ⟨hsame, -⟩ | ⟨_, _, -, hrewrites, -⟩
    · exact .inl hsame
    · exact .inr hrewrites.isModeCall
  · rcases hmode with ⟨hsame, hkeeps⟩ | ⟨r, r'', hr, hrewrites, haction, hnow⟩
    · rw [hsame] at hr'
      exact (inv.remembers r' hr').snoc (.inl ⟨rfl, hkeeps⟩) hr'
    · rw [hnow] at hr'
      cases hr'
      exact (inv.remembers r hr).snoc (.inr ⟨hrewrites, haction⟩) hr

variable {g : Registry}

/-- What is known of the mode along a run. -/
theorem Run.recalls (hcalls : ∀ i, (calls i).IsModeCall ∨ (calls i).IsErrand)
    (run : Run (System.start g fun i => (calls i).program) h s) (hone : OneByOne calls h) :
    ∃ φ, Recalls calls h s.registry φ ∧ ∀ i, readings.Follows (φ i) (s.calls i) fun _ _ => True :=
  run.follows_while (I := fun h s φ => Recalls calls h s.registry φ)
    (fun _ _ hone => hone.of_append) (fun i => Operation.follows_readings (hcalls i))
    ⟨fun _ => rfl, fun _ h => absurd rfl h, fun _ _ _ h => (by cases h),
      fun _ _ _ _ hm => absurd hm Since.not_nil⟩
    (fun _ _ _ _ => trivial) (fun _ _ _ _ _ _ _ hone inv hs hp => inv.step hone hs hp) hone

/-- The tick that ends a drain gives back what the drain has interrupted, or `auto` if there was a
switch between draining modes. -/
theorem Run.restores (hcalls : ∀ i, (calls i).IsModeCall ∨ (calls i).IsErrand)
    (run : Run (System.start g fun i => (calls i).program) h s) (hone : OneByOne calls h)
    {h₁ h₂ : List (Moment ι Outcome)} {e : Moment ι Outcome} (heq : h = h₁ ++ e :: h₂) {m m' : Mode}
    (hrestores : e.Restores calls m') (hm : Interrupted m h₁) :
    (¬ Redrained calls h₁ → m' = m) ∧ (Redrained calls h₁ → m' = .auto) := by
  subst heq
  obtain ⟨s', run₁, hs, -⟩ := run.of_append_cons
  rw [List.append_cons] at hone
  have hone₁ : OneByOne calls (h₁ ++ [e]) := hone.of_append
  obtain ⟨φ, inv, hf⟩ := run₁.recalls hcalls hone₁.of_append
  obtain ⟨φ', hp, -⟩ := (hf e.move.caller).step hs trivial
  obtain ⟨r', htick, ⟨r, hr, hreset⟩, haction, rfl⟩ := hrestores
  rcases inv.mode_step hone₁ hs hp with ⟨-, hkeeps⟩ | ⟨r₁, r₁', hr₁, hrewrites, haction₁, -⟩
  · rw [haction] at hkeeps
    cases hkeeps
  · rw [hr] at hr₁
    cases hr₁
    rw [haction] at haction₁
    cases haction₁
    rw [htick] at hrewrites
    have hdrain : r.current.isDraining := by rw [hreset]; rfl
    obtain ⟨hplain, hlost⟩ := inv.remembers r hr hdrain m hm
    cases hrewrites with
    | advances hsuspending =>
      rw [hreset] at hsuspending
      cases hsuspending
    | resumes =>
      refine ⟨fun hnot => ?_, fun hre => if_pos (hlost hre)⟩
      rw [← hplain hnot]
      exact if_neg (hplain hnot ▸ hm.not_isDraining)

/-- **A drain gives back the mode that it interrupted unless somebody switched between draining
modes.** While switches and ticks are made one after the other, besides any other calls about relays
and with any outcomes of the provisioner, the mode that a tick restores when it ends a drain is the
one in force when there last was no drain, if and only if that mode is `auto` or there was no switch
from one draining mode to the other since. -/
theorem Run.restores_iff (hcalls : ∀ i, (calls i).IsModeCall ∨ (calls i).IsErrand)
    (run : Run (System.start g fun i => (calls i).program) h s) (hone : OneByOne calls h)
    {h₁ h₂ : List (Moment ι Outcome)} {e : Moment ι Outcome} (heq : h = h₁ ++ e :: h₂) {m m' : Mode}
    (hrestores : e.Restores calls m') (hm : Interrupted m h₁) :
    m' = m ↔ m = .auto ∨ ¬ Redrained calls h₁ := by
  obtain ⟨hplain, hlost⟩ := run.restores hcalls hone heq hrestores hm
  by_cases hre : Redrained calls h₁
  · rw [hlost hre]
    simp [hre, eq_comm]
  · simp [hplain hre, hre]

end

/-- Calls that are made in some order are made one after the other. -/
theorem oneByOne_of_ascending {ι α : Type} [LinearOrder ι] {calls : ι → Operation}
    {h : List (Moment ι α)} (hsorted : (h.map (·.move.caller)).Pairwise (· ≤ ·)) :
    OneByOne calls h := by
  rintro h₁ e h₂ rfl - ⟨k₁, f, k₂, rfl, ⟨b, hb, hbegun⟩, hne, -⟩
  rw [List.pairwise_map] at hsorted
  simp only [List.append_assoc, List.pairwise_append, List.cons_append, List.pairwise_cons,
    List.mem_append, List.mem_cons] at hsorted
  have hbf : b.move.caller ≤ f.move.caller := hsorted.2.2 b hb f (.inl rfl)
  have hfe : f.move.caller ≤ e.move.caller := hsorted.2.1.1 e (.inr (.inl rfl))
  exact hne (le_antisymm hfe (hbegun ▸ hbf))

section
variable {ι α : Type} [DecidableEq ι] {s₀ s : System ι α} {h : List (Moment ι α)}

/-- A run goes on with a look at the mode that was stored last. -/
theorem Run.readMode (run : Run s₀ h s) (r : ModeRecord)
    (hreg : s.registry = Registry.empty.putMode r) (i : ι)
    {next : StoreResult ModeRecord → Fleet α} (asks : s.calls i = .ask (.transact .getMode) next) :
    Run s₀ (h ++ [⟨s, ⟨i, .transact .getMode, 0, .ok r⟩⟩])
      ⟨Registry.empty.putMode r, s.holder, Function.update s.calls i (next (.ok r))⟩ := by
  have hr : .ok r = s.registry.getMode := by rw [hreg, Registry.getMode_putMode]
  have hnext := run.perform i asks 0 (.ok r) hr
  rwa [Action.registryAfter, Transaction.run, hreg] at hnext

/-- A run goes on with another mode being stored. -/
theorem Run.writeMode (run : Run s₀ h s) (r r' : ModeRecord)
    (hreg : s.registry = Registry.empty.putMode r) (i : ι) {next : StoreResult Unit → Fleet α}
    (asks : s.calls i = .ask (.transact (.putMode r')) next) :
    Run s₀ (h ++ [⟨s, ⟨i, .transact (.putMode r'), 0, .ok ()⟩⟩])
      ⟨Registry.empty.putMode r', s.holder, Function.update s.calls i (next (.ok ()))⟩ := by
  have hnext := run.perform i asks 0 (.ok ()) rfl
  rwa [Action.registryAfter, Transaction.run, hreg] at hnext

end

/-- As long as there is a drain, the mode that it has interrupted stays the same. -/
theorem Interrupted.snoc {ι α : Type} {m : Mode} {h : List (Moment ι α)} {e : Moment ι α}
    (hm : Interrupted m h) (r : ModeRecord) (hreg : e.before.registry = Registry.empty.putMode r)
    (hdrain : r.current.isDraining) : Interrupted m (h ++ [e]) := by
  have hmode : e.before.registry.getMode = .ok r := by rw [hreg, Registry.getMode_putMode]
  exact Since.snoc_iff.mpr (.inr ⟨hm, fun hrests => (Moment.rests_iff hmode).mp hrests hdrain⟩)

/-- The mode is set to `manual`, then to one draining mode and to the other, and then there is a
tick. -/
def redrainingCalls : Fin 4 → Operation
  | 0 => .setMode .manual
  | 1 => .setMode .suspending
  | 2 => .setMode .resetSuspending
  | 3 => .tick

/-- All of these calls may change the mode. -/
theorem isModeCall_redrainingCalls : ∀ i, (redrainingCalls i).IsModeCall
  | 0 => trivial
  | 1 => trivial
  | 2 => trivial
  | 3 => trivial

/-- The tick gives back `auto`, though the drain has interrupted `manual`. -/
theorem Run.redraining :
    ∃ (h : List (Moment (Fin 4) Outcome)) (e : Moment (Fin 4) Outcome) (s : System (Fin 4) Outcome),
      Run (System.start .empty fun i => (redrainingCalls i).program) (h ++ [e]) s ∧
      OneByOne redrainingCalls (h ++ [e]) ∧ e.Restores redrainingCalls .auto ∧
      Interrupted .manual h := by
  let s₀ : System (Fin 4) Outcome := .start .empty fun i => (redrainingCalls i).program
  have manual := ((Run.start : Run s₀ [] s₀).perform 0 rfl 0 (.ok .initial) rfl).perform
    0 rfl 0 (.ok ()) rfl
  have suspending := (manual.readMode ⟨.manual, .auto⟩ rfl 1 rfl).writeMode
    _ ⟨.suspending, .manual⟩ rfl 1 rfl
  have resetting := (suspending.readMode _ rfl 2 rfl).writeMode
    _ ⟨.resetSuspending, .suspending⟩ rfl 2 rfl
  have drained := ((resetting.readMode _ rfl 3 rfl).perform 3 rfl 0 (.ok []) rfl).perform
    3 rfl 0 (.ok []) rfl
  have restored := (drained.readMode ⟨.resetSuspending, .suspending⟩ rfl 3 rfl).writeMode
    _ ⟨.auto, .suspending⟩ rfl 3 rfl
  refine ⟨_, _, _, restored, oneByOne_of_ascending ?_, ?_, ?_⟩
  · show List.Pairwise (· ≤ ·) ([0, 0, 1, 1, 2, 2, 3, 3, 3, 3, 3] : List (Fin 4))
    decide
  · exact ⟨_, rfl, ⟨_, Registry.getMode_putMode _ _, rfl⟩, rfl, rfl⟩
  · have hreset : Mode.isDraining .resetSuspending := rfl
    have hsuspending : Mode.isDraining .suspending := rfl
    refine .snoc (.snoc ?_ ⟨_, .suspending⟩ rfl hreset) ⟨_, .suspending⟩ rfl hreset
    refine .snoc (.snoc ?_ ⟨_, .suspending⟩ rfl hreset) ⟨_, .suspending⟩ rfl hreset
    refine .snoc (.snoc ?_ ⟨_, .manual⟩ rfl hsuspending) ⟨_, .manual⟩ rfl hsuspending
    exact Since.snoc_iff.mpr (.inl ⟨⟨⟨.manual, .auto⟩, Registry.getMode_putMode _ _, rfl⟩, nofun⟩)

/-- In this run there was a switch between draining modes. -/
theorem Run.restores_iff_redraining :
    ∃ (h : List (Moment (Fin 4) Outcome)) (e : Moment (Fin 4) Outcome) (s : System (Fin 4) Outcome),
      Run (System.start .empty fun i => (redrainingCalls i).program) (h ++ [e]) s ∧
      OneByOne redrainingCalls (h ++ [e]) ∧ e.Restores redrainingCalls .auto ∧
      Interrupted .manual h ∧ Redrained redrainingCalls h := by
  obtain ⟨h, e, s, run, hone, hrestores, hm⟩ := Run.redraining
  have hiff := run.restores_iff (fun i => .inl (isModeCall_redrainingCalls i)) hone rfl hrestores hm
  refine ⟨h, e, s, run, hone, hrestores, hm, ?_⟩
  by_contra hnot
  exact Mode.noConfusion (hiff.mpr (.inr hnot))

/-- It is not so that a drain always gives back the mode that it interrupted. -/
theorem Run.not_always_restores :
    ¬ ∀ calls : Fin 4 → Operation, (∀ i, (calls i).IsModeCall) →
      ∀ (h : List (Moment (Fin 4) Outcome)) (s : System (Fin 4) Outcome),
        Run (System.start .empty fun i => (calls i).program) h s → OneByOne calls h →
        ∀ h₁ e h₂, h = h₁ ++ e :: h₂ → ∀ m m', e.Restores calls m' → Interrupted m h₁ →
          m' = m := by
  intro hclaim
  obtain ⟨h, e, s, run, hone, hrestores, hm⟩ := Run.redraining
  have hsame : Mode.auto = .manual := hclaim _ isModeCall_redrainingCalls _ _ run hone _ _ _ rfl _ _
    hrestores hm
  cases hsame

end RelayFleet
