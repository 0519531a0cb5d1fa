import RelayFleet.Proofs.Interleaving.Run

/-!
# Protocols of programs

What a program may do from where it stands is described by an automaton over actions and their
answers, its protocol. `Protocol.Follows` says that a program keeps to a protocol whatever it is
answered; it is proved for one program at a time, rule by rule (`Follows.bind`). In a run whose
calls all follow a protocol every step is a step of the protocol by its caller, so an invariant over
the registry, the lock and the stages that the calls are in has to be preserved by such steps only
(`Run.follows`).
-/

namespace RelayFleet

/-- An automaton over actions and their answers. -/
structure Protocol (Φ : Type) where
  /-- The registries that a transaction may meet. -/
  Meets : Registry → Prop
  /-- The steps from one stage to another. -/
  Step : Φ → (a : Action) → a.Reply → Φ → Prop

namespace Protocol

variable {Φ : Type} {P : Protocol Φ} {φ : Φ} {α β ε : Type}

/-- The answers that a program is prepared for. -/
def Expects (P : Protocol Φ) : (a : Action) → a.Reply → Prop
  | .transact t, r => ∃ time g, P.Meets g ∧ r = (t.run time g).1
  | _, _ => True

/-- From stage `φ` the program keeps to the protocol and ends as `Q` says. -/
def Follows (P : Protocol Φ) (φ : Φ) (p : Fleet α) (Q : Φ → α → Prop) : Prop :=
  match p with
  | .pure a => Q φ a
  | .ask a next => ∀ r, P.Expects a r → ∃ φ', P.Step φ a r φ' ∧ P.Follows φ' (next r) Q

namespace Follows

variable {Q R : Φ → α → Prop}

/-- What a program ends with may be said in less detail. -/
theorem mono {p : Fleet α} (h : P.Follows φ p Q) (hQ : ∀ φ a, Q φ a → R φ a) :
    P.Follows φ p R := by
  induction p generalizing φ with
  | pure a => exact hQ φ a h
  | ask a next ih =>
    intro r hr
    obtain ⟨φ', hs, hf⟩ := h r hr
    exact ⟨φ', hs, ih r hf⟩

/-- A program that goes on with another one. -/
theorem bind {p : Fleet α} {f : α → Fleet β} {S : Φ → β → Prop} (h : P.Follows φ p Q)
    (hf : ∀ φ a, Q φ a → P.Follows φ (f a) S) : P.Follows φ (p >>= f) S := by
  show P.Follows φ (p.bind f) S
  induction p generalizing φ with
  | pure a => exact hf φ a h
  | ask a next ih =>
    intro r hr
    obtain ⟨φ', hs, hf'⟩ := h r hr
    exact ⟨φ', hs, ih r hf'⟩

/-- A program that may fail and goes on with another one where it does not. -/
theorem bindExcept {p : ExceptT ε Fleet α} {f : α → ExceptT ε Fleet β}
    {S : Φ → Except ε α → Prop} {T : Φ → Except ε β → Prop} (h : P.Follows φ p.run S)
    (hok : ∀ φ a, S φ (.ok a) → P.Follows φ (f a).run T)
    (herror : ∀ φ e, S φ (.error e) → T φ (.error e)) : P.Follows φ (p >>= f).run T := by
  refine Follows.bind h ?_
  intro φ a ha
  cases a with
  | ok a => exact hok φ a ha
  | error e => exact herror φ e ha

/-- A single transaction of a program that may fail. -/
theorem attempt {wrap : StoreError → ε} {t : Transaction} {Q : Φ → Except ε t.Reply → Prop}
    (h : ∀ r, P.Expects (.transact t) r →
      ∃ φ', P.Step φ (.transact t) r φ' ∧ Q φ' (r.mapError wrap)) :
    P.Follows φ (Fleet.attempt wrap t).run Q := h

/-- A program in a program that may fail, which does not fail itself. -/
theorem lift {p : Fleet α} {f : α → ExceptT ε Fleet β} {S : Φ → Except ε β → Prop}
    (h : P.Follows φ p Q) (hf : ∀ φ a, Q φ a → P.Follows φ (f a).run S) :
    P.Follows φ ((liftM p : ExceptT ε Fleet α) >>= f).run S :=
  bindExcept (S := fun φ r => ∃ a, r = .ok a ∧ Q φ a) (bind h fun _ a ha => ⟨a, rfl, ha⟩)
    (by rintro φ a ⟨_, ⟨⟩, ha⟩; exact hf φ a ha) (by simp)

/-- A protocol that allows the steps of another one, its stages being read as stages of the first,
is followed by the programs that follow the other one. -/
theorem map {Ψ : Type} {T : Protocol Ψ} (f : Φ → Ψ) (hmeets : ∀ g, T.Meets g → P.Meets g)
    (hstep : ∀ φ a r φ', P.Step φ a r φ' → T.Step (f φ) a r (f φ')) {p : Fleet α}
    (h : P.Follows φ p Q) : T.Follows (f φ) p fun ψ a => ∃ φ, ψ = f φ ∧ Q φ a := by
  induction p generalizing φ with
  | pure a => exact ⟨φ, rfl, h⟩
  | ask a next ih =>
    intro r hr
    have hexpects : P.Expects a r := by
      cases a with
      | transact t =>
        obtain ⟨time, g, hg, hrun⟩ := hr
        exact ⟨time, g, hmeets g hg, hrun⟩
      | _ => trivial
    obtain ⟨φ', hs, hf⟩ := h r hexpects
    exact ⟨f φ', hstep φ a r φ' hs, ih r hf⟩

end Follows

end Protocol

/-! ## Runs of programs that follow a protocol -/

/-- A step of a call that follows a protocol is one of the protocol, and the call still follows it
then. -/
theorem Protocol.Follows.step {ι α Φ : Type} [DecidableEq ι] {P : Protocol Φ} {φ : Φ}
    {Q : Φ → α → Prop} {s s' : System ι α} {m : Move ι} (hf : P.Follows φ (s.calls m.caller) Q)
    (hs : RelayFleet.Step s m s') (hmeets : P.Meets s.registry) :
    ∃ φ', P.Step φ m.action m.reply φ' ∧ P.Follows φ' (s'.calls m.caller) Q := by
  obtain ⟨next, asks, answers⟩ := hs
  have hexpects : P.Expects m.action m.reply := by
    obtain ⟨i, a, time, r⟩ := m
    cases a with
    | transact t => exact ⟨time, s.registry, hmeets, answers⟩
    | _ => trivial
  rw [asks] at hf
  show ∃ φ', _ ∧ P.Follows φ' (Function.update s.calls m.caller (next m.reply) m.caller) Q
  rw [Function.update_self]
  exact hf m.reply hexpects

namespace Run

variable {ι α Φ : Type} [DecidableEq ι] {s₀ s : System ι α} {h : List (Moment ι α)}

/-- In a run of calls that follow a protocol the steps are steps of the protocol: what they preserve
holds of the registry, the lock, the run so far and the stages of the calls, which still follow the
protocol from these. They have to preserve it in runs of a kind `K` only, if the run is of this kind
and all that it goes through. -/
theorem follows_while {P : Protocol Φ} {Q : ι → Φ → α → Prop} {K : List (Moment ι α) → Prop}
    {I : List (Moment ι α) → System ι α → (ι → Φ) → Prop} {φ₀ : ι → Φ}
    (hclosed : ∀ h e, K (h ++ [e]) → K h)
    (hcalls : ∀ i, P.Follows (φ₀ i) (s₀.calls i) (Q i)) (hinit : I [] s₀ φ₀)
    (hmeets : ∀ h s φ, I h s φ → P.Meets s.registry)
    (hstep : ∀ h s φ m s' φ', Run s₀ h s → K (h ++ [⟨s, m⟩]) → I h s φ →
      RelayFleet.Step s m s' → P.Step (φ m.caller) m.action m.reply φ' →
      I (h ++ [⟨s, m⟩]) s' (Function.update φ m.caller φ'))
    (run : Run s₀ h s) (hk : K h) :
    ∃ φ, I h s φ ∧ ∀ i, P.Follows (φ i) (s.calls i) (Q i) := by
  induction run with
  | start => exact ⟨φ₀, hinit, hcalls⟩
  | @step h s s' m run hs ih =>
    obtain ⟨φ, hinv, hf⟩ := ih (hclosed _ _ hk)
    obtain ⟨φ', hp, hnext⟩ := (hf m.caller).step hs (hmeets _ _ _ hinv)
    refine ⟨Function.update φ m.caller φ', hstep _ _ _ _ _ _ run hk hinv hs hp, ?_⟩
    refine (Function.forall_update_iff φ fun i ψ => P.Follows ψ (s'.calls i) (Q i)).mpr
      ⟨hnext, fun i hi => ?_⟩
    rw [hs.calls_of_ne hi]
    exact hf i

/-- The same of all runs. -/
theorem follows {P : Protocol Φ} {Q : ι → Φ → α → Prop}
    {I : List (Moment ι α) → System ι α → (ι → Φ) → Prop} {φ₀ : ι → Φ}
    (hcalls : ∀ i, P.Follows (φ₀ i) (s₀.calls i) (Q i)) (hinit : I [] s₀ φ₀)
    (hmeets : ∀ h s φ, I h s φ → P.Meets s.registry)
    (hstep : ∀ h s φ m s' φ', Run s₀ h s → I h s φ → RelayFleet.Step s m s' →
      P.Step (φ m.caller) m.action m.reply φ' →
      I (h ++ [⟨s, m⟩]) s' (Function.update φ m.caller φ'))
    (run : Run s₀ h s) :
    ∃ φ, I h s φ ∧ ∀ i, P.Follows (φ i) (s.calls i) (Q i) :=
  run.follows_while (K := fun _ => True) (fun _ _ => id) hcalls hinit hmeets
    (fun _ _ _ _ _ _ run _ inv hs hp => hstep _ _ _ _ _ _ run inv hs hp) trivial

/-- The same of one call, whatever the others do. -/
theorem follows_call {P : Protocol Φ} {Q : Φ → α → Prop} {i : ι}
    {I : List (Moment ι α) → System ι α → Φ → Prop} {φ₀ : Φ}
    (hcall : P.Follows φ₀ (s₀.calls i) Q) (hinit : I [] s₀ φ₀)
    (hmeets : ∀ h s, Run s₀ h s → P.Meets s.registry)
    (hown : ∀ h s φ m s' φ', Run s₀ h s → I h s φ → RelayFleet.Step s m s' → m.caller = i →
      P.Step φ m.action m.reply φ' → I (h ++ [⟨s, m⟩]) s' φ')
    (hother : ∀ h s φ m s', Run s₀ h s → I h s φ → RelayFleet.Step s m s' → m.caller ≠ i →
      I (h ++ [⟨s, m⟩]) s' φ)
    (run : Run s₀ h s) : ∃ φ, I h s φ ∧ P.Follows φ (s.calls i) Q := by
  induction run with
  | start => exact ⟨φ₀, hinit, hcall⟩
  | @step h s s' m run hs ih =>
    obtain ⟨φ, hinv, hf⟩ := ih
    by_cases hi : m.caller = i
    · subst hi
      obtain ⟨φ', hp, hnext⟩ := hf.step hs (hmeets _ _ run)
      exact ⟨φ', hown _ _ _ _ _ _ run hinv hs rfl hp, hnext⟩
    · refine ⟨φ, hother _ _ _ _ _ run hinv hs hi, ?_⟩
      rwa [hs.calls_of_ne (Ne.symm hi)]

end Run

end RelayFleet
