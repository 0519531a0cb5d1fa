import RelayFleet.Proofs.Interleaving.Alone

/-!
# Two runs of one program

A program is run on two registries, while the same happens around both runs (`Together`): the clock
shows the same, and to whatever is asked outside the registry the same is answered. `Coupled` says
of a program what both runs have in common at their end: the result, and a relation between the
registries that they leave. The two registries may answer differently on the way. It is proved rule
by rule along the text of the program.
-/

namespace RelayFleet

/-! ## Two runs side by side -/

/-- An action that is answered by something else than the registry. -/
def Action.IsOutside : Action → Prop
  | .transact _ => False
  | _ => True

/-- The same happens around both deeds. -/
structure Deed.Matches (d d' : Deed) : Prop where
  time_eq : d'.time = d.time
  reply_eq : d.action.IsOutside → d'.action = d.action → HEq d'.reply d.reply

/-- The same happens around two runs, as long as both go on. -/
def Together : List Deed → List Deed → Prop
  | d :: l, d' :: l' => d.Matches d' ∧ Together l l'
  | _, _ => True

/-- Whatever is answered outside the registry may be answered beside any registry. -/
theorem Action.Permits.congr {a : Action} {time : Millis} {g g' : Registry} {r : a.Reply}
    (h : a.Permits time g r) (ha : a.IsOutside) : a.Permits time g' r := by
  cases a with
  | transact => cases ha
  | _ => exact h

/-! ## Coupled programs -/

/-- While the same happens around them, both programs end with the same, and leave registries of
which `P` holds. -/
inductive Coupled {α : Type} (P : α → Registry → Registry → Prop) :
    Registry → Fleet α → Registry → Fleet α → Prop
  | pure {x : α} {g g' : Registry} (h : P x g g') : Coupled P g (.pure x) g' (.pure x)
  | ask {g g' : Registry} {a : Action} {next next' : a.Reply → Fleet α}
    (rest : ∀ time r r', a.Permits time g r → a.Permits time g' r' → (a.IsOutside → r' = r) →
      Coupled P (a.registryAfter time g) (next r) (a.registryAfter time g') (next' r')) :
    Coupled P g (.ask a next) g' (.ask a next')

namespace Coupled

variable {α β ε : Type} {g g' : Registry} {P : α → Registry → Registry → Prop}
  {Q : β → Registry → Registry → Prop}

/-- Less may be said about the end. -/
theorem mono {P' : α → Registry → Registry → Prop} {p p' : Fleet α} (h : Coupled P g p g' p')
    (hP : ∀ x h h', P x h h' → P' x h h') : Coupled P' g p g' p' := by
  induction h with
  | pure h => exact .pure (hP _ _ _ h)
  | ask _ ih => exact .ask ih

/-- Programs that go on with another one. -/
theorem bind {p p' : Fleet α} {f : α → Fleet β} (h : Coupled P g p g' p')
    (hf : ∀ x h h', P x h h' → Coupled Q h (f x) h' (f x)) :
    Coupled Q g (p >>= f) g' (p' >>= f) := by
  show Coupled Q g (p.bind f) g' (p'.bind f)
  induction h with
  | pure h => exact hf _ _ _ h
  | ask _ ih => exact .ask ih

/-- Programs that may fail and go on with another one where they do not. -/
theorem bindExcept {p p' : ExceptT ε Fleet α} {f : α → ExceptT ε Fleet β}
    {P : Except ε α → Registry → Registry → Prop} {Q : Except ε β → Registry → Registry → Prop}
    (h : Coupled P g p.run g' p'.run)
    (hf : ∀ x h h', P (.ok x) h h' → Coupled Q h (f x).run h' (f x).run)
    (he : ∀ e h h', P (.error e) h h' → Q (.error e) h h') :
    Coupled Q g (p >>= f).run g' (p' >>= f).run := by
  refine bind h fun x h h' hx => ?_
  cases x with
  | ok x => exact hf x h h' hx
  | error e => exact .pure (he e h h' hx)

/-- A single action outside the registry. -/
theorem perform {a : Action} (ha : a.IsOutside) :
    Coupled (fun _ h h' => h = g ∧ h' = g') g (Fleet.perform a) g' (Fleet.perform a) := by
  have hkeeps : ∀ time k, a.registryAfter time k = k := by
    cases a with
    | transact => cases ha
    | _ => exact fun _ _ => rfl
  refine .ask fun time r r' _ _ hsame => ?_
  rw [hsame ha]
  exact .pure ⟨hkeeps time g, hkeeps time g'⟩

/-- A single transaction that both registries answer alike. -/
theorem attempt {wrap : StoreError → ε} {t : Transaction} {x : Millis → StoreResult t.Reply}
    {k k' : Millis → Registry} (hrun : ∀ time, t.run time g = (x time, k time))
    (hrun' : ∀ time, t.run time g' = (x time, k' time)) :
    Coupled (fun y h h' => ∃ time, y = (x time).mapError wrap ∧ h = k time ∧ h' = k' time)
      g (Fleet.attempt wrap t).run g' (Fleet.attempt wrap t).run := by
  refine .ask fun time r r' hr hr' _ => ?_
  obtain rfl : r = x time := hr.trans (congrArg Prod.fst (hrun time))
  obtain rfl : r' = x time := hr'.trans (congrArg Prod.fst (hrun' time))
  exact .pure ⟨time, rfl, congrArg Prod.snd (hrun time), congrArg Prod.snd (hrun' time)⟩

/-- A look at the registries that both answer alike. -/
theorem look {wrap : StoreError → ε} {t : Transaction} {x : StoreResult t.Reply}
    (hrun : ∀ time, t.run time g = (x, g)) (hrun' : ∀ time, t.run time g' = (x, g')) :
    Coupled (fun y h h' => y = x.mapError wrap ∧ h = g ∧ h' = g')
      g (Fleet.attempt wrap t).run g' (Fleet.attempt wrap t).run :=
  (attempt hrun hrun').mono fun _ _ _ ⟨_, h⟩ => h

/-- Programs under the lock. -/
theorem withLock {timeout : Duration} {busy : LockTimeout → Fleet α} {body : Fleet α}
    (hbusy : ∀ e, Coupled P g (busy e) g' (busy e)) (hbody : Coupled P g body g' body) :
    Coupled P g (Fleet.withLock timeout busy body) g' (Fleet.withLock timeout busy body) := by
  refine bind (perform (a := .acquire timeout) trivial) ?_
  rintro x _ _ ⟨rfl, rfl⟩
  cases x with
  | error e => exact hbusy e
  | ok =>
    refine bind hbody fun y h h' hy => bind (perform (a := .release) trivial) ?_
    rintro _ _ _ ⟨rfl, rfl⟩
    exact .pure hy

/-! ### What coupled programs do -/

variable {p p' : Fleet α} {l l' : List Deed} {x x' : α} {k k' : Registry}

/-- Two runs of coupled programs around which the same happens end alike. -/
theorem alone (h : Coupled P g p g' p') (run : Alone g p l x k) (run' : Alone g' p' l' x' k')
    (together : Together l l') : x' = x ∧ P x k k' := by
  induction h generalizing l l' with
  | pure h =>
    cases run
    cases run'
    exact ⟨rfl, h⟩
  | ask _ ih =>
    cases run with
    | @ask _ _ _ _ time r _ _ permits run =>
      cases run' with
      | @ask _ _ _ _ time' r' _ _ permits' run' =>
        obtain ⟨⟨htime, hreply⟩, together⟩ := together
        obtain rfl : time' = time := htime
        exact ih _ _ _ permits permits' (fun ha => eq_of_heq (hreply ha rfl)) run run' together

/-- For each run of the one program there is such a run of the other one. -/
theorem exists_together (h : Coupled P g p g' p') (run : Alone g p l x k) :
    ∃ l' k', Alone g' p' l' x k' ∧ Together l l' ∧ P x k k' := by
  induction h generalizing l with
  | pure h =>
    cases run
    exact ⟨[], _, .pure, trivial, h⟩
  | @ask g g' a _ _ _ ih =>
    cases run with
    | @ask _ _ _ _ time r _ _ permits run =>
      obtain ⟨r', permits', hsame⟩ : ∃ r', a.Permits time g' r' ∧ (a.IsOutside → r' = r) := by
        cases a with
        | transact t => exact ⟨_, rfl, nofun⟩
        | _ => exact ⟨r, permits.congr trivial, fun _ => rfl⟩
      obtain ⟨l', k', run', together, hk⟩ := ih time r r' permits permits' hsame run
      exact ⟨_, k', .ask permits' run',
        ⟨⟨rfl, fun ha _ => heq_of_eq (hsame ha)⟩, together⟩, hk⟩

end Coupled

end RelayFleet
