import RelayFleet.Proofs.Interleaving.Asks
import RelayFleet.Proofs.Interleaving.Run

/-!
# Programs that run alone

A program that nobody interrupts reads in each of its actions what it has left in the one before.
`Alone g p l x g'` says that it can go from `g` to `g'` like this and end with `x`, `l` being what
it has done. Such a run is taken apart along the text of the program (`Alone.bind`,
`Alone.andThen`), so what a function does to the registry is said once for each function. The moves
of a run in which one call only moves are such a run of its program (`Run.alone`).
-/

namespace RelayFleet

/-- What is done in one action: the registry before it, the action, the time on the clock and the
answer. -/
structure Deed where
  before : Registry
  action : Action
  time : Millis
  reply : action.Reply

/-- What an action may be answered whoever asks for it. -/
def Action.Permits (time : Millis) (g : Registry) : (a : Action) → a.Reply → Prop
  | .transact t, r => r = (t.run time g).1
  | .now, r => r = time
  | _, _ => True

/-- The program goes from one registry to another, does this on its way and ends with this. -/
inductive Alone {α : Type} : Registry → Fleet α → List Deed → α → Registry → Prop
  | pure {g : Registry} {x : α} : Alone g (.pure x) [] x g
  | ask {g g' : Registry} {a : Action} {next : a.Reply → Fleet α} {time : Millis} {r : a.Reply}
    {l : List Deed} {x : α} (permits : a.Permits time g r)
    (rest : Alone (a.registryAfter time g) (next r) l x g') :
    Alone g (.ask a next) (⟨g, a, time, r⟩ :: l) x g'

namespace Alone

variable {α β ε : Type} {g g' : Registry} {l : List Deed} {x : α} {y : β}

/-- A program that has ended does nothing. -/
theorem of_pure {a : α} (h : Alone g (Pure.pure a) l x g') : l = [] ∧ x = a ∧ g' = g := by
  cases h
  exact ⟨rfl, rfl, rfl⟩

/-- A program that goes on with another one. -/
theorem bind {p : Fleet α} {f : α → Fleet β} (h : Alone g (p >>= f) l y g') :
    ∃ l₁ x g₁ l₂, l = l₁ ++ l₂ ∧ Alone g p l₁ x g₁ ∧ Alone g₁ (f x) l₂ y g' := by
  change Alone g (p.bind f) l y g' at h
  induction p generalizing g l with
  | pure a => exact ⟨[], a, g, l, rfl, .pure, h⟩
  | ask a next ih =>
    cases h with
    | ask permits rest =>
      obtain ⟨l₁, x, g₁, l₂, rfl, h₁, h₂⟩ := ih _ rest
      exact ⟨_, x, g₁, l₂, rfl, .ask permits h₁, h₂⟩

/-- A program goes on with another one from where it ends. -/
theorem followed {p : Fleet α} {f : α → Fleet β} {g₁ : Registry} {l₁ l₂ : List Deed}
    (h₁ : Alone g p l₁ x g₁) (h₂ : Alone g₁ (f x) l₂ y g') :
    Alone g (p >>= f) (l₁ ++ l₂) y g' := by
  induction h₁ with
  | pure => exact h₂
  | ask permits _ ih => exact .ask permits (ih h₂)

/-- Something is made of what a program ends with. -/
theorem map {p : Fleet α} {f : α → β} (h : Alone g (f <$> p) l y g') :
    ∃ x, y = f x ∧ Alone g p l x g' := by
  obtain ⟨l₁, x, g₁, l₂, rfl, h₁, h₂⟩ := h.bind
  obtain ⟨rfl, rfl, rfl⟩ := of_pure h₂
  exact ⟨x, rfl, by simpa using h₁⟩

/-- A single action. -/
theorem perform {a : Action} {r : a.Reply} (h : Alone g (Fleet.perform a) l r g') :
    ∃ time, a.Permits time g r ∧ l = [⟨g, a, time, r⟩] ∧ g' = a.registryAfter time g := by
  cases h with
  | ask permits rest =>
    cases rest
    exact ⟨_, permits, rfl, rfl⟩

/-- A program that may fail has failed, or it has not and goes on with another one. -/
theorem andThen {p : ExceptT ε Fleet α} {f : α → ExceptT ε Fleet β} {y : Except ε β}
    (h : Alone g (p >>= f).run l y g') :
    (∃ e, y = .error e ∧ Alone g p.run l (.error e) g') ∨
      ∃ l₁ x g₁ l₂, l = l₁ ++ l₂ ∧ Alone g p.run l₁ (.ok x) g₁ ∧ Alone g₁ (f x).run l₂ y g' := by
  obtain ⟨l₁, x, g₁, l₂, rfl, h₁, h₂⟩ := bind h
  cases x with
  | ok a => exact .inr ⟨l₁, a, g₁, l₂, rfl, h₁, h₂⟩
  | error e =>
    obtain ⟨rfl, rfl, rfl⟩ := of_pure h₂
    rw [List.append_nil]
    exact .inl ⟨e, rfl, h₁⟩

/-- A program that does not fail goes on with one that may. -/
theorem lift {p : Fleet α} {f : α → ExceptT ε Fleet β} {y : Except ε β}
    (h : Alone g ((liftM p : ExceptT ε Fleet α) >>= f).run l y g') :
    ∃ l₁ x g₁ l₂, l = l₁ ++ l₂ ∧ Alone g p l₁ x g₁ ∧ Alone g₁ (f x).run l₂ y g' := by
  rcases andThen h with ⟨e, -, h₁⟩ | ⟨l₁, x, g₁, l₂, rfl, h₁, h₂⟩
  · obtain ⟨x, hx, -⟩ := map h₁
    cases hx
  · obtain ⟨x', hx, h₁⟩ := map h₁
    cases hx
    exact ⟨l₁, x, g₁, l₂, rfl, h₁, h₂⟩

/-- A single action that a program which may fail goes on from. -/
theorem performed {a : Action} {f : a.Reply → ExceptT ε Fleet β} {y : Except ε β}
    (h : Alone g ((liftM (Fleet.perform a) : ExceptT ε Fleet a.Reply) >>= f).run l y g') :
    ∃ time r l₂, a.Permits time g r ∧ l = ⟨g, a, time, r⟩ :: l₂ ∧
      Alone (a.registryAfter time g) (f r).run l₂ y g' := by
  obtain ⟨l₁, r, g₁, l₂, rfl, h₁, h₂⟩ := lift h
  obtain ⟨time, permits, rfl, rfl⟩ := perform h₁
  exact ⟨time, r, l₂, permits, rfl, h₂⟩

/-- A single transaction of a program that may fail. -/
theorem attempt {wrap : StoreError → ε} {t : Transaction} {y : Except ε t.Reply}
    (h : Alone g (Fleet.attempt wrap t).run l y g') :
    ∃ time, y = (t.run time g).1.mapError wrap ∧
      l = [⟨g, .transact t, time, (t.run time g).1⟩] ∧ g' = (t.run time g).2 := by
  obtain ⟨r, rfl, hrun⟩ := map (p := Fleet.transact t) h
  obtain ⟨time, permits, rfl, rfl⟩ := perform (a := .transact t) hrun
  cases permits
  exact ⟨time, rfl, rfl, rfl⟩

/-- A single transaction that has not failed. -/
theorem attempt_ok {wrap : StoreError → ε} {t : Transaction} {a : t.Reply}
    (h : Alone g (Fleet.attempt wrap t).run l (.ok a) g') :
    ∃ time, t.run time g = (.ok a, g') := by
  obtain ⟨time, hx, -, rfl⟩ := attempt h
  refine ⟨time, Prod.ext ?_ rfl⟩
  generalize (t.run time g).1 = reply at hx
  cases reply with
  | error e => cases hx
  | ok =>
    cases hx
    rfl

/-- A transaction that does not fail, in a program that goes on from it. -/
theorem attempted {wrap : StoreError → ε} {t : Transaction} {f : t.Reply → ExceptT ε Fleet β}
    {y : Except ε β} {a : Millis → t.Reply} {g₁ : Millis → Registry}
    (h : Alone g (Fleet.attempt wrap t >>= f).run l y g')
    (hrun : ∀ time, t.run time g = (.ok (a time), g₁ time)) :
    ∃ time l₂, l = ⟨g, .transact t, time, .ok (a time)⟩ :: l₂ ∧
      Alone (g₁ time) (f (a time)).run l₂ y g' := by
  rcases andThen h with ⟨e, -, h₁⟩ | ⟨l₁, x, g₂, l₂, rfl, h₁, h₂⟩
  · obtain ⟨time, hx, -, -⟩ := attempt h₁
    rw [hrun] at hx
    cases hx
  · obtain ⟨time, hx, rfl, rfl⟩ := attempt h₁
    rw [hrun] at hx h₂ ⊢
    cases hx
    exact ⟨time, l₂, rfl, h₂⟩

/-- A program under the lock. -/
theorem withLock {timeout : Duration} {busy : LockTimeout → Fleet α} {body : Fleet α}
    (h : Alone g (Fleet.withLock timeout busy body) l x g') :
    (∃ time e l₁, l = ⟨g, .acquire timeout, time, .error e⟩ :: l₁ ∧ Alone g (busy e) l₁ x g') ∨
      ∃ time l₁ time',
        l = ⟨g, .acquire timeout, time, .ok ()⟩ :: l₁ ++ [⟨g', .release, time', ()⟩] ∧
        Alone g body l₁ x g' := by
  obtain ⟨l₁, reply, g₁, l₂, rfl, h₁, h₂⟩ := h.bind
  obtain ⟨time, -, rfl, hg₁⟩ := perform (a := .acquire timeout) h₁
  obtain rfl : g = g₁ := hg₁.symm
  cases reply with
  | error e => exact .inl ⟨time, e, l₂, rfl, h₂⟩
  | ok =>
    obtain ⟨l₃, y, g₃, l₄, rfl, h₃, h₄⟩ := h₂.bind
    obtain ⟨l₅, _, g₅, l₆, rfl, h₅, h₆⟩ := h₄.bind
    obtain ⟨time', -, rfl, hg₅⟩ := perform (a := .release) h₅
    obtain rfl : g₅ = g₃ := hg₅
    obtain ⟨rfl, rfl, rfl⟩ := of_pure h₆
    exact .inr ⟨time, l₃, time', by simp, h₃⟩

/-- What a program asks for is what it does. -/
theorem asks {A : Action → Prop} {P : α → Prop} {p : Fleet α} (h : Alone g p l x g')
    (hasks : Asks A p P) : (∀ d ∈ l, A d.action) ∧ P x := by
  induction h with
  | pure => exact ⟨fun d hd => (by cases hd), hasks⟩
  | ask _ _ ih =>
    obtain ⟨hl, hx⟩ := ih (hasks.2 _)
    exact ⟨List.forall_mem_cons.mpr ⟨hasks.1, hl⟩, hx⟩

end Alone

/-- Every action may be answered somehow. -/
theorem Action.exists_permits (a : Action) (time : Millis) (g : Registry) :
    ∃ r, a.Permits time g r := by
  cases a with
  | transact t => exact ⟨_, rfl⟩
  | now => exact ⟨_, rfl⟩
  | provision c => exact ⟨.error default, trivial⟩
  | _ => exact ⟨default, trivial⟩

/-- Every program can go to its end alone, at any time. -/
theorem exists_alone {α : Type} (p : Fleet α) (time : Millis) (g : Registry) :
    ∃ l x g', Alone g p l x g' ∧ ∀ d ∈ l, d.time = time := by
  induction p generalizing g with
  | pure x => exact ⟨[], x, g, .pure, List.forall_mem_nil _⟩
  | ask a next ih =>
    obtain ⟨r, permits⟩ := a.exists_permits time g
    obtain ⟨l, x, g', rest, htimes⟩ := ih r (a.registryAfter time g)
    exact ⟨_, x, g', .ask permits rest, List.forall_mem_cons.mpr ⟨rfl, htimes⟩⟩

/-! ## Runs in which one call only moves -/

section
variable {ι α : Type}

/-- What is done at a moment of a run. -/
def Moment.deed (e : Moment ι α) : Deed :=
  ⟨e.before.registry, e.move.action, e.move.time, e.move.reply⟩

/-- What an action may be answered in a run it may be answered to anyone. -/
theorem Action.Answers.permits {a : Action} {time : Millis} {g : Registry} {i : ι}
    {holder : Option ι} {r : a.Reply} (h : a.Answers time g i holder r) : a.Permits time g r := by
  cases a with
  | transact | now => exact h
  | _ => trivial

/-- The moves of a run in which one call only moves are a run of its program alone. -/
theorem Run.alone [DecidableEq ι] {s₀ s : System ι α} {h : List (Moment ι α)} {i : ι} {x : α}
    (run : Run s₀ h s) (hlone : ∀ e ∈ h, e.move.caller = i) (hdone : s.calls i = .pure x) :
    Alone s₀.registry (s₀.calls i) (h.map Moment.deed) x s.registry := by
  induction h generalizing s₀ with
  | nil =>
    obtain rfl := run.of_nil
    rw [hdone]
    exact .pure
  | cons e h ih =>
    rw [← List.nil_append (e :: h)] at run
    obtain ⟨s₁, r₁, hs, r₂⟩ := run.of_append_cons
    obtain rfl := r₁.of_nil.symm
    have hrest := ih r₂ fun e' he' => hlone e' (List.mem_cons_of_mem _ he')
    obtain rfl := hlone e List.mem_cons_self
    obtain ⟨next, asks, answers⟩ := hs
    dsimp only at hrest
    rw [Function.update_self] at hrest
    rw [asks]
    exact .ask answers.permits hrest

/-- From one system to another this call only moves, from its beginning to its end. -/
structure GoesThrough [DecidableEq ι] (p : Fleet α) (i : ι) (s : System ι α)
    (h : List (Moment ι α)) (s' : System ι α) (x : α) : Prop where
  run : Run s h s'
  begins : s.calls i = p
  lone : ∀ e ∈ h, e.move.caller = i
  ends : s'.calls i = .pure x

/-- A call that goes through is a run of its program alone. -/
theorem GoesThrough.alone [DecidableEq ι] {p : Fleet α} {i : ι} {s s' : System ι α}
    {h : List (Moment ι α)} {x : α} (through : GoesThrough p i s h s' x) :
    Alone s.registry p (h.map Moment.deed) x s'.registry :=
  through.begins ▸ through.run.alone through.lone through.ends

/-- What is done may be done by this caller, who gets the lock and gives it back in between. -/
def Fits (i : ι) : Option ι → List Deed → Prop
  | _, [] => True
  | holder, d :: l => d.action.Answers d.time d.before i holder d.reply ∧
    Fits i (d.action.holderAfter i holder d.reply) l

/-- Who has the lock after this caller has done what is done, `holder` having it before. -/
def holderThrough (i : ι) (holder : Option ι) (l : List Deed) : Option ι :=
  l.foldl (fun holder d => d.action.holderAfter i holder d.reply) holder

/-- In a run in which one call only moves this caller may do what is done, and has the lock or gives
it back accordingly. -/
theorem Run.fits [DecidableEq ι] {s₀ s : System ι α} {h : List (Moment ι α)} {i : ι}
    (run : Run s₀ h s) (hlone : ∀ e ∈ h, e.move.caller = i) :
    Fits i s₀.holder (h.map Moment.deed) ∧
      s.holder = holderThrough i s₀.holder (h.map Moment.deed) := by
  induction h generalizing s₀ with
  | nil =>
    obtain rfl := run.of_nil
    exact ⟨trivial, rfl⟩
  | cons e h ih =>
    rw [← List.nil_append (e :: h)] at run
    obtain ⟨s₁, r₁, hs, r₂⟩ := run.of_append_cons
    obtain rfl := r₁.of_nil.symm
    obtain ⟨hfits, hholder⟩ := ih r₂ fun e' he' => hlone e' (List.mem_cons_of_mem _ he')
    obtain rfl := hlone e List.mem_cons_self
    rw [hs.holder_eq] at hfits hholder
    exact ⟨⟨hs.answers, hfits⟩, hholder⟩

/-- Whoever has the lock or does not may do what is done without touching it. -/
theorem Alone.fits_append {i : ι} {holder : Option ι} {g g' : Registry} {p : Fleet α}
    {l l' : List Deed} {x : α} {P : α → Prop} (alone : Alone g p l x g')
    (hwork : Asks Action.IsWork p P) (h : Fits i holder l') : Fits i holder (l ++ l') := by
  induction alone with
  | pure => exact h
  | @ask g g' a next time r l x permits _ ih =>
    have hrest := ih (hwork.2 r)
    have hdone := hwork.1
    cases a with
    | acquire | release => exact absurd hdone id
    | _ => exact ⟨permits, hrest⟩

/-- A run of a program alone is one of a caller who may do what is done in it. -/
theorem Alone.goesThrough [DecidableEq ι] {i : ι} {s : System ι α} {p : Fleet α} {l : List Deed}
    {x : α} {g' : Registry} (alone : Alone s.registry p l x g') (hbegins : s.calls i = p)
    (hfits : Fits i s.holder l) :
    ∃ h s', GoesThrough p i s h s' x ∧ h.map Moment.deed = l ∧ s'.registry = g' := by
  generalize hg : s.registry = g at alone
  induction alone generalizing s with
  | pure => exact ⟨[], s, ⟨.start, hbegins, List.forall_mem_nil _, hbegins⟩, rfl, hg⟩
  | @ask g g' a next time r l x permits rest ih =>
    subst hg
    obtain ⟨answers, hrest⟩ := hfits
    have first := (Run.start : Run s [] s).perform i hbegins time r answers
    obtain ⟨h, s', through, hl, hg'⟩ := ih (s := ⟨a.registryAfter time s.registry,
      a.holderAfter i s.holder r, Function.update s.calls i (next r)⟩) (Function.update_self ..)
      hrest rfl
    exact ⟨_, s', ⟨first.append through.run, hbegins,
      List.forall_mem_cons.mpr ⟨rfl, through.lone⟩, through.ends⟩, congrArg _ hl, hg'⟩

/-- A program that leaves the lock alone can go through whatever the registry is. -/
theorem exists_goesThrough [DecidableEq ι] {i : ι} {s : System ι α} {p : Fleet α} {P : α → Prop}
    (hwork : Asks Action.IsWork p P) (hbegins : s.calls i = p) :
    ∃ h s' x, GoesThrough p i s h s' x := by
  obtain ⟨l, x, g', halone, -⟩ := exists_alone p 0 s.registry
  have hfits : Fits i s.holder (l ++ []) := halone.fits_append hwork trivial
  rw [List.append_nil] at hfits
  obtain ⟨h, s', through, -, -⟩ := halone.goesThrough hbegins hfits
  exact ⟨h, s', x, through⟩

end

end RelayFleet
