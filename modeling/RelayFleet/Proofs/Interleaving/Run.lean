import Mathlib.Data.List.Induction
import Mathlib.Logic.Function.Basic
import RelayFleet.Fleet.Action

/-!
# Runs of concurrent calls

Calls of a fleet that are in progress together are a family of programs. In a step one of them
performs its next action and goes on with the answer (`Step`); a run is any sequence of such steps
(`Run`), so it may interleave the actions of the calls in every way. The registry answers a
transaction by running it, the lock is given to one caller at a time, and everything else that a
caller may be told, the outcomes of the provisioner above all, is left open. A call to the
provisioner is under way while its program stands at it, and the step is its completion.
-/

namespace RelayFleet

/-- What one caller does in a step: the action, the time on the clock, and the answer. -/
structure Move (ι : Type) where
  caller : ι
  action : Action
  time : Millis
  reply : action.Reply

namespace Action

variable {ι : Type}

/-- The registry after an action: transactions change it and nothing else does. -/
def registryAfter (time : Millis) (g : Registry) : Action → Registry
  | .transact t => (t.run time g).2
  | _ => g

/-- Who has the allocation lock after an action of `i`, `holder` having it before. -/
def holderAfter (i : ι) (holder : Option ι) : (a : Action) → a.Reply → Option ι
  | .acquire _, .ok _ => some i
  | .release, _ => none
  | _, _ => holder

/-- What an action of `i` may be answered. The lock is had only while nobody has it, and a caller
may stop waiting for it at any moment; the provisioner, the directory and the counters may answer
anything. -/
def Answers (time : Millis) (g : Registry) (i : ι) (holder : Option ι) :
    (a : Action) → a.Reply → Prop
  | .transact t, r => r = (t.run time g).1
  | .now, r => r = time
  | .acquire _, .ok _ => holder = none
  | .acquire timeout, .error e => e = ⟨allocationLockName, timeout⟩
  | .release, _ => holder = some i
  | _, _ => True

end Action

/-- A registry, the holder of the allocation lock, and what is left of the calls' programs. -/
structure System (ι α : Type) where
  registry : Registry
  holder : Option ι
  calls : ι → Fleet α

/-- A step that is about to be taken. -/
structure Moment (ι α : Type) where
  before : System ι α
  move : Move ι

variable {ι α : Type}

/-- Calls that have not begun, on a registry whose lock is free. -/
def System.start (g : Registry) (calls : ι → Fleet α) : System ι α := ⟨g, none, calls⟩

/-- A call performs its next action and goes on with the answer. -/
inductive Step [DecidableEq ι] (s : System ι α) (m : Move ι) : System ι α → Prop
  | mk (next : m.action.Reply → Fleet α) (asks : s.calls m.caller = .ask m.action next)
      (answers : m.action.Answers m.time s.registry m.caller s.holder m.reply) :
      Step s m
        { registry := m.action.registryAfter m.time s.registry
          holder := m.action.holderAfter m.caller s.holder m.reply
          calls := Function.update s.calls m.caller (next m.reply) }

/-- A run: the steps that lead from one system to another, each with the system before it. -/
inductive Run [DecidableEq ι] (s₀ : System ι α) : List (Moment ι α) → System ι α → Prop
  | start : Run s₀ [] s₀
  | step {h : List (Moment ι α)} {s s' : System ι α} {m : Move ι} (run : Run s₀ h s)
      (step : Step s m s') : Run s₀ (h ++ [⟨s, m⟩]) s'

/-- The moves of a run. -/
def movesOf (h : List (Moment ι α)) : List (Move ι) := h.map (·.move)

/-- The moves after one more step. -/
@[simp]
theorem movesOf_snoc (h : List (Moment ι α)) (e : Moment ι α) :
    movesOf (h ++ [e]) = movesOf h ++ [e.move] :=
  List.map_append

/-- The moves of a run and of its continuation. -/
theorem movesOf_append (h₁ h₂ : List (Moment ι α)) :
    movesOf (h₁ ++ h₂) = movesOf h₁ ++ movesOf h₂ :=
  List.map_append

/-- The call has made a move. -/
def Begun (h : List (Moment ι α)) (i : ι) : Prop := ∃ m ∈ h, m.move.caller = i

/-- A call that has made a move has made it for good. -/
theorem Begun.snoc {h : List (Moment ι α)} {i : ι} (hi : Begun h i) (m : Moment ι α) :
    Begun (h ++ [m]) i := by
  obtain ⟨m', hm', rfl⟩ := hi
  exact ⟨m', List.mem_append_left _ hm', rfl⟩

/-- Who has made the last move has made a move. -/
theorem begun_snoc_self (h : List (Moment ι α)) (m : Moment ι α) : Begun (h ++ [m]) m.move.caller :=
  ⟨m, by simp, rfl⟩

/-- Since the call got the lock there was a moment as `P` says, and the call has kept the lock. -/
def WhileHeld (h : List (Moment ι α)) (i : ι) (P : Moment ι α → Prop) : Prop :=
  ∃ h₁ e h₂, h = h₁ ++ e :: h₂ ∧ P e ∧ ∀ e' ∈ e :: h₂, e'.before.holder = some i

/-- The call keeps the lock for one more step. -/
theorem WhileHeld.snoc {h : List (Moment ι α)} {i : ι} {P : Moment ι α → Prop}
    (hp : WhileHeld h i P) {e : Moment ι α} (he : e.before.holder = some i) :
    WhileHeld (h ++ [e]) i P := by
  obtain ⟨h₁, e₁, h₂, rfl, hpe, hheld⟩ := hp
  refine ⟨h₁, e₁, h₂ ++ [e], by simp, hpe, ?_⟩
  intro e' he'
  rw [← List.cons_append, List.mem_append, List.mem_singleton] at he'
  rcases he' with he' | rfl
  · exact hheld e' he'
  · exact he

/-- In one more step before which the call has the lock there was a moment as `P` says, or there was
one before. -/
theorem WhileHeld.snoc_iff {h : List (Moment ι α)} {i : ι} {P : Moment ι α → Prop}
    {e : Moment ι α} :
    WhileHeld (h ++ [e]) i P ↔ e.before.holder = some i ∧ (P e ∨ WhileHeld h i P) := by
  constructor
  · rintro ⟨h₁, e₁, h₂, heq, hp, hheld⟩
    rcases List.eq_nil_or_concat h₂ with rfl | ⟨h₂, e₂, rfl⟩
    · obtain ⟨-, heq⟩ := List.append_inj' heq rfl
      cases heq
      exact ⟨hheld e List.mem_cons_self, .inl hp⟩
    · have hsnoc : h ++ [e] = (h₁ ++ e₁ :: h₂) ++ [e₂] := by simpa using heq
      obtain ⟨rfl, hlast⟩ := List.append_inj' hsnoc rfl
      cases hlast
      refine ⟨hheld e (by simp), .inr ⟨h₁, e₁, h₂, rfl, hp, fun e' he' => hheld e' ?_⟩⟩
      rw [List.concat_eq_append, ← List.cons_append]
      exact List.mem_append_left _ he'
  · rintro ⟨he, hp | hp⟩
    · exact ⟨h, e, [], rfl, hp, by simpa using he⟩
    · exact hp.snoc he

/-- Every call has returned. -/
def System.Finished (s : System ι α) : Prop := ∀ i, ∃ a, s.calls i = .pure a

variable [DecidableEq ι]

namespace Step

variable {s s' s'' : System ι α} {m : Move ι}

/-- A move leads to one system only. -/
theorem unique (h : Step s m s') (h' : Step s m s'') : s' = s'' := by
  obtain ⟨next, asks, -⟩ := h
  obtain ⟨next', asks', -⟩ := h'
  rw [asks] at asks'
  cases asks'
  rfl

/-- Who makes a step stands at its action. -/
theorem asks (h : Step s m s') :
    ∃ next : m.action.Reply → Fleet α, s.calls m.caller = .ask m.action next := by
  obtain ⟨next, asks, -⟩ := h
  exact ⟨next, asks⟩

/-- Who makes a step has not returned. -/
theorem ne_pure (h : Step s m s') (a : α) : s.calls m.caller ≠ .pure a := by
  obtain ⟨next, hasks⟩ := h.asks
  rw [hasks]
  exact nofun

/-- The answer is one that may be given. -/
theorem answers (h : Step s m s') :
    m.action.Answers m.time s.registry m.caller s.holder m.reply := by
  cases h
  assumption

/-- The registry after a step. -/
theorem registry_eq (h : Step s m s') : s'.registry = m.action.registryAfter m.time s.registry := by
  cases h
  rfl

/-- The holder of the lock after a step. -/
theorem holder_eq (h : Step s m s') :
    s'.holder = m.action.holderAfter m.caller s.holder m.reply := by
  cases h
  rfl

/-- Nobody else takes the lock from a call or gives it to one. -/
theorem holder_iff_of_ne (h : Step s m s') {i : ι} (hi : m.caller ≠ i) :
    s'.holder = some i ↔ s.holder = some i := by
  rw [h.holder_eq]
  have answers := h.answers
  obtain ⟨j, a, time, r⟩ := m
  cases a with
  | acquire =>
    cases r with
    | ok =>
      rw [show s.holder = none from answers]
      simpa [Action.holderAfter] using hi
    | error => exact Iff.rfl
  | release =>
    rw [show s.holder = some j from answers]
    simpa [Action.holderAfter] using hi
  | _ => exact Iff.rfl

/-- A step is one of its caller alone. -/
theorem calls_of_ne (h : Step s m s') {i : ι} (hi : i ≠ m.caller) : s'.calls i = s.calls i := by
  cases h
  exact Function.update_of_ne hi _ _

end Step

namespace Run

variable {s₀ s₁ s s' : System ι α} {h h₁ h₂ : List (Moment ι α)} {e : Moment ι α}

/-- A run of one step. -/
theorem single {m : Move ι} (hs : Step s m s') : Run s [⟨s, m⟩] s' := .step .start hs

/-- A run goes on with any action that a caller is at. -/
theorem perform (r : Run s₀ h s) (i : ι) {a : Action} {next : a.Reply → Fleet α}
    (asks : s.calls i = .ask a next) (time : Millis) (reply : a.Reply)
    (answers : a.Answers time s.registry i s.holder reply) :
    Run s₀ (h ++ [⟨s, ⟨i, a, time, reply⟩⟩])
      { registry := a.registryAfter time s.registry
        holder := a.holderAfter i s.holder reply
        calls := Function.update s.calls i (next reply) } :=
  .step r (.mk (m := ⟨i, a, time, reply⟩) next asks answers)

/-- A run goes on with any transaction that a caller is at. -/
theorem transact (r : Run s₀ h s) {g g' : Registry} (hreg : s.registry = g) (i : ι)
    {t : Transaction} {next : StoreResult t.Reply → Fleet α}
    (asks : s.calls i = .ask (.transact t) next) (time : Millis) (hrun : (t.run time g).2 = g') :
    ∃ h', Run s₀ h' ⟨g', s.holder, Function.update s.calls i (next (t.run time g).1)⟩ := by
  subst hreg hrun
  exact ⟨_, r.perform i asks time _ rfl⟩

/-- Where a run has led another one starts. -/
theorem restart (_ : Run s₀ h s) : Run s [] s := .start

/-- Runs follow each other. -/
theorem append (r₁ : Run s₀ h₁ s₁) (r₂ : Run s₁ h₂ s) : Run s₀ (h₁ ++ h₂) s := by
  induction r₂ with
  | start => simpa using r₁
  | step _ hs ih =>
    rw [← List.append_assoc]
    exact .step ih hs

/-- A run without steps leads nowhere. -/
theorem of_nil (r : Run s₀ [] s) : s = s₀ := by
  generalize heq : [] = h at r
  cases r with
  | start => rfl
  | step => simp at heq

/-- The last step of a run. -/
theorem of_append_singleton (r : Run s₀ (h ++ [e]) s) :
    Run s₀ h e.before ∧ Step e.before e.move s := by
  generalize heq : h ++ [e] = h' at r
  cases r with
  | start => simp at heq
  | step run hs =>
    obtain ⟨rfl, he⟩ := List.append_inj' heq rfl
    cases he
    exact ⟨run, hs⟩

/-- A run passes through the end of each of its beginnings. -/
theorem of_append (r : Run s₀ (h₁ ++ h₂) s) : ∃ s₁, Run s₀ h₁ s₁ ∧ Run s₁ h₂ s := by
  induction h₂ using List.reverseRecOn generalizing s with
  | nil => exact ⟨s, by simpa using r, .start⟩
  | append_singleton h₂ e ih =>
    rw [← List.append_assoc] at r
    obtain ⟨run, hs⟩ := of_append_singleton r
    obtain ⟨s₁, r₁, r₂⟩ := ih run
    exact ⟨s₁, r₁, .step r₂ hs⟩

/-- Every moment of a run is one of its steps. -/
theorem step_of_mem (r : Run s₀ h s) (he : e ∈ h) :
    ∃ s', RelayFleet.Step e.before e.move s' := by
  obtain ⟨h₁, h₂, rfl⟩ := List.append_of_mem he
  rw [List.append_cons] at r
  obtain ⟨s', r₁, -⟩ := r.of_append
  exact ⟨s', r₁.of_append_singleton.2⟩

/-- A run goes through each of its steps. -/
theorem of_append_cons (r : Run s₀ (h₁ ++ e :: h₂) s) :
    ∃ s', Run s₀ h₁ e.before ∧ Step e.before e.move s' ∧ Run s' h₂ s := by
  rw [List.append_cons] at r
  obtain ⟨s', r₁, r₂⟩ := of_append r
  obtain ⟨run, hs⟩ := of_append_singleton r₁
  exact ⟨s', run, hs, r₂⟩

/-- What holds at every moment of a run holds after each of its steps. -/
theorem after_of_mem {P : System ι α → Prop} (r : Run s₀ h s) (hbefore : ∀ e ∈ h, P e.before)
    (hend : P s) (he : e ∈ h) : ∃ s', RelayFleet.Step e.before e.move s' ∧ P s' := by
  obtain ⟨h₁, h₂, rfl⟩ := List.append_of_mem he
  obtain ⟨s', -, hs, r₂⟩ := r.of_append_cons
  refine ⟨s', hs, ?_⟩
  cases h₂ with
  | nil => exact of_nil r₂ ▸ hend
  | cons e' h₂ =>
    rw [← List.nil_append (e' :: h₂)] at r₂
    obtain ⟨_, r₁, -, -⟩ := of_append_cons r₂
    exact of_nil r₁ ▸ hbefore e' (by simp)

end Run

end RelayFleet
