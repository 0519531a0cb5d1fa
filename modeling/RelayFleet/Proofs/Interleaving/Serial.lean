import Mathlib.Data.List.Nodup
import RelayFleet.Proofs.Interleaving.Protocol

/-!
# Calls that work under the lock can be run one at a time

A call keeps the lock discipline when all its transactions lie between the one moment at which it
gets the allocation lock and the one at which it gives it back, the last thing it does
(`lockDiscipline`). `Run.serial` says that a run of such calls has the outcome of a serial one: the
calls that got the lock make the same moves, with the same answers, but one call after the other in
the order in which they got the lock (`serialMoves`), and leave the same registry.
-/

namespace RelayFleet

/-! ## The order of the lock -/

/-- The lock is had. -/
def Action.obtainsLock : (a : Action) → a.Reply → Bool
  | .acquire _, .ok _ => true
  | _, _ => false

/-- An action that neither reads nor changes what calls share. -/
def Action.isAside : (a : Action) → a.Reply → Bool
  | .transact _, _ | .release, _ | .acquire _, .ok _ => false
  | _, _ => true

section
variable {ι : Type}

/-- The callers in the order in which they got the lock. -/
def lockOrder (moves : List (Move ι)) : List ι :=
  (moves.filter fun m => m.action.obtainsLock m.reply).map (·.caller)

/-- The moves of those who got the lock, one caller after the other. -/
def serialMoves [DecidableEq ι] (moves : List (Move ι)) : List (Move ι) :=
  (lockOrder moves).flatMap fun i => moves.filter (·.caller = i)

end

/-! ## The discipline -/

/-- Where a call stands with the lock. -/
inductive LockStage where
  | before
  | inside
  /-- The lock was given back. -/
  | done
  /-- The lock was not had in time. -/
  | refused
deriving DecidableEq

/-- The steps of a call that works under the lock. -/
inductive LockStage.Step : LockStage → (a : Action) → a.Reply → LockStage → Prop
  | aside {a : Action} {r : a.Reply} (ha : a.isAside r) : Step .before a r .before
  | obtains {t : Duration} : Step .before (.acquire t) (.ok ()) .inside
  | gives_up {t : Duration} {e : LockTimeout} : Step .before (.acquire t) (.error e) .refused
  | aside_refused {a : Action} {r : a.Reply} (ha : a.isAside r) : Step .refused a r .refused
  | works {a : Action} {r : a.Reply} (hr : a ≠ .release) (ha : a.obtainsLock r = false) :
      Step .inside a r .inside
  | releases : Step .inside .release () .done

/-- All transactions lie between getting the lock and giving it back. -/
def lockDiscipline : Protocol LockStage where
  Meets _ := True
  Step := LockStage.Step

/-- How a call under the discipline ends: as one that was refused if it never had the lock, as
another one if it gave it back. -/
def LockStage.Ends {α : Type} (Refused : α → Prop) : LockStage → α → Prop
  | .before, a | .refused, a => Refused a
  | .done, a => ¬ Refused a
  | .inside, _ => False

/-- How a call ends depends on whether it was refused only. -/
theorem LockStage.Ends.imp {α β : Type} {Refused : α → Prop} {Refused' : β → Prop} {φ : LockStage}
    {a : α} {b : β} (h : φ.Ends Refused a) (hiff : Refused a ↔ Refused' b) : φ.Ends Refused' b := by
  cases φ with
  | before | refused => exact hiff.mp h
  | done => exact fun hb => h (hiff.mpr hb)
  | inside => exact h

/-! ## Replaying the moves of one caller -/

section
variable {ι α : Type}

/-- The program goes on to another one when it makes these moves. -/
def Advances (p : Fleet α) : List (Move ι) → Fleet α → Prop
  | [], q => q = p
  | m :: ms, q => ∃ next, p = .ask m.action next ∧ Advances (next m.reply) ms q

/-- One more move. -/
theorem Advances.snoc {p : Fleet α} {ms : List (Move ι)} {m : Move ι}
    {next : m.action.Reply → Fleet α} (h : Advances p ms (.ask m.action next)) :
    Advances p (ms ++ [m]) (next m.reply) := by
  induction ms generalizing p with
  | nil => exact ⟨next, h.symm, rfl⟩
  | cons m' ms ih =>
    obtain ⟨next', hp, h⟩ := h
    exact ⟨next', hp, ih h⟩

/-- What an action that touches nothing shared is answered does not depend on it. -/
theorem Action.answers_of_isAside {a : Action} {r : a.Reply} (ha : a.isAside r) {time : Millis}
    {g g' : Registry} {i : ι} {holder holder' : Option ι} (h : a.Answers time g i holder r) :
    a.Answers time g' i holder' r := by
  cases a with
  | transact | release => cases ha
  | acquire t =>
    cases r with
    | ok => cases ha
    | error => exact h
  | _ => exact h

/-- An action that touches nothing shared leaves the registry. -/
theorem Action.registryAfter_of_isAside {a : Action} {r : a.Reply} (ha : a.isAside r)
    (time : Millis) (g : Registry) : a.registryAfter time g = g := by
  cases a with
  | transact => cases ha
  | _ => rfl

/-- An action that touches nothing shared leaves the lock. -/
theorem Action.holderAfter_of_isAside {a : Action} {r : a.Reply} (ha : a.isAside r) (i : ι)
    (holder : Option ι) : a.holderAfter i holder r = holder := by
  cases a with
  | release => cases ha
  | acquire t =>
    cases r with
    | ok => cases ha
    | error => rfl
  | _ => rfl

/-- Only getting the lock and giving it back changes who has it. -/
theorem Action.holderAfter_of_ne {a : Action} {r : a.Reply} (hr : a ≠ .release)
    (ho : a.obtainsLock r = false) (i : ι) (holder : Option ι) :
    a.holderAfter i holder r = holder := by
  cases a with
  | release => exact absurd rfl hr
  | acquire t =>
    cases r with
    | ok => cases ho
    | error => rfl
  | _ => rfl

variable [DecidableEq ι] {s₀ s s' : System ι α} {h : List (Moment ι α)}

/-- In a run the program of each call advances by the caller's own moves. -/
theorem Run.advances (run : Run s₀ h s) (i : ι) :
    Advances (s₀.calls i) ((movesOf h).filter (·.caller = i)) (s.calls i) := by
  induction run with
  | start => exact rfl
  | @step h s s' m _ hs ih =>
    obtain ⟨next, asks, -⟩ := hs
    rw [movesOf_snoc, List.filter_append]
    by_cases hi : m.caller = i
    · subst hi
      rw [asks] at ih
      simpa using ih.snoc
    · simpa [hi, Function.update_of_ne (Ne.symm hi)] using ih

/-- Moves of one caller that touch nothing shared can be made in any other system in which the
caller stands at the same program. -/
theorem Run.of_advances {i : ι} {ms : List (Move ι)} {q : Fleet α} (s : System ι α)
    (hms : ∀ m ∈ ms, m.caller = i ∧ m.action.isAside m.reply ∧
      ∃ g holder, m.action.Answers m.time g i holder m.reply)
    (h : Advances (s.calls i) ms q) :
    ∃ h', Run s h' { s with calls := Function.update s.calls i q } ∧ movesOf h' = ms := by
  induction ms generalizing s with
  | nil =>
    cases h
    exact ⟨[], by simpa using Run.start, rfl⟩
  | cons m ms ih =>
    obtain ⟨next, asks, h⟩ := h
    obtain ⟨rfl, ha, g, holder, hanswers⟩ := hms m List.mem_cons_self
    have answers : m.action.Answers m.time s.registry m.caller s.holder m.reply :=
      Action.answers_of_isAside ha hanswers
    have hstep := Step.mk next asks answers
    rw [Action.registryAfter_of_isAside ha, Action.holderAfter_of_isAside ha] at hstep
    obtain ⟨h', hrun, hmoves⟩ :=
      ih { s with calls := Function.update s.calls m.caller (next m.reply) }
        (fun m' hm' => hms m' (List.mem_cons_of_mem _ hm')) (by simpa using h)
    simp only [Function.update_idem] at hrun
    exact ⟨⟨s, m⟩ :: h', (Run.single hstep).append hrun, by rw [← hmoves]; rfl⟩

end

/-! ## The order grows -/

section
variable {ι : Type} {ms : List (Move ι)} {m : Move ι}

/-- A move that does not get the lock leaves the order. -/
theorem lockOrder_snoc_of_not (hm : m.action.obtainsLock m.reply = false) :
    lockOrder (ms ++ [m]) = lockOrder ms := by
  simp [lockOrder, List.filter_append, hm]

/-- Who gets the lock comes last. -/
theorem lockOrder_snoc (hm : m.action.obtainsLock m.reply) :
    lockOrder (ms ++ [m]) = lockOrder ms ++ [m.caller] := by
  simp [lockOrder, List.filter_append, hm]

variable [DecidableEq ι]

/-- The moves of the others are the same after a move. -/
theorem flatMap_moves_snoc {order : List ι} (hm : m.caller ∉ order) :
    (order.flatMap fun i => (ms ++ [m]).filter (·.caller = i)) =
      order.flatMap fun i => ms.filter (·.caller = i) := by
  rw [List.flatMap_def, List.flatMap_def]
  congr 1
  refine List.map_congr_left ?_
  intro i hi
  have hne : m.caller ≠ i := fun h => hm (h ▸ hi)
  simp [List.filter_append, hne]

/-- A move of a caller who never had the lock is not part of the serial run. -/
theorem serialMoves_snoc_of_notMem (hm : m.action.obtainsLock m.reply = false)
    (hnot : m.caller ∉ lockOrder ms) : serialMoves (ms ++ [m]) = serialMoves ms := by
  rw [serialMoves, lockOrder_snoc_of_not hm, flatMap_moves_snoc hnot]
  rfl

/-- The last of the order makes the last move of the serial run. -/
theorem serialMoves_snoc_of_last (hm : m.action.obtainsLock m.reply = false) {pre : List ι}
    (hlast : lockOrder ms = pre ++ [m.caller]) (hpre : m.caller ∉ pre) :
    serialMoves (ms ++ [m]) = serialMoves ms ++ [m] := by
  rw [serialMoves, serialMoves, lockOrder_snoc_of_not hm, hlast, List.flatMap_append,
    List.flatMap_append, flatMap_moves_snoc hpre]
  simp [List.filter_append]

/-- Who gets the lock goes through all earlier moves of its own at once. -/
theorem serialMoves_snoc (hm : m.action.obtainsLock m.reply) (hnot : m.caller ∉ lockOrder ms) :
    serialMoves (ms ++ [m]) = serialMoves ms ++ (ms.filter (·.caller = m.caller) ++ [m]) := by
  rw [serialMoves, lockOrder_snoc hm, List.flatMap_append, flatMap_moves_snoc hnot]
  simp [serialMoves, List.filter_append]

end

/-- What touches nothing shared does not get the lock. -/
theorem Action.obtainsLock_of_isAside {a : Action} {r : a.Reply} (ha : a.isAside r) :
    a.obtainsLock r = false := by
  cases a with
  | acquire t =>
    cases r with
    | ok => cases ha
    | error => rfl
  | _ => rfl

/-! ## A run and the serial run beside it -/

section
variable {ι α : Type} [DecidableEq ι] {s₀ s s' : System ι α} {h : List (Moment ι α)}
  {φ : ι → LockStage} {m : Move ι} {φ' : LockStage}

/-- The run beside which a serial run has led to the same registry and lock, with the calls that got
the lock where they are and the others not begun. -/
structure Serialized (s₀ : System ι α) (h : List (Moment ι α)) (s : System ι α)
    (φ : ι → LockStage) : Prop where
  inside_iff : ∀ i, φ i = .inside ↔ s.holder = some i
  mem_order_iff : ∀ i, i ∈ lockOrder (movesOf h) ↔ φ i = .inside ∨ φ i = .done
  nodup : (lockOrder (movesOf h)).Nodup
  last : ∀ i, s.holder = some i → ∃ pre, lockOrder (movesOf h) = pre ++ [i]
  aside : ∀ e ∈ h, e.move.caller ∉ lockOrder (movesOf h) → e.move.action.isAside e.move.reply
  serial : ∃ h' s', Run s₀ h' s' ∧ movesOf h' = serialMoves (movesOf h) ∧
    s'.registry = s.registry ∧ s'.holder = s.holder ∧
    (∀ i ∈ lockOrder (movesOf h), s'.calls i = s.calls i) ∧
    ∀ i ∉ lockOrder (movesOf h), s'.calls i = s₀.calls i

namespace Serialized

/-- A step of a call that has not got the lock is left out of the serial run. -/
theorem skip (inv : Serialized s₀ h s φ) (hs : RelayFleet.Step s m s')
    (ha : m.action.isAside m.reply) (hfrom : φ m.caller ≠ .inside ∧ φ m.caller ≠ .done)
    (hto : φ' ≠ .inside ∧ φ' ≠ .done) :
    Serialized s₀ (h ++ [⟨s, m⟩]) s' (Function.update φ m.caller φ') := by
  have hnot : m.caller ∉ lockOrder (movesOf h) := by
    rw [inv.mem_order_iff]
    exact not_or.mpr hfrom
  have hobtains := Action.obtainsLock_of_isAside ha
  have hholder : s'.holder = s.holder := by
    rw [hs.holder_eq, Action.holderAfter_of_isAside ha]
  have hregistry : s'.registry = s.registry := by
    rw [hs.registry_eq, Action.registryAfter_of_isAside ha]
  have hstage : ∀ i, (Function.update φ m.caller φ' i = .inside ↔ φ i = .inside) ∧
      (Function.update φ m.caller φ' i = .done ↔ φ i = .done) := by
    intro i
    by_cases hi : i = m.caller
    · subst hi
      simp [hfrom, hto]
    · simp [Function.update_of_ne hi]
  have horder : lockOrder (movesOf (h ++ [⟨s, m⟩])) = lockOrder (movesOf h) := by
    rw [movesOf_snoc]
    exact lockOrder_snoc_of_not hobtains
  obtain ⟨h', t, hrun, hmoves, hg, hl, hin, hout⟩ := inv.serial
  refine ⟨?_, ?_, horder ▸ inv.nodup, ?_, ?_, h', t, hrun, ?_, hg.trans hregistry.symm,
    hl.trans hholder.symm, ?_, ?_⟩
  · intro i
    rw [(hstage i).1, hholder, inv.inside_iff]
  · intro i
    rw [horder, (hstage i).1, (hstage i).2, inv.mem_order_iff]
  · intro i hi
    rw [horder]
    exact inv.last i (hholder ▸ hi)
  · intro e he hcaller
    rw [horder] at hcaller
    rcases List.mem_append.mp he with he | he
    · exact inv.aside e he hcaller
    · rw [List.mem_singleton.mp he]
      exact ha
  · rw [movesOf_snoc, hmoves]
    exact (serialMoves_snoc_of_notMem hobtains hnot).symm
  · intro i hi
    rw [horder] at hi
    have hne : i ≠ m.caller := fun he => hnot (he ▸ hi)
    rw [hs.calls_of_ne hne, hin i hi]
  · intro i hi
    rw [horder] at hi
    exact hout i hi

/-- A call that has not got the lock can catch up wherever the serial run has come to: all it has
done touches nothing that is shared. -/
theorem catch_up (run : Run s₀ h s) (inv : Serialized s₀ h s φ) {i : ι}
    (hnot : i ∉ lockOrder (movesOf h)) {t : System ι α} (hout : t.calls i = s₀.calls i) :
    ∃ h', Run t h' { t with calls := Function.update t.calls i (s.calls i) } ∧
      movesOf h' = (movesOf h).filter (·.caller = i) := by
  refine Run.of_advances t ?_ ?_
  · intro m hm
    obtain ⟨hm, hc⟩ := List.mem_filter.mp hm
    obtain ⟨e, he, rfl⟩ := List.mem_map.mp hm
    have hc : e.move.caller = i := of_decide_eq_true hc
    obtain ⟨_, hstep⟩ := run.step_of_mem he
    obtain ⟨_, _, answers⟩ := hstep
    exact ⟨hc, inv.aside e he (hc ▸ hnot), _, _, hc ▸ answers⟩
  · rw [hout]
    exact run.advances i

/-- Getting the lock: in the serial run the call catches up, and then gets the lock as well. -/
theorem enter (run : Run s₀ h s) (inv : Serialized s₀ h s φ) (hs : RelayFleet.Step s m s')
    (ha : m.action.obtainsLock m.reply) (hfrom : φ m.caller = .before) (hfree : s.holder = none)
    (hholder : s'.holder = some m.caller) :
    Serialized s₀ (h ++ [⟨s, m⟩]) s' (Function.update φ m.caller .inside) := by
  have hnot : m.caller ∉ lockOrder (movesOf h) := by
    simp [inv.mem_order_iff, hfrom]
  have horder : lockOrder (movesOf (h ++ [⟨s, m⟩])) =
      lockOrder (movesOf h) ++ [m.caller] := by
    rw [movesOf_snoc]
    exact lockOrder_snoc ha
  have hinside : ∀ i, i ≠ m.caller → φ i ≠ .inside := by
    intro i _ hi
    simp [(inv.inside_iff i).mp hi] at hfree
  obtain ⟨h', t, hrun, hmoves, hg, hl, hin, hout⟩ := inv.serial
  obtain ⟨h'', hcatch, hown⟩ := inv.catch_up run hnot (hout _ hnot)
  obtain ⟨next, asks, answers⟩ := hs
  have hstep := Step.mk (m := m)
    (s := { t with calls := Function.update t.calls m.caller (s.calls m.caller) }) next
    (by simpa using asks) (by simpa only [hg, hl] using answers)
  refine ⟨?_, ?_, ?_, ?_, ?_, _, _, (hrun.append hcatch).step hstep, ?_, ?_, ?_, ?_, ?_⟩
  · intro i
    by_cases hi : i = m.caller
    · subst hi
      simpa using hholder
    · rw [Function.update_of_ne hi, hholder]
      simpa [hinside i hi] using Ne.symm hi
  · intro i
    rw [horder, List.mem_append, inv.mem_order_iff, List.mem_singleton]
    by_cases hi : i = m.caller
    · simp [hi]
    · simp [hi]
  · rw [horder]
    exact List.Nodup.append inv.nodup (List.nodup_singleton _) (by simpa using hnot)
  · intro i hi
    rw [hholder] at hi
    exact ⟨_, Option.some.inj hi ▸ horder⟩
  · intro e he hcaller
    rw [horder, List.mem_append, not_or] at hcaller
    rcases List.mem_append.mp he with he | he
    · exact inv.aside e he hcaller.1
    · simp [List.mem_singleton.mp he] at hcaller
  · rw [movesOf_snoc, movesOf_snoc, movesOf_append, hmoves, hown, List.append_assoc]
    exact (serialMoves_snoc ha hnot).symm
  · simp only [hg]
  · simp only [hl]
  · intro i hi
    rw [horder, List.mem_append, List.mem_singleton] at hi
    by_cases hc : i = m.caller
    · simp [hc]
    · simp [Function.update_of_ne hc, hin i (hi.resolve_right hc)]
  · intro i hi
    rw [horder, List.mem_append, List.mem_singleton, not_or] at hi
    simp [Function.update_of_ne hi.2, hout i hi.1]

/-- The call that has the lock keeps it or gives it back, and no other one has it. -/
theorem inside_iff_work (inv : Serialized s₀ h s φ) (hfrom : φ m.caller = .inside)
    (hto : φ' = .inside ∧ s'.holder = s.holder ∨ φ' = .done ∧ s'.holder = none) (i : ι) :
    Function.update φ m.caller φ' i = .inside ↔ s'.holder = some i := by
  have hholder := (inv.inside_iff m.caller).mp hfrom
  by_cases hi : i = m.caller
  · subst hi
    rcases hto with ⟨rfl, hsame⟩ | ⟨rfl, hnone⟩
    · simp [hsame, hholder]
    · simp [hnone]
  · rw [Function.update_of_ne hi, inv.inside_iff, hholder]
    have hne : ¬ some m.caller = some i := fun h => hi (Option.some.inj h).symm
    refine iff_of_false hne ?_
    intro hsome
    rcases hto with ⟨-, hsame⟩ | ⟨-, hnone⟩
    · rw [hsame, hholder] at hsome
      exact hne hsome
    · rw [hnone] at hsome
      cases hsome

/-- A step of the call that has the lock is the next one of the serial run. -/
theorem work (inv : Serialized s₀ h s φ) (hs : RelayFleet.Step s m s')
    (ha : m.action.obtainsLock m.reply = false) (hfrom : φ m.caller = .inside)
    (hto : φ' = .inside ∧ s'.holder = s.holder ∨ φ' = .done ∧ s'.holder = none) :
    Serialized s₀ (h ++ [⟨s, m⟩]) s' (Function.update φ m.caller φ') := by
  have hholder := (inv.inside_iff m.caller).mp hfrom
  have hmem : m.caller ∈ lockOrder (movesOf h) := (inv.mem_order_iff _).mpr (.inl hfrom)
  obtain ⟨pre, hpre⟩ := inv.last m.caller hholder
  have hnot : m.caller ∉ pre := by
    have hnodup := inv.nodup
    rw [hpre, List.nodup_append] at hnodup
    exact fun hm => hnodup.2.2 _ hm _ (List.mem_singleton_self _) rfl
  have horder : lockOrder (movesOf (h ++ [⟨s, m⟩])) = lockOrder (movesOf h) := by
    rw [movesOf_snoc]
    exact lockOrder_snoc_of_not ha
  have hlast : ∀ i, s'.holder = some i → ∃ pre, lockOrder (movesOf h) = pre ++ [i] := by
    intro i hi
    rcases hto with ⟨-, hsame⟩ | ⟨-, hnone⟩
    · exact inv.last i (hsame ▸ hi)
    · rw [hnone] at hi
      cases hi
  obtain ⟨h', t, hrun, hmoves, hg, hl, hin, hout⟩ := inv.serial
  obtain ⟨next, asks, answers⟩ := hs
  have hstep := Step.mk (s := t) (m := m) next ((hin _ hmem).trans asks)
    (by simpa only [hg, hl] using answers)
  refine ⟨inv.inside_iff_work hfrom hto, ?_, horder ▸ inv.nodup, horder ▸ hlast, ?_,
    _, _, hrun.step hstep, ?_, ?_, ?_, ?_, ?_⟩
  · intro i
    rw [horder, inv.mem_order_iff]
    by_cases hi : i = m.caller
    · subst hi
      rcases hto with ⟨rfl, -⟩ | ⟨rfl, -⟩ <;> simp [hfrom]
    · rw [Function.update_of_ne hi]
  · intro e he hcaller
    rw [horder] at hcaller
    rcases List.mem_append.mp he with he | he
    · exact inv.aside e he hcaller
    · rw [List.mem_singleton.mp he] at hcaller
      exact absurd hmem hcaller
  · rw [movesOf_snoc, movesOf_snoc, hmoves]
    exact (serialMoves_snoc_of_last ha hpre hnot).symm
  · simp only [hg]
  · simp only [hl]
  · intro i hi
    rw [horder] at hi
    by_cases hc : i = m.caller
    · simp [hc]
    · simp [Function.update_of_ne hc, hin i hi]
  · intro i hi
    rw [horder] at hi
    have hne : i ≠ m.caller := fun he => hi (he ▸ hmem)
    simp [Function.update_of_ne hne, hout i hi]

/-- Every step under the discipline is of one of these kinds. -/
theorem step (run : Run s₀ h s) (inv : Serialized s₀ h s φ) (hs : RelayFleet.Step s m s')
    (hp : lockDiscipline.Step (φ m.caller) m.action m.reply φ') :
    Serialized s₀ (h ++ [⟨s, m⟩]) s' (Function.update φ m.caller φ') := by
  obtain ⟨i, a, time, r⟩ := m
  simp only at hp ⊢
  generalize hφ : φ i = ψ at hp
  cases hp with
  | aside ha => exact inv.skip hs ha (by simp [hφ]) (by simp)
  | obtains =>
    obtain ⟨next, -, answers⟩ := id hs
    exact inv.enter run hs rfl hφ answers hs.holder_eq
  | gives_up => exact inv.skip hs rfl (by simp [hφ]) (by simp)
  | aside_refused ha => exact inv.skip hs ha (by simp [hφ]) (by simp)
  | works hr ha =>
    refine inv.work hs ha hφ (.inl ⟨rfl, ?_⟩)
    rw [hs.holder_eq, Action.holderAfter_of_ne hr ha]
  | releases => exact inv.work hs rfl hφ (.inr ⟨rfl, hs.holder_eq⟩)

end Serialized

/-- A run of calls under the discipline from a free lock has a serial run beside it. -/
theorem Run.serialized {Q : ι → LockStage → α → Prop}
    (hcalls : ∀ i, lockDiscipline.Follows .before (s₀.calls i) (Q i)) (hfree : s₀.holder = none)
    (run : Run s₀ h s) :
    ∃ φ, Serialized s₀ h s φ ∧ ∀ i, lockDiscipline.Follows (φ i) (s.calls i) (Q i) := by
  refine run.follows hcalls ?_ (fun _ _ _ _ => trivial)
    (fun _ _ _ _ _ _ run inv hs hp => inv.step run hs hp)
  exact ⟨by simp [hfree], by simp [movesOf, lockOrder], by simp [movesOf, lockOrder],
    by simp [hfree], by simp, [], s₀, .start, rfl, rfl, rfl, fun _ _ => rfl, fun _ _ => rfl⟩

end

end RelayFleet
