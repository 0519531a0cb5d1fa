import Mathlib.Data.Fintype.Basic
import Mathlib.Data.Set.Card
import RelayFleet.Proofs.Interleaving.Calls

/-!
# Calls that end in a count

A call may be wrapped into one that goes on where it ends: what it has ended with is counted or not,
and an answer is made of it (`Ending`). The moves of wrapped calls are those of the calls themselves
and the counts (`WrapsRun`): each run of wrapped calls mirrors one of the calls (`Run.unwrapped`),
and each run of the calls is mirrored by one of wrapped calls in which those that have ended are
answered (`Run.wrapped`). The counters say how many calls were answered with what they count
(`Tallied`).
-/

namespace RelayFleet

/-! ## What is counted -/

/-- The outcome that an action counts. -/
def Action.counts? : Action → Option AssignOutcome
  | .record o => some o
  | _ => none

/-- The counters after one more count. -/
theorem AssignCounters.count_record (c : AssignCounters) (o o' : AssignOutcome) :
    (c.record o).count o' = if o' = o then c.count o' + 1 else c.count o' := rfl

section
variable {ι α : Type} {h : List (Moment ι α)} {e : Moment ι α}

/-- Who has counted what in a run. -/
def tally (h : List (Moment ι α)) : List (ι × AssignOutcome) :=
  h.filterMap fun e => e.move.action.counts?.map (e.move.caller, ·)

/-- The counters after a run that begins with all of them at zero. -/
def countersAfter (h : List (Moment ι α)) : AssignCounters :=
  (tally h).foldl (fun c x => c.record x.2) .zero

/-- A step that counts nothing. -/
theorem tally_snoc_of_none (he : e.move.action.counts? = none) : tally (h ++ [e]) = tally h := by
  simp [tally, he]

/-- A step that counts an outcome. -/
theorem tally_snoc_of_some {o : AssignOutcome} (he : e.move.action.counts? = some o) :
    tally (h ++ [e]) = tally h ++ [(e.move.caller, o)] := by
  simp [tally, he]

/-- A counter says how often its outcome was counted. -/
theorem count_countersAfter (h : List (Moment ι α)) (o : AssignOutcome) :
    (countersAfter h).count o = .ofNat ((tally h).countP (·.2 = o)) := by
  rw [countersAfter]
  induction tally h using List.reverseRecOn with
  | nil => rfl
  | append_singleton l x ih =>
    rw [List.foldl_append, List.foldl_cons, List.foldl_nil, AssignCounters.count_record, ih,
      List.countP_append, List.countP_singleton]
    by_cases hx : x.2 = o
    · simp [hx, UInt64.ofNat_add]
    · simp [hx, Ne.symm hx]

end

section
variable {ι : Type} {l : List (ι × AssignOutcome)}

/-- How many callers have counted an outcome, if nobody has counted twice. -/
theorem ncard_setOf_mem (hl : (l.map (·.1)).Nodup) (o : AssignOutcome) :
    {i | (i, o) ∈ l}.ncard = l.countP (·.2 = o) := by
  classical
  have hset : {i | (i, o) ∈ l} = ((l.filter (·.2 = o)).map (·.1)).toFinset := by
    ext i
    simp
  have hnodup : ((l.filter (·.2 = o)).map (·.1)).Nodup :=
    hl.sublist (List.filter_sublist.map _)
  rw [hset, Set.ncard_coe_finset, List.toFinset_card_of_nodup hnodup, List.length_map,
    List.countP_eq_length_filter]

/-- How many callers have counted something, if nobody has counted twice. -/
theorem ncard_setOf_exists_mem (hl : (l.map (·.1)).Nodup) :
    {i | ∃ o, (i, o) ∈ l}.ncard = l.length := by
  classical
  have hset : {i | ∃ o, (i, o) ∈ l} = (l.map (·.1)).toFinset := by
    ext i
    simp
  rw [hset, Set.ncard_coe_finset, List.toFinset_card_of_nodup hl, List.length_map]

/-- Everything that is counted is one of the outcomes. -/
theorem sum_countP (l : List (ι × AssignOutcome)) :
    (AssignOutcome.all.map fun o => l.countP (·.2 = o)).sum = l.length := by
  induction l with
  | nil => rfl
  | cons x l ih =>
    simp only [AssignOutcome.all, List.map_cons, List.map_nil, List.sum_cons, List.sum_nil,
      List.countP_cons, List.length_cons] at ih ⊢
    cases x.2 <;> simp <;> omega

end

/-! ## Wrapped calls -/

/-- What becomes of what a call ends with: the outcome that is counted, if any, and the answer. -/
structure Ending (β : Type) where
  counts : Option AssignOutcome
  answer : β

section
variable {ι α β : Type}

/-- Counts and answers. -/
def Ending.program (x : Ending β) : Fleet β :=
  match x.counts with
  | none => pure x.answer
  | some o => do
    Fleet.record o
    return x.answer

/-- A call that is gone on with where it ends. -/
def Fleet.wrap (p : Fleet α) (f : α → Ending β) : Fleet β := p >>= fun a => (f a).program

/-- The second program is what is left of a wrapped call when the first one is left of the call: the
call goes on or its ending does, or the answer was given. -/
inductive Wraps (f : α → Ending β) : Fleet α → Fleet β → Prop
  | running (p : Fleet α) : Wraps f p (p.wrap f)
  | answered (a : α) : Wraps f (.pure a) (.pure (f a).answer)

/-- Two runs make the same moves, what the second one counts apart, and have the same effects. -/
structure SameEffects (h' : List (Moment ι α)) (s' : System ι α) (h : List (Moment ι β))
    (s : System ι β) : Prop where
  moves : movesOf h' = (movesOf h).filter fun m => m.action.counts?.isNone
  registry : s'.registry = s.registry
  holder : s'.holder = s.holder

/-- A run of wrapped calls has the effects of a run of the calls, and of each call what is left of
it is left in both. -/
structure WrapsRun (f : ι → α → Ending β) (h' : List (Moment ι α)) (s' : System ι α)
    (h : List (Moment ι β)) (s : System ι β) : Prop extends SameEffects h' s' h s where
  wraps : ∀ i, Wraps (f i) (s'.calls i) (s.calls i)

/-- What was counted are the outcomes of the calls that were answered. -/
structure Tallied (f : ι → α → Ending β) (s' : System ι α) (h : List (Moment ι β))
    (s : System ι β) : Prop where
  /-- No call is counted twice. -/
  nodup : ((tally h).map (·.1)).Nodup
  mem_iff : ∀ i o, (i, o) ∈ tally h ↔
    ∃ a, s'.calls i = .pure a ∧ s.calls i = .pure (f i a).answer ∧ (f i a).counts = some o

variable {p : ι → Fleet α} {f : ι → α → Ending β} {g : Registry} {h' : List (Moment ι α)}
  {s' t' : System ι α} {h : List (Moment ι β)} {s t : System ι β} {m : Move ι}

/-- What is left of a wrapped call whose call has ended: nothing, or it is to be counted. -/
theorem WrapsRun.wraps_pure (hm : WrapsRun f h' s' h s) {i : ι} {a : α}
    (hcall : s'.calls i = .pure a) :
    s.calls i = .pure (f i a).answer ∨ ∃ o, (f i a).counts = some o ∧
      s.calls i = .ask (.record o) fun _ => .pure (f i a).answer := by
  have hwraps := hm.wraps i
  rw [hcall] at hwraps
  generalize s.calls i = q at hwraps
  cases hwraps with
  | answered => exact .inl rfl
  | running =>
    change (f i a).program = _ ∨ ∃ o, _ ∧ (f i a).program = _
    rw [Ending.program]
    cases (f i a).counts with
    | none => exact .inl rfl
    | some o => exact .inr ⟨o, rfl, rfl⟩

/-- A wrapped call that was answered has ended, and this is its answer. -/
theorem WrapsRun.of_answered (hm : WrapsRun f h' s' h s) {i : ι} {b : β}
    (hanswer : s.calls i = .pure b) : ∃ a, s'.calls i = .pure a ∧ b = (f i a).answer := by
  have hwraps := hm.wraps i
  rw [hanswer] at hwraps
  cases hcall : s'.calls i with
  | pure a =>
    rcases hm.wraps_pure hcall with h | ⟨o, -, h⟩
    · rw [hanswer] at h
      cases h
      exact ⟨a, rfl, rfl⟩
    · rw [hanswer] at h
      cases h
  | ask a next =>
    rw [hcall] at hwraps
    cases hwraps

variable [DecidableEq ι]

/-- A step of a wrapped call that is one of the call. -/
theorem WrapsRun.step (hm : WrapsRun f h' s' h s) (hcount : m.action.counts? = none)
    {next : m.action.Reply → Fleet α} (hcall : s'.calls m.caller = .ask m.action next)
    (hs : RelayFleet.Step s m t) :
    ∃ t', RelayFleet.Step s' m t' ∧ t'.calls m.caller = next m.reply ∧
      t.calls m.caller = (next m.reply).wrap (f m.caller) ∧
      WrapsRun f (h' ++ [⟨s', m⟩]) t' (h ++ [⟨s, m⟩]) t := by
  obtain ⟨next', asks, answers⟩ := hs
  have hnext : ∀ r, next' r = (next r).wrap (f m.caller) := by
    have hwraps := hm.wraps m.caller
    rw [hcall, asks] at hwraps
    cases hwraps
    exact fun r => rfl
  refine ⟨_, .mk next hcall ?_, Function.update_self .., ?_, ⟨?_, ?_, ?_⟩, ?_⟩
  · rw [hm.registry, hm.holder]
    exact answers
  · exact (Function.update_self ..).trans (hnext _)
  · rw [movesOf_snoc, movesOf_snoc, List.filter_append, hm.moves]
    simp [hcount]
  · exact congrArg (m.action.registryAfter m.time) hm.registry
  · exact congrArg (m.action.holderAfter m.caller · m.reply) hm.holder
  · intro i
    by_cases hi : i = m.caller
    · subst hi
      simp only [Function.update_self, hnext]
      exact .running _
    · simp only [Function.update_of_ne hi]
      exact hm.wraps i

/-- A wrapped call whose call has not ended makes a step of it. -/
theorem WrapsRun.asks (hm : WrapsRun f h' s' h s) {a : Action} {next : a.Reply → Fleet α}
    (hcall : s'.calls m.caller = .ask a next) (hs : RelayFleet.Step s m t) :
    ∃ next : m.action.Reply → Fleet α, s'.calls m.caller = .ask m.action next := by
  obtain ⟨_, asks, -⟩ := hs
  have hwraps := hm.wraps m.caller
  rw [hcall, asks] at hwraps
  obtain ⟨i, action, time, reply⟩ := m
  cases hwraps
  exact ⟨next, hcall⟩

/-- A call that has ended is counted. -/
theorem WrapsRun.count (hm : WrapsRun f h' s' h s) {a : α} {o : AssignOutcome}
    (hcall : s'.calls m.caller = .pure a)
    (hends : s.calls m.caller = .ask (.record o) fun _ => .pure (f m.caller a).answer)
    (hs : RelayFleet.Step s m t) :
    m.action = .record o ∧ t.calls m.caller = .pure (f m.caller a).answer ∧
      WrapsRun f h' s' (h ++ [⟨s, m⟩]) t := by
  obtain ⟨next, asks, answers⟩ := hs
  rw [hends] at asks
  obtain ⟨i, action, time, reply⟩ := m
  cases asks
  refine ⟨rfl, Function.update_self .., ⟨?_, hm.registry, hm.holder⟩, ?_⟩
  · rw [movesOf_snoc, List.filter_append, ← hm.moves]
    simp [Action.counts?]
  · intro j
    by_cases hj : j = i
    · subst hj
      simp only [Function.update_self]
      rw [show s'.calls j = .pure a from hcall]
      exact .answered a
    · simp only [Function.update_of_ne hj]
      exact hm.wraps j

/-- A step that counts nothing leaves what was counted. -/
theorem Tallied.step (ht : Tallied f s' h s) (hcount : m.action.counts? = none)
    (hs : RelayFleet.Step s m t) (hs' : RelayFleet.Step s' m t') {q : Fleet α}
    (hq : t.calls m.caller = q.wrap (f m.caller)) (hq' : t'.calls m.caller = q) :
    Tallied f t' (h ++ [⟨s, m⟩]) t := by
  have htally : tally (h ++ [⟨s, m⟩]) = tally h := tally_snoc_of_none hcount
  refine ⟨htally ▸ ht.nodup, fun i o => ?_⟩
  rw [htally, ht.mem_iff]
  by_cases hi : i = m.caller
  · -- who makes the step was not answered before it, and a call that is counted is not after it
    subst hi
    refine iff_of_false ?_ ?_
    · rintro ⟨a, -, hanswer, -⟩
      exact hs.ne_pure _ hanswer
    · rintro ⟨a, hpure, hanswer, hcounts⟩
      rw [hq'] at hpure
      rw [hq, hpure] at hanswer
      change (f m.caller a).program = _ at hanswer
      rw [Ending.program, hcounts] at hanswer
      cases hanswer
  · rw [hs.calls_of_ne hi, hs'.calls_of_ne hi]

/-- A step that counts the outcome of a call. -/
theorem Tallied.count (ht : Tallied f s' h s) {a : α} {o : AssignOutcome}
    (hcall : s'.calls m.caller = .pure a) (haction : m.action = .record o)
    (hcounts : (f m.caller a).counts = some o) (hs : RelayFleet.Step s m t)
    (hanswer : t.calls m.caller = .pure (f m.caller a).answer) :
    Tallied f s' (h ++ [⟨s, m⟩]) t := by
  have htally : tally (h ++ [⟨s, m⟩]) = tally h ++ [(m.caller, o)] :=
    tally_snoc_of_some (by rw [haction]; rfl)
  have hnew : ∀ o, (m.caller, o) ∉ tally h := by
    intro o hmem
    obtain ⟨b, -, hanswered, -⟩ := (ht.mem_iff _ _).mp hmem
    exact hs.ne_pure _ hanswered
  refine ⟨?_, fun i o' => ?_⟩
  · rw [htally, List.map_append, List.nodup_append]
    refine ⟨ht.nodup, List.nodup_singleton _, ?_⟩
    rintro i hi _ hj rfl
    obtain ⟨⟨_, o'⟩, hmem, rfl⟩ := List.mem_map.mp hi
    obtain rfl := List.mem_singleton.mp hj
    exact hnew o' hmem
  · rw [htally, List.mem_append, ht.mem_iff, List.mem_singleton]
    by_cases hi : i = m.caller
    · subst hi
      rw [← ht.mem_iff, hcall]
      simp [hnew, hanswer, hcounts, eq_comm]
    · simp [hi, hs.calls_of_ne hi]

/-- A run of wrapped calls mirrors a run of the calls. -/
theorem Run.unwrapped {P : ι → α → Prop}
    (hp : ∀ i, Asks (fun a => a.counts? = none) (p i) (P i))
    (run : Run (System.start g fun i => (p i).wrap (f i)) h s) :
    ∃ h' s', Run (System.start g p) h' s' ∧ WrapsRun f h' s' h s ∧ Tallied f s' h s := by
  induction run with
  | start =>
    refine ⟨[], _, .start, ⟨⟨rfl, rfl, rfl⟩, fun i => .running _⟩, List.nodup_nil, fun i o => ?_⟩
    refine iff_of_false (List.not_mem_nil) ?_
    rintro ⟨a, hpure, hanswer, hcounts⟩
    simp only [System.start] at hpure hanswer
    rw [hpure] at hanswer
    change (f i a).program = _ at hanswer
    rw [Ending.program, hcounts] at hanswer
    cases hanswer
  | @step h s t m _ hs ih =>
    obtain ⟨h', s', run', hm, ht⟩ := ih
    cases hcall : s'.calls m.caller with
    | ask a next =>
      obtain ⟨next, hcall⟩ := hm.asks hcall hs
      have hleft := (run'.asks hp).2 m.caller
      rw [hcall] at hleft
      obtain ⟨t', hs', hq', hq, hm⟩ := hm.step hleft.1 hcall hs
      exact ⟨_, t', run'.step hs', hm, ht.step hleft.1 hs hs' hq hq'⟩
    | pure a =>
      obtain ⟨o, hcounts, hends⟩ := (hm.wraps_pure hcall).resolve_left (hs.ne_pure _)
      obtain ⟨haction, hanswer, hm⟩ := hm.count hcall hends hs
      exact ⟨h', s', run', hm, ht.count hcall haction hcounts hs hanswer⟩

/-- What is left of calls that have ended is to count and to answer. -/
theorem Run.answered [Fintype ι] (run : Run (System.start g fun i => (p i).wrap (f i)) h s)
    (hm : WrapsRun f h' s' h s) :
    ∃ h s, Run (System.start g fun i => (p i).wrap (f i)) h s ∧ WrapsRun f h' s' h s ∧
      ∀ i a, s'.calls i = .pure a → s.calls i = .pure (f i a).answer := by
  suffices hall : ∀ J : Finset ι, ∃ h s, Run (System.start g fun i => (p i).wrap (f i)) h s ∧
      WrapsRun f h' s' h s ∧
      ∀ i ∈ J, ∀ a, s'.calls i = .pure a → s.calls i = .pure (f i a).answer by
    obtain ⟨h, s, run, hm, hanswered⟩ := hall Finset.univ
    exact ⟨h, s, run, hm, fun i => hanswered i (Finset.mem_univ i)⟩
  intro J
  induction J using Finset.induction_on with
  | empty => exact ⟨h, s, run, hm, by simp⟩
  | insert i J _ ih =>
    obtain ⟨h, s, run, hm, hanswered⟩ := ih
    have hdone : (∀ a, s'.calls i = .pure a → s.calls i = .pure (f i a).answer) →
        ∀ j ∈ insert i J, ∀ a, s'.calls j = .pure a → s.calls j = .pure (f j a).answer := by
      intro hi j hj
      rcases Finset.mem_insert.mp hj with rfl | hj
      · exact hi
      · exact hanswered j hj
    cases hcall : s'.calls i with
    | ask => exact ⟨h, s, run, hm, hdone (by simp [hcall])⟩
    | pure a =>
      rcases hm.wraps_pure hcall with hanswer | ⟨o, -, hends⟩
      · refine ⟨h, s, run, hm, hdone fun b hb => ?_⟩
        rw [hcall] at hb
        cases hb
        exact hanswer
      · have hs : RelayFleet.Step s ⟨i, .record o, 0, ()⟩ _ := .mk _ hends trivial
        obtain ⟨-, hanswer, hm⟩ := hm.count hcall hends hs
        refine ⟨_, _, run.step hs, hm, fun j hj b hb => ?_⟩
        by_cases hji : j = i
        · subst hji
          rw [hcall] at hb
          cases hb
          exact hanswer
        · rw [hs.calls_of_ne hji]
          exact hanswered j (Finset.mem_of_mem_insert_of_ne hj hji) b hb

/-- A run of calls is mirrored by a run of wrapped calls in which those that have ended are
answered. -/
theorem Run.wrapped [Fintype ι] {P : ι → α → Prop} (f : ι → α → Ending β)
    (hp : ∀ i, Asks (fun a => a.counts? = none) (p i) (P i))
    (run : Run (System.start g p) h' s') :
    ∃ h s, Run (System.start g fun i => (p i).wrap (f i)) h s ∧ WrapsRun f h' s' h s ∧
      ∀ i a, s'.calls i = .pure a → s.calls i = .pure (f i a).answer := by
  suffices hrunning : ∃ h s, Run (System.start g fun i => (p i).wrap (f i)) h s ∧
      WrapsRun f h' s' h s ∧ ∀ i, s.calls i = (s'.calls i).wrap (f i) by
    obtain ⟨h, s, run, hm, -⟩ := hrunning
    exact run.answered hm
  induction run with
  | start => exact ⟨[], _, .start, ⟨⟨rfl, rfl, rfl⟩, fun i => .running _⟩, fun i => rfl⟩
  | @step h' s' t' m run' hs' ih =>
    obtain ⟨h, s, run, hm, hcalls⟩ := ih
    have hleft := (run'.asks hp).2 m.caller
    obtain ⟨next, hcall⟩ := hs'.asks
    rw [hcall] at hleft
    have hs : RelayFleet.Step s m _ :=
      .mk (fun r => (next r).wrap (f m.caller)) (by rw [hcalls, hcall]; rfl)
        (by rw [← hm.registry, ← hm.holder]; exact hs'.answers)
    obtain ⟨t'', hs'', hq', hq, hm⟩ := hm.step hleft.1 hcall hs
    obtain rfl := hs''.unique hs'
    refine ⟨_, _, run.step hs, hm, fun i => ?_⟩
    by_cases hi : i = m.caller
    · subst hi
      rw [hq, hq']
    · rw [hs.calls_of_ne hi, hs''.calls_of_ne hi, hcalls]

end

end RelayFleet
