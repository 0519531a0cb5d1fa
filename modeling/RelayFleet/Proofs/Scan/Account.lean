import RelayFleet.Program
import RelayFleet.Scan.Cycle

/-!
# What a pass accounts for

A pass learns from its handler what it asks for, stage by stage. The handler `asking` hands every
stage on as a question, so a pass becomes a program, and the pass of any handler, in any monad, is
that program with the questions answered by the handler (`ScanHandler.runPass_eq_interpret`). What
is asked and answered is the transcript of the pass. Whatever the answers are, a transcript has one
of three shapes (`IsAccount`): no snapshot, no admission, or one visit to each pool, and the report
is an account of the visits (`Accounts`), each of which enters its pool in the one list that its
action and outcome call for (`Visit.list?`).
-/

namespace RelayFleet

namespace Program

variable {A : Type} {R : A → Type} {α β : Type}

/-- A question with its answer. -/
abbrev Exchange (R : A → Type) : Type := (a : A) × R a

/-- Answers a question and puts it down with its answer. -/
def transcribe {W : Type} (answer : (a : A) → W → R a × W) (a : A) (s : W × List (Exchange R)) :
    R a × (W × List (Exchange R)) :=
  ((answer a s.1).1, (answer a s.1).2, s.2 ++ [⟨a, (answer a s.1).1⟩])

/-- Has the questions answered in another monad. -/
def interpret {m : Type → Type} [Monad m] (answer : (a : A) → m (R a)) : Program R α → m α
  | pure a => Pure.pure a
  | ask a next => do (next (← answer a)).interpret answer

/-- The program may ask this, be answered this, and end with this. -/
inductive Transcript : Program R α → List (Exchange R) → α → Prop
  | pure {x : α} : Transcript (.pure x) [] x
  | ask {a : A} {next : R a → Program R α} {r : R a} {l : List (Exchange R)} {x : α}
    (rest : Transcript (next r) l x) : Transcript (.ask a next) (⟨a, r⟩ :: l) x

/-- The transcript of a program that goes on with another one. -/
theorem Transcript.of_bind {p : Program R α} {f : α → Program R β} {l : List (Exchange R)} {y : β}
    (h : Transcript (p >>= f) l y) :
    ∃ l₁ x l₂, l = l₁ ++ l₂ ∧ Transcript p l₁ x ∧ Transcript (f x) l₂ y := by
  change Transcript (p.bind f) l y at h
  induction p generalizing l with
  | pure x => exact ⟨[], x, l, rfl, .pure, h⟩
  | ask a next ih =>
    cases h with
    | ask rest =>
      obtain ⟨l₁, x, l₂, rfl, h₁, h₂⟩ := ih _ rest
      exact ⟨_, x, l₂, rfl, .ask h₁, h₂⟩

/-- What is put down in a run is a transcript. -/
theorem transcript_run {W : Type} (answer : (a : A) → W → R a × W) (p : Program R α) (w : W)
    (t : List (Exchange R)) :
    ∃ l, (p.run (transcribe answer) (w, t)).2.2 = t ++ l ∧
      Transcript p l (p.run (transcribe answer) (w, t)).1 := by
  induction p generalizing w t with
  | pure x => exact ⟨[], (List.append_nil t).symm, .pure⟩
  | ask a next ih =>
    obtain ⟨l, hl, transcript⟩ := ih (answer a w).1 (answer a w).2 (t ++ [⟨a, (answer a w).1⟩])
    rw [List.append_assoc] at hl
    exact ⟨_, hl, .ask transcript⟩

section
variable {m : Type → Type} [Monad m] [LawfulMonad m] (answer : (a : A) → m (R a))

/-- A program that follows another one is interpreted after it. -/
theorem interpret_bind (p : Program R α) (f : α → Program R β) :
    (p >>= f).interpret answer = p.interpret answer >>= fun a => (f a).interpret answer := by
  change (p.bind f).interpret answer = _
  induction p with
  | pure a => exact (LawfulMonad.pure_bind a fun a => (f a).interpret answer).symm
  | ask a next ih =>
    simp only [bind, interpret, LawfulMonad.bind_assoc]
    exact bind_congr ih

/-- A single question is interpreted as its answer. -/
theorem interpret_question (a : A) : (question (R := R) a).interpret answer = answer a :=
  LawfulMonad.bind_pure_comp id (answer a) |>.trans (LawfulFunctor.id_map _)

/-- A loop is interpreted turn by turn. -/
theorem interpret_foldlM {γ : Type} (f : β → γ → Program R β) (l : List γ) (b : β) :
    (l.foldlM f b).interpret answer = l.foldlM (fun b c => (f b c).interpret answer) b := by
  induction l generalizing b with
  | nil => rfl
  | cons c l ih =>
    rw [List.foldlM_cons, List.foldlM_cons, interpret_bind]
    exact bind_congr ih

end

end Program

/-! ## The questions of a pass -/

/-- What a pass asks of its handler, which has snapshots of type `σ` and pools of type `π`. -/
inductive ScanQuestion (σ π : Type) where
  | snapshot
  | admits (s : σ)
  | pools (s : σ)
  | isReady (s : σ) (pool : π)
  | decide (s : σ) (pool : π)
  | expand (pool : π)
  | shrink (pool : π)
  | finish (report : PassReport)

/-- What a question is answered. -/
abbrev ScanQuestion.Reply {σ π : Type} : ScanQuestion σ π → Type
  | .snapshot => Except ErrorChain σ
  | .admits _ | .isReady _ _ => Bool
  | .pools _ => List π
  | .decide _ _ => ScanAction
  | .expand _ | .shrink _ => Except ErrorChain StageOutcome
  | .finish _ => Unit

/-- A question of a pass with its answer. -/
abbrev ScanExchange (σ π : Type) : Type := Program.Exchange (ScanQuestion.Reply (σ := σ) (π := π))

namespace ScanHandler

variable {m : Type → Type} {σ π : Type}

/-- What a handler answers. -/
def answer (h : ScanHandler m σ π) : (q : ScanQuestion σ π) → m q.Reply
  | .snapshot => h.snapshot
  | .admits s => h.admits s
  | .pools s => h.pools s
  | .isReady s pool => h.isReady s pool
  | .decide s pool => h.decide s pool
  | .expand pool => h.expand pool
  | .shrink pool => h.shrink pool
  | .finish report => h.finish report

/-- The handler that hands every stage on as a question. -/
def asking (h : ScanHandler m σ π) :
    ScanHandler (Program (ScanQuestion.Reply (σ := σ) (π := π))) σ π where
  name := h.name
  poolName := h.poolName
  snapshot := Program.question (A := ScanQuestion σ π) .snapshot
  admits s := Program.question (A := ScanQuestion σ π) (.admits s)
  pools s := Program.question (A := ScanQuestion σ π) (.pools s)
  isReady s pool := Program.question (A := ScanQuestion σ π) (.isReady s pool)
  decide s pool := Program.question (A := ScanQuestion σ π) (.decide s pool)
  expand pool := Program.question (A := ScanQuestion σ π) (.expand pool)
  shrink pool := Program.question (A := ScanQuestion σ π) (.shrink pool)
  finish report := Program.question (A := ScanQuestion σ π) (.finish report)

/-- A look at a pool asks its questions of the handler. -/
theorem runPool_eq_interpret [Monad m] (h : ScanHandler m σ π) (s : σ) (report : PassReport)
    (pool : π) :
    h.runPool s report pool = (h.asking.runPool s report pool).interpret h.answer := by
  refine bind_congr (x := h.isReady s pool) fun ready => ?_
  cases ready with
  | false => rfl
  | true =>
    refine bind_congr (x := h.decide s pool) fun action => ?_
    cases action <;> rfl

variable [Monad m] [LawfulMonad m] (h : ScanHandler m σ π)

/-- A pass up to its end asks its questions of the handler. -/
theorem survey_eq_interpret : h.survey = h.asking.survey.interpret h.answer := by
  refine bind_congr (x := h.snapshot) fun snapshot => ?_
  cases snapshot with
  | error chain => rfl
  | ok s =>
    refine bind_congr (x := h.admits s) fun admitted => ?_
    cases admitted with
    | false => rfl
    | true =>
      refine bind_congr (x := h.pools s) fun pools => ?_
      have hpool : h.runPool s = fun report pool =>
          (h.asking.runPool s report pool).interpret h.answer :=
        funext fun report => funext fun pool => h.runPool_eq_interpret s report pool
      change pools.foldlM (h.runPool s) _ =
        Program.interpret h.answer (pools.foldlM (h.asking.runPool s) _)
      rw [Program.interpret_foldlM, hpool]

/-- A pass asks its questions of the handler. -/
theorem runPass_eq_interpret : h.runPass = h.asking.runPass.interpret h.answer := by
  unfold runPass
  rw [Program.interpret_bind, survey_eq_interpret]
  refine bind_congr fun report => ?_
  rw [Program.interpret_bind]
  exact (congrArg (· >>= _) (Program.interpret_question ..)).symm

end ScanHandler

/-! ## The account of the visits -/

/-- The lists of a report. -/
inductive PassList where
  | expanded
  | shrunk
  | deferred
  | skipped
  | failures
deriving DecidableEq

/-- The pools in a list of a report. -/
def PassReport.pools (r : PassReport) : PassList → List String
  | .expanded => r.expanded
  | .shrunk => r.shrunk
  | .deferred => r.deferred
  | .skipped => r.skipped
  | .failures => r.failures.map (·.1)

/-- What comes of a look at a pool. -/
inductive Visit where
  | unready
  /-- It is ready, and nothing is to be done. -/
  | idle
  | expand (outcome : Except ErrorChain StageOutcome)
  | shrink (outcome : Except ErrorChain StageOutcome)

namespace Visit

variable {σ π : Type}

/-- Whether the pool is ready. -/
def isReady : Visit → Bool
  | unready => false
  | _ => true

/-- Whether something is done with the pool. -/
def isAction : Visit → Bool
  | unready | idle => false
  | _ => true

/-- Whether the pool is ready and nothing is to be done. -/
def isIdle : Visit → Bool
  | idle => true
  | _ => false

/-- The list in which the pool is put down. -/
def list? : Visit → Option PassList
  | unready | idle => none
  | expand (.ok .applied) => some .expanded
  | shrink (.ok .applied) => some .shrunk
  | expand (.ok .deferred) | shrink (.ok .deferred) => some .deferred
  | expand (.ok .skipped) | shrink (.ok .skipped) => some .skipped
  | expand (.error _) | shrink (.error _) => some .failures

/-- The error, if what was to be done failed. -/
def error? : Visit → Option ErrorChain
  | expand (.error chain) | shrink (.error chain) => some chain
  | _ => none

/-- What is asked about the pool, with the answers. -/
def exchanges (s : σ) (pool : π) : Visit → List (ScanExchange σ π)
  | unready => [⟨.isReady s pool, false⟩]
  | idle => [⟨.isReady s pool, true⟩, ⟨.decide s pool, .noOp⟩]
  | expand outcome => [⟨.isReady s pool, true⟩, ⟨.decide s pool, .expand⟩, ⟨.expand pool, outcome⟩]
  | shrink outcome => [⟨.isReady s pool, true⟩, ⟨.decide s pool, .shrink⟩, ⟨.shrink pool, outcome⟩]

/-- The report after the visit. -/
def enter (name : String) (r : PassReport) (v : Visit) : PassReport :=
  let r := { r with
    poolsConsidered := r.poolsConsidered + 1
    poolsReady := r.poolsReady + if v.isReady then 1 else 0 }
  match v with
  | unready | idle => r
  | expand outcome => r.add name .expand outcome
  | shrink outcome => r.add name .shrink outcome

section
variable (v : Visit) (name : String) (r : PassReport)

/-- A visit is counted. -/
theorem counts_enter : (v.enter name r).admitted = r.admitted ∧
    (v.enter name r).poolsConsidered = r.poolsConsidered + 1 ∧
    (v.enter name r).poolsReady = r.poolsReady + if v.isReady then 1 else 0 := by
  cases v with
  | unready | idle => exact ⟨rfl, rfl, rfl⟩
  | expand outcome | shrink outcome =>
    rcases outcome with chain | _ | _ | _ <;> exact ⟨rfl, rfl, rfl⟩

/-- The pool is put down in one list at most. -/
theorem pools_enter (list : PassList) :
    (v.enter name r).pools list = r.pools list ++ if v.list? = some list then [name] else [] := by
  cases v with
  | unready | idle => cases list <;> exact (List.append_nil _).symm
  | expand outcome | shrink outcome =>
    rcases outcome with chain | _ | _ | _ <;> cases list <;>
      simp [enter, PassReport.add, PassReport.pools, list?]

/-- An error is put down with the pool. -/
theorem failures_enter : (v.enter name r).failures =
    r.failures ++ (v.error?.map fun chain => (name, chainText chain)).toList := by
  cases v with
  | unready | idle => exact (List.append_nil _).symm
  | expand outcome | shrink outcome =>
    rcases outcome with chain | _ | _ | _ <;> simp [enter, PassReport.add, error?]

end

/-- A pool with which something is done is put down in exactly one list. -/
theorem countP_list? (visits : List (π × Visit)) :
    visits.countP (·.2.list? = some .expanded) + visits.countP (·.2.list? = some .shrunk) +
      visits.countP (·.2.list? = some .deferred) + visits.countP (·.2.list? = some .skipped) +
      visits.countP (·.2.list? = some .failures) = visits.countP (·.2.isAction) := by
  induction visits with
  | nil => rfl
  | cons v visits ih =>
    obtain ⟨pool, v⟩ := v
    simp only [List.countP_cons]
    rw [← ih]
    cases v with
    | unready | idle => simp [list?, isAction]
    | expand outcome | shrink outcome =>
      rcases outcome with chain | _ | _ | _ <;> simp [list?, isAction] <;> omega

/-- With a ready pool something is done, or nothing is to be done. -/
theorem countP_isReady (visits : List (π × Visit)) :
    visits.countP (·.2.isReady) = visits.countP (·.2.isAction) + visits.countP (·.2.isIdle) := by
  induction visits with
  | nil => rfl
  | cons v visits ih =>
    obtain ⟨pool, v⟩ := v
    simp only [List.countP_cons]
    rw [ih]
    cases v <;> simp [isReady, isAction, isIdle] <;> omega

end Visit

/-- The report of an admitted pass says exactly what came of these visits. -/
structure Accounts {π : Type} (name : π → String) (visits : List (π × Visit)) (r : PassReport) :
    Prop where
  admitted : r.admitted = true
  considered : r.poolsConsidered = visits.length
  ready : r.poolsReady = visits.countP (·.2.isReady)
  /-- A pool is put down in the list that its action and outcome call for, and in no other. -/
  entered : ∀ list, r.pools list =
    (visits.filter fun v => v.2.list? = some list).map fun v => name v.1
  /-- A failure is put down with its error. -/
  failures : r.failures = visits.filterMap fun v => v.2.error?.map fun chain =>
    (name v.1, chainText chain)

namespace Accounts

variable {π : Type} {name : π → String} {visits : List (π × Visit)} {r : PassReport}

/-- Before the first visit. -/
theorem nil : Accounts name [] { PassReport.empty with admitted := true } where
  admitted := rfl
  considered := rfl
  ready := rfl
  entered list := by cases list <;> rfl
  failures := rfl

/-- After one more visit. -/
theorem snoc (h : Accounts name visits r) (pool : π) (v : Visit) :
    Accounts name (visits ++ [(pool, v)]) (v.enter (name pool) r) where
  admitted := (v.counts_enter _ r).1.trans h.admitted
  considered := by
    rw [(v.counts_enter _ r).2.1, h.considered, List.length_append, List.length_singleton]
  ready := by
    rw [(v.counts_enter _ r).2.2, h.ready, List.countP_append, List.countP_singleton]
  entered list := by
    rw [v.pools_enter, h.entered, List.filter_append, List.map_append, List.filter_cons]
    by_cases hlist : v.list? = some list <;> simp [hlist]
  failures := by
    rw [v.failures_enter, h.failures, List.filterMap_append]
    cases herror : v.error? <;> simp [herror]

/-- The pools of a list are in the order of the visits. -/
theorem sublist (h : Accounts name visits r) (list : PassList) :
    (r.pools list).Sublist (visits.map fun v => name v.1) := by
  rw [h.entered]
  exact List.filter_sublist.map _

/-- The lists have as many entries as there are pools with which something is done. -/
theorem length_lists (h : Accounts name visits r) :
    r.expanded.length + r.shrunk.length + r.deferred.length + r.skipped.length +
      r.failures.length = visits.countP (·.2.isAction) := by
  have hlength : ∀ list, (r.pools list).length = visits.countP (·.2.list? = some list) :=
    fun list => by rw [h.entered, List.length_map, List.countP_eq_length_filter]
  rw [← Visit.countP_list?, ← hlength, ← hlength, ← hlength, ← hlength, ← hlength]
  simp only [PassReport.pools, List.length_map]

end Accounts

/-- What a pass asks, with the answers, and the report that it ends with. -/
inductive IsAccount {σ π : Type} (name : π → String) :
    List (ScanExchange σ π) → PassReport → Prop
  /-- There is no snapshot. -/
  | unread (chain : ErrorChain) :
    IsAccount name [⟨.snapshot, .error chain⟩, ⟨.finish .empty, ()⟩] .empty
  /-- The pass is not admitted. -/
  | refused (s : σ) :
    IsAccount name [⟨.snapshot, .ok s⟩, ⟨.admits s, false⟩, ⟨.finish .empty, ()⟩] .empty
  /-- Each pool is visited once, in order. -/
  | admitted (s : σ) (pools : List π) (visits : List (π × Visit)) (r : PassReport)
    (each : visits.map (·.1) = pools) (accounts : Accounts name visits r)
    (sublist : ∀ list, (r.pools list).Sublist (pools.map name))
    (acted : r.expanded.length + r.shrunk.length + r.deferred.length + r.skipped.length +
      r.failures.length = visits.countP (·.2.isAction))
    (ready : r.poolsReady = visits.countP (·.2.isAction) + visits.countP (·.2.isIdle)) :
    IsAccount name
      (⟨.snapshot, .ok s⟩ :: ⟨.admits s, true⟩ :: ⟨.pools s, pools⟩ ::
        visits.flatMap (fun v => v.2.exchanges s v.1) ++ [⟨.finish r, ()⟩]) r

namespace ScanHandler

open Program (Transcript)

variable {m : Type → Type} {σ π : Type} {h : ScanHandler m σ π} {s : σ} {r r' : PassReport}
  {l : List (ScanExchange σ π)}

/-- A look at a pool is a visit. -/
theorem transcript_runPool {pool : π} (ht : Transcript (h.asking.runPool s r pool) l r') :
    ∃ v : Visit, l = v.exchanges s pool ∧ r' = v.enter (h.poolName pool) r := by
  cases ht with
  | @ask _ _ ready _ _ ht =>
    cases ready with
    | false =>
      cases ht
      exact ⟨.unready, rfl, rfl⟩
    | true =>
      cases ht with
      | @ask _ _ action _ _ ht =>
        cases action with
        | noOp =>
          cases ht
          exact ⟨.idle, rfl, rfl⟩
        | expand =>
          cases ht with
          | @ask _ _ outcome _ _ ht =>
            cases ht
            exact ⟨.expand outcome, rfl, rfl⟩
        | shrink =>
          cases ht with
          | @ask _ _ outcome _ _ ht =>
            cases ht
            exact ⟨.shrink outcome, rfl, rfl⟩

/-- A look at each of some pools is a visit to each of them. -/
theorem transcript_pools {pools : List π} {before : List (π × Visit)}
    (ht : Transcript (pools.foldlM (h.asking.runPool s) r) l r')
    (hr : Accounts h.poolName before r) :
    ∃ visits : List (π × Visit), visits.map (·.1) = pools ∧
      l = visits.flatMap (fun v => v.2.exchanges s v.1) ∧
      Accounts h.poolName (before ++ visits) r' := by
  induction pools generalizing before l r with
  | nil =>
    cases ht
    exact ⟨[], rfl, rfl, by rwa [List.append_nil]⟩
  | cons pool pools ih =>
    obtain ⟨l₁, r₁, l₂, rfl, h₁, h₂⟩ := ht.of_bind
    obtain ⟨v, rfl, rfl⟩ := transcript_runPool h₁
    obtain ⟨visits, rfl, rfl, hr'⟩ := ih h₂ (hr.snoc pool v)
    exact ⟨(pool, v) :: visits, rfl, rfl, by simpa using hr'⟩

/-- What a pass asks it accounts for. -/
theorem transcript_runPass (ht : Transcript h.asking.runPass l r) :
    IsAccount h.poolName l r := by
  obtain ⟨l₁, r₁, l₂, rfl, hsurvey, hfinish⟩ := ht.of_bind
  obtain ⟨rfl, rfl⟩ : l₂ = [⟨.finish r₁, ()⟩] ∧ r = r₁ := by
    cases hfinish with
    | ask hend =>
      cases hend
      exact ⟨rfl, rfl⟩
  cases hsurvey with
  | @ask _ _ snapshot _ _ hsurvey =>
    cases snapshot with
    | error chain =>
      cases hsurvey
      exact .unread chain
    | ok s =>
      cases hsurvey with
      | @ask _ _ admitted _ _ hsurvey =>
        cases admitted with
        | false =>
          cases hsurvey
          exact .refused s
        | true =>
          cases hsurvey with
          | @ask _ _ pools _ _ hsurvey =>
            obtain ⟨visits, hpools, rfl, accounts⟩ := transcript_pools hsurvey Accounts.nil
            refine .admitted s pools visits r hpools accounts (fun list => ?_)
              accounts.length_lists (accounts.ready.trans (Visit.countP_isReady visits))
            rw [← hpools, List.map_map]
            exact accounts.sublist list

/-- A pass of a handler is the pass that asks, answered by the handler, and whoever answers, from
whatever is known and remembered, the pass accounts for every pool. -/
theorem accounts [Monad m] [LawfulMonad m] (h : ScanHandler m σ π) :
    h.runPass = h.asking.runPass.interpret h.answer ∧
      ∀ {W : Type} (answer : (q : ScanQuestion σ π) → W → q.Reply × W) (w : W),
        IsAccount h.poolName
          (h.asking.runPass.run (Program.transcribe answer) (w, [])).2.2
          (h.asking.runPass.run (Program.transcribe answer) (w, [])).1 := by
  refine ⟨h.runPass_eq_interpret, fun answer w => ?_⟩
  obtain ⟨l, hl, transcript⟩ := Program.transcript_run answer h.asking.runPass w []
  rw [hl]
  exact transcript_runPass transcript

/-- Six pools: one is not ready, with one nothing is to be done, one fails. The state is what was
done. -/
def mixedPools : ScanHandler (StateM (List String)) Unit String where
  name := "mixed"
  poolName := id
  snapshot := pure (.ok ())
  admits _ := pure true
  pools _ := pure ["north", "east", "south", "west", "centre", "coast"]
  isReady _ pool := pure (pool ≠ "east")
  decide _ pool :=
    pure (if pool = "west" then .noOp else if pool = "coast" then .shrink else .expand)
  expand pool := do
    modify (("expand " ++ pool) :: ·)
    return if pool = "south" then .error ["no host", "rack 4 is down"]
      else if pool = "centre" then .ok .deferred else .ok .applied
  shrink pool := do
    modify (("shrink " ++ pool) :: ·)
    return .ok .applied
  finish _ := modify ("finish" :: ·)

/-- A pass over pools of which each fares in another way accounts for all of them. -/
theorem accounts_mixedPools :
    mixedPools.runPass.run [] =
        (⟨true, 6, 5, ["north"], ["coast"], ["centre"], [], [("south", "no host: rack 4 is down")]⟩,
          ["finish", "shrink coast", "expand centre", "expand south", "expand north"]) ∧
      mixedPools.runPass = mixedPools.asking.runPass.interpret mixedPools.answer ∧
      IsAccount mixedPools.poolName
        (mixedPools.asking.runPass.run (Program.transcribe mixedPools.answer) ([], [])).2.2
        (mixedPools.runPass.run []).1 :=
  ⟨rfl, mixedPools.accounts.1, mixedPools.accounts.2 mixedPools.answer []⟩

end ScanHandler

end RelayFleet
