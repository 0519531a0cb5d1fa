import RelayFleet.Proofs.Http.Routes

/-!
# The interface is a front end

Any number of requests, interleaved with each other and with operations of the fleet itself, do what
the calls that they ask for do, move for move, and no more than that. Each is told how its call
ended, and one that asks for no call does nothing. The counters say how many assignments were
answered with each word. All of this is `frontEnd`: it is put together from what the interface
documents (`callOf_eq_ok_iff`), from what becomes of wrapped calls (`Run.unwrapped`,
`Run.wrapped`), from what is done for each request (`Caller.served_eq`), from what the responses say
(`Caller.EndsAs.told`) and from the two tables of words, that of the errors and that of the counters
(`exists_assignWord_iff`).
-/

namespace RelayFleet

namespace AssignOutcome

/-- A word is read back. -/
theorem ofWord?_word (o : AssignOutcome) : ofWord? o.word = some o := by
  cases o <;> rfl

/-- What is read is a word. -/
theorem eq_word_of_ofWord? {word : String} {o : AssignOutcome} (h : ofWord? word = some o) :
    word = o.word :=
  (beq_iff_eq.mp (List.find?_some h :)).symm

/-- Different outcomes have different words. -/
theorem word_injective : Function.Injective word := fun o o' h =>
  Option.some.inj ((ofWord?_word o).symm.trans ((congrArg ofWord? h).trans (ofWord?_word o')))

end AssignOutcome

namespace Api

open Http

/-! ## Callers -/

/-- Who calls: somebody with a request, or the fleet itself with an operation, as its scans do. -/
inductive Caller where
  | request (r : Request)
  | inside (c : Operation)

/-- What a caller is answered. -/
inductive Answer where
  | response (r : Response)
  | inside (o : Outcome)

/-- What a caller ends with who makes calls and no requests. -/
inductive DirectResult where
  | called (x : CallResult)
  /-- The request asks for no call. -/
  | refused (r : Response)
  | inside (o : Outcome)

namespace Caller

/-- The program of a caller. -/
def served (rules : AssignRules) : Caller → Fleet Answer
  | request r => .response <$> respond rules r
  | inside c => .inside <$> c.program

/-- The program of a caller who makes the call itself for which the request asks. -/
def direct (rules : AssignRules) : Caller → Fleet DirectResult
  | request r =>
    match callOf r with
    | .ok c => .called <$> c.program rules
    | .error response => pure (.refused response)
  | inside c => .inside <$> c.program

/-- A response as the caller is shown it. -/
def shown : Caller → Response → Response
  | request r => Api.shown r
  | inside _ => id

/-- What becomes of what a caller's call ended with. -/
def ending (c : Caller) : DirectResult → Ending Answer
  | .called x => ⟨x.counts?, .response (c.shown x.response)⟩
  | .refused r => ⟨none, .response (c.shown r)⟩
  | .inside o => ⟨none, .inside o⟩

end Caller

/-- A call ends with what is its own. -/
def Call.EndsAs : Call → CallResult → Prop
  | .assign _ _, .assigned _ => True
  | .list _, .listed _ => True
  | .destroy _, .destroyed _ => True
  | .report _ _, .reported _ => True
  | .start _, .relay _ | .stop _, .relay _ | .reboot _, .relay _ | .agentDisconnected _, .relay _
  | .migrationStarted _, .relay _ | .migrationCompleted _, .relay _ => True
  | .getMode, .mode _ | .setMode _, .mode _ | .resumeMode, .mode _ => True
  | .metrics, .metrics _ => True
  | _, _ => False

/-- What a caller ends with, by what it asks for. -/
inductive Caller.EndsAs : Caller → DirectResult → Prop
  | called {r : Request} {c : Call} {x : CallResult} (asks : callOf r = .ok c)
    (ends : c.EndsAs x) : EndsAs (.request r) (.called x)
  | refused {r : Request} {response : Response} (asks : callOf r = .error response) :
    EndsAs (.request r) (.refused response)
  | inside {c : Operation} {o : Outcome} : EndsAs (.inside c) (.inside o)

/-! ## What callers do -/

/-- What an operation does counts nothing. -/
theorem counts?_of_isRegular {a : Action} (ha : a.IsRegular) : a.counts? = none := by
  cases ha with
  | serves h =>
    cases h with
    | upkeep h => cases h <;> rfl
    | _ => rfl
  | booking h => cases h <;> rfl
  | _ => rfl

/-- The text of the metrics is put together without counting. -/
theorem asks_metrics : Asks (fun a => a.counts? = none) metrics fun _ => True :=
  Asks.bind (Asks.perform rfl) fun _ _ => Asks.bind (Asks.perform rfl) fun _ _ =>
    Asks.bind (Asks.perform rfl) fun _ _ => Asks.pure trivial

/-- A call counts nothing and ends with what is its own. -/
theorem Call.asks (rules : AssignRules) (c : Call) :
    Asks (fun a => a.counts? = none) (c.program rules) c.EndsAs := by
  have hregular : ∀ {α : Type} {p : Fleet α} {k : α → CallResult},
      Asks Action.IsRegular p (fun _ => True) → (∀ a, c.EndsAs (k a)) →
      Asks (fun a => a.counts? = none) (k <$> p) c.EndsAs := fun h hk =>
    Asks.map' (h.mono (fun _ => counts?_of_isRegular) fun _ _ => trivial) fun a _ => hk a
  have hservice : ∀ {α : Type} {p : Fleet α} {k : α → CallResult},
      Asks Action.IsService p (fun _ => True) → (∀ a, c.EndsAs (k a)) →
      Asks (fun a => a.counts? = none) (k <$> p) c.EndsAs := fun h =>
    hregular (h.mono (fun _ => .serves) fun _ _ => trivial)
  cases c with
  | assign =>
    exact hregular (AssignRules.asks_assign_of (fun _ => .booking) (fun _ => .serves .acquires)
      (.serves .releases)) fun _ => trivial
  | report =>
    exact hregular (asks_applyReport_of (.serves (.upkeep .looks)) (fun _ _ => .reports)
      fun _ _ => .unbinds) fun _ => trivial
  | list => exact hservice (Asks.attempt' (.upkeep .lists)) fun _ => trivial
  | start => exact hservice Lifecycle.upkeep_start.service fun _ => trivial
  | stop => exact hservice Lifecycle.upkeep_stop.service fun _ => trivial
  | reboot => exact hservice Lifecycle.upkeep_reboot.service fun _ => trivial
  | destroy => exact hservice Lifecycle.upkeep_destroy.service fun _ => trivial
  | agentDisconnected => exact hservice Lifecycle.upkeep_agentDisconnected.service fun _ => trivial
  | migrationStarted => exact hservice Lifecycle.upkeep_migrationStarted.service fun _ => trivial
  | migrationCompleted =>
    exact hservice Lifecycle.upkeep_migrationCompleted.service fun _ => trivial
  | getMode => exact hservice (Asks.attempt' .reads) fun _ => trivial
  | setMode =>
    exact hservice (Asks.closedKind.set (Asks.perform .reads) fun _ => Asks.perform .switches)
      fun _ => trivial
  | resumeMode =>
    exact hservice (Asks.closedKind.resume (Asks.perform .reads) fun _ => Asks.perform .switches)
      fun _ => trivial
  | metrics => exact Asks.map' asks_metrics fun _ _ => trivial

/-- A caller counts nothing and ends with what it asks for. -/
theorem Caller.asks (rules : AssignRules) (c : Caller) :
    Asks (fun a => a.counts? = none) (c.direct rules) c.EndsAs := by
  cases c with
  | request r =>
    rw [direct]
    cases hcall : callOf r with
    | ok c => exact Asks.map' (c.asks rules) fun x hx => .called hcall hx
    | error response => exact .refused hcall
  | inside c =>
    exact Asks.map' (c.regular.mono (fun _ => counts?_of_isRegular) fun _ _ => trivial)
      fun _ _ => .inside

/-- What is done for a request for which a call is found. -/
theorem Caller.served_of_ok {rules : AssignRules} {r : Request} {c : Call} (h : callOf r = .ok c) :
    (request r).served rules =
      (c.program rules).wrap fun x => ⟨x.counts?, .response (Api.shown r x.response)⟩ := by
  rw [served, respond_eq, h, map_eq_pure_bind]
  exact wrap_bind

/-- What is done for a request for which no call is found. -/
theorem Caller.served_of_error {rules : AssignRules} {r : Request} {response : Response}
    (h : callOf r = .error response) :
    (request r).served rules = pure (.response (Api.shown r response)) := by
  rw [served, respond_eq, h]
  rfl

/-- What a caller does is what it does who makes the calls, and then to count and to answer. -/
theorem Caller.served_eq (rules : AssignRules) (c : Caller) :
    c.served rules = (c.direct rules).wrap c.ending := by
  cases c with
  | request r =>
    cases h : callOf r with
    | ok c =>
      have hdirect : (request r).direct rules = .called <$> c.program rules := by rw [direct, h]
      rw [served_of_ok h, hdirect, wrap_map]
      rfl
    | error response =>
      rw [served_of_error h, direct, h]
      rfl
  | inside c =>
    rw [served, direct, wrap_map, map_eq_pure_bind]
    rfl

/-! ## What callers are told -/

/-- What a caller is told about its call. -/
inductive Told : Caller → DirectResult → Answer → Prop
  /-- A request that asks for a call is told how it ended. -/
  | called {r : Request} {c : Call} {x : CallResult} {response : Response}
    (asks : AsksFor r c) (hc : c ≠ .metrics) (ends : c.EndsAs x)
    (tells : Tells response x.error?) :
    Told (.request r) (.called x) (.response (Api.shown r response))
  /-- A request that asks for no call is not told of success. -/
  | refused {r : Request} {response : Response} (asks : ∀ c, ¬ AsksFor r c)
    (fails : ¬ response.IsSuccess) :
    Told (.request r) (.refused response) (.response (Api.shown r response))
  | metrics {r : Request} {response : Response} (asks : AsksFor r .metrics) :
    Told (.request r) (.called (.metrics response)) (.response (Api.shown r response))
  | inside {c : Operation} {o : Outcome} : Told (.inside c) (.inside o) (.inside o)

/-- A request for which no call is found asks for none. -/
theorem callOf_eq_error_iff {r : Request} :
    (∃ response, callOf r = .error response) ↔ ∀ c, ¬ AsksFor r c := by
  simp only [← callOf_eq_ok_iff]
  cases callOf r <;> simp

/-- A request that is turned away is not told of success. -/
theorem not_isSuccess_of_callOf {r : Request} {response : Response}
    (h : callOf r = .error response) : ¬ response.IsSuccess := by
  have hbare : ∀ {status : Nat}, 300 ≤ status → ¬ (Response.bare status).IsSuccess :=
    fun hstatus hs => absurd (show _ < 300 from hs.2) (Nat.not_lt.mpr hstatus)
  rw [callOf] at h
  split at h
  · cases h
    exact hbare (by decide)
  · cases h
    exact hbare (by decide)
  · next route _ =>
    cases hcall : callAt r route with
    | ok c =>
      rw [hcall] at h
      cases h
    | error rejection =>
      rw [hcall] at h
      cases h
      cases rejection <;> exact fun hs => absurd hs.2 (by decide)

/-- A caller is told how its call ended. -/
theorem Caller.EndsAs.told {c : Caller} {x : DirectResult} (h : c.EndsAs x) :
    Told c x (c.ending x).answer := by
  cases h with
  | @called r c x asks ends =>
    by_cases hc : c = .metrics
    · subst hc
      cases x with
      | metrics => exact .metrics (callOf_eq_ok_iff.mp asks)
      | _ => cases ends
    · refine .called (callOf_eq_ok_iff.mp asks) hc ends (CallResult.tells_response ?_)
      rintro response rfl
      cases c with
      | metrics => exact hc rfl
      | _ => cases ends
  | refused asks =>
    exact .refused (callOf_eq_error_iff.mp ⟨_, asks⟩) (not_isSuccess_of_callOf asks)
  | inside => exact .inside

/-! ## What is counted -/

/-- The word in a response: `ok` where it says that the call succeeded, and otherwise its code. -/
def wordOf (r : Response) : Option String :=
  match r.member? "success", r.member? "code" with
  | some (.bool true), _ => some "ok"
  | _, some (.string code) => some code
  | _, _ => none

/-- The response to an assignment has the word for how it ended. -/
theorem wordOf_assigned (x : Except AllocError RelayEndpoint) :
    wordOf (CallResult.assigned x).response = some (assignWord x) := by
  cases x <;> rfl

example : wordOf (allocFailure (.capacityExhausted "zone-a")) = some "capacity_exhausted" := rfl

/-- The response to an assignment has the word that is counted. -/
theorem wordOf_response {x : CallResult} {o : AssignOutcome} (h : x.counts? = some o) :
    wordOf x.response = some o.word := by
  cases x with
  | assigned x => rw [wordOf_assigned, AssignOutcome.eq_word_of_ofWord? h]
  | _ => cases h

/-- There is a counter for every word for how an assignment ended. -/
theorem exists_ofWord?_assignWord {α : Type} (x : Except AllocError α) :
    ∃ o, AssignOutcome.ofWord? (assignWord x) = some o := by
  cases x with
  | ok a => exact ⟨.ok, rfl⟩
  | error e =>
    cases e with
    | notAssignable => exact ⟨.notAssignable, rfl⟩
    | lockTimeout => exact ⟨.lockTimeout, rfl⟩
    | capacityExhausted => exact ⟨.capacityExhausted, rfl⟩
    | noPublicAddress => exact ⟨.noPublicAddress, rfl⟩
    | store => exact ⟨.stateError, rfl⟩

/-- The words for how assignments end are those that have a counter. -/
theorem exists_assignWord_iff {word : String} :
    (∃ x : Except AllocError RelayEndpoint, assignWord x = word) ↔
      word ∈ AssignOutcome.all.map (·.word) := by
  constructor
  · rintro ⟨x, rfl⟩
    obtain ⟨o, ho⟩ := exists_ofWord?_assignWord x
    rw [AssignOutcome.eq_word_of_ofWord? ho]
    exact List.mem_map_of_mem (by cases o <;> decide)
  · intro h
    obtain ⟨o, -, rfl⟩ := List.mem_map.mp h
    cases o with
    | ok => exact ⟨.ok default, rfl⟩
    | notAssignable => exact ⟨.error (.notAssignable "" default), rfl⟩
    | lockTimeout => exact ⟨.error (.lockTimeout default), rfl⟩
    | capacityExhausted => exact ⟨.error (.capacityExhausted ""), rfl⟩
    | noPublicAddress => exact ⟨.error (.noPublicAddress ""), rfl⟩
    | stateError => exact ⟨.error (.store default), rfl⟩

/-- An assignment is counted, and nothing else is. -/
theorem Call.EndsAs.counts?_iff {c : Call} {x : CallResult} (h : c.EndsAs x) :
    (∃ o, x.counts? = some o) ↔ ∃ zone w, c = .assign zone w := by
  cases c <;> cases x <;> try cases h
  case assign.assigned zone w x =>
    exact iff_of_true (exists_ofWord?_assignWord x) ⟨zone, w, rfl⟩
  all_goals simp [CallResult.counts?]

/-- Assignments are not asked for with `HEAD`. -/
theorem shown_of_assign {r : Request} {zone : ZoneId} {w : Workload}
    (h : AsksFor r (.assign zone w)) (response : Response) : shown r response = response := by
  cases h with
  | assign path body =>
    obtain ⟨segment, haddr, -, -⟩ := path
    have hmethod : r.method = "POST" := haddr.method.resolve_right fun h => absurd h.2 (by decide)
    rw [shown, hmethod, if_neg (by decide)]

/-! ## The interface is a front end -/

section
variable {ι : Type}

/-- The caller asks for an assignment. -/
def AsksAssign (callers : ι → Caller) (i : ι) : Prop :=
  ∃ r zone w, callers i = .request r ∧ AsksFor r (.assign zone w)

/-- The caller asks for an assignment and was answered. -/
def AssignAnswered (callers : ι → Caller) (s : System ι Answer) (i : ι) (response : Response) :
    Prop :=
  AsksAssign callers i ∧ s.calls i = .pure (.response response)

/-- Requests are answered by the calls that they ask for. -/
structure FrontEnd [DecidableEq ι] (rules : AssignRules) (g : Registry) (callers : ι → Caller) :
    Prop where
  /-- The call that is made for a request is the one that it asks for. -/
  documented : ∀ r c, callOf r = .ok c ↔ AsksFor r c
  /-- What requests do, the calls that they ask for do, and each request that is answered is told
  how its call ended. -/
  refines : ∀ h s, Run (System.start g fun i => (callers i).served rules) h s →
    ∃ h' s', Run (System.start g fun i => (callers i).direct rules) h' s' ∧
      SameEffects h' s' h s ∧
      ∀ i a, s.calls i = .pure a → ∃ x, s'.calls i = .pure x ∧ Told (callers i) x a
  /-- What calls do, requests that ask for them can do, so that all whose calls have ended are
  answered. -/
  complete : ∀ h' s', Run (System.start g fun i => (callers i).direct rules) h' s' →
    ∃ h s, Run (System.start g fun i => (callers i).served rules) h s ∧
      SameEffects h' s' h s ∧
      ∀ i x, s'.calls i = .pure x → ∃ a, s.calls i = .pure a ∧ Told (callers i) x a
  /-- A request that asks for no call, because it leads nowhere or cannot be decoded, is answered
  without anything being done, and not told of success. -/
  ignores : ∀ r, (∀ c, ¬ AsksFor r c) →
    ∃ response, respond rules r = pure response ∧ ¬ response.IsSuccess
  /-- The words for how assignments end are those that have a counter. -/
  words : ∀ word, (∃ x : Except AllocError RelayEndpoint, assignWord x = word) ↔
    word ∈ AssignOutcome.all.map (·.word)
  /-- The counter of a word says how many assignments were answered with it. -/
  counts : ∀ h s, Run (System.start g fun i => (callers i).served rules) h s → ∀ word,
    (countersAfter h).get word =
      .ofNat {i | ∃ response, AssignAnswered callers s i response ∧
        wordOf response = some word}.ncard
  /-- The counters of all words add up to the number of assignments that were answered, as long as
  they can count so far. -/
  adds_up : ∀ h s, Run (System.start g fun i => (callers i).served rules) h s →
    {i | ∃ response, AssignAnswered callers s i response}.ncard < 2 ^ 64 →
    (AssignOutcome.all.map fun o => ((countersAfter h).get o.word).toNat).sum =
      {i | ∃ response, AssignAnswered callers s i response}.ncard
  /-- When all have returned, all that asked for an assignment were answered. -/
  all_answered : ∀ h s, Run (System.start g fun i => (callers i).served rules) h s → s.Finished →
    ∀ i, AsksAssign callers i → ∃ response, AssignAnswered callers s i response

variable [DecidableEq ι] {rules : AssignRules} {g : Registry} {callers : ι → Caller}
  {h' : List (Moment ι DirectResult)} {s' : System ι DirectResult} {h : List (Moment ι Answer)}
  {s : System ι Answer}

/-- Callers that were answered were told how their calls ended. -/
theorem told_of_wrapsRun (run' : Run (System.start g fun i => (callers i).direct rules) h' s')
    (hm : WrapsRun (fun i => (callers i).ending) h' s' h s) {i : ι} {a : Answer}
    (ha : s.calls i = .pure a) : ∃ x, s'.calls i = .pure x ∧ Told (callers i) x a := by
  obtain ⟨x, hx, rfl⟩ := hm.of_answered ha
  have hends := (run'.asks fun i => (callers i).asks rules).2 i
  rw [hx] at hends
  exact ⟨x, hx, Caller.EndsAs.told hends⟩

section
variable (run' : Run (System.start g fun i => (callers i).direct rules) h' s')
  (hm : WrapsRun (fun i => (callers i).ending) h' s' h s)
  (ht : Tallied (fun i => (callers i).ending) s' h s)
include run' ht

/-- Who was counted has asked for an assignment and was answered with the word that was counted. -/
theorem answered_of_mem_tally {i : ι} {o : AssignOutcome} (hmem : (i, o) ∈ tally h) :
    ∃ response, AssignAnswered callers s i response ∧ wordOf response = some o.word := by
  obtain ⟨a, hended, hanswer, hcounts⟩ := (ht.mem_iff i o).mp hmem
  have hends := (run'.asks fun i => (callers i).asks rules).2 i
  rw [hended] at hends
  change (callers i).EndsAs a at hends
  generalize hcaller : callers i = c at hends hanswer hcounts
  cases hends with
  | refused | inside => cases hcounts
  | @called r c x asks ends =>
    obtain ⟨zone, w, rfl⟩ := ends.counts?_iff.mp ⟨o, hcounts⟩
    have hresponse : s.calls i = .pure (.response (shown r x.response)) := hanswer
    have hasks := callOf_eq_ok_iff.mp asks
    rw [shown_of_assign hasks] at hresponse
    exact ⟨_, ⟨⟨r, zone, w, hcaller, hasks⟩, hresponse⟩, wordOf_response hcounts⟩

include hm

/-- Who has asked for an assignment and was answered was counted with the word of the response. -/
theorem mem_tally_of_answered {i : ι} {response : Response}
    (ha : AssignAnswered callers s i response) :
    ∃ o, (i, o) ∈ tally h ∧ wordOf response = some o.word := by
  obtain ⟨⟨r, zone, w, hcaller, asks⟩, hanswer⟩ := ha
  obtain ⟨a, hended, hshown⟩ := hm.of_answered hanswer
  have hends := (run'.asks fun i => (callers i).asks rules).2 i
  rw [hended] at hends
  change (callers i).EndsAs a at hends
  have hmem := ht.mem_iff i
  rw [hended, hanswer] at hmem
  rw [hcaller] at hends hshown hmem
  cases hends with
  | refused h =>
    rw [asks.callOf_eq] at h
    cases h
  | @called _ c x h ends =>
    rw [asks.callOf_eq] at h
    cases h
    obtain ⟨o, hcounts⟩ := ends.counts?_iff.mpr ⟨zone, w, rfl⟩
    have hresponse : response = shown r x.response := by
      injection hshown
    rw [shown_of_assign asks] at hresponse
    refine ⟨o, (hmem o).mpr ⟨_, rfl, congrArg _ hshown, hcounts⟩, ?_⟩
    rw [hresponse]
    exact wordOf_response hcounts

/-- What was counted are the words of the responses to assignments. -/
theorem mem_tally_iff {i : ι} {o : AssignOutcome} :
    (i, o) ∈ tally h ↔
      ∃ response, AssignAnswered callers s i response ∧ wordOf response = some o.word := by
  refine ⟨answered_of_mem_tally run' ht, ?_⟩
  rintro ⟨response, ha, hword⟩
  obtain ⟨o', hmem, hword'⟩ := mem_tally_of_answered run' hm ht ha
  rw [hword] at hword'
  rwa [AssignOutcome.word_injective (Option.some.inj hword')]

/-- The counter of a word says how many assignments were answered with it. -/
theorem get_countersAfter (word : String) :
    (countersAfter h).get word =
      .ofNat {i | ∃ response, AssignAnswered callers s i response ∧
        wordOf response = some word}.ncard := by
  rw [AssignCounters.get]
  cases hword : AssignOutcome.ofWord? word with
  | some o =>
    obtain rfl := AssignOutcome.eq_word_of_ofWord? hword
    simp only [← mem_tally_iff run' hm ht, ncard_setOf_mem ht.nodup, count_countersAfter]
  | none =>
    have hnone : {i | ∃ response, AssignAnswered callers s i response ∧
        wordOf response = some word} = ∅ := by
      refine Set.eq_empty_of_forall_notMem ?_
      rintro i ⟨response, ha, hresponse⟩
      obtain ⟨o, -, hword'⟩ := mem_tally_of_answered run' hm ht ha
      rw [hresponse] at hword'
      rw [Option.some.inj hword', AssignOutcome.ofWord?_word] at hword
      cases hword
    rw [hnone, Set.ncard_empty]
    rfl

/-- The counters add up to the number of assignments that were answered. -/
theorem sum_countersAfter
    (hfew : {i | ∃ response, AssignAnswered callers s i response}.ncard < 2 ^ 64) :
    (AssignOutcome.all.map fun o => ((countersAfter h).get o.word).toNat).sum =
      {i | ∃ response, AssignAnswered callers s i response}.ncard := by
  have hset : {i | ∃ response, AssignAnswered callers s i response} =
      {i | ∃ o, (i, o) ∈ tally h} := by
    ext i
    constructor
    · rintro ⟨response, ha⟩
      obtain ⟨o, hmem, -⟩ := mem_tally_of_answered run' hm ht ha
      exact ⟨o, hmem⟩
    · rintro ⟨o, hmem⟩
      obtain ⟨response, ha, -⟩ := answered_of_mem_tally run' ht hmem
      exact ⟨response, ha⟩
  rw [hset, ncard_setOf_exists_mem ht.nodup] at hfew ⊢
  rw [← sum_countP]
  refine congrArg List.sum (List.map_congr_left fun o _ => ?_)
  have hle : (tally h).countP (·.2 = o) ≤ (tally h).length := List.countP_le_length
  rw [AssignCounters.get, AssignOutcome.ofWord?_word]
  show ((countersAfter h).count o).toNat = _
  rw [count_countersAfter, UInt64.toNat_ofNat_of_lt' (by rw [UInt64.size]; omega)]

end

end

/-- A request for a relay for a workload. -/
def assignRequest (mediaType phase : String) : Request where
  method := "POST"
  target := "/api/v1/zones/zone-a/assign"
  contentType := some mediaType
  body := ("\x7b\"id\":\"v\",\"phase\":\"" ++ phase ++ "\"\x7d").toUTF8

/-- Requests for a relay for a workload that runs and for one that has stopped, one whose media type
is no ASCII, one to stop a relay, and a report that is too long. -/
def requests : Fin 5 → Request
  | 0 => assignRequest "application/json; charset=utf-8" "running"
  | 1 => assignRequest "application/vnd.api+JSON" "stopped"
  | 2 => assignRequest "application/json; note=\"\u00e9\"" "running"
  | 3 => ⟨"POST", "/api/v1/relays/relay%2D1/stop?now", none, .empty⟩
  | 4 => ⟨"POST", "/api/v1/relays/relay-1/status", none, ⟨.replicate (bodyLimit + 1) 0⟩⟩

/-- The call of a request that leads to a route. -/
theorem callOf_of_destination {r : Request} {route : Route}
    (h : destination r.method r.target = .route route) :
    callOf r = (callAt r route).mapError .rejected := by
  rw [callOf, h]

/-- The first two and the fourth ask for calls, the others do not. -/
theorem callOf_requests : callOf (requests 0) = .ok (.assign "zone-a" ⟨"v", .running⟩) ∧
    callOf (requests 1) = .ok (.assign "zone-a" ⟨"v", .stopped⟩) ∧
    callOf (requests 2) = .error (.rejected .mediaType) ∧
    callOf (requests 3) = .ok (.stop "relay-1") ∧
    callOf (requests 4) = .error (.rejected .bodyLength) := by
  have hassign {mediaType phase : String} {x : Except Rejection Workload}
      (hbody : (assignRequest mediaType phase).decodeJson Workload.decoder = x) :
      callOf (assignRequest mediaType phase) = (Call.assign "zone-a" <$> x).mapError .rejected := by
    have hroute : destination "POST" "/api/v1/zones/zone-a/assign" = .route (.assign "zone-a") := by
      decide
    rw [callOf_of_destination hroute, callAt, hbody]
    rfl
  have hrunning : (requests 0).HasJson Workload.decoder ⟨"v", .running⟩ :=
    ⟨⟨_, rfl, by decide⟩, by decide, (Json.Decoder.runBytes_toUTF8 _ _).trans rfl⟩
  have hstopped : (requests 1).HasJson Workload.decoder ⟨"v", .stopped⟩ :=
    ⟨⟨_, rfl, by decide⟩, by decide, (Json.Decoder.runBytes_toUTF8 _ _).trans rfl⟩
  have hreport : destination (requests 4).method (requests 4).target = .route (.status "relay-1") :=
    by decide
  have hlong : (requests 4).bytes = .error .bodyLength := by
    rw [Request.bytes, if_neg]
    simp [requests, ByteArray.size]
  refine ⟨hassign (Request.decodeJson_eq_ok_iff.mpr hrunning),
    hassign (Request.decodeJson_eq_ok_iff.mpr hstopped), hassign rfl, rfl, ?_⟩
  rw [callOf_of_destination hreport, callAt, Request.text, hlong]
  rfl

/-- On a registry without relays the requests can be answered like this, the relay being looked up
while the first one has the lock. -/
theorem exists_run_requests :
    ∃ h s, Run (System.start .empty fun i => (Caller.request (requests i)).served default) h s ∧
      s.Finished ∧
      s.calls 0 = .pure (.response (allocFailure (.capacityExhausted "zone-a"))) ∧
      s.calls 3 = .pure (.response (lifecycleFailure (.notFound "relay-1"))) ∧
      tally h = [(1, .notAssignable), (0, .capacityExhausted)] := by
  let ending (x : CallResult) : Ending Answer := ⟨x.counts?, .response x.response⟩
  let programs : Fin 5 → Fleet Answer := fun
    | 0 => ((Call.assign "zone-a" ⟨"v", .running⟩).program default).wrap ending
    | 1 => ((Call.assign "zone-a" ⟨"v", .stopped⟩).program default).wrap ending
    | 2 => pure (.response (.rejected .mediaType))
    | 3 => ((Call.stop "relay-1").program default).wrap ending
    | 4 => pure (.response (.rejected .bodyLength))
  obtain ⟨h0, h1, h2, h3, h4⟩ := callOf_requests
  have hserved : (fun i => (Caller.request (requests i)).served default) = programs := by
    funext i
    match i with
    | 0 => exact Caller.served_of_ok h0
    | 1 => exact Caller.served_of_ok h1
    | 2 => exact Caller.served_of_error h2
    | 3 => exact Caller.served_of_ok h3
    | 4 => exact Caller.served_of_error h4
  have begun : Run (System.start .empty programs) [] (.start .empty programs) := .start
  have run := (((((((begun.perform 0 rfl 0 (.ok ()) rfl).perform
    3 rfl 0 (.error (.relayNotFound "relay-1")) rfl).perform 1 rfl 0 () trivial).perform
    0 rfl 0 0 rfl).perform 0 rfl 0 (.ok none) rfl).perform 0 rfl 0 (.ok []) rfl).perform
    0 rfl 0 () rfl).perform 0 rfl 0 () trivial
  rw [hserved]
  refine ⟨_, _, run, fun i => ?_, rfl, rfl, rfl⟩
  match i with
  | 0 | 1 | 2 | 3 | 4 => exact ⟨_, rfl⟩

end Api

end RelayFleet
