import RelayFleet.Api
import RelayFleet.Proofs.Interleaving.Counted

/-!
# What requests ask for and how they are answered

A request that leads to a route and can be decoded asks for one call of the fleet
(`Request.call`). What answers it is that call, gone on with by a count, if it assigns a relay, and
a response (`Api.respond_eq`). The response has a status of success and says `true` exactly where
the call succeeded; otherwise its code is that of the kind of error that the call ended with
(`CallResult.told_response`), and different kinds have different codes
(`ErrorKind.code_injective`).
-/

namespace RelayFleet

namespace Http.Response

/-- A status of success. -/
def IsSuccess (r : Response) : Prop := 200 ≤ r.status ∧ r.status < 300

/-- A member of the body. -/
def member? (r : Response) (name : String) : Option Json.Value :=
  match r.body with
  | .json (.object members) => members.lookup name
  | _ => none

end Http.Response

namespace Api

open Http

/-! ## Calls -/

/-- A call of the fleet that requests are made for. -/
inductive Call where
  | assign (zone : ZoneId) (w : Workload)
  | list (zone : ZoneId)
  | start (id : RelayId)
  | stop (id : RelayId)
  | reboot (id : RelayId)
  | destroy (id : RelayId)
  | report (id : RelayId) (text : String)
  | agentDisconnected (id : RelayId)
  | migrationStarted (id : RelayId)
  | migrationCompleted (id : RelayId)
  | getMode
  | setMode (m : Mode)
  | resumeMode
  /-- Not a call: the text of the metrics. -/
  | metrics

/-- What a call ends with. -/
inductive CallResult where
  | assigned (x : Except AllocError RelayEndpoint)
  | listed (x : Except LifecycleError (List Relay))
  | relay (x : Except LifecycleError Relay)
  | destroyed (x : Except LifecycleError Unit)
  | reported (x : StoreResult ReportOutcome)
  | mode (x : StoreResult ModeRecord)
  | metrics (r : Response)

/-- The program of a call. -/
def Call.program (rules : AssignRules) : Call → Fleet CallResult
  | assign zone w => .assigned <$> rules.assign zone w
  | list zone => .listed <$> (Lifecycle.list (some zone)).run
  | start id => .relay <$> (Lifecycle.start id).run
  | stop id => .relay <$> (Lifecycle.stop id).run
  | reboot id => .relay <$> (Lifecycle.reboot id).run
  | destroy id => .destroyed <$> (Lifecycle.destroy id).run
  | report id text => .reported <$> applyReport id text
  | agentDisconnected id => .relay <$> (Lifecycle.agentDisconnected id).run
  | migrationStarted id => .relay <$> (Lifecycle.migrationStarted id).run
  | migrationCompleted id => .relay <$> (Lifecycle.migrationCompleted id).run
  | getMode => .mode <$> Management.get.run
  | setMode m => .mode <$> (Management.set m).run
  | resumeMode => .mode <$> Management.resume.run
  | metrics => .metrics <$> Api.metrics

/-! ## What requests ask for -/

/-- The name that a segment of the path stands for. -/
def nameOf (segment : String) : Except Rejection String :=
  match decodeSegment segment with
  | some name => .ok name
  | none => .error .pathEncoding

/-- The call that a request asks for at a route. -/
def callAt (request : Request) : Route → Except Rejection Call
  | .assign zone => do return .assign (← nameOf zone) (← request.decodeJson Workload.decoder)
  | .listRelays zone => .list <$> nameOf zone
  | .destroy id => .destroy <$> nameOf id
  | .start id => .start <$> nameOf id
  | .stop id => .stop <$> nameOf id
  | .reboot id => .reboot <$> nameOf id
  | .status id => do return .report (← nameOf id) (← request.text)
  | .disconnect id => .agentDisconnected <$> nameOf id
  | .migrationStart id => .migrationStarted <$> nameOf id
  | .migrationComplete id => .migrationCompleted <$> nameOf id
  | .getMode => .ok .getMode
  | .setMode => .setMode <$> request.decodeJson modeRequest
  | .resumeMode => .ok .resumeMode
  | .metrics => .ok .metrics

/-- The call that a request asks for; how it is turned away if it leads nowhere or cannot be
decoded. -/
def callOf (request : Request) : Except Response Call :=
  match destination request.method request.target with
  | .nowhere => .error (.bare 404)
  | .wrongMethod => .error (.bare 405)
  | .route r => (callAt request r).mapError .rejected

/-- A response as it is shown to a request: `HEAD` asks for no body. -/
def shown (request : Request) (r : Response) : Response :=
  if request.method = "HEAD" then r.withoutBody else r

/-! ## Responses -/

/-- The kinds of errors. -/
inductive ErrorKind where
  | notAssignable
  | lockTimeout
  | capacityExhausted
  | noPublicAddress
  | stateError
  | notFound
  | illegalTransition
  | provisioningFailure
  | malformedStatus
deriving DecidableEq

/-- The code of a kind of errors. -/
def ErrorKind.code : ErrorKind → String
  | notAssignable => "not_assignable"
  | lockTimeout => "lock_timeout"
  | capacityExhausted => "capacity_exhausted"
  | noPublicAddress => "no_public_address"
  | stateError => "state_error"
  | notFound => "not_found"
  | illegalTransition => "illegal_transition"
  | provisioningFailure => "provisioning_failure"
  | malformedStatus => "malformed_status"

/-- Different kinds have different codes. -/
theorem ErrorKind.code_injective : Function.Injective ErrorKind.code := by
  intro k k' h
  cases k <;> cases k' <;> first | rfl | simp [code] at h

/-- The kind of an allocation error. -/
def allocKind : AllocError → ErrorKind
  | .notAssignable _ _ => .notAssignable
  | .lockTimeout _ => .lockTimeout
  | .capacityExhausted _ => .capacityExhausted
  | .noPublicAddress _ => .noPublicAddress
  | .store _ => .stateError

/-- The kind of a lifecycle error. -/
def lifecycleKind : LifecycleError → ErrorKind
  | .notFound _ | .store (.relayNotFound _) => .notFound
  | .illegal _ => .illegalTransition
  | .provisioning _ _ => .provisioningFailure
  | .store .undecodable => .stateError

/-- The error of what may be one. -/
def errorOf {ε α : Type} (kind : ε → ErrorKind) : Except ε α → Option ErrorKind
  | .ok _ => none
  | .error e => some (kind e)

namespace CallResult

/-- The kind of error that a call ended with, none if it succeeded. A report succeeds where it is
applied. -/
def error? : CallResult → Option ErrorKind
  | assigned x => errorOf allocKind x
  | listed x => errorOf lifecycleKind x
  | relay x => errorOf lifecycleKind x
  | destroyed x => errorOf lifecycleKind x
  | reported (.ok (.applied _ _)) => none
  | reported (.ok (.rejected _)) => some .malformedStatus
  | reported (.ok .unknownRelay) => some .notFound
  | reported (.error _) => some .stateError
  | mode x => errorOf (fun _ => .stateError) x
  | metrics _ => none

/-- The outcome that is counted: the one that has the word for how an assignment ended. -/
def counts? : CallResult → Option AssignOutcome
  | assigned x => AssignOutcome.ofWord? (assignWord x)
  | _ => none

end CallResult

/-- The response to what may be an error. -/
def responseTo {ε α : Type} (encode : α → Json.Value) (refuse : ε → Response) :
    Except ε α → Response
  | .ok a => success (encode a)
  | .error e => refuse e

/-- The response to what a call ended with. -/
def CallResult.response : CallResult → Response
  | assigned x => responseTo RelayEndpoint.encode allocFailure x
  | listed x => responseTo (fun relays => .array (relays.map Relay.encode)) lifecycleFailure x
  | relay x => responseTo Relay.encode lifecycleFailure x
  | destroyed x => responseTo (fun () => .string "destroyed") lifecycleFailure x
  | reported (.ok (.rejected e)) => failure 422 "malformed_status" e.message
  | reported (.ok .unknownRelay) => failure 404 "not_found" "relay not found"
  | reported x => responseTo ReportOutcome.encode storeFailure x
  | mode x => responseTo ModeRecord.encode storeFailure x
  | metrics r => r

/-- What becomes of what a call ended with. -/
def CallResult.ending (x : CallResult) : Ending Response := ⟨x.counts?, x.response⟩

/-- What a response says of an error: that there was none, if and only if there was none, and
otherwise of which kind it was. -/
structure Tells (r : Response) (error : Option ErrorKind) : Prop where
  success_iff : r.IsSuccess ∧ r.member? "success" = some (.bool true) ↔ error = none
  failure : ∀ k, error = some k → ¬ r.IsSuccess ∧ r.member? "success" = some (.bool false) ∧
    r.member? "code" = some (.string k.code)

/-- The response to a success. -/
theorem tells_success (data : Json.Value) : Tells (success data) none :=
  ⟨iff_of_true ⟨⟨Nat.le_refl 200, show 200 < 300 by decide⟩, rfl⟩ rfl, nofun⟩

/-- The response to a failure. -/
theorem tells_failure (k : ErrorKind) {status : Nat} {text : String} (hstatus : 300 ≤ status) :
    Tells (failure status k.code text) (some k) := by
  have hfails : ¬ (failure status k.code text).IsSuccess := fun h => absurd h.2 (by
    show ¬ status < 300
    omega)
  refine ⟨iff_of_false (fun h => hfails h.1) nofun, ?_⟩
  rintro _ ⟨⟩
  exact ⟨hfails, rfl, rfl⟩

/-- The response to an allocation error. -/
theorem tells_allocFailure (e : AllocError) : Tells (allocFailure e) (some (allocKind e)) := by
  cases e with
  | notAssignable => exact tells_failure .notAssignable (show 300 ≤ 409 by decide)
  | lockTimeout => exact tells_failure .lockTimeout (show 300 ≤ 503 by decide)
  | capacityExhausted => exact tells_failure .capacityExhausted (show 300 ≤ 503 by decide)
  | noPublicAddress => exact tells_failure .noPublicAddress (show 300 ≤ 502 by decide)
  | store => exact tells_failure .stateError (show 300 ≤ 500 by decide)

/-- The response to a lifecycle error. -/
theorem tells_lifecycleFailure (e : LifecycleError) :
    Tells (lifecycleFailure e) (some (lifecycleKind e)) := by
  cases e with
  | notFound => exact tells_failure .notFound (show 300 ≤ 404 by decide)
  | illegal => exact tells_failure .illegalTransition (show 300 ≤ 409 by decide)
  | provisioning => exact tells_failure .provisioningFailure (show 300 ≤ 502 by decide)
  | store e =>
    cases e with
    | relayNotFound => exact tells_failure .notFound (show 300 ≤ 404 by decide)
    | undecodable => exact tells_failure .stateError (show 300 ≤ 500 by decide)

/-- The response to a registry error. -/
theorem tells_storeFailure (e : StoreError) : Tells (storeFailure e) (some .stateError) :=
  tells_failure .stateError (show 300 ≤ 500 by decide)

/-- The response to what may be an error. -/
theorem tells_responseTo {ε α : Type} {encode : α → Json.Value} {refuse : ε → Response}
    {kind : ε → ErrorKind} (hrefuse : ∀ e, Tells (refuse e) (some (kind e))) (x : Except ε α) :
    Tells (responseTo encode refuse x) (errorOf kind x) := by
  cases x with
  | ok a => exact tells_success _
  | error e => exact hrefuse e

/-- The response to a call says whether it succeeded, and if it did not of which kind the error
was. -/
theorem CallResult.tells_response {x : CallResult} (hx : ∀ r, x ≠ .metrics r) :
    Tells x.response x.error? := by
  cases x with
  | assigned => exact tells_responseTo tells_allocFailure _
  | listed | relay | destroyed => exact tells_responseTo tells_lifecycleFailure _
  | mode => exact tells_responseTo tells_storeFailure _
  | reported x =>
    rcases x with e | (_ | _ | _)
    · exact tells_storeFailure e
    · exact tells_success _
    · exact tells_failure .malformedStatus (show 300 ≤ 422 by decide)
    · exact tells_failure .notFound (show 300 ≤ 404 by decide)
  | metrics r => exact absurd rfl (hx r)

/-! ## Requests are answered by their calls -/

section
variable {α β : Type} {rules : AssignRules} {request : Request}

/-- Something is made of what a call ends with before it is gone on with. -/
theorem wrap_map {p : Fleet α} {k : α → β} {γ : Type} {f : β → Ending γ} :
    (k <$> p).wrap f = p >>= fun a => (f (k a)).program := by
  rw [Fleet.wrap, map_eq_pure_bind, bind_assoc]
  simp only [pure_bind]

/-- Something is made of the answer. -/
theorem wrap_bind {p : Fleet α} {f : α → Ending β} {γ : Type} {k : β → γ} :
    (p.wrap f >>= fun b => pure (k b)) = p.wrap fun a => ⟨(f a).counts, k (f a).answer⟩ := by
  rw [Fleet.wrap, Fleet.wrap, bind_assoc]
  refine bind_congr fun a => ?_
  simp only [Ending.program]
  cases (f a).counts with
  | none => rw [pure_bind]
  | some o => simp only [bind_assoc, pure_bind]

/-- A lifecycle operation is answered by itself. -/
theorem ofLifecycle_eq {encode : α → Json.Value} {p : LifecycleM α}
    {k : Except LifecycleError α → CallResult}
    (hk : ∀ x, (k x).ending = ⟨none, responseTo encode lifecycleFailure x⟩) :
    ofLifecycle encode p = (k <$> p.run).wrap CallResult.ending := by
  rw [wrap_map]
  refine bind_congr fun x => ?_
  rw [hk]
  cases x <;> rfl

/-- An operation on the mode is answered by itself. -/
theorem ofMode_eq {p : StoreM ModeRecord} :
    ofMode p = (CallResult.mode <$> p.run).wrap CallResult.ending := by
  rw [wrap_map]
  exact bind_congr fun x => by cases x <;> rfl

/-- An assignment is answered by itself and counted. -/
theorem assign_eq {zone : ZoneId} {w : Workload} :
    Api.assign rules zone w = ((Call.assign zone w).program rules).wrap CallResult.ending := by
  rw [Call.program, wrap_map]
  refine bind_congr fun x => ?_
  rw [count, CallResult.ending, CallResult.counts?, Ending.program]
  cases AssignOutcome.ofWord? (assignWord x) <;> cases x <;> rfl

/-- A report is answered by itself. -/
theorem report_eq {id : RelayId} {text : String} :
    Api.report id text = ((Call.report id text).program rules).wrap CallResult.ending := by
  rw [Call.program, wrap_map]
  refine bind_congr fun x => ?_
  rcases x with e | (_ | _ | _) <;> rfl

/-- At a route a request is answered by the call that it asks for there. -/
theorem handle_eq (r : Route) :
    handle rules request r =
      match callAt request r with
      | .ok c => (c.program rules).wrap CallResult.ending
      | .error e => pure (.rejected e) := by
  cases r with
  | assign zone =>
    simp only [handle, callAt, withName, nameOf]
    cases decodeSegment zone with
    | none => rfl
    | some zone =>
      simp only [withBody]
      cases request.decodeJson Workload.decoder with
      | error e => rfl
      | ok w => exact assign_eq
  | status id =>
    simp only [handle, callAt, withName, nameOf]
    cases decodeSegment id with
    | none => rfl
    | some id =>
      simp only [withBody]
      cases request.text with
      | error e => rfl
      | ok text => exact report_eq
  | setMode =>
    simp only [handle, callAt, withBody]
    cases request.decodeJson modeRequest with
    | error e => rfl
    | ok m => exact ofMode_eq
  | getMode | resumeMode => exact ofMode_eq
  | metrics =>
    rw [handle, callAt]
    simp only [Call.program, wrap_map]
    exact (bind_pure _).symm
  | listRelays name | destroy name | start name | stop name | reboot name | disconnect name
  | migrationStart name | migrationComplete name =>
    simp only [handle, callAt, withName, nameOf]
    cases decodeSegment name with
    | none => rfl
    | some name => exact ofLifecycle_eq fun x => rfl

/-- A response without a body is shown as it is. -/
theorem shown_bare (request : Request) (status : Nat) :
    shown request (.bare status) = .bare status := by
  rw [shown]
  split <;> rfl

/-- A request is answered by the call that it asks for, and one that asks for none is turned away
without anything being done. -/
theorem respond_eq (rules : AssignRules) (request : Request) :
    respond rules request =
      match callOf request with
      | .ok c => (c.program rules).wrap fun x => ⟨x.counts?, shown request x.response⟩
      | .error r => pure (shown request r) := by
  rw [respond, callOf]
  cases destination request.method request.target with
  | nowhere | wrongMethod => exact congrArg pure (shown_bare ..).symm
  | route r =>
    simp only [handle_eq]
    cases callAt request r with
    | error e => rfl
    | ok c => exact wrap_bind

end

end Api

end RelayFleet
