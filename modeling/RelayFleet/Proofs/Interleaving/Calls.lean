import RelayFleet.Proofs.Allocation.Actions
import RelayFleet.Proofs.Interleaving.Composition
import RelayFleet.Proofs.Interleaving.Operation
import RelayFleet.Proofs.Lifecycle.Asks

/-!
# What the operations of a fleet ask for

Every operation of a fleet does things of a few kinds only, whatever it is answered
(`Operation.regular`): upkeep of relays, changes of the mode and what belongs to the lock, which are
all that there is apart from assignments and reports (`Operation.service`), booking and reports. So
whatever these leave true of a registry is true in all runs (`Run.regular`).
-/

namespace RelayFleet

open Asks

/-- What is done apart from assignments and reports: upkeep of relays, changes of the mode, and what
belongs to the lock. -/
inductive Action.IsService : Action → Prop
  | upkeep {a : Action} (h : a.IsUpkeep AnyRelay) : IsService a
  | reads : IsService (.transact .getMode)
  | switches {m : ModeRecord} : IsService (.transact (.putMode m))
  | surveys : IsService .directory
  | acquires {timeout : Duration} : IsService (.acquire timeout)
  | releases : IsService .release

/-- What operations of a fleet do. -/
inductive Action.IsRegular : Action → Prop
  | serves {a : Action} (h : a.IsService) : IsRegular a
  | booking {w : WorkloadId} {a : Action} (h : a.IsBooking w) : IsRegular a
  /-- A report that can be used is put down. -/
  | reports {id : RelayId} {text : String} {report : StatusReport} {now : Millis}
    (parses : StatusReport.parse text = .ok report) :
    IsRegular (.transact (.updateRelay id fun r => r.withReport report.connectionCount text now))
  | unbinds {id : RelayId} {workloads : List WorkloadId} :
    IsRegular (.transact (.releaseBindings id workloads))

/-- Upkeep is service. -/
theorem Asks.service {α : Type} {p : Fleet α} {P : α → Prop} {K : RelayId → Prop}
    (h : Asks (Action.IsUpkeep K) p P) : Asks Action.IsService p fun _ => True :=
  h.mono (fun _ ha => .upkeep ha.any) fun _ _ => trivial

/-- A report asks for the time, for its row and for the bindings that it ends. -/
theorem asks_applyReport_of {A : Action → Prop} {id : RelayId} {text : String} (hlook : A .now)
    (hreport : ∀ report now, StatusReport.parse text = .ok report →
      A (.transact (.updateRelay id fun r => r.withReport report.connectionCount text now)))
    (hrelease : ∀ report, StatusReport.parse text = .ok report →
      A (.transact (.releaseBindings id report.expiredTags))) :
    Asks A (applyReport id text) fun _ => True := by
  rw [applyReport]
  cases hparse : StatusReport.parse text with
  | error e => exact pure trivial
  | ok report =>
    refine bind (perform hlook) fun now _ =>
      bind (perform (hreport report now hparse)) fun r _ => ?_
    cases r with
    | error e => cases e <;> exact pure trivial
    | ok =>
      dsimp only
      split
      · exact pure trivial
      · exact bind (perform (hrelease report hparse)) fun _ _ => pure trivial

namespace Management

/-- Stopping what is running is upkeep. -/
theorem upkeep_stopRunning : Asks (Action.IsUpkeep AnyRelay) stopRunning.run fun _ => True :=
  closedKind.stopRunning (fun _ => perform .lists) fun _ => Lifecycle.upkeep_stop.any

/-- A tick reads the mode, stops relays and puts down the mode. -/
theorem service_tick : Asks Action.IsService tick.run fun _ => True :=
  closedKind.tick (fun _ => perform (.upkeep .lists)) (fun _ => Lifecycle.upkeep_stop.service)
    (perform .reads) fun _ => perform .switches

end Management

namespace ScanRules

variable {rules : ScanRules} {zone : ZoneId}

/-- An expansion is upkeep, and under the lock it does not put itself off. -/
theorem upkeep_expandLocked :
    Asks (Action.IsUpkeep AnyRelay) (rules.expandLocked zone).run fun r => r ≠ .ok .deferred := by
  refine Asks.bindExcept (Asks.attempt' .lists) (fun relays _ => ?_) (by simp)
  dsimp only
  split
  · exact Asks.pure (by simp)
  · refine Asks.bindExcept (Asks.attempt' .lists) (fun stopped _ => ?_) (by simp)
    cases stopped with
    | cons r _ =>
      refine Asks.lift Lifecycle.upkeep_start ?_
      intro a
      cases a with
      | ok => exact Asks.pure (by simp)
      | error e =>
        exact Asks.performed .emits fun _ =>
          Asks.lift Lifecycle.upkeep_destroy.any fun _ => Asks.pure (by simp)
    | nil =>
      dsimp only
      split
      · exact Asks.performed .emits fun _ => Asks.pure (by simp)
      · refine Asks.lift Lifecycle.upkeep_create ?_
        intro a
        cases a with
        | error e => exact Asks.pure (by simp)
        | ok r =>
          refine Asks.lift Lifecycle.upkeep_start ?_
          intro a
          cases a with
          | ok => exact Asks.pure (by simp)
          | error e => exact Asks.performed .emits fun _ => Asks.pure (by simp)

/-- An expansion asks for the lock, does its upkeep and gives the lock back. -/
theorem service_expand : Asks Action.IsService (rules.expand zone) fun _ => True := by
  refine withLock .acquires .releases (fun e => ?_) upkeep_expandLocked.service
  exact bind (perform (.upkeep .emits)) fun _ _ => pure trivial

/-- A pass looks at the directory and the rows, and does what ticks and expansions do. -/
theorem service_runPass : Asks Action.IsService rules.runPass fun _ => True :=
  closedKind.runPass (perform .surveys) (fun _ => perform (.upkeep .lists))
    Management.service_tick fun _ => service_expand

end ScanRules

/-- What an operation does that neither assigns a workload nor is a report. -/
theorem Operation.service {op : Operation} (hassign : ∀ rules zone w, op ≠ .assign rules zone w)
    (hreport : ∀ id text, op ≠ .report id text) :
    Asks Action.IsService op.program fun _ => True := by
  cases op with
  | create => exact Lifecycle.upkeep_create.service.map
  | start => exact Lifecycle.upkeep_start.service.map
  | stop => exact Lifecycle.upkeep_stop.service.map
  | destroy => exact Lifecycle.upkeep_destroy.service.map
  | reboot => exact Lifecycle.upkeep_reboot.service.map
  | agentDisconnected => exact Lifecycle.upkeep_agentDisconnected.service.map
  | migrationStarted => exact Lifecycle.upkeep_migrationStarted.service.map
  | migrationCompleted => exact Lifecycle.upkeep_migrationCompleted.service.map
  | assign rules zone w => exact absurd rfl (hassign rules zone w)
  | report id text => exact absurd rfl (hreport id text)
  | expand => exact ScanRules.service_expand.map
  | pass => exact ScanRules.service_runPass.map
  | tick => exact Management.service_tick.map
  | setMode => exact (closedKind.set (perform .reads) fun _ => perform .switches).map
  | resumeMode => exact (closedKind.resume (perform .reads) fun _ => perform .switches).map

/-- Every operation is regular. -/
theorem Operation.regular (op : Operation) : Asks Action.IsRegular op.program fun _ => True := by
  cases op with
  | assign =>
    exact (AssignRules.asks_assign_of (fun _ => .booking) (fun _ => .serves .acquires)
      (.serves .releases)).map
  | report =>
    exact (asks_applyReport_of (.serves (.upkeep .looks)) (fun _ _ => .reports)
      fun _ _ => .unbinds).map
  | _ => exact (Operation.service (by simp) (by simp)).mono (fun _ => .serves) fun _ _ => trivial

/-- In a run every call asks for what its program asks for, and ends as its program does. -/
theorem Run.asks {ι α : Type} [DecidableEq ι] {p : ι → Fleet α} {A : ι → Action → Prop}
    {P : ι → α → Prop} {g : Registry} {h : List (Moment ι α)} {s : System ι α}
    (run : Run (System.start g p) h s) (hp : ∀ i, Asks (A i) (p i) (P i)) :
    (∀ e ∈ h, A e.move.caller e.move.action) ∧ ∀ i, Asks (A i) (s.calls i) (P i) := by
  induction run with
  | start => exact ⟨List.forall_mem_nil _, hp⟩
  | @step h s s' m run hs ih =>
    obtain ⟨hdone, hleft⟩ := ih
    obtain ⟨next, asks, -⟩ := hs
    have hcaller := hleft m.caller
    rw [asks] at hcaller
    refine ⟨List.forall_mem_append.mpr ⟨hdone, List.forall_mem_singleton.mpr hcaller.1⟩, ?_⟩
    refine (Function.forall_update_iff s.calls fun i p => Asks (A i) p (P i)).mpr ?_
    exact ⟨hcaller.2 m.reply, fun i _ => hleft i⟩

/-- In a run of operations everything that is done is regular. -/
theorem Run.regular {ι : Type} [DecidableEq ι] {calls : ι → Operation} {g : Registry}
    {h : List (Moment ι Outcome)} {s : System ι Outcome}
    (run : Run (System.start g fun i => (calls i).program) h s) :
    ∀ e ∈ h, e.move.action.IsRegular :=
  (run.asks fun i => (calls i).regular).1

end RelayFleet
