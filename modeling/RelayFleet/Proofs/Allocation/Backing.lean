import RelayFleet.Proofs.Interleaving.Alone
import RelayFleet.Proofs.Lifecycle.Custody
import RelayFleet.Proofs.Registry.Persistence

/-!
# Sessions are backed by reports

The end of a stop or a fence drops the sessions of a row and leaves its last report, and a report
may come at any time, to a relay in any state. All the same no row ever counts sessions that are not
those of its last report, and this report was put down since the relay was last stopped or fenced
(`Run.backing`): whatever else is written to a row leaves its report, and leaves its sessions if it
does not drop them (`Action.IsRegular.rowStep`). So an assignment that finds the relay of its
workload full goes by a report that can be used (`Run.backed`).
-/

namespace RelayFleet

/-! ## Rows and their reports -/

/-- The report lists so many connections; the number is exact unless it is too great. -/
def StatusReport.Counts (report : StatusReport) (n : UInt32) : Prop :=
  report.connectionCount = n ∧
    (report.activeConnections.length < 2 ^ 32 → n.toNat = report.activeConnections.length)

/-- A report lists as many connections as it counts. -/
theorem StatusReport.counts_connectionCount (report : StatusReport) :
    report.Counts report.connectionCount :=
  ⟨rfl, fun hlt => UInt32.toNat_ofNat_of_lt hlt⟩

namespace Relay

/-- The last report of the row can be used and has a time. -/
def HasUsableReport (r : Relay) : Prop :=
  ∀ text, r.statusPayload = some text →
    (∃ received, r.statusReceivedAt = some received) ∧
      ∃ report, StatusReport.parse text = .ok report

/-- This is the last report of the row, and the sessions of the row are those that it lists. -/
structure HasReport (r : Relay) (text : String) (received : Millis) (report : StatusReport) :
    Prop where
  payload : r.statusPayload = some text
  received_eq : r.statusReceivedAt = some received
  parses : StatusReport.parse text = .ok report
  counts : report.Counts r.activeSessions

/-- The last report of the row can be used, and sessions that the row counts are those of it. -/
structure IsBacked (r : Relay) : Prop where
  usable : r.HasUsableReport
  sessions : 0 < r.activeSessions → ∃ text received report, r.HasReport text received report

/-- The relay is stopped and was stopping or being fenced. -/
def Halts (r r' : Relay) : Prop := (r.state = .stopping ∨ r.state = .ha) ∧ r'.state = .stopped

/-- A row with the report that it had before, and with its sessions or none. -/
structure KeepsReport (r r' : Relay) : Prop where
  id_eq : r'.id = r.id
  statusPayload_eq : r'.statusPayload = r.statusPayload
  statusReceivedAt_eq : r'.statusReceivedAt = r.statusReceivedAt
  activeSessions : r'.activeSessions = r.activeSessions ∨ r'.activeSessions = 0

/-- A relay does not halt where it stays. -/
theorem not_halts_of_state_eq {r r' : Relay} (h : r'.state = r.state) : ¬ r.Halts r' := by
  rintro ⟨hbefore, hafter⟩
  rw [← h, hafter] at hbefore
  rcases hbefore with hbefore | hbefore <;> cases hbefore

end Relay

namespace Lifecycle

variable {choose : Relay → RelayOp} {onMove : RelayState → Relay → Relay} {r : Relay}

/-- An operation leaves the report if its further changes do. -/
theorem keepsReport_moved (hmove : ∀ s r, Relay.KeepsReport r (onMove s r)) :
    r.KeepsReport (moved choose onMove r) := by
  unfold moved
  split
  · next s _ =>
    have hkeeps := hmove r.state { r with state := s }
    exact ⟨hkeeps.id_eq, hkeeps.statusPayload_eq, hkeeps.statusReceivedAt_eq, hkeeps.activeSessions⟩
  · exact ⟨rfl, rfl, rfl, .inl rfl⟩

/-- Only the end of a stop or a fence makes a relay halt. -/
theorem op_of_halts (hmove : ∀ s r, (onMove s r).state = r.state)
    (h : r.Halts (moved choose onMove r)) :
    (choose r).Halts := by
  obtain ⟨hbefore, hafter⟩ := h
  rw [state_moved hmove] at hafter
  generalize choose r = op at hafter ⊢
  rcases hbefore with hbefore | hbefore
  · rw [hbefore] at hafter
    exact .inl (RelayState.after_stopping_eq_stopped hafter)
  · rw [hbefore] at hafter
    cases op with
    | haFenced => exact .inr rfl
    | migrationCompleted b => cases b <;> cases hafter
    | _ => cases hafter

end Lifecycle

/-! ## What a step makes of a row -/

/-- How the row that stands under a key after a regular step has come there. -/
inductive RowStep (g : Registry) (a : Action) (id : RelayId) (r' : Relay) : Prop
  /-- It is new. -/
  | stores (sessions : r'.activeSessions = 0) (payload : r'.statusPayload = none)
  /-- It has the report of the row before. -/
  | keeps {r : Relay} (row : g.relay? id = some r) (keeps : r.KeepsReport r')
    (halts : r.Halts r' → r'.activeSessions = 0 ∨ ∃ s, a = .transact (.restoring id s))
  /-- A report was put down in it. -/
  | reports {r : Relay} {text : String} {report : StatusReport} {received : Millis}
    (row : g.relay? id = some r) (parses : StatusReport.parse text = .ok report)
    (action : a = .transact (.updateRelay id fun r =>
      r.withReport report.connectionCount text received))
    (payload : r'.statusPayload = some text) (received_eq : r'.statusReceivedAt = some received)
    (sessions : r'.activeSessions = report.connectionCount)

namespace RowStep

variable {g : Registry} {a : Action} {id : RelayId} {r r' : Relay} {time : Millis}

/-- A row that keeps its report and does not halt. -/
theorem of_keepsReport (row : g.relay? id = some r) (keeps : r.KeepsReport r')
    (hhalts : r.Halts r' → r'.activeSessions = 0) : RowStep g a id r' :=
  .keeps row keeps fun h => .inl (hhalts h)

/-- A row that is changed neither in its state nor in its report. -/
theorem of_state_eq (row : g.relay? id = some r) (keeps : r.KeepsReport r')
    (hstate : r'.state = r.state) : RowStep g a id r' :=
  of_keepsReport row keeps fun h => absurd h (Relay.not_halts_of_state_eq hstate)

/-- An operation that is not the end of a stop or a fence, whatever else it changes. -/
theorem of_moved {choose : Relay → RelayOp} {onMove : RelayState → Relay → Relay}
    (row : g.relay? id = some r) (hchoose : ¬ (choose r).Halts)
    (hmove : ∀ s r, Relay.KeepsReport r (onMove s r) ∧ (onMove s r).state = r.state) :
    RowStep g a id { Lifecycle.moved choose onMove r with updatedAt := time } := by
  have hkeeps : r.KeepsReport (Lifecycle.moved choose onMove r) :=
    Lifecycle.keepsReport_moved fun s r => (hmove s r).1
  refine of_keepsReport row ⟨hkeeps.id_eq, hkeeps.statusPayload_eq, hkeeps.statusReceivedAt_eq,
    hkeeps.activeSessions⟩ fun hhalts => ?_
  exact absurd (Lifecycle.op_of_halts (fun s r => (hmove s r).2) hhalts) hchoose

/-- The end of a stop or a fence. -/
theorem of_withoutSessions {choose : Relay → RelayOp} (row : g.relay? id = some r) :
    RowStep g a id
      { Lifecycle.moved choose Lifecycle.withoutSessions r with updatedAt := time } := by
  have hkeeps : r.KeepsReport (Lifecycle.moved choose Lifecycle.withoutSessions r) := by
    refine Lifecycle.keepsReport_moved fun _ _ => ?_
    exact ⟨rfl, rfl, rfl, .inr rfl⟩
  refine of_keepsReport row ⟨hkeeps.id_eq, hkeeps.statusPayload_eq, hkeeps.statusReceivedAt_eq,
    hkeeps.activeSessions⟩ fun hhalts => ?_
  -- a relay that halts has moved, and its sessions are dropped then
  revert hhalts
  unfold Lifecycle.moved
  split
  · exact fun _ => rfl
  · exact fun hhalts => absurd hhalts (Relay.not_halts_of_state_eq rfl)

end RowStep

/-- The row under a key after a regular step has come there in one of these ways. -/
theorem Action.IsRegular.rowStep {a : Action} (ha : a.IsRegular) {g : Registry} {time : Millis}
    {id : RelayId} {r' : Relay} (hr' : (a.registryAfter time g).relay? id = some r') :
    RowStep g a id r' := by
  cases a.rowOrigin hr' with
  | rests row => exact .of_state_eq row ⟨rfl, rfl, rfl, .inl rfl⟩ rfl
  | stores action =>
    subst action
    cases ha with
    | serves h =>
      cases h with
      | upkeep h =>
        cases h
        exact .stores rfl rfl
    | booking h => cases h
  | changes row action eq =>
    subst action eq
    cases ha with
    | serves h =>
      cases h with
      | upkeep h =>
        cases h with
        | applies _ goes_on =>
          exact .of_moved row goes_on.not_halts fun _ _ => ⟨⟨rfl, rfl, rfl, .inl rfl⟩, rfl⟩
        | halts => exact .of_withoutSessions row
        | leaves | arrives =>
          exact .of_moved row (by simp [RelayOp.Halts])
            fun _ _ => ⟨⟨rfl, rfl, rfl, .inl rfl⟩, rfl⟩
        | restores => exact .keeps row ⟨rfl, rfl, rfl, .inl rfl⟩ fun _ => .inr ⟨_, rfl⟩
    | booking h =>
      cases h
      exact .of_state_eq row ⟨rfl, rfl, rfl, .inl rfl⟩ rfl
    | reports parses => exact .reports row parses rfl rfl rfl rfl

/-! ## Runs -/

section
variable {ι α : Type} {h : List (Moment ι α)} {e : Moment ι α} {g : Registry} {id : RelayId}
  {r : Relay}

/-- A report with this text is put down for the relay as received at this time. -/
def Moment.Reports (id : RelayId) (text : String) (received : Millis) (e : Moment ι α) : Prop :=
  (∃ r, e.before.registry.relay? id = some r) ∧ ∃ sessions,
    e.move.action = .transact (.updateRelay id fun r => r.withReport sessions text received)

/-- The relay is stopped or fenced: it goes from `stopping` or `ha` to `stopped`, and not because it
is given an earlier state back. -/
def Moment.Halts (id : RelayId) (e : Moment ι α) : Prop :=
  (∃ r r', e.before.registry.relay? id = some r ∧ e.after.relay? id = some r' ∧ r.Halts r') ∧
    ∀ s, e.move.action ≠ .transact (.restoring id s)

/-- The sessions of the row are those of its last report, which can be used, and was put down since
the relay was stopped or fenced last. -/
def Reported (h : List (Moment ι α)) (id : RelayId) (r : Relay) : Prop :=
  ∃ text received report, r.HasReport text received report ∧
    Since (Moment.Reports id text received) (Moment.Halts id) h

/-- Every last report can be used, and every row with sessions has them from its last report. -/
structure Backing (h : List (Moment ι α)) (g : Registry) : Prop where
  sound : g.Sound
  usable : ∀ id r, g.relay? id = some r → r.HasUsableReport
  reported : ∀ id r, g.relay? id = some r → 0 < r.activeSessions → Reported h id r

/-- A row is backed. -/
theorem Backing.isBacked (inv : Backing h g) (hr : g.relay? id = some r) : r.IsBacked := by
  refine ⟨inv.usable id r hr, fun hsessions => ?_⟩
  obtain ⟨text, received, report, hreport, -⟩ := inv.reported id r hr hsessions
  exact ⟨text, received, report, hreport⟩

/-- A regular step leaves every row backed. -/
theorem Backing.step (inv : Backing h e.before.registry) (ha : e.move.action.IsRegular) :
    Backing (h ++ [e]) e.after where
  sound := ha.sound inv.sound _
  usable id r' hr' := by
    cases ha.rowStep hr' with
    | stores _ payload => simp [Relay.HasUsableReport, payload]
    | keeps row keeps =>
      rw [Relay.HasUsableReport, keeps.statusPayload_eq, keeps.statusReceivedAt_eq]
      exact inv.usable id _ row
    | reports _ parses _ payload received_eq =>
      intro text htext
      rw [payload] at htext
      cases htext
      exact ⟨⟨_, received_eq⟩, _, parses⟩
  reported id r' hr' hsessions := by
    have hnone : ∀ {P : Prop}, r'.activeSessions = 0 → P := by
      intro P hzero
      rw [hzero] at hsessions
      exact absurd hsessions (by decide)
    cases ha.rowStep hr' with
    | stores sessions => exact hnone sessions
    | @keeps r row keeps halts =>
      have heq := keeps.activeSessions.resolve_right hnone
      rw [heq] at hsessions
      obtain ⟨text, received, report, hreport, hsince⟩ := inv.reported id r row hsessions
      refine ⟨text, received, report, ⟨keeps.statusPayload_eq.trans hreport.payload,
        keeps.statusReceivedAt_eq.trans hreport.received_eq, hreport.parses,
        heq ▸ hreport.counts⟩, Since.snoc_iff.mpr (.inr ⟨hsince, ?_⟩)⟩
      rintro ⟨⟨r₁, r₂, hr₁, hr₂, hhalts⟩, hnot⟩
      rw [row] at hr₁
      rw [hr'] at hr₂
      cases hr₁
      cases hr₂
      rcases halts hhalts with hzero | ⟨s, hrestores⟩
      · exact hnone hzero
      · exact hnot s hrestores
    | @reports r text report received row parses action payload received_eq sessions =>
      exact ⟨text, received, report,
        ⟨payload, received_eq, parses, sessions ▸ report.counts_connectionCount⟩,
        Since.snoc_iff.mpr (.inl ⟨⟨r, row⟩, _, action⟩)⟩

end

section
variable {ι : Type} [DecidableEq ι] {calls : ι → Operation} {h : List (Moment ι Outcome)}
  {s : System ι Outcome}

/-- In a run of operations from an empty registry every row is backed. -/
theorem Run.backing (run : Run (System.start .empty fun i => (calls i).program) h s) :
    Backing h s.registry := by
  induction run with
  | start =>
    have hnone : ∀ {id r}, Registry.empty.relay? id ≠ some r := by
      intro id r hr
      rw [Registry.relay?_empty] at hr
      cases hr
    exact ⟨Registry.sound_empty, fun _ _ hr => absurd hr hnone, fun _ _ hr => absurd hr hnone⟩
  | step run hs ih =>
    have hregular := (run.step hs).regular _ (List.mem_append_right _ List.mem_cons_self)
    rw [hs.registry_eq]
    exact ih.step hregular

/-- An assignment consults the report of the relay that its workload is bound to: the relay is
running in the wanted zone, and full. -/
def Moment.Consults (calls : ι → Operation) (rules : AssignRules) (zone : ZoneId) (id : RelayId)
    (r : Relay) (e : Moment ι Outcome) : Prop :=
  (∃ w, calls e.move.caller = .assign rules zone w) ∧
    (∃ time, e.move = ⟨e.move.caller, .transact (.getRelay id), time, .ok (some r)⟩) ∧
    r.state.isAssignable ∧ r.zoneId = zone ∧ ¬ rules.hasRoom r

/-- What an assignment reads is in the registry. -/
theorem Moment.Consults.relay?_eq {rules : AssignRules} {zone : ZoneId} {id : RelayId} {r : Relay}
    {e : Moment ι Outcome} {s' : System ι Outcome} (h : e.Consults calls rules zone id r)
    (hs : RelayFleet.Step e.before e.move s') (hg : e.before.registry.Sound) :
    e.before.registry.relay? id = some r := by
  obtain ⟨-, ⟨time, hmove⟩, -⟩ := h
  have hanswers := hs.answers
  rw [hmove] at hanswers
  replace hanswers : Except.ok (some r) = e.before.registry.getRelay id := hanswers
  rw [hg.getRelay] at hanswers
  exact (Except.ok.inj hanswers).symm

/-- Whether a workload may go back to a full relay is decided by the last report of the relay. -/
theorem AssignRules.mayKeep_of_hasReport {rules : AssignRules} {zone : ZoneId} {r : Relay}
    {text : String} {received : Millis} {report : StatusReport}
    (hreport : r.HasReport text received report) (hstate : r.state.isAssignable)
    (hzone : r.zoneId = zone) (hfull : ¬ rules.hasRoom r) (now : Millis) (b : Binding) :
    rules.mayKeep zone now b r = (report.hasConnectionFor b.workloadId ||
      decide (received < b.assignedAt) && b.isRecent rules.stickyTimeout now) := by
  simp only [mayKeep, hasPreviousSession, hreport.payload, hreport.received_eq, hreport.parses,
    hstate, hzone, hfull]
  cases report.hasConnectionFor b.workloadId
  · by_cases hlt : received < b.assignedAt
    · simp [hlt, UInt64.not_le.mpr hlt]
    · simp [hlt, UInt64.not_lt.mp hlt]
  · simp

/-- **Sessions are backed by reports.** Take any run of any operations from an empty registry,
whatever the order of their steps, the texts of the reports and the outcomes of the provisioner. The
last report of every row can be used and has a time, and if the row counts sessions then they are
those that this report lists. Whenever an assignment with a capacity of at least one consults the
report of a full relay, this report can be used and was put down since the relay was last stopped or
fenced, and it decides: the workload goes back if the report lists it, or if its binding is recent
and was made after the report. -/
theorem Run.backed (run : Run (System.start .empty fun i => (calls i).program) h s) :
    (∀ id r, s.registry.relay? id = some r → r.IsBacked) ∧
    ∀ h₁ e h₂ rules zone id r, h = h₁ ++ e :: h₂ → e.Consults calls rules zone id r →
      0 < rules.capacityPerInstance →
      ∃ text received report, r.HasReport text received report ∧
        Since (Moment.Reports id text received) (Moment.Halts id) h₁ ∧
        ∀ now b, rules.mayKeep zone now b r = (report.hasConnectionFor b.workloadId ||
          decide (received < b.assignedAt) && b.isRecent rules.stickyTimeout now) := by
  refine ⟨fun id r hr => run.backing.isBacked hr, ?_⟩
  rintro h₁ e h₂ rules zone id r rfl hconsults hcapacity
  obtain ⟨s', run₁, hs, -⟩ := run.of_append_cons
  have inv := run₁.backing
  have hr := hconsults.relay?_eq hs inv.sound
  obtain ⟨-, -, hstate, hzone, hfull⟩ := hconsults
  have hsessions : 0 < r.activeSessions := by
    simp only [AssignRules.hasRoom, decide_eq_true_eq, UInt32.not_lt] at hfull
    exact UInt32.lt_of_lt_of_le hcapacity hfull
  obtain ⟨text, received, report, hreport, hsince⟩ := inv.reported id r hr hsessions
  exact ⟨text, received, report, hreport, hsince,
    AssignRules.mayKeep_of_hasReport hreport hstate hzone hfull⟩

end

/-! ## A workload that goes back to a full relay -/

/-- Rules by which a relay is full with one session. -/
def returningRules : AssignRules := { (default : AssignRules) with capacityPerInstance := 1 }

/-- The text of a report of one session. -/
def returningText : String := (StatusReport.encode ⟨1, [⟨"w", none, none, none⟩], []⟩).render

/-- The report can be used. -/
theorem parse_returningText :
    StatusReport.parse returningText = .ok ⟨1, [⟨"w", none, none, none⟩], []⟩ :=
  StatusReport.parse_encode rfl

/-- A relay is made and started, a workload is assigned to it, the relay reports, and the workload
asks again. -/
def returningCalls : Fin 5 → Operation
  | 0 => .create "zone-a" default
  | 1 => .start (Registry.relayId 1)
  | 2 => .assign returningRules "zone-a" ⟨"w", .running⟩
  | 3 => .report (Registry.relayId 1) returningText
  | 4 => .assign returningRules "zone-a" ⟨"w", .running⟩

/-- The relay that runs. -/
def returningRelay : Relay :=
  { Relay.fresh 0 (Registry.relayId 1) "zone-a" (some "192.0.2.1") 0 with state := .running }

/-- The workload is bound to the relay. -/
def returningRegistry : Registry :=
  ({ Registry.empty with sequence := 1 } : Registry).putBinding ⟨"w", some (Registry.relayId 1), 0⟩

/-- The workload is bound there. -/
theorem getBinding_returningRegistry :
    returningRegistry.getBinding "w" = .ok (some ⟨"w", some (Registry.relayId 1), 0⟩) :=
  Registry.getBinding_putBinding ..

/-- The relay when the workload was assigned to it. -/
def returningBound : Relay := { returningRelay with lastAssignedAt := some 0 }

/-- The relay when it has reported the session of the workload. -/
def returningFull : Relay := returningBound.withReport 1 returningText 0

/-- The endpoint of the relay. -/
def returningEndpoint : RelayEndpoint :=
  { (default : RelayEndpoint) with
    relayId := Registry.relayId 1
    host := "192.0.2.1"
    port := 80 }

/-- The relay is made and started. -/
theorem Run.returning_running :
    ∃ h calls,
      Run (System.start .empty fun i => (returningCalls i).program) h
        ⟨({ Registry.empty with sequence := 1 } : Registry).withRow (Registry.relayId 1)
          returningRelay, none, calls⟩ ∧
      calls 2 = (returningCalls 2).program ∧ calls 3 = (returningCalls 3).program ∧
      calls 4 = (returningCalls 4).program := by
  let s₀ : System (Fin 5) Outcome := .start .empty fun i => (returningCalls i).program
  have hg : ({ Registry.empty with sequence := 1 } : Registry).Sound := Registry.sound_empty
  have created := (((((Run.start : Run s₀ [] s₀).perform
    0 rfl 0 (.ok (Registry.relayId 1)) rfl).perform
    0 rfl 0 (.ok ⟨some "192.0.2.1", 0⟩) trivial).perform 0 rfl 0 0 rfl).perform
    0 rfl 0 (.ok ()) rfl).perform 0 rfl 0 () trivial
  have starting := created.changeRow hg rfl rfl 1 rfl 0
    { returningRelay with state := .starting } rfl
  have running := (starting.perform
    1 rfl 0 (.ok ()) trivial).changeRow hg rfl rfl 1 rfl 0 returningRelay rfl
  exact ⟨_, _, running.perform 1 rfl 0 () trivial, rfl, rfl, rfl⟩

section
variable {calls : Fin 5 → Fleet Outcome}

/-- The workload is assigned to the relay. -/
theorem Run.returning_bound (h₂ : calls 2 = (returningCalls 2).program) :
    ∃ h calls', GoesThrough (returningCalls 2).program 2
        ⟨({ Registry.empty with sequence := 1 } : Registry).withRow (Registry.relayId 1)
          returningRelay, none, calls⟩ h
        ⟨returningRegistry.withRow (Registry.relayId 1) returningBound, none, calls'⟩
        (.assigned (.ok returningEndpoint)) ∧
      calls' 3 = calls 3 ∧ calls' 4 = calls 4 := by
  let s : System (Fin 5) Outcome := ⟨({ Registry.empty with sequence := 1 } : Registry).withRow
    (Registry.relayId 1) returningRelay, none, calls⟩
  have hg : ({ Registry.empty with sequence := 1 } : Registry).Sound := Registry.sound_empty
  have asking := (((Run.start : Run s [] s).perform 2 (h₂.trans rfl) 0 (.ok ()) rfl).perform
    2 rfl 0 0 rfl).perform 2 rfl 0 (.ok none) rfl
  have hrows : ∀ keep, Except.ok ([returningRelay].filter keep) =
      (({ Registry.empty with sequence := 1 } : Registry).withRow (Registry.relayId 1)
        returningRelay).listRelays keep :=
    fun keep => (hg.listRelays_withRow_of_empty rfl rfl keep).symm
  have bound := (asking.perform 2 rfl 0 (.ok _) (hrows _)).perform 2 rfl 0 (.ok ()) rfl
  have hg' : returningRegistry.Sound := Registry.sound_empty
  have marked := bound.changeRow hg' rfl rfl 2 rfl 0 returningBound rfl
  exact ⟨_, _, ⟨marked.perform 2 rfl 0 () rfl, h₂, by simp, rfl⟩, rfl, rfl⟩

/-- The relay reports the session of the workload. -/
theorem Run.returning_reported (h₃ : calls 3 = (returningCalls 3).program) :
    ∃ h calls', Run
        ⟨returningRegistry.withRow (Registry.relayId 1) returningBound, none, calls⟩ h
        ⟨returningRegistry.withRow (Registry.relayId 1) returningFull, none, calls'⟩ ∧
      (∀ e ∈ h, e.move.caller = 3 ∧
        e.before.registry = returningRegistry.withRow (Registry.relayId 1) returningBound) ∧
      calls' 4 = calls 4 := by
  let s : System (Fin 5) Outcome :=
    ⟨returningRegistry.withRow (Registry.relayId 1) returningBound, none, calls⟩
  have hg : returningRegistry.Sound := Registry.sound_empty
  have hreport : ∃ next : Millis → StoreResult Registry.Change → Fleet Outcome,
      (returningCalls 3).program = .ask .now fun now =>
        .ask (.transact (.updateRelay (Registry.relayId 1) fun r =>
          r.withReport 1 returningText now)) (next now) := by
    show ∃ next, (Outcome.reported <$> applyReport _ _) = _
    rw [applyReport, parse_returningText]
    exact ⟨_, rfl⟩
  obtain ⟨next, hreport⟩ := hreport
  have reported := ((Run.start : Run s [] s).perform 3 (h₃.trans hreport) 0 0 rfl).changeRow
    hg rfl rfl 3 rfl 0 returningFull rfl
  exact ⟨_, _, reported, by simp [s, Action.registryAfter], rfl⟩

end

/-- When the relay has reported the session of the workload and is full, the workload asks again. -/
theorem Run.returning :
    ∃ (h₁ : List (Moment (Fin 5) Outcome)) (e : Moment (Fin 5) Outcome) (r : Relay)
      (s : System (Fin 5) Outcome),
      Run (System.start .empty fun i => (returningCalls i).program) (h₁ ++ [e]) s ∧
      e.Consults returningCalls returningRules "zone-a" (Registry.relayId 1) r := by
  obtain ⟨h, calls, running, h₂, h₃, h₄⟩ := Run.returning_running
  obtain ⟨h', calls', bound, h₃', h₄'⟩ := Run.returning_bound h₂
  obtain ⟨h'', calls'', reported, -, h₄''⟩ := Run.returning_reported (h₃'.trans h₃)
  have hg : returningRegistry.Sound := Registry.sound_empty
  have hbegins := h₄''.trans (h₄'.trans h₄)
  have hbinding := getBinding_returningRegistry.symm
  have asking := ((((running.append bound.run).append reported).perform
    4 (hbegins.trans rfl) 0 (.ok ()) rfl).perform 4 rfl 0 0 rfl).perform 4 rfl 0 (.ok _) hbinding
  have hfull : (returningRegistry.withRow (Registry.relayId 1) returningFull).Sound :=
    hg.withRow rfl
  have hread : Except.ok (some returningFull) =
      (returningRegistry.withRow (Registry.relayId 1) returningFull).getRelay
        (Registry.relayId 1) := by
    rw [hfull.getRelay, Registry.relay?_withRow_self]
  have consulted := asking.perform 4 rfl 0 (.ok (some returningFull)) hread
  exact ⟨_, _, returningFull, _, consulted, ⟨_, rfl⟩, ⟨0, rfl⟩, rfl, rfl, by decide⟩

/-- What the workload goes back by is the report of its session. -/
theorem Run.backed_returning :
    ∃ (h₁ : List (Moment (Fin 5) Outcome)) (e : Moment (Fin 5) Outcome) (r : Relay)
      (s : System (Fin 5) Outcome) (text : String) (received : Millis) (report : StatusReport),
      Run (System.start .empty fun i => (returningCalls i).program) (h₁ ++ [e]) s ∧
      e.Consults returningCalls returningRules "zone-a" (Registry.relayId 1) r ∧
      0 < returningRules.capacityPerInstance ∧ r.HasReport text received report ∧
      Since (Moment.Reports (Registry.relayId 1) text received) (Moment.Halts (Registry.relayId 1))
        h₁ := by
  obtain ⟨h₁, e, r, s, run, hconsults⟩ := Run.returning
  obtain ⟨text, received, report, hreport, hsince, -⟩ :=
    run.backed.2 h₁ e [] _ _ _ r rfl hconsults (by decide)
  exact ⟨h₁, e, r, s, text, received, report, run, hconsults, by decide, hreport, hsince⟩

end RelayFleet
