import RelayFleet.Proofs.Allocation.Backing
import RelayFleet.Proofs.Registry.Release

/-!
# What a report does

A report that nobody interrupts is refused, finds no relay, or is put down in the row of its relay
and ends bindings; `Filing` has a case for each, with the answer and the registry afterwards. The
same report once more leaves everything as it is but the times in the row (`Filing.again`). Among
other calls the row of a relay has the text and the sessions of the report that was put down last:
both are written in one transaction, and nothing else writes one of them except what takes the
sessions or the whole row away (`Action.Clears`).
-/

namespace RelayFleet

/-! ## A report alone -/

/-- The registry in which a report was put down: the row of the relay has its sessions and its text,
and the bindings to the relay of the workloads that it lists as expired are gone. -/
def Registry.filed (g : Registry) (id : RelayId) (r : Relay) (text : String)
    (report : StatusReport) (received time : Millis) : Registry :=
  (g.withRow id { r.withReport report.connectionCount text received with
    updatedAt := time }).released id report.expiredTags

/-- So many bindings are released; the number is exact unless it is too great. -/
def Registry.CountsReleased (g : Registry) (id : RelayId) (workloads : List WorkloadId)
    (n : UInt32) : Prop :=
  n = .ofNat (g.releasedCount id workloads) ∧
    (g.releasedCount id workloads < 2 ^ 32 → n.toNat = g.releasedCount id workloads)

/-- What a report with this text does: its answer, and the registry afterwards. -/
inductive Filing (id : RelayId) (text : String) (g : Registry) :
    StoreResult ReportOutcome → Registry → Prop
  /-- A text that is not a report of a known version is refused, whatever relay it is for. -/
  | rejects {e : ReportError} (parse_eq : StatusReport.parse text = .error e) :
    Filing id text g (.ok (.rejected e)) g
  /-- There is no row for the relay. -/
  | misses {report : StatusReport} (parse_eq : StatusReport.parse text = .ok report)
    (row : g.relay? id = none) : Filing id text g (.ok .unknownRelay) g
  /-- The report is put down and its bindings are released, and the answer has both counts. -/
  | applies {report : StatusReport} {r : Relay} {received time : Millis} {sessions count : UInt32}
    (parse_eq : StatusReport.parse text = .ok report) (row : g.relay? id = some r)
    (sessions_eq : report.Counts sessions)
    (count_eq : g.CountsReleased id report.expiredTags count) :
    Filing id text g (.ok (.applied sessions count)) (g.filed id r text report received time)

/-- The registries are the same but for the times of the last report and of the last change in the
row of the relay. -/
def Registry.SameButTimes (id : RelayId) (g g' : Registry) : Prop :=
  g' = g ∨ ∃ r received time, g.relay? id = some r ∧
    g' = g.withRow id { r with statusReceivedAt := received, updatedAt := time }

/-- The answer where no binding was released. -/
def ReportOutcome.unreleased : ReportOutcome → ReportOutcome
  | applied sessions _ => applied sessions 0
  | outcome => outcome

section
variable {g g' g'' : Registry} {id : RelayId} {text : String} {l : List Deed}
  {x y : StoreResult ReportOutcome}

/-- The number that is answered counts what is released. -/
theorem Registry.countsReleased (g : Registry) (id : RelayId) (workloads : List WorkloadId) :
    g.CountsReleased id workloads (.ofNat (g.releasedCount id workloads)) :=
  ⟨rfl, fun hlt => UInt32.toNat_ofNat_of_lt hlt⟩

/-- A report that nobody interrupts. -/
theorem Alone.applyReport (hg : g.Readable) (hb : g.BindingsReadable)
    (h : Alone g (applyReport id text) l x g') : Filing id text g x g' := by
  rw [RelayFleet.applyReport] at h
  cases hparse : StatusReport.parse text with
  | error e =>
    rw [hparse] at h
    obtain ⟨-, rfl, rfl⟩ := of_pure h
    exact .rejects hparse
  | ok report =>
    rw [hparse] at h
    obtain ⟨l₁, received, g₁, l₂, rfl, h₁, h₂⟩ := h.bind
    obtain ⟨clock, -, rfl, hg₁⟩ := perform (a := .now) h₁
    obtain rfl : g = g₁ := hg₁.symm
    obtain ⟨l₃, reply, g₃, l₄, rfl, h₃, h₄⟩ := h₂.bind
    obtain ⟨time, hreply, rfl, rfl⟩ := perform (a := .transact _) h₃
    rw [Action.Permits, Transaction.run] at hreply
    rw [Action.registryAfter, Transaction.run] at h₄
    change Alone (g.updateRelay time id _).2 _ _ _ _ at h₄
    change reply = (g.updateRelay time id _).1 at hreply
    cases hrow : g.relay? id with
    | none =>
      rw [hg.updateRelay_none hrow] at hreply h₄
      subst hreply
      obtain ⟨-, rfl, rfl⟩ := of_pure h₄
      exact .misses hparse hrow
    | some r =>
      rw [Registry.updateRelay_some hrow] at hreply h₄
      subst hreply
      dsimp only at h₄
      split at h₄
      · next hempty =>
        obtain ⟨-, rfl, rfl⟩ := of_pure h₄
        have hfiled : Filing id text g _ (g.filed id r text report received time) :=
          .applies hparse hrow report.counts_connectionCount
            (g.countsReleased id report.expiredTags)
        rw [Registry.filed, List.isEmpty_iff.mp hempty, Registry.released_nil,
          Registry.releasedCount_nil] at hfiled
        exact hfiled
      · obtain ⟨l₅, reply, g₅, l₆, rfl, h₅, h₆⟩ := h₄.bind
        obtain ⟨time', hreply, rfl, rfl⟩ := perform (a := .transact _) h₅
        obtain ⟨-, rfl, rfl⟩ := of_pure h₆
        rw [Action.Permits, Transaction.run] at hreply
        change reply = (Registry.releaseBindings _ _ _).1 at hreply
        have hreleased := Registry.BindingsReadable.releaseBindings
          (g := g.withRow id { r.withReport report.connectionCount text received with
            updatedAt := time }) hb id report.expiredTags
        rw [hreleased] at hreply
        subst hreply
        show Filing id text g _ (Registry.releaseBindings _ _ _).2
        rw [hreleased]
        exact .applies hparse hrow report.counts_connectionCount (g.countsReleased _ _)

/-- A report leaves a registry of which everything decodes. -/
theorem Filing.readable (h : Filing id text g x g') (hg : g.Readable) (hb : g.BindingsReadable) :
    g'.Readable ∧ g'.BindingsReadable := by
  cases h with
  | rejects | misses => exact ⟨hg, hb⟩
  | @applies report r received time =>
    have hrow := hg.withRow id { r.withReport report.connectionCount text received with
      updatedAt := time }
    exact ⟨hrow, Registry.BindingsReadable.released (g := g.withRow id _) hb id _⟩

/-- The row of the relay after a report. -/
theorem Registry.relay?_filed (g : Registry) (id : RelayId) (r : Relay) (text : String)
    (report : StatusReport) (received time : Millis) :
    (g.filed id r text report received time).relay? id =
      some { r.withReport report.connectionCount text received with updatedAt := time } :=
  (relay?_congr rfl id).trans (g.relay?_withRow_self ..)

/-- A report that is put down where it was put down changes the times in the row. -/
theorem Registry.filed_filed (g : Registry) (id : RelayId) (r : Relay) (text : String)
    (report : StatusReport) (received time received' time' : Millis) :
    let r' : Relay := { r.withReport report.connectionCount text received with updatedAt := time }
    (g.filed id r text report received time).filed id r' text report received' time' =
      (g.filed id r text report received time).withRow id
        { r' with statusReceivedAt := some received', updatedAt := time' } := by
  intro r'
  have hreleased := (g.withRow id { r'.withReport report.connectionCount text received' with
    updatedAt := time' }).released_released id report.expiredTags
  unfold filed
  rw [← withRow_withRow g id r'] at hreleased
  exact hreleased

/-- The same report once more changes the times in the row of its relay, and releases nothing. -/
theorem Filing.again (first : Filing id text g x g') (second : Filing id text g' y g'') :
    y = x.map ReportOutcome.unreleased ∧ g'.SameButTimes id g'' := by
  cases first with
  | rejects parse_eq =>
    cases second with
    | rejects parse_eq' =>
      rw [parse_eq] at parse_eq'
      cases parse_eq'
      exact ⟨rfl, .inl rfl⟩
    | misses parse_eq' | applies parse_eq' =>
      rw [parse_eq] at parse_eq'
      cases parse_eq'
  | misses parse_eq row =>
    cases second with
    | rejects parse_eq' =>
      rw [parse_eq] at parse_eq'
      cases parse_eq'
    | misses => exact ⟨rfl, .inl rfl⟩
    | applies _ row' =>
      rw [row] at row'
      cases row'
  | @applies report r received time sessions count parse_eq row sessions_eq count_eq =>
    have hrow := g.relay?_filed id r text report received time
    cases second with
    | rejects parse_eq' =>
      rw [parse_eq] at parse_eq'
      cases parse_eq'
    | misses _ row' =>
      rw [hrow] at row'
      cases row'
    | @applies _ _ received' time' _ _ parse_eq' row' sessions_eq' count_eq' =>
      rw [parse_eq] at parse_eq'
      rw [hrow] at row'
      cases parse_eq'
      cases row'
      have hnone : (g.filed id r text report received time).releasedCount id report.expiredTags =
          0 := Registry.releasedCount_released _ id _
      refine ⟨?_, .inr ⟨_, some received', time', hrow, ?_⟩⟩
      · rw [count_eq'.1, hnone, ← sessions_eq'.1, sessions_eq.1]
        rfl
      · exact g.filed_filed id r text report received time received' time'

end

/-! ## The last report -/

/-- What takes the sessions or the row of a relay away: the end of a stop or a fence, the removal of
its row, and a new relay in its place, whose id was issued again. -/
inductive Action.Clears (id : RelayId) : Action → Prop
  | stops {op : RelayOp} (ends : op.Halts) :
    Clears id (.transact (.updateRelay id
      (Lifecycle.moved (fun _ => op) Lifecycle.withoutSessions)))
  | destroys : Clears id (.transact (.deleteRelay id))
  | replaces {r : Relay} (id_eq : r.id = id) : Clears id (.transact (.putRelay r))

/-- What an operation does: the parts of a report if it is one, and service or booking if not. -/
inductive Operation.Does (op : Operation) : Action → Prop
  | serves {a : Action} (op_ne : ∀ id text, op ≠ .report id text) (h : a.IsService) : Does op a
  | books {w : WorkloadId} {a : Action} (op_ne : ∀ id text, op ≠ .report id text)
    (h : a.IsBooking w) : Does op a
  | looks : Does op .now
  | reports {id : RelayId} {text : String} {report : StatusReport} {now : Millis}
    (op_eq : op = .report id text) (parse_eq : StatusReport.parse text = .ok report) :
    Does op (.transact
      (.updateRelay id fun r => r.withReport report.connectionCount text now))
  | unbinds {id : RelayId} {workloads : List WorkloadId} :
    Does op (.transact (.releaseBindings id workloads))

/-- Every operation does what such an operation does. -/
theorem Operation.does (op : Operation) : Asks op.Does op.program fun _ => True := by
  cases op with
  | assign =>
    exact (AssignRules.asks_assign_of (fun _ => .books (by simp))
      (fun _ => .serves (by simp) .acquires) (.serves (by simp) .releases)).map
  | report =>
    exact (asks_applyReport_of .looks (fun _ _ => .reports rfl) fun _ _ => .unbinds).map
  | _ =>
    exact (Operation.service (by simp) (by simp)).mono (fun _ => .serves (by simp))
      fun _ _ => trivial

/-- The rows have the same sessions and the same report. -/
structure Relay.SameReport (r r' : Relay) : Prop where
  activeSessions_eq : r'.activeSessions = r.activeSessions
  statusPayload_eq : r'.statusPayload = r.statusPayload

/-- An operation leaves the report and the sessions if its further changes do. -/
theorem Lifecycle.sameReport_moved {choose : Relay → RelayOp} {onMove : RelayState → Relay → Relay}
    (hmove : ∀ s r, Relay.SameReport r (onMove s r)) (r : Relay) :
    r.SameReport (moved choose onMove r) := by
  unfold moved
  split
  · next s _ =>
    have hsame := hmove r.state { r with state := s }
    exact ⟨hsame.activeSessions_eq, hsame.statusPayload_eq⟩
  · exact ⟨rfl, rfl⟩

/-- What is neither a report for the relay nor takes anything away leaves the row of the relay with
its report and its sessions. -/
theorem Operation.Does.sameReport {op : Operation} {a : Action} (ha : op.Does a) {g : Registry}
    {id : RelayId} {r : Relay} (hr : g.relay? id = some r) (hclears : ¬ a.Clears id)
    (hfiles : ∀ text report, op = .report id text → StatusReport.parse text = .ok report →
      ∀ change, a ≠ .transact (.updateRelay id change)) (time : Millis) :
    ∃ r', (a.registryAfter time g).relay? id = some r' ∧ r.SameReport r' := by
  by_cases hwrites : a.WritesRelay id
  · have hchange : ∀ {change : Relay → Relay}, a = .transact (.updateRelay id change) →
        r.SameReport (change r) →
        ∃ r', (a.registryAfter time g).relay? id = some r' ∧ r.SameReport r' := by
      rintro change rfl hsame
      refine ⟨{ change r with updatedAt := time }, ?_,
        ⟨hsame.activeSessions_eq, hsame.statusPayload_eq⟩⟩
      rw [Action.registryAfter, Transaction.run, Registry.updateRelay_some hr]
      exact Registry.relay?_withRow_self ..
    cases ha with
    | reports op_eq parse_eq =>
      cases hwrites
      exact absurd rfl (hfiles _ _ op_eq parse_eq _)
    | looks | unbinds => cases hwrites
    | books _ h =>
      cases h with
      | marks =>
        cases hwrites
        exact hchange rfl ⟨rfl, rfl⟩
      | _ => cases hwrites
    | serves _ h =>
      cases h with
      | upkeep h =>
        cases h with
        | applies | leaves | arrives =>
          cases hwrites
          refine hchange rfl (Lifecycle.sameReport_moved (fun _ _ => ?_) r)
          exact ⟨rfl, rfl⟩
        | restores =>
          cases hwrites
          exact hchange rfl ⟨rfl, rfl⟩
        | halts _ ends =>
          cases hwrites
          exact absurd (.stops ends) hclears
        | stores => exact absurd (.replaces hwrites) hclears
        | removes =>
          cases hwrites
          exact absurd .destroys hclears
        | _ => cases hwrites
      | _ => cases hwrites
  · exact ⟨r, (Action.relay?_registryAfter hwrites).trans hr, rfl, rfl⟩

section
variable {ι : Type} [DecidableEq ι] {calls : ι → Operation} {h : List (Moment ι Outcome)}
  {s : System ι Outcome} {g : Registry} {id : RelayId} {text : String}

/-- A call puts down a report with this text for the relay. -/
structure Moment.Files (calls : ι → Operation) (id : RelayId) (text : String)
    (e : Moment ι Outcome) : Prop where
  call : calls e.move.caller = .report id text
  parses : ∃ report, StatusReport.parse text = .ok report
  row : ∃ r, e.before.registry.relay? id = some r
  action : ∃ change, e.move.action = .transact (.updateRelay id change)

/-- A report for the relay is put down, or its sessions or its row are taken away. -/
def Moment.Supersedes (calls : ι → Operation) (id : RelayId) (e : Moment ι Outcome) : Prop :=
  (∃ text, e.Files calls id text) ∨ e.move.action.Clears id

/-- The row of the relay has the report with this text, and its sessions. -/
def Registry.Shows (g : Registry) (id : RelayId) (text : String) : Prop :=
  ∃ report r, StatusReport.parse text = .ok report ∧ g.relay? id = some r ∧
    r.statusPayload = some text ∧ report.Counts r.activeSessions

/-- The row has the report that was put down last. -/
theorem Run.shows_last (run : Run (System.start g fun i => (calls i).program) h s)
    (hlast : Since (Moment.Files calls id text) (Moment.Supersedes calls id) h) :
    s.registry.Shows id text := by
  have hdoes := fun {h s} (run : Run (System.start g fun i => (calls i).program) h s) =>
    (run.asks fun i => (calls i).does).1
  induction run with
  | start => exact absurd hlast Since.not_nil
  | @step h s s' m run hs ih =>
    have ha := hdoes (run.step hs) _ (List.mem_append_right _ List.mem_cons_self)
    rw [hs.registry_eq]
    rcases Since.snoc_iff.mp hlast with ⟨hcall, -, ⟨r, hr⟩, change, haction⟩ | ⟨hlast, hnot⟩
    · dsimp only at hcall hr haction ha ⊢
      rw [haction, hcall] at ha
      rw [haction, Action.registryAfter, Transaction.run, Registry.updateRelay_some hr]
      have hrow := s.registry.relay?_withRow_self id { change r with updatedAt := m.time }
      cases ha with
      | serves op_ne | books op_ne => exact absurd rfl (op_ne id text)
      | reports op_eq parse_eq =>
        cases op_eq
        exact ⟨_, _, parse_eq, hrow, rfl, StatusReport.counts_connectionCount _⟩
    · obtain ⟨report, r, hparse, hr, hpayload, hcounts⟩ := ih hlast
      obtain ⟨hfiles, hclears⟩ := not_or.mp hnot
      obtain ⟨r', hr', hsame⟩ := ha.sameReport hr hclears (fun text' report' hcall hparse' change
        haction => hfiles ⟨text', hcall, ⟨report', hparse'⟩, ⟨r, hr⟩, change, haction⟩) m.time
      exact ⟨report, r', hparse, hr', hsame.statusPayload_eq.trans hpayload,
        hsame.activeSessions_eq ▸ hcounts⟩

/-- A report leaves the lock alone. -/
theorem asks_report_isWork (id : RelayId) (text : String) :
    Asks Action.IsWork (Operation.report id text).program fun _ => True :=
  (asks_applyReport_of trivial (fun _ _ _ => trivial) fun _ _ => trivial).map

/-- **Reports are exact, come to the same when they come again, and the last one counts.** Take any
registry of which all rows and bindings decode. A report that nobody interrupts does what `Filing`
says: if its text cannot be used or its relay has no row nothing changes, and otherwise the row of
the relay has the sessions, the text and the time of the report, the bindings to the relay of the
workloads that it lists as expired are gone, and nothing else changes; the answer counts both. The
same report once more gives the same answer but that nothing is released, and changes the times in
the row. In any run of any operations, from any registry, a relay shows the usable report that was
put down for it last, unless it was stopped, fenced or destroyed since then. -/
theorem Operation.report_files (calls : ι → Operation) (id : RelayId) (text : String) :
    (∀ {i : ι} {s s' : System ι Outcome} {h : List (Moment ι Outcome)} {x : Outcome},
      GoesThrough (report id text).program i s h s' x →
      s.registry.Readable → s.registry.BindingsReadable →
      ∃ y, x = .reported y ∧ Filing id text s.registry y s'.registry) ∧
    (∀ {i j : ι} {s s' s'' : System ι Outcome} {h h' : List (Moment ι Outcome)}
      {x y : StoreResult ReportOutcome},
      GoesThrough (report id text).program i s h s' (.reported x) →
      GoesThrough (report id text).program j s' h' s'' (.reported y) →
      s.registry.Readable → s.registry.BindingsReadable →
      y = x.map ReportOutcome.unreleased ∧ s'.registry.SameButTimes id s''.registry) ∧
    ∀ {g : Registry} {s : System ι Outcome} {h : List (Moment ι Outcome)},
      Run (System.start g fun i => (calls i).program) h s →
      Since (Moment.Files calls id text) (Moment.Supersedes calls id) h →
      s.registry.Shows id text := by
  have hfiling : ∀ {i : ι} {s s' : System ι Outcome} {h : List (Moment ι Outcome)} {x : Outcome},
      GoesThrough (report id text).program i s h s' x →
      s.registry.Readable → s.registry.BindingsReadable →
      ∃ y, x = .reported y ∧ Filing id text s.registry y s'.registry := by
    intro i s s' h x through hg hb
    obtain ⟨y, rfl, halone⟩ := through.alone.map
    exact ⟨y, rfl, halone.applyReport hg hb⟩
  refine ⟨hfiling, fun through again hg hb => ?_, fun run hlast => run.shows_last hlast⟩
  obtain ⟨_, ⟨⟩, first⟩ := hfiling through hg hb
  obtain ⟨hg', hb'⟩ := first.readable hg hb
  obtain ⟨_, ⟨⟩, second⟩ := hfiling again hg' hb'
  exact first.again second

end

/-! ## A report that comes twice -/

/-- The text of a report of one session, and of another one that has expired. -/
def expiringText : String := (StatusReport.encode ⟨1, [⟨"w", none, none, none⟩], ["v"]⟩).render

/-- The report can be used. -/
theorem parse_expiringText :
    StatusReport.parse expiringText = .ok ⟨1, [⟨"w", none, none, none⟩], ["v"]⟩ :=
  StatusReport.parse_encode rfl

/-- A relay that runs, with a workload bound to it. -/
def expiringRegistry (r : Relay) : Registry :=
  (Registry.empty.putBinding ⟨"v", some "relay-1", 0⟩).withRow "relay-1" r

/-- The relay before its report. -/
def expiringRelay : Relay := { Relay.fresh 0 "relay-1" "zone-a" none 0 with state := .running }

/-- Two calls report the same text. -/
def expiringCalls : Fin 2 → Operation := fun _ => .report "relay-1" expiringText

/-- Every binding decodes there. -/
theorem bindingsReadable_expiringRegistry (r : Relay) : (expiringRegistry r).BindingsReadable := by
  intro w text htext
  have hrow := (Table.get?_insert ..).symm.trans htext
  split at hrow
  · cases hrow
    exact ⟨_, Binding.decodeRow_encode _⟩
  · cases hrow

/-- The first call puts the report down and releases the workload that has expired. -/
theorem GoesThrough.expiring :
    ∃ (h : List (Moment (Fin 2) Outcome)) (s : System (Fin 2) Outcome),
      GoesThrough (Operation.report "relay-1" expiringText).program 0
        (.start (expiringRegistry expiringRelay) fun i => (expiringCalls i).program) h s
        (.reported (.ok (.applied 1 1))) ∧
      s.calls 1 = (Operation.report "relay-1" expiringText).program ∧
      Since (Moment.Files expiringCalls "relay-1" expiringText)
        (Moment.Supersedes expiringCalls "relay-1") h := by
  let s₀ : System (Fin 2) Outcome :=
    .start (expiringRegistry expiringRelay) fun i => (expiringCalls i).program
  have hg : (Registry.empty.putBinding ⟨"v", some "relay-1", 0⟩).Sound := Registry.sound_empty
  have hprogram : ∃ next : Millis → StoreResult Registry.Change → Fleet Outcome,
      (∀ i, (expiringCalls i).program = .ask .now fun now =>
        .ask (.transact (.updateRelay "relay-1" fun r => r.withReport 1 expiringText now))
          (next now)) ∧
      ∀ now c, next now (.ok c) = .ask (.transact (.releaseBindings "relay-1" ["v"]))
        fun r => .pure (.reported (r.map (.applied 1))) := by
    simp only [expiringCalls, Operation.program, applyReport, parse_expiringText]
    exact ⟨_, fun _ => rfl, fun _ _ => rfl⟩
  obtain ⟨next, hprogram, hnext⟩ := hprogram
  let r' := expiringRelay.withReport 1 expiringText 0
  have hcount : (expiringRegistry r').releasedCount "relay-1" ["v"] = 1 := by
    change List.countP _ [("v", _)] = 1
    simp [Registry.releases, Registry.run?_of_decodeRow (Binding.decodeRow_encode _)]
  have hreleased : Except.ok 1 = ((expiringRegistry r').releaseBindings "relay-1" ["v"]).1 := by
    rw [(bindingsReadable_expiringRegistry r').releaseBindings, hcount]
    rfl
  have filed := ((Run.start : Run s₀ [] s₀).perform 0 (hprogram 0) 0 0 rfl).changeRow
    hg rfl rfl 0 rfl 0 r' rfl
  have released := filed.perform 0 (hnext _ _) 0 (.ok 1) hreleased
  refine ⟨_, _, ⟨released, rfl, by simp, rfl⟩, rfl,
    Since.snoc_iff.mpr (.inr ⟨Since.snoc_iff.mpr (.inl ?_), ?_⟩)⟩
  · exact ⟨rfl, ⟨_, parse_expiringText⟩, ⟨_, Registry.relay?_withRow_self ..⟩, _, rfl⟩
  · rintro (⟨text, -, -, -, change, haction⟩ | hclears)
    · cases haction
    · cases hclears

/-- The first call is answered with both counts, the second one releases nothing, and the relay
shows the report in between. -/
theorem Operation.report_files_twice :
    ∃ (h h' : List (Moment (Fin 2) Outcome)) (s s' : System (Fin 2) Outcome),
      GoesThrough (Operation.report "relay-1" expiringText).program 0
        (.start (expiringRegistry expiringRelay) fun i => (expiringCalls i).program) h s
        (.reported (.ok (.applied 1 1))) ∧
      GoesThrough (Operation.report "relay-1" expiringText).program 1 s h' s'
        (.reported (.ok (.applied 1 0))) ∧
      (expiringRegistry expiringRelay).Readable ∧
      (expiringRegistry expiringRelay).BindingsReadable ∧
      Filing "relay-1" expiringText (expiringRegistry expiringRelay) (.ok (.applied 1 1))
        s.registry ∧
      s.registry.SameButTimes "relay-1" s'.registry ∧
      Since (Moment.Files expiringCalls "relay-1" expiringText)
        (Moment.Supersedes expiringCalls "relay-1") h ∧
      s.registry.Shows "relay-1" expiringText := by
  obtain ⟨h, s, first, hbegins, hlast⟩ := GoesThrough.expiring
  have hg : (expiringRegistry expiringRelay).Readable :=
    Registry.Readable.withRow (g := Registry.empty.putBinding _) Registry.sound_empty.readable _ _
  have hb := bindingsReadable_expiringRegistry expiringRelay
  obtain ⟨hexact, hagain, hlasts⟩ := Operation.report_files expiringCalls "relay-1" expiringText
  obtain ⟨_, ⟨⟩, hfiling⟩ := hexact first hg hb
  obtain ⟨hg', hb'⟩ := hfiling.readable hg hb
  obtain ⟨h', s', x, second⟩ := exists_goesThrough (asks_report_isWork _ _) hbegins
  obtain ⟨y, rfl, -⟩ := hexact second hg' hb'
  obtain ⟨rfl, htimes⟩ := hagain first second hg hb
  exact ⟨h, h', s, s', first, second, hg, hb, hfiling, htimes, hlast,
    hlasts first.run hlast⟩

end RelayFleet
