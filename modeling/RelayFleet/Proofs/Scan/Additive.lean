import RelayFleet.Proofs.Scan.LaunchLimit
import RelayFleet.Proofs.Scan.Pass

/-!
# Passes only add capacity

A pass that nobody interrupts leaves every relay that runs as it is, touches no zone but those that
need a relay, and brings up one relay at most in each of these (`LonePass.addsOnly`). The counters
of a zone are exact as long as the zone has fewer relays than they can count.
-/

namespace RelayFleet

/-- The sessions that the running relays of a zone have to spare. -/
def ScanRules.spare (rules : ScanRules) (g : Registry) (zone : ZoneId) : ℤ :=
  max 0 (g.zoneTotal zone Relay.running * rules.capacityPerInstance.toNat -
    g.zoneTotal zone Relay.sessions)

/-- A zone wants a relay when it has no more to spare than the threshold. -/
theorem ScanRules.wants_iff {rules : ScanRules} {g : Registry} {zone : ZoneId}
    (hlt : g.zoneTotal zone Relay.live < 2 ^ 32) :
    rules.Wants (g.capacityOf zone) ↔ rules.spare g zone ≤ rules.standbyThreshold.toNat := by
  unfold Wants spare
  rw [Registry.toNat_runningCount_of_lt hlt, Registry.toNat_activeSessions_of_lt hlt]
  rw [← Nat.cast_mul]
  generalize g.zoneTotal zone Relay.running * rules.capacityPerInstance.toNat = capacity
  omega

/-- The counters say what a zone needs as long as its relays can be counted. -/
theorem ScanRules.needs_iff {rules : ScanRules} {g : Registry} {zone : ZoneId}
    (hlt : g.zoneTotal zone Relay.live < 2 ^ 32) :
    rules.Needs (g.capacityOf zone) ↔ g.zoneTotal zone Relay.transitional = 0 ∧
      rules.spare g zone ≤ rules.standbyThreshold.toNat := by
  rw [Needs, wants_iff hlt, ← Registry.toNat_transitionalCount_of_lt hlt, ← UInt32.toNat_inj]
  rfl

/-- What is done in a run issues the ids that are issued in it. -/
theorem issuedBy_map_deed {ι α : Type} (h : List (Moment ι α)) :
    issuedBy (h.map Moment.deed) = issuedIn h := by
  rw [issuedBy, List.countP_map, issuedIn]
  rfl

section
variable {ι : Type} [DecidableEq ι]

/-- A pass goes from one registry to another while nobody else does anything, sees this directory
and ends with this report. -/
inductive LonePass (rules : ScanRules) (d : ZoneDirectory) :
    Registry → List (Moment ι Outcome) → PassReport → Registry → Prop
  | mk {i : ι} {s₀ s : System ι Outcome} {h : List (Moment ι Outcome)} {report : PassReport}
    (run : Run s₀ h s) (begins : s₀.calls i = (Operation.pass rules).program)
    (alone : ∀ e ∈ h, e.move.caller = i) (shows : ∀ e ∈ h, e.deed.Shows d)
    (ends : s.calls i = .pure (.passed report)) :
    LonePass rules d s₀.registry h report s.registry

/-- What a pass does to relays and zones, begun in a mode. -/
structure AddsOnly (rules : ScanRules) (d : ZoneDirectory) (m : Mode) (g : Registry)
    (h : List (Moment ι Outcome)) (report : PassReport) (g' : Registry) : Prop where
  /-- A relay that runs is left as it is. -/
  running : ∀ id r, g.relay? id = some r → r.state = .running → g'.relay? id = some r
  /-- A zone that is touched is ready and needs a relay by its counters. -/
  needs : ∀ zone, ¬ LeftAlone zone g (h.map Moment.deed) g' →
    d.IsReady zone ∧ rules.Needs (g.capacityOf zone)
  /-- Its counters are exact as long as its relays can be counted. -/
  spare : ∀ zone, ¬ LeftAlone zone g (h.map Moment.deed) g' →
    g.zoneTotal zone Relay.live < 2 ^ 32 →
    g.zoneTotal zone Relay.transitional = 0 ∧
      rules.spare g zone ≤ rules.standbyThreshold.toNat
  /-- The provisioner is called for zones only. -/
  calls : ∀ e ∈ h, e.deed.IsQuiet ∨ ∃ zone, e.deed.Provisions zone
  /-- One more relay runs in the zones of the report, and in no other. -/
  running_eq : ∀ zone, g'.zoneTotal zone Relay.running =
    g.zoneTotal zone Relay.running + if zone ∈ report.expanded then 1 else 0
  /-- A relay that is removed was stopped, and the provisioner has failed to start it. -/
  removed : ∀ id r, g.relay? id = some r → g'.relay? id = none →
    r.state = .stopped ∧ ∃ e ∈ h, e.deed.FailsStart id
  /-- In `manual`, or while storage is down, nothing is done. -/
  idle : m = .manual ∨ d.storageUp = false →
    (∀ id, g'.relay? id = g.relay? id) ∧ ∀ e ∈ h, e.deed.IsQuiet

variable {rules : ScanRules} {d : ZoneDirectory} {g g' : Registry} {m : ModeRecord}
  {h : List (Moment ι Outcome)} {report : PassReport}

/-- A pass alone expands the zones that are due. -/
theorem LonePass.swept (hpass : LonePass rules d g h report g') (hg : g.Sound)
    (hahead : g.NoneAhead) (hids : IdsLast g h) (hd : d.IsDistinct) (hmode : g.getMode = .ok m)
    (hrest : ¬ m.current.isDraining) :
    Swept rules (fun zone => (m.current = .auto ∧ d.storageUp = true) ∧ rules.Due d g zone) g
      (h.map Moment.deed) report.expanded g' := by
  obtain ⟨run, begins, alone, shows, ends⟩ := hpass
  have hrun := run.alone alone ends
  rw [begins] at hrun
  obtain ⟨report', hreport, hrun⟩ := hrun.map
  cases hreport
  rw [IdsLast, ← issuedBy_map_deed] at hids
  exact hrun.runPass hg hahead hmode hrest hd hids (by simpa using shows)

/-- **A pass only adds capacity, and only where it is needed.** Take any registry whose rows stand
under their ids, none of them under an id that is still to be issued, with a mode that is no drain,
any directory that has each zone once, any rules, and any pass that goes through without another
call, whatever it is told by the provisioner and whether or not it gets the lock. Every relay that
was running is left as it is. A zone is touched only if it is ready and needs a relay, and its
running relays are one more if and only if the report names it. A relay is removed only if it was
stopped and could not be started. In `manual`, or while storage is down, nothing is done at all. -/
theorem LonePass.addsOnly (hpass : LonePass rules d g h report g') (hg : g.Sound)
    (hahead : g.NoneAhead) (hids : IdsLast g h) (hd : d.IsDistinct) (hmode : g.getMode = .ok m)
    (hrest : ¬ m.current.isDraining) : AddsOnly rules d m.current g h report g' := by
  have hswept := hpass.swept hg hahead hids hd hmode hrest
  have hdue : ∀ zone, ¬ LeftAlone zone g (h.map Moment.deed) g' →
      (m.current = .auto ∧ d.storageUp = true) ∧ rules.Due d g zone := fun zone htouched =>
    by_contra fun hnot => htouched (hswept.leftAlone zone hnot).1
  refine {
    running := fun id r hr hstate => ?_
    needs := fun zone htouched => (hdue zone htouched).2
    spare := fun zone htouched hlt => ?_
    calls := fun e he => ?_
    running_eq := fun zone => ?_
    removed := fun id r hr hgone => ?_
    idle := fun hidle => ?_ }
  · exact hswept.undiminished.relay?_eq id r hr (by simp [hstate])
  · exact (ScanRules.needs_iff hlt).mp (hdue zone htouched).2.2
  · exact (hswept.calls _ (List.mem_map_of_mem he)).imp_right fun ⟨zone, _, hp⟩ => ⟨zone, hp⟩
  · by_cases hzone : (m.current = .auto ∧ d.storageUp = true) ∧ rules.Due d g zone
    · obtain ⟨x, hvisited, hnames⟩ := hswept.visited zone hzone
      simp only [hvisited.running_eq, hnames]
    · obtain ⟨hleft, hnot⟩ := hswept.leftAlone zone hzone
      rw [Registry.zoneTotal_congr_rows hleft.rows_eq, if_neg hnot, Nat.add_zero]
  · obtain ⟨hstate, deed, hdeed, hfails⟩ := hswept.undiminished.of_removed id r hr hgone
    obtain ⟨e, he, rfl⟩ := List.mem_map.mp hdeed
    exact ⟨hstate, e, he, hfails⟩
  · have hnone : ∀ zone, ¬ ((m.current = .auto ∧ d.storageUp = true) ∧ rules.Due d g zone) := by
      rintro zone ⟨⟨hauto, hup⟩, -⟩
      rcases hidle with hmanual | hdown
      · rw [hauto] at hmanual
        cases hmanual
      · rw [hup] at hdown
        cases hdown
    refine ⟨hg.relay?_congr_zoneRows hswept.undiminished.sound fun zone =>
      (hswept.leftAlone zone (hnone zone)).1.rows_eq, fun e he => ?_⟩
    refine (hswept.calls _ (List.mem_map_of_mem he)).resolve_right ?_
    rintro ⟨zone, hzone, -⟩
    exact hnone zone hzone

end

/-! ## A pass that brings a relay up -/

/-- The registry in which the first relay of the zone runs. -/
def launchedRegistry : Registry :=
  ({ Registry.empty with sequence := 1 } : Registry).withRow (Registry.relayId 1)
    (crowdingRelay 1 .running)

/-- A pass brings a relay up in a zone that has none. -/
theorem LonePass.launching :
    ∃ (h : List (Moment Unit Outcome)) (report : PassReport),
      LonePass crowdingRules crowdingDirectory .empty h report launchedRegistry ∧
      report.expanded = ["zone-a"] ∧ issuedIn h = 1 ∧ ∀ e ∈ h, ¬ e.deed.Fails := by
  let s₀ : System Unit Outcome := .start .empty fun _ => (Operation.pass crowdingRules).program
  let r := crowdingRelay 1
  have hg : ({ Registry.empty with sequence := 1 } : Registry).Sound := Registry.sound_empty
  have pooled := ((((((Run.start : Run s₀ [] s₀).perform
    () rfl 0 crowdingDirectory trivial).perform () rfl 0 (.ok []) rfl).perform
    () rfl 0 (.ok .initial) rfl).perform () rfl 0 (.ok ()) rfl).perform
    () rfl 0 (.ok []) rfl).perform () rfl 0 (.ok []) rfl
  have created := ((((pooled.perform () rfl 0 (.ok (Registry.relayId 1)) rfl).perform
    () rfl 0 (.ok ⟨none, 0⟩) trivial).perform () rfl 0 0 rfl).perform
    () rfl 0 (.ok ()) rfl).perform () rfl 0 () trivial
  have starting := created.changeRow hg rfl rfl () rfl 0 (r .starting) rfl
  have running := (starting.perform
    () rfl 0 (.ok ()) trivial).changeRow hg rfl rfl () rfl 0 (r .running) rfl
  have released := (running.perform () rfl 0 () trivial).perform () rfl 0 () rfl
  let report : PassReport :=
    { PassReport.empty with
      admitted := true, poolsConsidered := 1, poolsReady := 1, expanded := ["zone-a"] }
  have lone := @LonePass.mk Unit _ crowdingRules crowdingDirectory () _ _ _ report released rfl
    fun _ _ => rfl
  refine ⟨_, report, lone ?_ rfl, rfl, by decide +kernel, ?_⟩
  · repeat refine List.forall_mem_append.mpr ⟨?_, List.forall_mem_singleton.mpr trivial⟩
    exact List.forall_mem_append.mpr ⟨List.forall_mem_nil _, List.forall_mem_singleton.mpr rfl⟩
  · repeat refine List.forall_mem_append.mpr ⟨?_, List.forall_mem_singleton.mpr id⟩
    exact List.forall_mem_nil _

/-- A pass adds the first relay of a zone, and nothing else. -/
theorem LonePass.addsOnly_launching :
    ∃ (h : List (Moment Unit Outcome)) (report : PassReport),
      LonePass crowdingRules crowdingDirectory .empty h report launchedRegistry ∧
      Registry.empty.Sound ∧ Registry.empty.NoneAhead ∧ IdsLast .empty h ∧
      crowdingDirectory.IsDistinct ∧ Registry.empty.getMode = .ok .initial ∧
      ¬ ModeRecord.initial.current.isDraining ∧ report.expanded = ["zone-a"] ∧
      AddsOnly crowdingRules crowdingDirectory .auto .empty h report launchedRegistry := by
  obtain ⟨h, report, hpass, hexpanded, hissued, -⟩ := LonePass.launching
  have hahead : Registry.empty.NoneAhead := fun n _ => Registry.relay?_empty _
  have hids : IdsLast .empty h := by simp [IdsLast, hissued, Registry.empty]
  have hd : crowdingDirectory.IsDistinct := List.nodup_singleton _
  exact ⟨h, report, hpass, Registry.sound_empty, hahead, hids, hd, rfl, by decide, hexpanded,
    hpass.addsOnly Registry.sound_empty hahead hids hd (m := .initial) rfl (by decide)⟩

end RelayFleet
