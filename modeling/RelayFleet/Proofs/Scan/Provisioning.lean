import RelayFleet.Proofs.Lifecycle.Effect
import RelayFleet.Proofs.Registry.Issuance
import RelayFleet.Proofs.Scan.Spare

/-!
# Passes bring no relay that is not wanted

Passes decide on snapshots that others may have overtaken, so many of them may set out to expand one
zone. What an expansion does rests on what it reads again under the lock, and as long as it has the
lock nobody else writes: what it has read stays true until it has brought one relay online
(`PassStage`). So no pass brings a zone a relay that the zone does not want (`Run.provisioned`).
-/

namespace RelayFleet

open Protocol

/-! ## The stages of a pass -/

/-- What passes may do where the mode is `auto`. -/
def Rights.ofPasses (rules : ScanRules) : Rights where
  rules := rules
  operates _ := False
  creates := False
  switches := False

/-- The relay under the id, if there is one, is in the zone. -/
def Registry.InZone (g : Registry) (zone : ZoneId) (id : RelayId) : Prop :=
  ∀ r, g.relay? id = some r → r.zoneId = zone

/-- What a pass knows about the registry in each of its stages. An expansion that has found that its
zone lacks relays knows that the zone still wants one until one is running. -/
inductive PassStage (rules : ScanRules) (g : Registry) : Stage → Prop
  | rest : PassStage rules g .rest
  | held : PassStage rules g ⟨.held, .idle⟩
  | counted {zone : ZoneId} {relays : List Relay}
    (wants : rules.Lacks zone relays → rules.Wants (g.capacityOf zone)) :
    PassStage rules g ⟨.expanding zone relays .counted, .idle⟩
  | pooled {zone : ZoneId} {relays stopped : List Relay}
    (wants : rules.Lacks zone relays → rules.Wants (g.capacityOf zone))
    (inZone : ∀ r ∈ stopped, g.InZone zone r.id) :
    PassStage rules g ⟨.expanding zone relays (.pooled stopped), .idle⟩
  /-- A new relay is on its way. -/
  | creating {zone : ZoneId} {relays : List Relay} {id : RelayId} {d : Duty}
    (lacks : rules.Lacks zone relays) (wants : rules.Wants (g.capacityOf zone))
    (hd : d = .allocating id zone ∨ d = .storing id zone) :
    PassStage rules g ⟨.expanding zone relays (.pooled []), d⟩
  | created {zone : ZoneId} {relays : List Relay} {id : RelayId}
    (wants : rules.Lacks zone relays → rules.Wants (g.capacityOf zone))
    (inZone : g.InZone zone id) : PassStage rules g ⟨.expanding zone relays (.created id), .idle⟩
  /-- A relay of the zone is being booted. -/
  | booting {zone : ZoneId} {relays : List Relay} {id : RelayId} {d : Duty} {r : Relay}
    (lacks : rules.Lacks zone relays) (wants : rules.Wants (g.capacityOf zone))
    (hr : g.relay? id = some r) (hzone : r.zoneId = zone) (hstate : r.state = .starting)
    (hsessions : r.activeSessions = 0) (tends : d.Tends id .starting) :
    PassStage rules g ⟨.expanding zone relays (.begun id), d⟩
  /-- The boot is over. -/
  | begun {zone : ZoneId} {relays : List Relay} {id : RelayId} :
    PassStage rules g ⟨.expanding zone relays (.begun id), .idle⟩
  /-- A relay that did not boot is being destroyed. -/
  | destroying {zone : ZoneId} {relays : List Relay} {id : RelayId} {d : Duty} {r : Relay}
    (hr : g.relay? id = some r) (hstate : r.state = .destroyed) (hsessions : r.activeSessions = 0)
    (tends : d.Tends id .destroyed)
    (hsource : ∀ s, d = .destroying id s ∨ d = .destroyFailed id s → s = .stopped) :
    PassStage rules g ⟨.expanding zone relays (.begun id), d⟩

namespace PassStage

open Registry

section
variable {rules : ScanRules} {g : Registry} {zone : ZoneId} {relays : List Relay} {id : RelayId}
  {hold : Hold} {d : Duty} {op : RelayOp} {r r' : Relay}

/-- The start of a relay of the zone. -/
theorem start (hempty : g.StoppedEmpty) (lacks : rules.Lacks zone relays)
    (wants : rules.Wants (g.capacityOf zone)) (inZone : g.InZone zone id)
    (hr : g.relay? id = some r) (hmoved : r.Moved .start r') :
    PassStage rules (g.withRow id r')
        ⟨.expanding zone relays (.begun id), Duty.idle.next .start id r.state⟩ ∧
      Provides rules g (g.withRow id r') := by
  have hzone := hmoved.keeps.zoneId_eq
  by_cases hstopped : r.state = .stopped
  · -- the relay is moved to `starting`, and has no sessions
    have hstate : r'.state = .starting := by rw [hmoved.state_eq, hstopped]; rfl
    have hsessions := hmoved.keeps.activeSessions_eq_zero (hempty id r hr hstopped)
    have hprovides : Provides rules g (g.withRow id r') :=
      .of_not_running hr hzone (by simp [hstopped]) (by simp [hstate]) (by simp [hstate])
    refine ⟨?_, hprovides⟩
    rw [hstopped]
    refine .booting lacks (wants.congr ?_ (hprovides.sessions zone)) (relay?_withRow_self g id r')
      (hzone.trans (inZone r hr)) hstate hsessions rfl
    refine zoneTotal_withRow_eq hr hzone ?_ zone
    exact (Relay.running_of_ne (by simp [hstate])).trans
      (Relay.running_of_ne (by simp [hstopped])).symm
  · -- the relay stays where it is
    have hafter : r.state.after .start = r.state ∧ Duty.idle.next .start id r.state = .idle := by
      cases h : r.state <;> first | exact absurd h hstopped | exact ⟨rfl, rfl⟩
    have hstate : r'.state = r.state := hmoved.state_eq.trans hafter.1
    rw [hafter.2]
    exact ⟨.begun, .of_same hr hzone hstate (hmoved.activeSessions_eq hstate) hstopped⟩

/-- The boot of a relay of the zone ends. -/
theorem bootEnd (wants : rules.Wants (g.capacityOf zone)) (hr : g.relay? id = some r)
    (hzone : r.zoneId = zone) (hstate : r.state = .starting) (hsessions : r.activeSessions = 0)
    (hop : op = .startCompleted ∨ op = .startFailed) (hmoved : r.Moved op r') :
    Provides rules g (g.withRow id r') := by
  have hzone' := hmoved.keeps.zoneId_eq
  have hne : r.state ≠ .running := by simp [hstate]
  have hsessions' := hmoved.keeps.activeSessions_eq_zero hsessions
  rcases hop with rfl | rfl
  · have hrunning : r'.state = .running := by rw [hmoved.state_eq, hstate]; rfl
    exact .of_running hr hzone' (hzone ▸ wants) hne hrunning hsessions'
  · have hstopped : r'.state = .stopped := by rw [hmoved.state_eq, hstate]; rfl
    exact .of_not_running hr hzone' hne (by simp [hstopped]) fun _ => hsessions'

/-- The destruction of a relay that did not boot. -/
theorem destroy (hempty : g.StoppedEmpty) (hr : g.relay? id = some r)
    (hmoved : r.Moved .destroy r') :
    PassStage rules (g.withRow id r')
        ⟨.expanding zone relays (.begun id), Duty.idle.next .destroy id r.state⟩ ∧
      Provides rules g (g.withRow id r') := by
  have hzone := hmoved.keeps.zoneId_eq
  by_cases hstopped : r.state = .stopped
  · have hstate : r'.state = .destroyed := by rw [hmoved.state_eq, hstopped]; rfl
    have hsessions := hmoved.keeps.activeSessions_eq_zero (hempty id r hr hstopped)
    constructor
    · rw [hstopped]
      refine .destroying (relay?_withRow_self g id r') hstate hsessions rfl ?_
      rintro s (⟨⟨⟩⟩ | ⟨⟨⟩⟩)
      rfl
    · exact .of_not_running hr hzone (by simp [hstopped]) (by simp [hstate]) (by simp [hstate])
  · have hafter : r.state.after .destroy = r.state ∧
        Duty.idle.next .destroy id r.state = .idle := by
      cases h : r.state <;> first | exact absurd h hstopped | exact ⟨rfl, rfl⟩
    have hstate : r'.state = r.state := hmoved.state_eq.trans hafter.1
    rw [hafter.2]
    exact ⟨.begun, .of_same hr hzone hstate (hmoved.activeSessions_eq hstate) hstopped⟩

/-- An operation that a pass may ask for. -/
theorem operates (hstage : PassStage rules g ⟨hold, d⟩) (hempty : g.StoppedEmpty)
    (asks : d.Asks (.ofPasses rules) hold op id) (hr : g.relay? id = some r)
    (hmoved : r.Moved op r') :
    PassStage rules (g.withRow id r') ⟨hold.after op id, d.next op id r.state⟩ ∧
      Provides rules g (g.withRow id r') := by
  cases hstage with
  | rest | held | counted => cases asks
  | creating _ _ hd => rcases hd with rfl | rfl <;> cases asks
  | pooled wants inZone =>
    cases op with
    | start =>
      obtain ⟨lacks, r₀, hr₀, rfl⟩ := asks
      exact start hempty lacks (wants lacks) (inZone r₀ hr₀) hr hmoved
    | _ => cases asks
  | created wants inZone =>
    cases op with
    | start =>
      obtain ⟨lacks, rfl⟩ := asks
      exact start hempty lacks (wants lacks) inZone hr hmoved
    | _ => cases asks
  | begun =>
    cases op with
    | destroy =>
      obtain ⟨-, rfl⟩ := asks
      exact destroy hempty hr hmoved
    | _ => cases asks
  | booting lacks wants hr₀ hzone hstate hsessions tends =>
    cases d with
    | booted | bootFailed =>
      obtain ⟨rfl, rfl⟩ := asks
      cases tends
      rw [hr₀] at hr
      cases hr
      refine ⟨?_, bootEnd wants hr₀ hzone hstate hsessions (by simp) hmoved⟩
      rw [hstate]
      exact .begun
    | booting => cases asks
    | _ => cases tends
  | destroying _ _ _ tends =>
    cases d with
    | destroying | gone | destroyFailed => cases asks
    | _ => cases tends

/-- An operation that a pass asks for on a relay that is not there. -/
theorem misses (hstage : PassStage rules g ⟨hold, d⟩) (asks : d.Asks (.ofPasses rules) hold op id) :
    PassStage rules g ⟨hold.after op id, .idle⟩ := by
  cases hstage with
  | rest | held | counted => cases asks
  | creating _ _ hd => rcases hd with rfl | rfl <;> cases asks
  | pooled => cases op <;> first | exact .begun | cases asks
  | created => cases op <;> first | exact .begun | cases asks
  | begun => cases op <;> exact .begun
  | booting _ _ _ _ _ _ tends =>
    cases d with
    | booted | bootFailed =>
      obtain ⟨rfl, -⟩ := asks
      exact .begun
    | booting => cases asks
    | _ => cases tends
  | destroying _ _ _ tends =>
    cases d with
    | destroying | gone | destroyFailed => cases asks
    | _ => cases tends

/-- An answer of the provisioner. -/
theorem provisions {d' : Duty} {c : ProvisionCall} {x : c.Reply}
    (hstage : PassStage rules g ⟨hold, d⟩) (calls : d.Calls c x d') :
    PassStage rules g ⟨hold, d'⟩ := by
  cases hstage with
  | rest | held | counted | pooled | created | begun => cases calls
  | creating lacks wants hd =>
    rcases hd with rfl | rfl
    · cases calls with
      | allocated => exact .creating lacks wants (.inr rfl)
      | refused => exact .pooled (fun _ => wants) (by simp)
    · cases calls
  | booting lacks wants hr hzone hstate hsessions tends =>
    exact .booting lacks wants hr hzone hstate hsessions (calls.tends tends)
  | destroying hr hstate hsessions tends hsource =>
    refine .destroying hr hstate hsessions (calls.tends tends) ?_
    rintro s (rfl | rfl) <;> cases calls
    exact hsource s (.inl rfl)

/-- A relay that could not be destroyed did not boot before. -/
theorem of_failed {s : RelayState} (hstage : PassStage rules g ⟨hold, d⟩)
    (hd : d = .stopFailed id s ∨ d = .destroyFailed id s) :
    s = .stopped ∧ (∃ zone relays, hold = .expanding zone relays (.begun id)) ∧
      ∃ r, g.relay? id = some r ∧ r.state = .destroyed ∧ r.activeSessions = 0 := by
  cases hstage with
  | rest | held | counted | pooled | created | begun => simp at hd
  | creating _ _ hd' => rcases hd' with rfl | rfl <;> simp at hd
  | booting _ _ _ _ _ _ tends => rcases hd with rfl | rfl <;> cases tends
  | destroying hr hstate hsessions tends hsource =>
    rcases hd with rfl | rfl <;> cases tends
    exact ⟨hsource s (.inr rfl), ⟨_, _, rfl⟩, _, hr, hstate, hsessions⟩

/-- A relay that could not be destroyed is stopped again. -/
theorem restores {s : RelayState} (hstage : PassStage rules g ⟨hold, d⟩)
    (hd : d = .stopFailed id s ∨ d = .destroyFailed id s) (hr : g.relay? id = some r)
    (keeps : r.Keeps r') (hstate' : r'.state = s) :
    PassStage rules (g.withRow id r') ⟨hold, .idle⟩ ∧ Provides rules g (g.withRow id r') := by
  obtain ⟨rfl, ⟨_, _, rfl⟩, r₀, hr₀, hstate, hsessions⟩ := hstage.of_failed hd
  rw [hr₀] at hr
  cases hr
  refine ⟨.begun, .of_not_running hr₀ keeps.zoneId_eq (by simp [hstate]) (by simp [hstate']) ?_⟩
  exact fun _ => keeps.activeSessions_eq_zero hsessions

/-- A relay that was destroyed is removed. -/
theorem removes (hstage : PassStage rules g ⟨hold, .gone id⟩) :
    PassStage rules (g.withoutRow id) ⟨hold, .idle⟩ ∧ Provides rules g (g.withoutRow id) := by
  cases hstage with
  | creating _ _ hd => simp at hd
  | booting _ _ _ _ _ _ tends => cases tends
  | destroying hr hstate _ tends =>
    cases tends
    exact ⟨.begun, .of_withoutRow hr hstate⟩

/-- A new relay is stored. -/
theorem stores (hstage : PassStage rules g ⟨hold, .storing r.id r.zoneId⟩)
    (hnew : g.relay? r.id = none) (hstate : r.state = .stopped) (hsessions : r.activeSessions = 0) :
    PassStage rules (g.withRow r.id r) ⟨hold.stored r.id, .idle⟩ ∧
      Provides rules g (g.withRow r.id r) := by
  have hne : r.state ≠ .running := by simp [hstate]
  cases hstage with
  | creating _ wants hd =>
    simp only [reduceCtorEq, Duty.storing.injEq, false_or] at hd
    obtain ⟨rfl, rfl⟩ := hd
    refine ⟨.created (fun _ => wants.congr ?_ ?_) ?_, .of_new hnew hstate hsessions⟩
    · exact zoneTotal_withRow_new hnew (Relay.running_of_ne hne) _
    · exact zoneTotal_withRow_new hnew (Relay.sessions_of_ne hne) _
    · intro r' hr'
      rw [relay?_withRow_self] at hr'
      cases hr'
      rfl
  | booting _ _ _ _ _ _ tends => cases tends
  | destroying _ _ _ tends => cases tends

/-- What a pass knows stays true in each of its steps, and a zone gets a relay only if it wants
one. -/
theorem step {φ φ' : Stage} {a : Action} {x : a.Reply} {ι : Type} {i : ι} {holder : Option ι}
    {time : Millis} (hstage : PassStage rules g φ) (hg : g.Sound) (hempty : g.StoppedEmpty)
    (hs : Stage.Step (.ofPasses rules) φ a x φ') (answers : a.Answers time g i holder x)
    (hnew : ∀ r, a = .transact (.putRelay r) → g.relay? r.id = none) :
    PassStage rules (a.registryAfter time g) φ' ∧ Provides rules g (a.registryAfter time g) := by
  have hsame : Provides rules g g := .of_relays_eq rfl rfl
  cases hs with
  | looks ha =>
    rw [Action.registryAfter_of_isLook ha]
    exact ⟨hstage, hsame⟩
  | obtains => exact ⟨.held, hsame⟩
  | gives_up | releases => exact ⟨.rest, hsame⟩
  | counts =>
    rw [Action.Answers, Transaction.run, hg.listRelays] at answers
    cases answers
    exact ⟨.counted fun lacks => ScanRules.decision_eq_expand_iff.mp lacks.2, hsame⟩
  | @pools zone relays stopped =>
    rw [Action.Answers, Transaction.run, hg.listRelays] at answers
    cases answers
    cases hstage with
    | counted wants =>
      refine ⟨.pooled wants fun r hr r' hr' => ?_, hsame⟩
      simp only [List.mem_filter, Bool.and_eq_true, beq_iff_eq] at hr
      change g.relay? r.id = some r' at hr'
      rw [hg.mem_rows.mp hr.1] at hr'
      cases hr'
      exact hr.2.2
  | operates asks keeps =>
    obtain ⟨hr, hmoved, hrun⟩ := hg.run_moved keeps answers
    rw [Action.registryAfter, hrun]
    exact hstage.operates hempty (asks _) hr hmoved
  | misses asks =>
    obtain ⟨-, hrun⟩ := hg.run_updateRelay_error answers
    rw [Action.registryAfter, hrun]
    exact ⟨hstage.misses (asks _), hsame⟩
  | provisions calls => exact ⟨hstage.provisions calls, hsame⟩
  | @restores hold d id s x hd =>
    cases x with
    | error e =>
      obtain ⟨hnone, -⟩ := hg.run_updateRelay_error answers
      obtain ⟨-, -, r, hr, -⟩ := hstage.of_failed hd
      rw [hnone] at hr
      cases hr
    | ok change =>
      obtain ⟨hr, hafter, hrun⟩ := hg.run_updateRelay answers
      rw [Action.registryAfter, Transaction.restoring, hrun]
      exact hstage.restores hd hr (hafter ▸ ⟨rfl, rfl, Nat.le_refl _⟩) (hafter ▸ rfl)
  | removes => exact hstage.removes
  | issues may =>
    obtain ⟨-, hcreates⟩ | ⟨relays, rfl, hlacks, -⟩ := may.inv
    · cases hcreates
    · cases hstage with
      | pooled wants => exact ⟨.creating hlacks (wants hlacks) (.inl rfl), .of_relays_eq rfl rfl⟩
      | creating _ _ hd => simp at hd
  | stores hid hzone hstate hsessions =>
    subst hid hzone
    exact hstage.stores (hnew _ rfl) hstate hsessions
  | switches may => cases may

end

end PassStage

/-! ## Runs of passes -/

/-- The mode is `auto`. -/
def Registry.IsAuto (g : Registry) : Prop :=
  ∃ record, g.getMode = .ok record ∧ record.current = .auto

/-- The mode is what is stored as the mode. -/
theorem Registry.IsAuto.congr {g g' : Registry} (h : g.IsAuto) (hmode : g'.mode = g.mode) :
    g'.IsAuto := by
  rwa [IsAuto, getMode, hmode]

/-- A pass follows the protocol of calls without touching the mode. -/
theorem follows_pass (rules : ScanRules) :
    (conduct (.ofPasses rules) fun g => g.Sound ∧ g.IsAuto).Follows .rest
      (Operation.pass rules).program fun φ _ => φ = .rest := by
  let auto := conduct (.ofPasses rules) fun g => g.Sound ∧ g.IsAuto
  have htick : auto.Follows .rest Management.tick.run fun φ _ => φ = .rest :=
    Management.follows_tick_of_auto fun _ h => h.2
  have hpass : auto.Follows .rest (Rights.ofPasses rules).rules.runPass fun φ _ => φ = .rest :=
    ScanRules.follows_runPass (fun _ h => h.1) htick
  exact hpass.outcome

/-- A pass that has not got the lock writes nothing. -/
theorem Stage.Step.registryAfter_of_rest {rules : ScanRules} {φ' : Stage} {a : Action} {r : a.Reply}
    (hs : Stage.Step (.ofPasses rules) .rest a r φ') (time : Millis) (g : Registry) :
    a.registryAfter time g = g := by
  cases hs with
  | looks ha => exact Action.registryAfter_of_isLook ha time g
  | obtains | gives_up | releases | provisions => rfl
  | operates asks => exact (asks default).elim
  | misses asks => exact (asks default).elim
  | restores hd => simp at hd
  | issues may => exact may.elim
  | switches may => exact may.elim

section
variable {ι α : Type} {rules : ScanRules} {g : Registry} {h : List (Moment ι α)} {s s' : System ι α}
  {φ : ι → Stage} {φ' : Stage} {m : Move ι}

/-- The relays of a zone are read. -/
def Moment.Reads (e : Moment ι α) (zone : ZoneId) (relays : List Relay) : Prop :=
  e.move.action = .transact (.listRelays (·.zoneId == zone)) ∧ e.before.registry.Sound ∧
    relays = e.before.registry.rows.filter (·.zoneId == zone)

/-- Where a run of passes from `g` stands. -/
structure Passing (rules : ScanRules) (g : Registry) (h : List (Moment ι α)) (s : System ι α)
    (φ : ι → Stage) : Prop where
  sound : s.registry.Sound
  stoppedEmpty : s.registry.StoppedEmpty
  mode : s.registry.mode = g.mode
  holds : ∀ i, (φ i).hold ≠ .out ↔ s.holder = some i
  stages : ∀ i, PassStage rules s.registry (φ i)
  sessions : ∀ zone, s.registry.zoneTotal zone Relay.sessions = g.zoneTotal zone Relay.sessions
  running : ∀ zone n, rules.standbyThreshold.toNat <
      n * rules.capacityPerInstance.toNat - (g.capacityOf zone).activeSessions.toNat →
    (s.registry.capacityOf zone).runningCount.toNat ≤ max (g.capacityOf zone).runningCount.toNat n
  reads : ∀ i zone relays p, (φ i).hold = .expanding zone relays p →
    WhileHeld h i fun e => e.move.caller = i ∧ e.Reads zone relays

/-- A pass without the lock is between two expansions. -/
theorem PassStage.eq_rest {φ : Stage} (hstage : PassStage rules g φ) (hout : φ.hold = .out) :
    φ = .rest := by
  cases hstage with
  | rest => rfl
  | _ => cases hout

/-- The running relays stay within a number that suffices. -/
theorem Registry.Provides.running_le {g₀ g g' : Registry} (hp : Provides rules g g') {zone : ZoneId}
    (hsessions : g.zoneTotal zone Relay.sessions = g₀.zoneTotal zone Relay.sessions) {n : Nat}
    (hn : rules.standbyThreshold.toNat <
      n * rules.capacityPerInstance.toNat - (g₀.capacityOf zone).activeSessions.toNat)
    (hle : (g.capacityOf zone).runningCount.toNat ≤ max (g₀.capacityOf zone).runningCount.toNat n) :
    (g'.capacityOf zone).runningCount.toNat ≤ max (g₀.capacityOf zone).runningCount.toNat n := by
  rcases hp.running zone with hsame | ⟨hwants, hmore⟩
  · rwa [toNat_runningCount, hsame, ← toNat_runningCount]
  · have hlt : (g.capacityOf zone).runningCount.toNat < n := by
      refine hwants.lt ?_
      rwa [toNat_activeSessions, hsessions, ← toNat_activeSessions]
    rw [toNat_runningCount] at hlt ⊢
    rw [hmore, Nat.add_mod]
    have hmod := Nat.mod_le (g.zoneTotal zone Relay.running % 2 ^ 32 + 1 % 2 ^ 32) (2 ^ 32)
    omega

variable [DecidableEq ι]

/-- What an expansion acts on was read under the lock that it still has. -/
theorem Passing.reads_step (inv : Passing rules g h s φ) (hs : RelayFleet.Step s m s')
    (hp : Stage.Step (.ofPasses rules) (φ m.caller) m.action m.reply φ') (i : ι) (zone : ZoneId)
    (relays : List Relay) (p : Phase)
    (hhold : (Function.update φ m.caller φ' i).hold = .expanding zone relays p) :
    WhileHeld (h ++ [⟨s, m⟩]) i fun e => e.move.caller = i ∧ e.Reads zone relays := by
  by_cases hi : i = m.caller
  · subst hi
    rw [Function.update_self] at hhold
    rcases hp.reads hs.answers inv.sound hhold with ⟨p', hp', -⟩ | ⟨hheld, ha, hrelays⟩
    · exact (inv.reads _ zone relays p' hp').snoc ((inv.holds _).mp (by simp [hp']))
    · have hholder : s.holder = some m.caller := (inv.holds _).mp (by simp [hheld])
      exact ⟨h, ⟨s, m⟩, [], rfl, ⟨rfl, ha, inv.sound, hrelays⟩, by simpa using hholder⟩
  · rw [Function.update_of_ne hi] at hhold
    exact (inv.reads i zone relays p hhold).snoc ((inv.holds i).mp (by simp [hhold]))

/-- Every step of a pass is one that its stage allows, and leaves the others where they are. -/
theorem Passing.step (inv : Passing rules g h s φ) (hs : RelayFleet.Step s m s')
    (hp : Stage.Step (.ofPasses rules) (φ m.caller) m.action m.reply φ')
    (hnew : ∀ r, m.action = .transact (.putRelay r) → s.registry.relay? r.id = none) :
    Passing rules g (h ++ [⟨s, m⟩]) s' (Function.update φ m.caller φ') := by
  obtain ⟨hstage, hprovides⟩ :=
    (inv.stages m.caller).step inv.sound inv.stoppedEmpty hp hs.answers hnew
  rw [← hs.registry_eq] at hstage hprovides
  have hothers : ∀ i, i ≠ m.caller → PassStage rules s'.registry (φ i) := by
    intro i hi
    by_cases hout : (φ i).hold = .out
    · rw [(inv.stages i).eq_rest hout]
      exact .rest
    · -- another pass has the lock, so this one writes nothing
      have hholder := (inv.holds i).mp hout
      have hcaller : (φ m.caller).hold = .out := by
        by_contra hin
        have hother := (inv.holds _).mp hin
        rw [hholder] at hother
        exact hi (Option.some.inj hother)
      rw [(inv.stages _).eq_rest hcaller] at hp
      rw [hs.registry_eq, hp.registryAfter_of_rest]
      exact inv.stages i
  exact {
    sound := (hp.effect_of_step hs inv.sound).sound inv.sound
    stoppedEmpty := hprovides.stoppedEmpty inv.stoppedEmpty
    mode := hprovides.mode.trans inv.mode
    holds := hp.holds hs inv.holds
    stages := fun i => by
      by_cases hi : i = m.caller
      · subst hi
        rwa [Function.update_self]
      · rw [Function.update_of_ne hi]
        exact hothers i hi
    sessions := fun zone => (hprovides.sessions zone).trans (inv.sessions zone)
    running := fun zone n hn => hprovides.running_le (inv.sessions zone) hn (inv.running zone n hn)
    reads := inv.reads_step hs hp }

/-- In a run of passes from issued relays, as long as there are ids left. -/
theorem Run.passing {g : Registry} (hg : g.Sound) (hissued : g.Issued) (hauto : g.IsAuto)
    (hempty : g.StoppedEmpty) {h : List (Moment ι Outcome)} {s : System ι Outcome}
    (run : Run (System.start g fun _ => (Operation.pass rules).program) h s) (hids : IdsLast g h) :
    ∃ φ, Passing rules g h s φ ∧ ∀ i,
      (conduct (.ofPasses rules) fun g => g.Sound ∧ g.IsAuto).Follows (φ i) (s.calls i)
        fun φ _ => φ = .rest := by
  refine run.follows_while (fun _ _ => IdsLast.of_snoc) (fun _ => follows_pass rules) ?_
    (fun _ _ _ inv => ⟨inv.sound, hauto.congr inv.mode⟩) ?_ hids
  · exact {
      sound := hg
      stoppedEmpty := hempty
      mode := rfl
      holds := by simp [Stage.rest, System.start]
      stages := fun _ => .rest
      sessions := fun _ => rfl
      running := fun _ _ _ => Nat.le_max_left _ _
      reads := by simp [Stage.rest] }
  · intro h s φ m s' φ' run hids inv hs hp
    refine inv.step hs hp ?_
    intro r hr
    obtain ⟨i, a, time, x⟩ := m
    cases hr
    obtain ⟨next, asks, -⟩ := hs
    exact run.absent_of_stores hg hissued hids.of_snoc asks

end

/-! ## What passes provide -/

section
variable {ι : Type} {rules : ScanRules} {h : List (Moment ι Outcome)} {s : System ι Outcome}
  {i : ι} {zone : ZoneId}

/-- The zone is read, and found to have no relay on its way and no more sessions to spare than the
threshold. -/
def Moment.Rechecks (e : Moment ι Outcome) (rules : ScanRules) (zone : ZoneId) : Prop :=
  e.move.action = .transact (.listRelays (·.zoneId == zone)) ∧
    ∃ c, e.before.registry.zoneCapacity zone = .ok c ∧ c.transitionalCount = 0 ∧ rules.Wants c

/-- The call has the lock, and has found since it has it that the zone wants a relay. -/
def Rechecked (rules : ScanRules) (h : List (Moment ι Outcome)) (s : System ι Outcome) (i : ι)
    (zone : ZoneId) : Prop :=
  s.holder = some i ∧ WhileHeld h i fun e => e.move.caller = i ∧ e.Rechecks rules zone

/-- What was read and found to be too little was a check. -/
theorem Moment.Reads.rechecks {e : Moment ι Outcome} {relays : List Relay}
    (hreads : e.Reads zone relays) (hlacks : rules.Lacks zone relays) : e.Rechecks rules zone := by
  obtain ⟨ha, hsound, rfl⟩ := hreads
  exact ⟨ha, _, hsound.zoneCapacity zone, hlacks.1, ScanRules.decision_eq_expand_iff.mp hlacks.2⟩

/-- An expansion that found its zone to lack relays has checked that. -/
theorem Passing.rechecked {g : Registry} {φ : ι → Stage} (inv : Passing rules g h s φ)
    {relays : List Relay} {p : Phase} (hhold : (φ i).hold = .expanding zone relays p)
    (hlacks : rules.Lacks zone relays) : Rechecked rules h s i zone := by
  obtain ⟨h₁, e, h₂, heq, ⟨hcaller, hreads⟩, hheld⟩ := inv.reads i zone relays p hhold
  have hholder : s.holder = some i := (inv.holds i).mp (by simp [hhold])
  exact ⟨hholder, h₁, e, h₂, heq, ⟨hcaller, hreads.rechecks hlacks⟩, hheld⟩

/-- A pass that is at an allocation has checked that the zone wants a relay. -/
theorem Passing.allocating {g : Registry} {φ : ι → Stage} (inv : Passing rules g h s φ)
    {id : RelayId} (hduty : (φ i).duty = .allocating id zone) : Rechecked rules h s i zone := by
  have hstage := inv.stages i
  generalize hφ : φ i = stage at hduty hstage
  cases hstage with
  | creating hlacks _ hd =>
    rcases hd with rfl | rfl <;> cases hduty
    exact inv.rechecked (by rw [hφ]) hlacks
  | booting _ _ _ _ _ _ tends | destroying _ _ _ tends =>
    cases hduty
    cases tends
  | _ => cases hduty

/-- A pass that is at the start of a relay has checked that the zone of the relay wants one. -/
theorem Passing.booting {g : Registry} {φ : ι → Stage} (inv : Passing rules g h s φ) {id : RelayId}
    (hduty : (φ i).duty = .booting id) :
    ∃ r, s.registry.relay? id = some r ∧ Rechecked rules h s i r.zoneId := by
  have hstage := inv.stages i
  generalize hφ : φ i = stage at hduty hstage
  cases hstage with
  | booting hlacks _ hr hzone _ _ tends =>
    cases hduty
    cases tends
    exact ⟨_, hr, hzone ▸ inv.rechecked (by rw [hφ]) hlacks⟩
  | creating _ _ hd => rcases hd with rfl | rfl <;> cases hduty
  | destroying _ _ _ tends =>
    cases hduty
    cases tends
  | _ => cases hduty

end

/-- A call that is at a call to the provisioner owes it. -/
theorem Protocol.Follows.duty_calls {rights : Rights} {Meets : Registry → Prop} {α : Type}
    {φ : Stage} {c : ProvisionCall} {next : c.Reply → Fleet α} {Q : Stage → α → Prop}
    (h : (conduct rights Meets).Follows φ (.ask (.provision c) next) Q) (x : c.Reply) :
    ∃ d, φ.duty.Calls c x d := by
  obtain ⟨φ', hp, -⟩ := h x trivial
  cases hp with
  | looks ha => cases ha
  | provisions calls => exact ⟨_, calls⟩

/-- An allocation is called for by the duty to make a relay. -/
theorem Duty.Calls.eq_allocating {d d' : Duty} {id : RelayId} {zone : ZoneId} {spec : LaunchSpec}
    {x : Except ProvisionError Allocated} (h : d.Calls (.allocate id zone spec) x d') :
    d = .allocating id zone := by
  cases h <;> rfl

/-- A start is called for by the duty to boot a relay. -/
theorem Duty.Calls.eq_booting {d d' : Duty} {id : RelayId} {x : Except ProvisionError Unit}
    (h : d.Calls (.start id) x d') : d = .booting id := by
  cases h <;> rfl

/-- **Concurrent passes never over-provision.** Take any registry that operations have built from an
empty one, with the mode `auto` and without sessions on stopped relays, and any number of passes on
it, whatever the order of their steps and the outcomes of the provisioner, as long as there are ids
left. The sessions of each zone stay as they are, and its running relays never get more than there
were or than the least number that leaves more sessions to spare than the threshold. Whenever a pass
is at an allocation for a zone, or at the start of a relay of a zone, it has the lock, and has found
since it has it that no relay of the zone is on its way and that the zone wants one. -/
theorem Run.provisioned {ι₀ ι : Type} [DecidableEq ι₀] [DecidableEq ι] {rules : ScanRules}
    (hcapacity : 0 < rules.capacityPerInstance) {builders : ι₀ → Operation}
    {h₀ : List (Moment ι₀ Outcome)} {s₀ : System ι₀ Outcome}
    (built : Run (System.start .empty fun i => (builders i).program) h₀ s₀)
    (hauto : s₀.registry.IsAuto) (hempty : s₀.registry.StoppedEmpty)
    {h : List (Moment ι Outcome)} {s : System ι Outcome}
    (run : Run (System.start s₀.registry fun _ => (Operation.pass rules).program) h s)
    (hids : issuedIn h₀ + issuedIn h < 2 ^ 64) :
    (∀ zone, ∃ c₀ c n, s₀.registry.zoneCapacity zone = .ok c₀ ∧
      s.registry.zoneCapacity zone = .ok c ∧ c.activeSessions = c₀.activeSessions ∧
      IsLeast {n | rules.standbyThreshold.toNat <
        n * rules.capacityPerInstance.toNat - c₀.activeSessions.toNat} n ∧
      c.runningCount.toNat ≤ max c₀.runningCount.toNat n) ∧
    (∀ i id zone spec next, s.calls i = .ask (.provision (.allocate id zone spec)) next →
      Rechecked rules h s i zone) ∧
    ∀ i id next, s.calls i = .ask (.provision (.start id)) next →
      ∃ r, s.registry.relay? id = some r ∧ Rechecked rules h s i r.zoneId := by
  have hids₀ : IdsLast .empty h₀ := Nat.lt_of_le_of_lt (by simp [Registry.empty]) hids
  obtain ⟨_, issuing, -⟩ := built.issuing Registry.sound_empty (fun _ h => absurd rfl h) hids₀
  have hlast : IdsLast s₀.registry h := by
    rw [IdsLast, issuing.sequence_eq]
    simpa [Registry.empty] using hids
  obtain ⟨φ, inv, hφ⟩ := run.passing issuing.sound issuing.numbered.issued hauto hempty hlast
  refine ⟨?_, ?_, ?_⟩
  · intro zone
    obtain ⟨n, hn⟩ := ScanRules.exists_isLeast hcapacity
      (s₀.registry.capacityOf zone).activeSessions.toNat
    refine ⟨_, _, n, issuing.sound.zoneCapacity zone, inv.sound.zoneCapacity zone, ?_, hn,
      inv.running zone n hn.1⟩
    rw [← UInt64.toNat_inj, Registry.toNat_activeSessions, Registry.toNat_activeSessions,
      inv.sessions]
  · intro i id zone spec next hi
    have hcall := hφ i
    rw [hi] at hcall
    obtain ⟨_, hcalls⟩ := hcall.duty_calls (.error ⟨.allocate, ""⟩)
    exact inv.allocating hcalls.eq_allocating
  · intro i id next hi
    have hcall := hφ i
    rw [hi] at hcall
    obtain ⟨_, hcalls⟩ := hcall.duty_calls (.ok ())
    exact inv.booting hcalls.eq_booting

/-! ## Two passes that contend for a zone -/

/-- Rules by which a zone wants a session to spare. -/
def contestedRules : ScanRules :=
  { (default : ScanRules) with capacityPerInstance := 1, launchMaxPerZone := 2 }

/-- The relay that is launched in the zone. -/
def contestedRelay (x : RelayState) : Relay :=
  { Relay.fresh 0 (Registry.relayId 1) "zone-a" none 0 with state := x }

/-- The report of a pass that found the zone wanting. -/
def contestedReport : PassReport :=
  { PassReport.empty with admitted := true, poolsConsidered := 1, poolsReady := 1 }

/-- Two passes both find that a zone without relays wants one. The first to get the lock is about to
allocate it while the other one waits, and goes on until its relay runs; the other one finds under
the lock that the zone wants no more. -/
theorem Run.contested :
    ∃ (h h' : List (Moment Bool Outcome)) (s s' : System Bool Outcome),
      Run (System.start .empty fun _ => (Operation.pass contestedRules).program) h s ∧
      issuedIn h = 1 ∧
      (∃ id next, s.calls false =
        .ask (.provision (.allocate id "zone-a" contestedRules.launch)) next) ∧
      (∃ next, s.calls true = .ask (.acquire contestedRules.lockTimeout) next) ∧
      Run s h' s' ∧ issuedIn (h ++ h') = 1 ∧
      s'.calls false = .pure (.passed { contestedReport with expanded := ["zone-a"] }) ∧
      s'.calls true = .pure (.passed { contestedReport with skipped := ["zone-a"] }) ∧
      s'.registry.relay? (Registry.relayId 1) = some (contestedRelay .running) := by
  let directory : ZoneDirectory := .ofZones [⟨"zone-a", true, true, 1, true, true⟩]
  let s₀ : System Bool Outcome := .start .empty fun _ => (Operation.pass contestedRules).program
  have hg : ({ Registry.empty with sequence := 1 } : Registry).Sound := Registry.sound_empty
  have hrows : ∀ keep, Except.ok ([contestedRelay .running].filter keep) =
      (({ Registry.empty with sequence := 1 } : Registry).withRow (Registry.relayId 1)
        (contestedRelay .running)).listRelays keep :=
    fun keep => (hg.listRelays_withRow_of_empty rfl rfl keep).symm
  have admitted := ((((((Run.start : Run s₀ [] s₀).perform
    false rfl 0 directory trivial).perform true rfl 0 directory trivial).perform
    false rfl 0 (.ok []) rfl).perform true rfl 0 (.ok []) rfl).perform
    false rfl 0 (.ok .initial) rfl).perform true rfl 0 (.ok .initial) rfl
  have allocating := (((admitted.perform false rfl 0 (.ok ()) rfl).perform
    false rfl 0 (.ok []) rfl).perform false rfl 0 (.ok []) rfl).perform
    false rfl 0 (.ok (Registry.relayId 1)) rfl
  have starting := ((((allocating.restart.perform false rfl 0 (.ok ⟨none, 0⟩) trivial).perform
    false rfl 0 0 rfl).perform false rfl 0 (.ok ()) rfl).perform
    false rfl 0 () trivial).changeRow hg rfl rfl false rfl 0 (contestedRelay .starting) rfl
  have running := ((starting.perform false rfl 0 (.ok ()) trivial).changeRow
    hg rfl rfl false rfl 0 (contestedRelay .running) rfl).perform false rfl 0 () trivial
  have rechecked := ((running.perform false rfl 0 () rfl).perform true rfl 0 (.ok ()) rfl).perform
    true rfl 0 (.ok _) (hrows _)
  exact ⟨_, _, _, _, allocating, rfl, ⟨_, _, rfl⟩, ⟨_, rfl⟩,
    rechecked.perform true rfl 0 () rfl, rfl, rfl, rfl, Registry.relay?_withRow_self ..⟩

/-- Two passes that contend for a zone bring it one relay. -/
theorem Run.provisioned_allocating :
    ∃ (h h' : List (Moment Bool Outcome)) (s s' : System Bool Outcome),
      0 < contestedRules.capacityPerInstance ∧ Registry.empty.IsAuto ∧
      Registry.empty.StoppedEmpty ∧
      Run (System.start .empty fun _ => (Operation.pass contestedRules).program) h s ∧
      (∃ id next, s.calls false =
        .ask (.provision (.allocate id "zone-a" contestedRules.launch)) next) ∧
      (∃ next, s.calls true = .ask (.acquire contestedRules.lockTimeout) next) ∧
      Rechecked contestedRules h s false "zone-a" ∧
      Run s h' s' ∧ issuedIn (h ++ h') = 1 ∧
      s'.calls false = .pure (.passed { contestedReport with expanded := ["zone-a"] }) ∧
      s'.calls true = .pure (.passed { contestedReport with skipped := ["zone-a"] }) ∧
      s'.registry.relay? (Registry.relayId 1) = some (contestedRelay .running) ∧
      ∃ c, s'.registry.zoneCapacity "zone-a" = .ok c ∧ c.runningCount.toNat ≤ 1 := by
  obtain ⟨h, h', s, s', run, hissued, ⟨id, next, hasks⟩, hwaits, run', hissued', hfirst, hsecond,
    hrow⟩ := Run.contested
  let s₀ : System Bool Outcome := .start .empty fun _ => (Operation.pass contestedRules).program
  have built : Run s₀ [] s₀ := .start
  have hcapacity : 0 < contestedRules.capacityPerInstance := by decide
  have hauto : s₀.registry.IsAuto := ⟨.initial, rfl, rfl⟩
  have hempty : s₀.registry.StoppedEmpty := fun _ _ hr => nomatch hr
  have hids : issuedIn ([] : List (Moment Bool Outcome)) + issuedIn h < 2 ^ 64 := by
    rw [hissued]
    decide
  have hids' : issuedIn ([] : List (Moment Bool Outcome)) + issuedIn (h ++ h') < 2 ^ 64 := by
    rw [hissued']
    decide
  obtain ⟨-, hallocate, -⟩ := Run.provisioned hcapacity built hauto hempty run hids
  obtain ⟨hbound, -⟩ := Run.provisioned hcapacity built hauto hempty (run.append run') hids'
  obtain ⟨c₀, c, n, hc₀, hc, -, hn, hrunning⟩ := hbound "zone-a"
  cases hc₀
  -- one relay leaves a session to spare, so the least number is one at most
  have hone : n ≤ 1 := hn.2 (by decide)
  exact ⟨h, h', s, s', hcapacity, hauto, hempty, run, ⟨id, next, hasks⟩, hwaits,
    hallocate _ _ _ _ _ hasks, run', hissued', hfirst, hsecond, hrow, c, hc,
    hrunning.trans (max_le (by decide) hone)⟩

end RelayFleet
