import RelayFleet.Proofs.Interleaving.Operation
import RelayFleet.Proofs.Scan.Expansion

/-!
# What a pass does when nobody interrupts it

A pass expands each zone that is due at its beginning once, and touches no other: the expansion of
one zone leaves the rows of the others, so each zone is found as it was when the pass began
(`Alone.sweep`). What becomes of a zone that is expanded is said by `Visited`, of all relays by
`Undiminished`.
-/

namespace RelayFleet

/-! ## The snapshot -/

namespace ZoneCapacity

/-- Counting a relay leaves the zone. -/
theorem zoneId_add (c : ZoneCapacity) (r : Relay) : (c.add r).zoneId = c.zoneId := by
  cases hs : r.state <;> simp [add, hs, RelayState.isTransitional, RelayState.isTerminal]

/-- The capacity of a zone among those of several zones. -/
def among (cs : List ZoneCapacity) (zone : ZoneId) : ZoneCapacity :=
  (cs.find? (·.zoneId == zone)).getD (.empty zone)

/-- A relay is counted for its zone and no other. -/
theorem among_countRelay (cs : List ZoneCapacity) (r : Relay) (zone : ZoneId) :
    among (countRelay cs r) zone =
      if r.zoneId == zone then (among cs zone).add r else among cs zone := by
  unfold among
  induction cs with
  | nil =>
    by_cases hz : r.zoneId = zone <;> simp [countRelay, zoneId_add, empty, hz]
  | cons c cs ih =>
    rw [countRelay]
    split
    · next hr => by_cases hz : r.zoneId = zone <;> simp [hr, hz, zoneId_add]
    · next hr =>
      by_cases hz : c.zoneId = zone
      · have hne : r.zoneId ≠ zone := fun h => hr (hz.trans h.symm)
        simp [hz, hne]
      · simpa [hz] using ih

/-- The relays are counted for their zones. -/
theorem among_foldl (rows : List Relay) (cs : List ZoneCapacity) (zone : ZoneId) :
    among (rows.foldl countRelay cs) zone =
      (rows.filter (·.zoneId == zone)).foldl add (among cs zone) := by
  induction rows generalizing cs with
  | nil => rfl
  | cons r rows ih =>
    rw [List.foldl_cons, ih, among_countRelay, List.filter_cons]
    split <;> rfl

end ZoneCapacity

/-- What a snapshot says of a zone is what its rows say. -/
theorem FleetSnapshot.capacity_eq (d : ZoneDirectory) (g : Registry) (zone : ZoneId) :
    (FleetSnapshot.mk d (zoneCapacities g.rows)).capacity zone = g.capacityOf zone :=
  ZoneCapacity.among_foldl g.rows [] zone

namespace ZoneDirectory

/-- The zone can boot a relay and needs one at all. -/
def IsReady (d : ZoneDirectory) (zone : ZoneId) : Prop :=
  ∃ z ∈ d.zones, z.id = zone ∧ z.enabled ∧ z.hostsUp ≠ 0 ∧ z.bootImageReady ∧
    z.primaryStorageReady ∧ z.relayRequired

/-- No zone is in the directory twice. -/
def IsDistinct (d : ZoneDirectory) : Prop := (d.zones.map (·.id)).Nodup

/-- A zone is found by its id. -/
theorem IsDistinct.find? {d : ZoneDirectory} (hd : d.IsDistinct) {z : ZoneSettings}
    (hz : z ∈ d.zones) : d.zones.find? (·.id == z.id) = some z := by
  obtain ⟨zones, up⟩ := d
  unfold IsDistinct at hd
  dsimp only at hd hz ⊢
  induction zones with
  | nil => cases hz
  | cons y zones ih =>
    obtain ⟨hy, hnodup⟩ := List.nodup_cons.mp hd
    rcases List.mem_cons.mp hz with rfl | hz
    · simp
    · have hne : y.id ≠ z.id := fun h => hy (List.mem_map.mpr ⟨z, hz, h.symm⟩)
      simpa [hne] using ih hnodup hz

end ZoneDirectory

namespace ScanRules

/-- A pass that begins now has to expand the zone. -/
def Due (rules : ScanRules) (d : ZoneDirectory) (g : Registry) (zone : ZoneId) : Prop :=
  d.IsReady zone ∧ rules.Needs (g.capacityOf zone)

/-- The pass acts on the pool. -/
def Acts (rules : ScanRules) (s : FleetSnapshot) (zone : ZoneId) : Prop :=
  s.isReady zone = true ∧ rules.decision (s.capacity zone) = .expand

variable {rules : ScanRules} {d : ZoneDirectory} {g : Registry} {zone : ZoneId}

/-- The zones that are due are the pools on which a pass acts. -/
theorem due_iff (hd : d.IsDistinct) : rules.Due d g zone ↔
    zone ∈ (FleetSnapshot.mk d (zoneCapacities g.rows)).pools ∧
      rules.Acts ⟨d, zoneCapacities g.rows⟩ zone := by
  unfold Due Acts Needs ZoneDirectory.IsReady FleetSnapshot.isReady FleetSnapshot.pools
  rw [FleetSnapshot.capacity_eq, decision_eq_expand_iff]
  simp only [List.mem_map, List.mem_filter]
  constructor
  · rintro ⟨⟨z, hz, rfl, henabled, hready⟩, htransitional, hwants⟩
    refine ⟨⟨z, ⟨hz, henabled⟩, rfl⟩, ?_, hwants⟩
    simp [FleetSnapshot.zone?, hd.find? hz, hready, htransitional]
  · rintro ⟨⟨z, ⟨hz, henabled⟩, rfl⟩, hready, hwants⟩
    simp only [FleetSnapshot.zone?, hd.find? hz, Bool.and_eq_true, decide_eq_true_eq] at hready
    obtain ⟨⟨⟨⟨hhosts, himage⟩, hstorage⟩, hrequired⟩, htransitional⟩ := hready
    exact ⟨⟨z, hz, rfl, henabled, by simpa using hhosts, himage, hstorage, hrequired⟩,
      htransitional, hwants⟩

end ScanRules

/-! ## What becomes of the zones -/

/-- The provisioner is called for this zone. -/
def Deed.Provisions (zone : ZoneId) (d : Deed) : Prop :=
  ∃ c, d.action = .provision c ∧ c.IsFor d.before zone

/-- A call is for one zone. -/
theorem ProvisionCall.IsFor.unique {g : Registry} {c : ProvisionCall} {zone z : ZoneId}
    (h : c.IsFor g zone) (h' : c.IsFor g z) : zone = z := by
  have hrow : ∀ {id}, (∃ r, g.relay? id = some r ∧ r.zoneId = zone) →
      (∃ r, g.relay? id = some r ∧ r.zoneId = z) → zone = z := by
    rintro id ⟨r, hr, rfl⟩ ⟨r', hr', rfl⟩
    rw [hr] at hr'
    cases hr'
    rfl
  cases c with
  | allocate => exact h.symm.trans h'
  | _ => exact hrow h h'

/-- What is for one zone calls the provisioner for no other. -/
theorem Deed.Serves.not_provisions {d : Deed} {zone z : ZoneId} (h : d.Serves zone)
    (hz : z ≠ zone) : ¬ d.Provisions z := by
  rintro ⟨c, hc, hfor⟩
  exact hz (hfor.unique (h c hc))

/-- What is quiet calls the provisioner for no zone. -/
theorem Deed.IsQuiet.not_provisions {d : Deed} (h : d.IsQuiet) (zone : ZoneId) :
    ¬ d.Provisions zone := by
  rintro ⟨c, hc, -⟩
  exact h c hc

/-- What is for a zone is quiet or calls the provisioner for this zone. -/
theorem Deed.Serves.isQuiet_or {d : Deed} {zone : ZoneId} (h : d.Serves zone) :
    d.IsQuiet ∨ d.Provisions zone := by
  by_cases hquiet : d.IsQuiet
  · exact .inl hquiet
  · simp only [IsQuiet, not_forall, not_not] at hquiet
    obtain ⟨c, hc⟩ := hquiet
    exact .inr ⟨c, hc, h c hc⟩

/-- The zone is left as it is. -/
structure LeftAlone (zone : ZoneId) (g : Registry) (l : List Deed) (g' : Registry) : Prop where
  rows_eq : g'.zoneRows zone = g.zoneRows zone
  calls : ∀ d ∈ l, ¬ d.Provisions zone

/-- The zone is expanded with this outcome, from the rows it has. -/
structure Visited (rules : ScanRules) (zone : ZoneId) (g : Registry) (l : List Deed)
    (x : Except ExpandError StageOutcome) (g' : Registry) : Prop where
  running_eq : g'.zoneTotal zone Relay.running =
    g.zoneTotal zone Relay.running + if x = .ok .applied then 1 else 0
  live_le : x = .ok .applied → g.zoneTotal zone Relay.live < 2 ^ 32 →
    g'.zoneTotal zone Relay.live ≤
      max (g.zoneTotal zone Relay.live) rules.launchMaxPerZone.toNat
  of_succeeds : (∀ d ∈ l, ¬ d.Fails) →
    x = .ok .applied ∧ ¬ rules.Full g zone ∨ LeftAlone zone g l g' ∧ rules.Full g zone

/-- What becomes of the relays of all zones. -/
structure Undiminished (g : Registry) (l : List Deed) (g' : Registry) : Prop where
  sound : g'.Sound
  noneAhead : g'.NoneAhead
  mode_eq : g'.mode = g.mode
  relay?_eq : ∀ k r, g.relay? k = some r → r.state ≠ .stopped → g'.relay? k = some r
  of_removed : ∀ k r, g.relay? k = some r → g'.relay? k = none →
    r.state = .stopped ∧ ∃ d ∈ l, d.FailsStart k

/-- Whether a zone is full is seen from its rows. -/
theorem ScanRules.full_congr {rules : ScanRules} {zone : ZoneId} {g g' : Registry}
    (h : g'.zoneRows zone = g.zoneRows zone) : rules.Full g' zone ↔ rules.Full g zone := by
  rw [Full, h, Registry.capacityOf_congr h, Full]

/-- A zone that is left as it is twice is left as it is. -/
theorem LeftAlone.append {zone : ZoneId} {g g₁ g' : Registry} {l₁ l₂ : List Deed}
    (h₁ : LeftAlone zone g l₁ g₁) (h₂ : LeftAlone zone g₁ l₂ g') :
    LeftAlone zone g (l₁ ++ l₂) g' :=
  ⟨h₂.rows_eq.trans h₁.rows_eq, List.forall_mem_append.mpr ⟨h₁.calls, h₂.calls⟩⟩

namespace Visited

variable {rules : ScanRules} {zone : ZoneId} {g g₁ g' : Registry} {l₁ l₂ : List Deed}
  {x : Except ExpandError StageOutcome}

/-- A zone that is expanded may be left as it is before. -/
theorem of_leftAlone (h₁ : LeftAlone zone g l₁ g₁) (h₂ : Visited rules zone g₁ l₂ x g') :
    Visited rules zone g (l₁ ++ l₂) x g' where
  running_eq := by rw [h₂.running_eq, Registry.zoneTotal_congr_rows h₁.rows_eq]
  live_le := by
    rw [← Registry.zoneTotal_congr_rows h₁.rows_eq]
    exact h₂.live_le
  of_succeeds hok := by
    rw [← ScanRules.full_congr h₁.rows_eq]
    exact (h₂.of_succeeds fun d hd => hok d (List.mem_append_right _ hd)).imp_right
      fun h => ⟨h₁.append h.1, h.2⟩

/-- A zone that was expanded may be left as it is afterwards. -/
theorem leftAlone (h₁ : Visited rules zone g l₁ x g₁) (h₂ : LeftAlone zone g₁ l₂ g') :
    Visited rules zone g (l₁ ++ l₂) x g' where
  running_eq := by rw [Registry.zoneTotal_congr_rows h₂.rows_eq, h₁.running_eq]
  live_le := by
    rw [Registry.zoneTotal_congr_rows h₂.rows_eq]
    exact h₁.live_le
  of_succeeds hok :=
    (h₁.of_succeeds fun d hd => hok d (List.mem_append_left _ hd)).imp_right
      fun h => ⟨h.1.append h₂, h.2⟩

end Visited

/-- Nothing is lost where nothing is done. -/
theorem Undiminished.refl {g : Registry} (hg : g.Sound) (hahead : g.NoneAhead) {l : List Deed} :
    Undiminished g l g where
  sound := hg
  noneAhead := hahead
  mode_eq := rfl
  relay?_eq _ _ h _ := h
  of_removed _ _ h hnone := by
    rw [h] at hnone
    cases hnone

/-- What is lost on the way is lost on one part of it. -/
theorem Undiminished.append {g g₁ g' : Registry} {l₁ l₂ : List Deed} (h₁ : Undiminished g l₁ g₁)
    (h₂ : Undiminished g₁ l₂ g') : Undiminished g (l₁ ++ l₂) g' where
  sound := h₂.sound
  noneAhead := h₂.noneAhead
  mode_eq := h₂.mode_eq.trans h₁.mode_eq
  relay?_eq k r hr hstate := h₂.relay?_eq k r (h₁.relay?_eq k r hr hstate) hstate
  of_removed k r hr hgone := by
    cases hmid : g₁.relay? k with
    | none =>
      obtain ⟨hstate, d, hd, hfails⟩ := h₁.of_removed k r hr hmid
      exact ⟨hstate, d, List.mem_append_left _ hd, hfails⟩
    | some r₁ =>
      obtain ⟨hstate, d, hd, hfails⟩ := h₂.of_removed k r₁ hmid hgone
      refine ⟨?_, d, List.mem_append_right _ hd, hfails⟩
      by_contra hne
      rw [h₁.relay?_eq k r hr hne] at hmid
      cases hmid
      exact hne hstate

namespace Expansion

variable {rules : ScanRules} {zone z : ZoneId} {g g' : Registry} {l : List Deed}
  {x : Except ExpandError StageOutcome}

section
variable (h : Expansion rules zone g l x g') (hg : g.Sound) (hahead : g.NoneAhead)
  (hroom : g'.sequence ≠ g.sequence → g.sequence.toNat + 1 < 2 ^ 64)
include h hg hahead hroom

/-- An expansion takes no running relay away. -/
theorem undiminished : Undiminished g l g' where
  sound := h.sound hg
  noneAhead := h.noneAhead hahead hroom
  mode_eq := h.mode_eq
  relay?_eq _ _ hk hr := h.relay?_of_not_stopped hahead hroom hk hr
  of_removed _ _ hk hgone := h.of_removed hk hgone

/-- An expansion of a zone that needs a relay. -/
theorem visited (hneeds : rules.Needs (g.capacityOf zone)) : Visited rules zone g l x g' where
  running_eq := h.running_eq hahead hroom
  live_le := h.live_le hahead hroom
  of_succeeds hok := by
    rcases h.of_succeeds hg hok with ⟨hx, -, hfull⟩ | ⟨-, rfl, hquiet, hidle⟩
    · exact .inl ⟨hx, hfull⟩
    · exact .inr ⟨⟨rfl, fun d hd => (hquiet d hd).not_provisions zone⟩,
        hidle.resolve_left (not_not_intro hneeds)⟩

/-- An expansion leaves the other zones as they are. -/
theorem leftAlone (hserves : ∀ d ∈ l, d.Serves zone) (hz : z ≠ zone) : LeftAlone z g l g' where
  rows_eq := h.zoneRows_eq hahead hroom hg hz
  calls d hd := (hserves d hd).not_provisions hz

end

end Expansion

/-! ## The sweep over the zones -/

/-- The zones that are due are expanded, and the others are left as they are; `names` are those that
a relay was brought up in. -/
structure Swept (rules : ScanRules) (due : ZoneId → Prop) (g : Registry) (l : List Deed)
    (names : List String) (g' : Registry) : Prop where
  undiminished : Undiminished g l g'
  calls : ∀ d ∈ l, d.IsQuiet ∨ ∃ zone, due zone ∧ d.Provisions zone
  visited : ∀ zone, due zone →
    ∃ x, Visited rules zone g l x g' ∧ (zone ∈ names ↔ x = .ok .applied)
  leftAlone : ∀ zone, ¬ due zone → LeftAlone zone g l g' ∧ zone ∉ names

namespace Swept

variable {rules : ScanRules} {due due' : ZoneId → Prop} {g g₁ g' : Registry} {l₁ l₂ : List Deed}
  {names : List String} {zone : ZoneId} {x : Except ExpandError StageOutcome}

/-- Where no zone is due nothing is done. -/
theorem of_none (hg : g.Sound) (hahead : g.NoneAhead) (hquiet : ∀ d ∈ l₁, d.IsQuiet)
    (hdue : ∀ zone, ¬ due zone) : Swept rules due g l₁ [] g where
  undiminished := .refl hg hahead
  calls d hd := .inl (hquiet d hd)
  visited zone h := absurd h (hdue zone)
  leftAlone zone _ :=
    ⟨⟨rfl, fun d hd => (hquiet d hd).not_provisions zone⟩, List.not_mem_nil⟩

/-- Quiet deeds may come before. -/
theorem quiet_append (hg : g.Sound) (hahead : g.NoneAhead) (hquiet : ∀ d ∈ l₁, d.IsQuiet)
    (h : Swept rules due g l₂ names g') : Swept rules due g (l₁ ++ l₂) names g' := by
  have hleft : ∀ zone, LeftAlone zone g l₁ g := fun zone =>
    ⟨rfl, fun d hd => (hquiet d hd).not_provisions zone⟩
  refine ⟨(Undiminished.refl hg hahead).append h.undiminished,
    List.forall_mem_append.mpr ⟨fun d hd => .inl (hquiet d hd), h.calls⟩, ?_, ?_⟩
  · intro zone hzone
    obtain ⟨x, hx, hnames⟩ := h.visited zone hzone
    exact ⟨x, .of_leftAlone (hleft zone) hx, hnames⟩
  · intro zone hzone
    obtain ⟨hrest, hnames⟩ := h.leftAlone zone hzone
    exact ⟨(hleft zone).append hrest, hnames⟩

/-- One zone is expanded before the others. -/
theorem cons (hdue : ∀ z, due z ↔ z = zone ∨ due' z) (hzone : ¬ due' zone)
    (hundiminished : Undiminished g l₁ g₁) (hserves : ∀ d ∈ l₁, d.Serves zone)
    (hvisited : Visited rules zone g l₁ x g₁) (hothers : ∀ z ≠ zone, LeftAlone z g l₁ g₁)
    (h : Swept rules due' g₁ l₂ names g') :
    Swept rules due g (l₁ ++ l₂) ((if x = .ok .applied then [zone] else []) ++ names) g' := by
  obtain ⟨hrest, hnot⟩ := h.leftAlone zone hzone
  have hmem : ∀ {z}, z ≠ zone →
      (z ∈ (if x = .ok .applied then [zone] else []) ++ names ↔ z ∈ names) := by
    intro z hz
    split <;> simp [hz]
  refine ⟨hundiminished.append h.undiminished, List.forall_mem_append.mpr ⟨?_, ?_⟩, ?_, ?_⟩
  · have hin : due zone := (hdue zone).mpr (.inl rfl)
    exact fun d hd => (hserves d hd).isQuiet_or.imp_right fun hp => ⟨zone, hin, hp⟩
  · exact fun d hd => (h.calls d hd).imp_right fun ⟨z, hz, hp⟩ => ⟨z, (hdue z).mpr (.inr hz), hp⟩
  · intro z hz
    by_cases heq : z = zone
    · subst heq
      refine ⟨x, hvisited.leftAlone hrest, ?_⟩
      by_cases hx : x = .ok .applied <;> simp [hx, hnot]
    · obtain ⟨y, hy, hnames⟩ := h.visited z (((hdue z).mp hz).resolve_left heq)
      exact ⟨y, .of_leftAlone (hothers z heq) hy, (hmem heq).trans hnames⟩
  · intro z hz
    have hne : z ≠ zone := fun heq => hz ((hdue z).mpr (.inl heq))
    obtain ⟨hleft, hnames⟩ := h.leftAlone z fun hz' => hz ((hdue z).mpr (.inr hz'))
    exact ⟨(hothers z hne).append hleft, fun hin => hnames ((hmem hne).mp hin)⟩

end Swept

/-- No zone is ever to be shrunk. -/
theorem ScanRules.decision_ne_shrink (rules : ScanRules) (c : ZoneCapacity) :
    rules.decision c ≠ .shrink := by
  simp only [decision, capacityDecision]
  split <;> simp

/-- A zone is put down as expanded if a relay was brought up in it. -/
theorem PassReport.expanded_add (r : PassReport) (zone : ZoneId)
    (x : Except ExpandError StageOutcome) :
    (r.add zone .expand (x.mapError ExpandError.chain)).expanded =
      r.expanded ++ if x = .ok .applied then [zone] else [] := by
  rcases x with e | x
  · simp [add, Except.mapError]
  · cases x <;> simp [add, Except.mapError]

namespace Alone

variable {rules : ScanRules} {s : FleetSnapshot} {g g' : Registry} {l : List Deed}
  {report report' : PassReport} {zone : ZoneId}

/-- One round of the sweep: nothing is done, or the zone is expanded. -/
theorem runPool (hg : g.Sound)
    (h : Alone g (rules.handler.runPool s report zone) l report' g') :
    ¬ rules.Acts s zone ∧ l = [] ∧ g' = g ∧ report'.expanded = report.expanded ∨
      rules.Acts s zone ∧ ∃ x, Expansion rules zone g l x g' ∧ (∀ d ∈ l, d.Serves zone) ∧
        report'.expanded = report.expanded ++ if x = .ok .applied then [zone] else [] := by
  obtain ⟨l₁, ready, g₁, l₂, rfl, h₁, h₂⟩ := h.bind
  obtain ⟨rfl, hready, rfl⟩ := of_pure h₁
  split at h₂
  · next htrue =>
    obtain ⟨l₃, action, g₃, l₄, rfl, h₃, h₄⟩ := h₂.bind
    obtain ⟨rfl, haction, rfl⟩ := of_pure h₃
    have hacts : rules.Acts s zone ↔ action = .expand := by
      rw [ScanRules.Acts, ← haction, and_iff_right (hready.symm.trans htrue)]
    cases action with
    | noOp =>
      obtain ⟨rfl, rfl, rfl⟩ := of_pure h₄
      exact .inl ⟨by simp [hacts], rfl, rfl, rfl⟩
    | shrink => exact absurd haction.symm (rules.decision_ne_shrink _)
    | expand =>
      obtain ⟨l₅, y, g₅, l₆, rfl, h₅, h₆⟩ := h₄.bind
      obtain ⟨l₇, x, g₇, l₈, rfl, h₇, h₈⟩ := h₅.bind
      obtain ⟨rfl, rfl, rfl⟩ := of_pure h₈
      obtain ⟨rfl, rfl, rfl⟩ := of_pure h₆
      obtain ⟨hexpansion, hserves⟩ := expand hg h₇
      simp only [List.nil_append, List.append_nil]
      refine .inr ⟨hacts.mpr rfl, x, hexpansion, hserves, ?_⟩
      rw [PassReport.expanded_add]
      rfl
  · next hfalse =>
    obtain ⟨rfl, rfl, rfl⟩ := of_pure h₂
    refine .inl ⟨fun hacts => hfalse (hready.trans hacts.1), rfl, rfl, rfl⟩

/-- The sweep over zones of which none is there twice. -/
theorem sweep {zones : List ZoneId} (hnodup : zones.Nodup) (hg : g.Sound) (hahead : g.NoneAhead)
    (hroom : g.sequence.toNat + issuedBy l < 2 ^ 64)
    (hneeds : ∀ zone ∈ zones, rules.Acts s zone → rules.Needs (g.capacityOf zone))
    (h : Alone g (zones.foldlM (rules.handler.runPool s) report) l report' g') :
    ∃ names, report'.expanded = report.expanded ++ names ∧
      Swept rules (fun zone => zone ∈ zones ∧ rules.Acts s zone) g l names g' := by
  induction zones generalizing g report l with
  | nil =>
    obtain ⟨rfl, rfl, rfl⟩ := of_pure h
    exact ⟨[], (List.append_nil _).symm, .of_none hg hahead (List.forall_mem_nil _) (by simp)⟩
  | cons zone zones ih =>
    rw [List.foldlM_cons] at h
    obtain ⟨l₁, report₁, g₁, l₂, rfl, h₁, h₂⟩ := h.bind
    obtain ⟨hzone, hnodup⟩ := List.nodup_cons.mp hnodup
    rw [issuedBy_append] at hroom
    have hseq := h₁.toNat_sequence (by omega)
    rcases runPool hg h₁ with ⟨hnot, rfl, rfl, hsame⟩ | ⟨hacts, x, hexpansion, hserves, hadded⟩
    · obtain ⟨names, hnames, hswept⟩ := ih hnodup hg hahead (by simpa using hroom)
        (fun z hz => hneeds z (List.mem_cons_of_mem _ hz)) h₂
      refine ⟨names, hsame ▸ hnames, ?_⟩
      have hdue : ∀ z, z ∈ zone :: zones ∧ rules.Acts s z ↔ z ∈ zones ∧ rules.Acts s z := by
        intro z
        refine and_congr_left fun hz => List.mem_cons.trans (or_iff_right ?_)
        rintro rfl
        exact hnot hz
      simpa only [hdue, List.nil_append] using hswept
    · have hissued : g₁.sequence ≠ g.sequence → g.sequence.toNat + 1 < 2 ^ 64 := by
        intro hne
        have hnat : g₁.sequence.toNat ≠ g.sequence.toNat := fun h => hne (UInt64.toNat_inj.mp h)
        omega
      have hothers : ∀ z ≠ zone, LeftAlone z g l₁ g₁ := fun z hz =>
        hexpansion.leftAlone hg hahead hissued hserves hz
      have hundiminished := hexpansion.undiminished hg hahead hissued
      have hneeds₁ : ∀ z ∈ zones, rules.Acts s z → rules.Needs (g₁.capacityOf z) := by
        intro z hz hz'
        have hne : z ≠ zone := fun heq => hzone (heq ▸ hz)
        rw [Registry.capacityOf_congr (hothers z hne).rows_eq]
        exact hneeds z (List.mem_cons_of_mem _ hz) hz'
      obtain ⟨names, hnames, hswept⟩ := ih hnodup hundiminished.sound hundiminished.noneAhead
        (by omega) hneeds₁ h₂
      have hdue : ∀ z, z ∈ zone :: zones ∧ rules.Acts s z ↔
          z = zone ∨ z ∈ zones ∧ rules.Acts s z := by
        intro z
        rw [List.mem_cons, or_and_right]
        refine or_congr_left (and_iff_left_of_imp ?_)
        rintro rfl
        exact hacts
      refine ⟨_, ?_, hswept.cons hdue (fun h => hzone h.1) hundiminished hserves
        (hexpansion.visited hg hahead hissued (hneeds zone List.mem_cons_self hacts)) hothers⟩
      rw [hnames, hadded, List.append_assoc]

end Alone

/-! ## The whole pass -/

/-- The directory is the one that is seen, if it is looked at. -/
def Action.Shows (d : ZoneDirectory) : (a : Action) → a.Reply → Prop
  | .directory, r => r = d
  | _, _ => True

/-- The directory is the one that is seen, if it is looked at. -/
def Deed.Shows (d : ZoneDirectory) (e : Deed) : Prop := e.action.Shows d e.reply

namespace Alone

variable {rules : ScanRules} {s : FleetSnapshot} {d : ZoneDirectory} {m : ModeRecord}
  {g g' : Registry} {l : List Deed}

/-- A snapshot has the directory and the capacities of the zones. -/
theorem snapshot {x : Except ErrorChain FleetSnapshot} (hg : g.Sound) (hshows : ∀ e ∈ l, e.Shows d)
    (h : Alone g rules.handler.snapshot l x g') :
    x = .ok ⟨d, zoneCapacities g.rows⟩ ∧ g' = g ∧ ∀ e ∈ l, e.IsQuiet := by
  obtain ⟨l₁, y, g₁, l₂, rfl, h₁, h₂⟩ := h.bind
  obtain ⟨rfl, rfl, rfl⟩ := of_pure h₂
  obtain ⟨time, r, l₃, -, rfl, h₃⟩ := performed h₁
  obtain ⟨l₄, l₅, rfl, hlists, h₄⟩ := listed hg h₃
  obtain ⟨rfl, rfl, rfl⟩ := of_pure h₄
  have hr : r = d := hshows _ List.mem_cons_self
  subst hr
  rw [List.filter_true, List.append_nil, List.append_nil]
  refine ⟨rfl, rfl, List.forall_mem_cons.mpr ⟨?_, fun e he => (hlists e he).isQuiet⟩⟩
  exact fun c hc => by cases hc

/-- A tick leaves a mode that is no drain. -/
theorem tick {x : StoreResult Mode} (hmode : g.getMode = .ok m) (hrest : ¬ m.current.isDraining)
    (h : Alone g Management.tick.run l x g') :
    x = .ok m.current ∧ g' = g ∧ ∀ e ∈ l, e.IsQuiet := by
  obtain ⟨time, l₂, rfl, h₂⟩ := attempted h fun _ => congrArg (·, g) hmode
  have hdone : l₂ = [] ∧ x = .ok m.current ∧ g' = g := by
    cases hcurrent : m.current with
    | auto | manual =>
      simp only [hcurrent] at h₂
      exact of_pure h₂
    | suspending | resetSuspending => exact absurd (by rw [hcurrent]; rfl) hrest
  obtain ⟨rfl, hx, rfl⟩ := hdone
  exact ⟨hx, rfl, isQuiet_of_ne (by simp)⟩

/-- A pass may act if the mode is `auto` and storage is up. -/
theorem admits {b : Bool} (hmode : g.getMode = .ok m) (hrest : ¬ m.current.isDraining)
    (h : Alone g (ScanRules.admits s) l b g') :
    (b = true ↔ m.current = .auto ∧ s.directory.storageUp = true) ∧ g' = g ∧
      ∀ e ∈ l, e.IsQuiet := by
  obtain ⟨l₁, x, g₁, l₂, rfl, h₁, h₂⟩ := h.bind
  obtain ⟨rfl, rfl, hquiet⟩ := tick hmode hrest h₁
  have hdone : l₂ = [] ∧ b = (m.current = .auto && s.directory.storageUp) ∧ g' = g₁ := by
    cases hcurrent : m.current <;> simp only [hcurrent] at h₂ <;> exact of_pure h₂
  obtain ⟨rfl, rfl, rfl⟩ := hdone
  rw [List.append_nil]
  exact ⟨by simp, rfl, hquiet⟩

/-- A pass expands the zones that are due if it may act, and does nothing else. -/
theorem runPass {report : PassReport} (hg : g.Sound) (hahead : g.NoneAhead)
    (hmode : g.getMode = .ok m) (hrest : ¬ m.current.isDraining) (hd : d.IsDistinct)
    (hroom : g.sequence.toNat + issuedBy l < 2 ^ 64) (hshows : ∀ e ∈ l, e.Shows d)
    (h : Alone g rules.runPass l report g') :
    Swept rules (fun zone => (m.current = .auto ∧ d.storageUp = true) ∧ rules.Due d g zone) g l
      report.expanded g' := by
  obtain ⟨l₁, report₁, g₁, l₂, rfl, h₁, h₂⟩ := h.bind
  obtain ⟨l₃, _, g₃, l₄, rfl, h₃, h₄⟩ := h₂.bind
  obtain ⟨rfl, rfl, rfl⟩ := of_pure h₃
  obtain ⟨rfl, rfl, rfl⟩ := of_pure h₄
  simp only [List.append_nil] at hroom hshows ⊢
  obtain ⟨l₅, x, g₅, l₆, rfl, h₅, h₆⟩ := h₁.bind
  obtain ⟨rfl, rfl, hquiet⟩ := snapshot hg (List.forall_mem_append.mp hshows).1 h₅
  obtain ⟨l₇, b, g₇, l₈, rfl, h₇, h₈⟩ := h₆.bind
  obtain ⟨hb, rfl, hquiet'⟩ := admits hmode hrest h₇
  refine .quiet_append hg hahead hquiet (.quiet_append hg hahead hquiet' ?_)
  split at h₈
  · next htrue =>
    have hnodup : (FleetSnapshot.mk d (zoneCapacities g₇.rows)).pools.Nodup :=
      hd.sublist (List.filter_sublist.map _)
    rw [issuedBy_append, issuedBy_append] at hroom
    obtain ⟨names, hnames, hswept⟩ := sweep hnodup hg hahead (by omega)
      (fun zone hzone hacts => ((ScanRules.due_iff hd).mpr ⟨hzone, hacts⟩).2) h₈
    rw [hnames]
    show Swept rules _ _ _ names _
    simpa only [← ScanRules.due_iff hd, and_iff_right (hb.mp htrue)] using hswept
  · next hfalse =>
    obtain ⟨rfl, rfl, rfl⟩ := of_pure h₈
    exact .of_none hg hahead (List.forall_mem_nil _) fun zone h => hfalse (hb.mpr h.1)

end Alone

end RelayFleet
