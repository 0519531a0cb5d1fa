import RelayFleet.Proofs.Scan.Additive
import RelayFleet.Proofs.Scan.Provisioning

/-!
# Repeated passes come to rest

Where nothing fails a pass brings up a relay in every zone that is due and has one to start or room
for one, and it leaves the others as they are (`Swept.grows`, `Swept.leftAlone_of_not_canGrow`).
Whether a zone can grow is seen from its rows, so a zone that was left as it is once is left so from
then on. A relay of the stopped pool may bring no sessions to spare with it, so what grows is the
number of running relays, and what bounds it is the number of all relays (`PassesInTurn.settle`).
-/

namespace RelayFleet

/-! ## Zones that can grow -/

namespace ScanRules

variable {rules : ScanRules} {d : ZoneDirectory} {g g' : Registry} {zone : ZoneId}

/-- The zone is due, and has a stopped relay or room for a new one. -/
def CanGrow (rules : ScanRules) (d : ZoneDirectory) (g : Registry) (zone : ZoneId) : Prop :=
  rules.Due d g zone ∧ ¬ rules.Full g zone

/-- Whether a zone can grow is seen from its rows. -/
theorem canGrow_congr (h : g'.zoneRows zone = g.zoneRows zone) :
    rules.CanGrow d g' zone ↔ rules.CanGrow d g zone := by
  rw [CanGrow, Due, Registry.capacityOf_congr h, full_congr h, CanGrow, Due]

/-- A zone that is ready and cannot grow has sessions to spare, or is full. -/
theorem spare_or_full (hlt : g.zoneTotal zone Relay.live < 2 ^ 32)
    (hnot : ¬ rules.CanGrow d g zone) (hready : d.IsReady zone)
    (htransitional : g.zoneTotal zone Relay.transitional = 0) :
    rules.standbyThreshold.toNat < rules.spare g zone ∨
      (∀ r ∈ g.zoneRows zone, r.state ≠ .stopped) ∧
        rules.launchMaxPerZone.toNat ≤ g.zoneTotal zone Relay.live := by
  by_cases hwants : rules.Wants (g.capacityOf zone)
  · have hcount : (g.capacityOf zone).transitionalCount = 0 := by
      rw [← UInt32.toNat_inj, Registry.toNat_transitionalCount_of_lt hlt, htransitional]
      rfl
    obtain ⟨hpool, hlimit⟩ : rules.Full g zone := by
      by_contra hroom
      exact hnot ⟨⟨hready, hcount, hwants⟩, hroom⟩
    rw [UInt32.le_iff_toNat_le, Registry.toNat_totalCount_of_lt hlt] at hlimit
    exact .inr ⟨hpool, hlimit⟩
  · rw [wants_iff hlt, not_le] at hwants
    exact .inl hwants

end ScanRules

namespace Swept

variable {rules : ScanRules} {d : ZoneDirectory} {g g' : Registry} {zone : ZoneId} {l : List Deed}
  {names : List String} (hswept : Swept rules (rules.Due d g) g l names g')
  (hok : ∀ e ∈ l, ¬ e.Fails)
include hswept hok

/-- A zone that cannot grow is left as it is. -/
theorem leftAlone_of_not_canGrow (hnot : ¬ rules.CanGrow d g zone) : LeftAlone zone g l g' := by
  by_cases hdue : rules.Due d g zone
  · obtain ⟨x, hvisited, -⟩ := hswept.visited zone hdue
    rcases hvisited.of_succeeds hok with ⟨-, hroom⟩ | ⟨hleft, -⟩
    · exact absurd ⟨hdue, hroom⟩ hnot
    · exact hleft
  · exact (hswept.leftAlone zone hdue).1

/-- In a zone that can grow one more relay runs. -/
theorem grows (hgrow : rules.CanGrow d g zone) :
    g'.zoneTotal zone Relay.running = g.zoneTotal zone Relay.running + 1 ∧
      (g.zoneTotal zone Relay.live < 2 ^ 32 → g'.zoneTotal zone Relay.live ≤
        max (g.zoneTotal zone Relay.live) rules.launchMaxPerZone.toNat) := by
  obtain ⟨hdue, hroom⟩ := hgrow
  obtain ⟨x, hvisited, -⟩ := hswept.visited zone hdue
  rcases hvisited.of_succeeds hok with ⟨hx, -⟩ | ⟨-, hfull⟩
  · have hrunning := hvisited.running_eq
    rw [if_pos hx] at hrunning
    exact ⟨hrunning, hvisited.live_le hx⟩
  · exact absurd hfull hroom

end Swept

/-! ## Passes that follow each other -/

section
variable {ι : Type} [DecidableEq ι] {rules : ScanRules} {d : ZoneDirectory}

/-- Passes follow each other on a registry in `auto`, with storage up, each without another call,
and neither the provisioner nor the lock fails in any of them. -/
structure PassesInTurn (rules : ScanRules) (d : ZoneDirectory) (g : ℕ → Registry)
    (h : ℕ → List (Moment ι Outcome)) (report : ℕ → PassReport) : Prop where
  sound : (g 0).Sound
  noneAhead : (g 0).NoneAhead
  isAuto : (g 0).IsAuto
  distinct : d.IsDistinct
  storageUp : d.storageUp = true
  lone : ∀ n, LonePass rules d (g n) (h n) (report n) (g (n + 1))
  idsLast : ∀ n, IdsLast (g n) (h n)
  succeeds : ∀ n, ∀ e ∈ h n, ¬ e.deed.Fails

namespace PassesInTurn

variable {g : ℕ → Registry} {h : ℕ → List (Moment ι Outcome)} {report : ℕ → PassReport}
  {zone : ZoneId} (hpasses : PassesInTurn rules d g h report)
include hpasses

/-- Every pass expands the zones that are due when it begins. -/
theorem swept (n : ℕ) : Swept rules (rules.Due d (g n)) (g n) ((h n).map Moment.deed)
    (report n).expanded (g (n + 1)) := by
  have hnext : ∀ n, (g n).Sound → (g n).NoneAhead → (g n).IsAuto →
      Swept rules (rules.Due d (g n)) (g n) ((h n).map Moment.deed) (report n).expanded
        (g (n + 1)) := by
    rintro n hg hahead ⟨m, hmode, hauto⟩
    have hrest : ¬ m.current.isDraining := by
      rw [hauto]
      decide
    have hswept := (hpasses.lone n).swept hg hahead (hpasses.idsLast n) hpasses.distinct hmode hrest
    simpa only [hauto, hpasses.storageUp, and_self, true_and] using hswept
  -- a pass keeps what the next one needs
  have hkept : ∀ n, (g n).Sound ∧ (g n).NoneAhead ∧ (g n).IsAuto := by
    intro n
    induction n with
    | zero => exact ⟨hpasses.sound, hpasses.noneAhead, hpasses.isAuto⟩
    | succ n ih =>
      obtain ⟨hg, hahead, hauto⟩ := ih
      have hundiminished := (hnext n hg hahead hauto).undiminished
      exact ⟨hundiminished.sound, hundiminished.noneAhead, hauto.congr hundiminished.mode_eq⟩
  obtain ⟨hg, hahead, hauto⟩ := hkept n
  exact hnext n hg hahead hauto

/-- No deed of a pass fails. -/
theorem not_fails (n : ℕ) : ∀ e ∈ (h n).map Moment.deed, ¬ e.Fails :=
  List.forall_mem_map.mpr (hpasses.succeeds n)

/-- A zone that cannot grow is left as it is. -/
theorem leftAlone {n : ℕ} (hnot : ¬ rules.CanGrow d (g n) zone) :
    LeftAlone zone (g n) ((h n).map Moment.deed) (g (n + 1)) :=
  (hpasses.swept n).leftAlone_of_not_canGrow (hpasses.not_fails n) hnot

/-- A zone that cannot grow cannot grow later. -/
theorem not_canGrow_of_le {m n : ℕ} (hmn : m ≤ n) (hnot : ¬ rules.CanGrow d (g m) zone) :
    ¬ rules.CanGrow d (g n) zone := by
  induction n, hmn using Nat.le_induction with
  | base => exact hnot
  | succ n _ ih => rwa [ScanRules.canGrow_congr (hpasses.leftAlone ih).rows_eq]

/-- As long as a zone can grow, every pass brings up one of its relays. -/
theorem le_running {n : ℕ} (hgrow : ∀ k < n, rules.CanGrow d (g k) zone) :
    n ≤ (g n).zoneTotal zone Relay.running := by
  induction n with
  | zero => exact Nat.zero_le _
  | succ n ih =>
    obtain ⟨hrunning, -⟩ := (hpasses.swept n).grows (hpasses.not_fails n) (hgrow n n.lt_succ_self)
    rw [hrunning]
    exact Nat.succ_le_succ (ih fun k hk => hgrow k (Nat.lt_succ_of_lt hk))

/-- A zone never has more relays than at the beginning or than the launch limit. -/
theorem live_le (hlt : (g 0).zoneTotal zone Relay.live < 2 ^ 32) (n : ℕ) :
    (g n).zoneTotal zone Relay.live ≤
      max ((g 0).zoneTotal zone Relay.live) rules.launchMaxPerZone.toNat := by
  have hlimit := rules.launchMaxPerZone.toNat_lt
  induction n with
  | zero => exact Nat.le_max_left _ _
  | succ n ih =>
    by_cases hgrow : rules.CanGrow d (g n) zone
    · obtain ⟨-, hlive⟩ := (hpasses.swept n).grows (hpasses.not_fails n) hgrow
      have hle := hlive (by omega)
      omega
    · rw [Registry.zoneTotal_congr_rows (hpasses.leftAlone hgrow).rows_eq]
      exact ih

/-- A zone has stopped to grow when as many passes went by as it may have relays. -/
theorem not_canGrow (hlt : (g 0).zoneTotal zone Relay.live < 2 ^ 32) {n : ℕ}
    (hn : max ((g 0).zoneTotal zone Relay.live) rules.launchMaxPerZone.toNat ≤ n) :
    ¬ rules.CanGrow d (g n) zone := by
  intro hgrow
  have hbefore : ∀ k < n + 1, rules.CanGrow d (g k) zone := fun k hk =>
    by_contra fun hnot => hpasses.not_canGrow_of_le (Nat.lt_succ_iff.mp hk) hnot hgrow
  have hnot : ¬ n + 1 ≤ n := Nat.not_succ_le_self n
  refine hnot ?_
  calc n + 1 ≤ (g (n + 1)).zoneTotal zone Relay.running := hpasses.le_running hbefore
    _ ≤ (g (n + 1)).zoneTotal zone Relay.live :=
      Registry.zoneTotal_mono _ zone Relay.running_le_live
    _ ≤ max ((g 0).zoneTotal zone Relay.live) rules.launchMaxPerZone.toNat :=
      hpasses.live_le hlt (n + 1)
    _ ≤ n := hn

end PassesInTurn

/-- **Repeated passes come to rest.** Take any registry whose rows stand under their ids, none of
them under an id that is still to be issued, with the mode `auto`, and any directory that has each
zone once, with storage up; let passes follow each other, with nothing between them, none of which
the provisioner or the lock fails. Each pass leaves each zone as it is or makes its running relays
one more. For a zone whose relays can be counted, every pass leaves it as it is after as many passes
as it had relays or may have, whichever is more; and if it is ready then and none of its relays is
starting or stopping, it has more to spare than the threshold, or no stopped relay and no room for
another one. -/
theorem PassesInTurn.settle {g : ℕ → Registry} {h : ℕ → List (Moment ι Outcome)}
    {report : ℕ → PassReport} (hpasses : PassesInTurn rules d g h report) :
    (∀ n zone, LeftAlone zone (g n) ((h n).map Moment.deed) (g (n + 1)) ∨
      (g (n + 1)).zoneTotal zone Relay.running = (g n).zoneTotal zone Relay.running + 1) ∧
    ∀ zone, (g 0).zoneTotal zone Relay.live < 2 ^ 32 →
      ∀ n, max ((g 0).zoneTotal zone Relay.live) rules.launchMaxPerZone.toNat ≤ n →
        LeftAlone zone (g n) ((h n).map Moment.deed) (g (n + 1)) ∧
        (d.IsReady zone → (g n).zoneTotal zone Relay.transitional = 0 →
          rules.standbyThreshold.toNat < rules.spare (g n) zone ∨
          (∀ r ∈ (g n).zoneRows zone, r.state ≠ .stopped) ∧
            rules.launchMaxPerZone.toNat ≤ (g n).zoneTotal zone Relay.live) := by
  constructor
  · intro n zone
    by_cases hgrow : rules.CanGrow d (g n) zone
    · exact .inr ((hpasses.swept n).grows (hpasses.not_fails n) hgrow).1
    · exact .inl (hpasses.leftAlone hgrow)
  · intro zone hlt n hn
    have hnot := hpasses.not_canGrow hlt hn
    have hlive := hpasses.live_le hlt n
    have hlimit := rules.launchMaxPerZone.toNat_lt
    exact ⟨hpasses.leftAlone hnot, ScanRules.spare_or_full (by omega) hnot⟩

end

/-! ## A zone that comes to rest -/

/-- A pass leaves a zone that is full. -/
theorem LonePass.resting :
    ∃ (h : List (Moment Unit Outcome)) (report : PassReport),
      LonePass crowdingRules crowdingDirectory launchedRegistry h report launchedRegistry ∧
      issuedIn h = 0 ∧ ∀ e ∈ h, ¬ e.deed.Fails := by
  let s₀ : System Unit Outcome :=
    .start launchedRegistry fun _ => (Operation.pass crowdingRules).program
  have hg : ({ Registry.empty with sequence := 1 } : Registry).Sound := Registry.sound_empty
  have hrows : ∀ keep, Except.ok ([crowdingRelay 1 .running].filter keep) =
      launchedRegistry.listRelays keep :=
    fun keep => (hg.listRelays_withRow_of_empty rfl rfl keep).symm
  have hmode : launchedRegistry.getMode = .ok .initial := rfl
  have admitted := (((Run.start : Run s₀ [] s₀).perform
    () rfl 0 crowdingDirectory trivial).perform () rfl 0 (.ok _) (hrows _)).perform
    () rfl 0 (.ok .initial) hmode.symm
  have counted := ((admitted.perform () rfl 0 (.ok ()) rfl).perform
    () rfl 0 (.ok _) (hrows _)).perform () rfl 0 (.ok _) (hrows _)
  have released := (counted.perform () rfl 0 () trivial).perform () rfl 0 () rfl
  let report : PassReport :=
    { PassReport.empty with
      admitted := true, poolsConsidered := 1, poolsReady := 1, skipped := ["zone-a"] }
  have lone := @LonePass.mk Unit _ crowdingRules crowdingDirectory () _ _ _ report released rfl
    fun _ _ => rfl
  refine ⟨_, report, lone ?_ rfl, rfl, ?_⟩
  · repeat refine List.forall_mem_append.mpr ⟨?_, List.forall_mem_singleton.mpr trivial⟩
    exact List.forall_mem_append.mpr ⟨List.forall_mem_nil _, List.forall_mem_singleton.mpr rfl⟩
  · repeat refine List.forall_mem_append.mpr ⟨?_, List.forall_mem_singleton.mpr id⟩
    exact List.forall_mem_nil _

/-- The first pass brings up the relay of a zone, and those that follow leave it. -/
theorem PassesInTurn.settle_launching :
    ∃ (g : ℕ → Registry) (h : ℕ → List (Moment Unit Outcome)) (report : ℕ → PassReport),
      PassesInTurn crowdingRules crowdingDirectory g h report ∧ g 0 = .empty ∧
      (∀ n, g (n + 1) = launchedRegistry) ∧
      ∀ n, 1 ≤ n → LeftAlone "zone-a" (g n) ((h n).map Moment.deed) (g (n + 1)) := by
  obtain ⟨h₁, report₁, launches, -, hissued, hok⟩ := LonePass.launching
  obtain ⟨h₂, report₂, rests, hissued', hok'⟩ := LonePass.resting
  let g : ℕ → Registry := fun n => n.casesOn .empty fun _ => launchedRegistry
  let h : ℕ → List (Moment Unit Outcome) := fun n => n.casesOn h₁ fun _ => h₂
  let report : ℕ → PassReport := fun n => n.casesOn report₁ fun _ => report₂
  have hids : ∀ n, IdsLast (g n) (h n) := by
    intro n
    cases n with
    | zero => simp [IdsLast, g, h, hissued, Registry.empty]
    | succ n => simp [IdsLast, g, h, hissued', launchedRegistry, Registry.withRow]
  have hpasses : PassesInTurn crowdingRules crowdingDirectory g h report := {
    sound := Registry.sound_empty
    noneAhead := fun n _ => Registry.relay?_empty _
    isAuto := ⟨.initial, rfl, rfl⟩
    distinct := List.nodup_singleton _
    storageUp := rfl
    lone := fun n => n.casesOn launches fun _ => rests
    idsLast := hids
    succeeds := fun n => n.casesOn hok fun _ => hok' }
  have hnone : (g 0).zoneTotal "zone-a" Relay.live = 0 := rfl
  refine ⟨g, h, report, hpasses, rfl, fun _ => rfl, fun n hn => ?_⟩
  refine (hpasses.settle.2 "zone-a" (by simp [hnone]) n ?_).1
  rw [hnone]
  exact hn

end RelayFleet
