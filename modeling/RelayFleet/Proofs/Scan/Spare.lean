import RelayFleet.Proofs.Registry.Count
import RelayFleet.Scan.Zone

/-!
# What zones have to spare

A zone wants another relay when its running relays have no more sessions to spare than the threshold
(`ScanRules.Wants`). `Provides` says how far passes change what a zone has to spare: the sessions of
its running relays stay as they are, and one more relay comes to run where the zone wants one.
-/

namespace RelayFleet

/-! ## The counters of a zone -/

namespace Relay

variable {r : Relay}

/-- Only running relays count as running. -/
theorem running_of_ne (h : r.state ≠ .running) : r.running = 0 := if_neg h

/-- A running relay counts as running. -/
theorem running_of_eq (h : r.state = .running) : r.running = 1 := if_pos h

/-- Only running relays have sessions that count. -/
theorem sessions_of_ne (h : r.state ≠ .running) : r.sessions = 0 := if_neg h

/-- A relay without sessions adds none. -/
theorem sessions_of_zero (h : r.activeSessions = 0) : r.sessions = 0 := by
  simp [sessions, h]

end Relay

namespace Registry

/-- The counters of a zone. -/
def capacityOf (g : Registry) (zone : ZoneId) : ZoneCapacity :=
  .ofRelays zone (g.rows.filter (·.zoneId == zone))

variable {g g' : Registry} {zone : ZoneId}

/-- They are what the registry answers where every row decodes. -/
theorem Readable.zoneCapacity (hg : g.Readable) (zone : ZoneId) :
    g.zoneCapacity zone = .ok (g.capacityOf zone) := by
  rw [Registry.zoneCapacity, hg.listRelays]
  rfl

/-- They are what a sound registry answers. -/
theorem Sound.zoneCapacity (hg : g.Sound) (zone : ZoneId) :
    g.zoneCapacity zone = .ok (g.capacityOf zone) :=
  hg.readable.zoneCapacity zone

/-- The counter of running relays. -/
theorem toNat_runningCount (g : Registry) (zone : ZoneId) :
    (g.capacityOf zone).runningCount.toNat = g.zoneTotal zone Relay.running % 2 ^ 32 := by
  rw [capacityOf, ZoneCapacity.runningCount_ofRelays, sum_map_filter]

/-- The counter of sessions. -/
theorem toNat_activeSessions (g : Registry) (zone : ZoneId) :
    (g.capacityOf zone).activeSessions.toNat = g.zoneTotal zone Relay.sessions % 2 ^ 64 := by
  rw [capacityOf, ZoneCapacity.activeSessions_ofRelays, sum_map_filter]

end Registry

namespace ScanRules

/-- The running relays have no more sessions to spare than the threshold. -/
def Wants (rules : ScanRules) (c : ZoneCapacity) : Prop :=
  c.runningCount.toNat * rules.capacityPerInstance.toNat - c.activeSessions.toNat ≤
    rules.standbyThreshold.toNat

variable {rules : ScanRules} {c : ZoneCapacity} {g g' : Registry} {zone : ZoneId}

/-- It is then that a zone is expanded. -/
theorem decision_eq_expand_iff : rules.decision c = .expand ↔ rules.Wants c := by
  simp [decision, capacityDecision, Wants]

/-- What a zone wants depends on its running relays and their sessions. -/
theorem Wants.congr (h : rules.Wants (g.capacityOf zone))
    (hrunning : g'.zoneTotal zone Relay.running = g.zoneTotal zone Relay.running)
    (hsessions : g'.zoneTotal zone Relay.sessions = g.zoneTotal zone Relay.sessions) :
    rules.Wants (g'.capacityOf zone) := by
  rw [Wants, Registry.toNat_runningCount, Registry.toNat_activeSessions] at h ⊢
  rwa [hrunning, hsessions]

/-- A zone that wants a relay has fewer running ones than any number that suffices. -/
theorem Wants.lt (h : rules.Wants c) {n : Nat}
    (hn : rules.standbyThreshold.toNat <
      n * rules.capacityPerInstance.toNat - c.activeSessions.toNat) :
    c.runningCount.toNat < n := by
  by_contra hle
  have hmul := Nat.mul_le_mul_right rules.capacityPerInstance.toNat (Nat.le_of_not_lt hle)
  rw [Wants] at h
  omega

/-- There is a number of relays that suffices. -/
theorem exists_isLeast (hcapacity : 0 < rules.capacityPerInstance) (sessions : Nat) :
    ∃ n, IsLeast {n | rules.standbyThreshold.toNat <
      n * rules.capacityPerInstance.toNat - sessions} n := by
  classical
  have hone : 1 ≤ rules.capacityPerInstance.toNat := UInt32.lt_iff_toNat_lt.mp hcapacity
  have hex : ∃ n, rules.standbyThreshold.toNat <
      n * rules.capacityPerInstance.toNat - sessions := by
    refine ⟨rules.standbyThreshold.toNat + sessions + 1, ?_⟩
    have hmul := Nat.mul_le_mul_left (rules.standbyThreshold.toNat + sessions + 1) hone
    omega
  exact ⟨Nat.find hex, Nat.find_spec hex, fun _ hm => Nat.find_min' hex hm⟩

end ScanRules

/-! ## What passes change -/

namespace Registry

/-- Stopped relays have no sessions. -/
def StoppedEmpty (g : Registry) : Prop :=
  ∀ id r, g.relay? id = some r → r.state = .stopped → r.activeSessions = 0

/-- The sessions of each zone stay as they are, and one more relay may run where the zone wants
one. -/
structure Provides (rules : ScanRules) (g g' : Registry) : Prop where
  mode : g'.mode = g.mode
  stoppedEmpty : g.StoppedEmpty → g'.StoppedEmpty
  sessions : ∀ zone, g'.zoneTotal zone Relay.sessions = g.zoneTotal zone Relay.sessions
  running : ∀ zone, g'.zoneTotal zone Relay.running = g.zoneTotal zone Relay.running ∨
    rules.Wants (g.capacityOf zone) ∧
      g'.zoneTotal zone Relay.running = g.zoneTotal zone Relay.running + 1

variable {rules : ScanRules} {g g' : Registry} {id : RelayId} {r r' : Relay}

/-- Nothing changes where no row does. -/
theorem Provides.of_relays_eq (hrelays : g'.relays = g.relays) (hmode : g'.mode = g.mode) :
    Provides rules g g' where
  mode := hmode
  stoppedEmpty h id r hr := h id r (by rwa [relay?_congr hrelays] at hr)
  sessions zone := zoneTotal_congr hrelays zone _
  running zone := .inl (zoneTotal_congr hrelays zone _)

/-- The stopped relays have no sessions if the written row has none. -/
theorem StoppedEmpty.withRow (h : g.StoppedEmpty) (hr : r.state = .stopped → r.activeSessions = 0) :
    (g.withRow id r).StoppedEmpty := by
  intro k x hk
  rw [relay?_withRow] at hk
  split at hk
  · cases hk
    exact hr
  · exact h k x hk

/-- A relay that does not run goes on not to run. -/
theorem Provides.of_not_running (hr : g.relay? id = some r) (hzone : r'.zoneId = r.zoneId)
    (hstate : r.state ≠ .running) (hstate' : r'.state ≠ .running)
    (hstopped : r'.state = .stopped → r'.activeSessions = 0) :
    Provides rules g (g.withRow id r') where
  mode := rfl
  stoppedEmpty h := h.withRow hstopped
  sessions := zoneTotal_withRow_eq hr hzone
    ((Relay.sessions_of_ne hstate').trans (Relay.sessions_of_ne hstate).symm)
  running zone := .inl (zoneTotal_withRow_eq hr hzone
    ((Relay.running_of_ne hstate').trans (Relay.running_of_ne hstate).symm) zone)

/-- A relay that is not stopped is left in its state. -/
theorem Provides.of_same (hr : g.relay? id = some r) (hzone : r'.zoneId = r.zoneId)
    (hstate : r'.state = r.state) (hsessions : r'.activeSessions = r.activeSessions)
    (hstopped : r.state ≠ .stopped) : Provides rules g (g.withRow id r') where
  mode := rfl
  stoppedEmpty h := h.withRow fun h => absurd (hstate.symm.trans h) hstopped
  sessions := zoneTotal_withRow_eq hr hzone (by simp [Relay.sessions, hstate, hsessions])
  running zone := .inl (zoneTotal_withRow_eq hr hzone (by simp [Relay.running, hstate]) zone)

/-- A relay without sessions comes to run where it is wanted. -/
theorem Provides.of_running (hr : g.relay? id = some r) (hzone : r'.zoneId = r.zoneId)
    (hwants : rules.Wants (g.capacityOf r.zoneId)) (hstate : r.state ≠ .running)
    (hstate' : r'.state = .running) (hsessions : r'.activeSessions = 0) :
    Provides rules g (g.withRow id r') where
  mode := rfl
  stoppedEmpty h := h.withRow fun _ => hsessions
  sessions := zoneTotal_withRow_eq hr hzone
    ((Relay.sessions_of_zero hsessions).trans (Relay.sessions_of_ne hstate).symm)
  running zone := by
    have htotal := zoneTotal_withRow_of_relay? hr hzone zone Relay.running
    rw [Relay.running_of_ne hstate, Relay.running_of_eq hstate', ite_self, Nat.add_zero] at htotal
    by_cases hz : r.zoneId = zone
    · rw [if_pos hz] at htotal
      exact .inr ⟨hz ▸ hwants, htotal⟩
    · rw [if_neg hz] at htotal
      exact .inl htotal

/-- A stopped relay without sessions is stored under a new id. -/
theorem Provides.of_new (hnone : g.relay? id = none) (hstate : r.state = .stopped)
    (hsessions : r.activeSessions = 0) : Provides rules g (g.withRow id r) where
  mode := rfl
  stoppedEmpty h := h.withRow fun _ => hsessions
  sessions := zoneTotal_withRow_new hnone (Relay.sessions_of_zero hsessions)
  running zone := .inl (zoneTotal_withRow_new hnone (Relay.running_of_ne (by simp [hstate])) zone)

/-- A destroyed relay is removed. -/
theorem Provides.of_withoutRow (hr : g.relay? id = some r) (hstate : r.state = .destroyed) :
    Provides rules g (g.withoutRow id) where
  mode := rfl
  stoppedEmpty h k x hk := by
    rw [relay?_withoutRow] at hk
    split at hk
    · cases hk
    · exact h k x hk
  sessions := zoneTotal_withoutRow_eq hr (Relay.sessions_of_ne (by simp [hstate]))
  running zone := .inl (zoneTotal_withoutRow_eq hr (Relay.running_of_ne (by simp [hstate])) zone)

end Registry

end RelayFleet
