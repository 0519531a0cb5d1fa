import RelayFleet.Proofs.Registry.Rows

/-!
# Counting the relays of a zone

The counters of a `ZoneCapacity` as sums over the rows of a registry. They are numbers of fixed
width, so each of them is the sum modulo its range.
-/

namespace RelayFleet

/-! ## What a relay adds to the counters of its zone -/

namespace Relay

/-- Counts a running relay. -/
def running (r : Relay) : Nat := if r.state = .running then 1 else 0

/-- The sessions of a running relay. -/
def sessions (r : Relay) : Nat := if r.state = .running then r.activeSessions.toNat else 0

/-- Counts a relay that is starting or stopping. -/
def transitional (r : Relay) : Nat := if r.state.isTransitional then 1 else 0

/-- Counts a relay of the stopped pool. -/
def stopped (r : Relay) : Nat := if r.state = .stopped then 1 else 0

/-- Counts a relay that is not destroyed. -/
def live (r : Relay) : Nat := if r.state.isTerminal then 0 else 1

end Relay

namespace ZoneCapacity

/-- A counter of fixed width that each relay adds to holds the sum modulo its range. -/
theorem foldl_add_eq (count : ZoneCapacity → Nat) (w : Relay → Nat) {n : Nat}
    (hlt : ∀ c, count c < n) (hadd : ∀ c r, count (c.add r) = (count c + w r) % n)
    (relays : List Relay) (c : ZoneCapacity) :
    count (relays.foldl add c) = (count c + (relays.map w).sum) % n := by
  induction relays generalizing c with
  | nil => exact (Nat.mod_eq_of_lt (hlt c)).symm
  | cons r relays ih =>
    rw [List.foldl_cons, ih, hadd, List.map_cons, List.sum_cons, Nat.mod_add_mod, Nat.add_assoc]

section
variable (zone : ZoneId) (relays : List Relay)

/-- The running relays are counted. -/
theorem runningCount_ofRelays :
    (ofRelays zone relays).runningCount.toNat = (relays.map Relay.running).sum % 2 ^ 32 := by
  refine (foldl_add_eq (·.runningCount.toNat) Relay.running (fun c => c.runningCount.toNat_lt)
    (fun c r => ?_) relays (empty zone)).trans (by simp [empty])
  cases hs : r.state <;>
    simp [add, hs, Relay.running, RelayState.isTransitional, RelayState.isTerminal]

/-- The sessions of the running relays are counted. -/
theorem activeSessions_ofRelays :
    (ofRelays zone relays).activeSessions.toNat = (relays.map Relay.sessions).sum % 2 ^ 64 := by
  refine (foldl_add_eq (·.activeSessions.toNat) Relay.sessions (fun c => c.activeSessions.toNat_lt)
    (fun c r => ?_) relays (empty zone)).trans (by simp [empty])
  cases hs : r.state <;>
    simp [add, hs, Relay.sessions, RelayState.isTransitional, RelayState.isTerminal]

/-- The relays that are starting or stopping are counted. -/
theorem transitionalCount_ofRelays :
    (ofRelays zone relays).transitionalCount.toNat =
      (relays.map Relay.transitional).sum % 2 ^ 32 := by
  refine (foldl_add_eq (·.transitionalCount.toNat) Relay.transitional
    (fun c => c.transitionalCount.toNat_lt) (fun c r => ?_) relays (empty zone)).trans
    (by simp [empty])
  cases hs : r.state <;>
    simp [add, hs, Relay.transitional, RelayState.isTransitional, RelayState.isTerminal]

/-- The stopped relays are counted. -/
theorem stoppedCount_ofRelays :
    (ofRelays zone relays).stoppedCount.toNat = (relays.map Relay.stopped).sum % 2 ^ 32 := by
  refine (foldl_add_eq (·.stoppedCount.toNat) Relay.stopped (fun c => c.stoppedCount.toNat_lt)
    (fun c r => ?_) relays (empty zone)).trans (by simp [empty])
  cases hs : r.state <;>
    simp [add, hs, Relay.stopped, RelayState.isTransitional, RelayState.isTerminal]

/-- The relays that are not destroyed are counted. -/
theorem totalCount_ofRelays :
    (ofRelays zone relays).totalCount.toNat = (relays.map Relay.live).sum % 2 ^ 32 := by
  refine (foldl_add_eq (·.totalCount.toNat) Relay.live (fun c => c.totalCount.toNat_lt)
    (fun c r => ?_) relays (empty zone)).trans (by simp [empty])
  cases hs : r.state <;>
    simp [add, hs, Relay.live, RelayState.isTransitional, RelayState.isTerminal]

end

end ZoneCapacity

/-! ## Sums over the relays of a zone -/

namespace Registry

/-- The sum of a weight over the relays of a zone. -/
def zoneTotal (g : Registry) (zone : ZoneId) (w : Relay → Nat) : Nat :=
  g.total fun r => if r.zoneId = zone then w r else 0

/-- The sum of a weight over the rows that are listed for a zone. -/
theorem sum_map_filter (g : Registry) (zone : ZoneId) (w : Relay → Nat) :
    ((g.rows.filter (·.zoneId == zone)).map w).sum = g.zoneTotal zone w := by
  unfold zoneTotal total
  induction g.rows with
  | nil => rfl
  | cons r rows ih =>
    rw [List.filter_cons]
    by_cases hr : r.zoneId = zone <;> simp [hr, ih]

/-- A written row changes the sum of its zone. -/
theorem zoneTotal_withRow (g : Registry) (id : RelayId) (r : Relay) (zone : ZoneId)
    (w : Relay → Nat) :
    (g.withRow id r).zoneTotal zone w +
        (g.relay? id).elim 0 (fun r => if r.zoneId = zone then w r else 0) =
      g.zoneTotal zone w + if r.zoneId = zone then w r else 0 :=
  g.total_withRow id r _

/-- A row that is written over changes the sum of its zone. -/
theorem zoneTotal_withRow_of_relay? {g : Registry} {id : RelayId} {r r' : Relay}
    (hr : g.relay? id = some r) (hzone : r'.zoneId = r.zoneId) (zone : ZoneId) (w : Relay → Nat) :
    (g.withRow id r').zoneTotal zone w + (if r.zoneId = zone then w r else 0) =
      g.zoneTotal zone w + if r.zoneId = zone then w r' else 0 := by
  have htotal := g.zoneTotal_withRow id r' zone w
  rwa [hr, Option.elim, hzone] at htotal

/-- A row that is written over by one of the same weight leaves the sum. -/
theorem zoneTotal_withRow_eq {g : Registry} {id : RelayId} {r r' : Relay}
    (hr : g.relay? id = some r) (hzone : r'.zoneId = r.zoneId) {w : Relay → Nat} (hw : w r' = w r)
    (zone : ZoneId) : (g.withRow id r').zoneTotal zone w = g.zoneTotal zone w := by
  have htotal := zoneTotal_withRow_of_relay? hr hzone zone w
  rw [hw] at htotal
  exact Nat.add_right_cancel htotal

/-- A new row without weight leaves the sum. -/
theorem zoneTotal_withRow_new {g : Registry} {id : RelayId} {r : Relay} (hnone : g.relay? id = none)
    {w : Relay → Nat} (hw : w r = 0) (zone : ZoneId) :
    (g.withRow id r).zoneTotal zone w = g.zoneTotal zone w := by
  have htotal := g.zoneTotal_withRow id r zone w
  rwa [hnone, hw, ite_self] at htotal

/-- A removed row changes the sum of its zone. -/
theorem zoneTotal_withoutRow (g : Registry) (id : RelayId) (zone : ZoneId) (w : Relay → Nat) :
    (g.withoutRow id).zoneTotal zone w +
        (g.relay? id).elim 0 (fun r => if r.zoneId = zone then w r else 0) =
      g.zoneTotal zone w :=
  g.total_withoutRow id _

/-- A row without weight is removed without a change of the sum. -/
theorem zoneTotal_withoutRow_eq {g : Registry} {id : RelayId} {r : Relay}
    (hr : g.relay? id = some r) {w : Relay → Nat} (hw : w r = 0) (zone : ZoneId) :
    (g.withoutRow id).zoneTotal zone w = g.zoneTotal zone w := by
  have htotal := g.zoneTotal_withoutRow id zone w
  rwa [hr, Option.elim, hw, ite_self] at htotal

/-- The sum is one over the rows. -/
theorem zoneTotal_congr {g g' : Registry} (h : g'.relays = g.relays) (zone : ZoneId)
    (w : Relay → Nat) : g'.zoneTotal zone w = g.zoneTotal zone w := by
  unfold zoneTotal total rows
  rw [h]

end Registry

end RelayFleet
