import Mathlib.Algebra.Group.Action.Defs
import RelayFleet.Proofs.Scan.Pass

/-!
# The capacities of all zones at once

A pass decides by `zoneCapacities`, which counts the relays of all zones in one go over the rows,
and an expansion checks again by the capacity of its zone alone. Here the two are the same: the
first has an entry for each zone that has a relay (`mem_zoneIds_foldl`), the entry is the capacity
of the zone (`ZoneCapacity.among_eq_of_mem`), and a zone without an entry has an empty capacity
either way.
What a capacity says is read off the rows as long as no counter overflows
(`Counters.ofCapacity_ofRelays`). The main statement is `Registry.Readable.agrees`.
-/

namespace RelayFleet

/-! ## Counters -/

/-- The counters of a capacity, as numbers without bound. -/
structure Counters where
  running : Nat
  sessions : Nat
  transitional : Nat
  stopped : Nat
  total : Nat
deriving Repr, DecidableEq

namespace Counters

/-- The counters of a zone. -/
def ofCapacity (c : ZoneCapacity) : Counters where
  running := c.runningCount.toNat
  sessions := c.activeSessions.toNat
  transitional := c.transitionalCount.toNat
  stopped := c.stoppedCount.toNat
  total := c.totalCount.toNat

/-- What relays add up to. -/
def ofRows (rows : List Relay) : Counters where
  running := (rows.map Relay.running).sum
  sessions := (rows.map Relay.sessions).sum
  transitional := (rows.map Relay.transitional).sum
  stopped := (rows.map Relay.stopped).sum
  total := (rows.map Relay.live).sum

/-- The counters of several zones together. -/
def sum (ns : List Counters) : Counters where
  running := (ns.map (·.running)).sum
  sessions := (ns.map (·.sessions)).sum
  transitional := (ns.map (·.transitional)).sum
  stopped := (ns.map (·.stopped)).sum
  total := (ns.map (·.total)).sum

/-- The counters say how many relays are in which states, and how many sessions the running ones
have. -/
structure Exact (n : Counters) (rows : List Relay) : Prop where
  running_eq : n.running = rows.countP (·.state = .running)
  sessions_eq : n.sessions =
    ((rows.filter (·.state = .running)).map (·.activeSessions.toNat)).sum
  transitional_eq : n.transitional = rows.countP fun r => r.state = .starting ∨ r.state = .stopping
  stopped_eq : n.stopped = rows.countP (·.state = .stopped)
  total_eq : n.total = rows.countP (·.state ≠ .destroyed)
  /-- Besides those that are counted for their state, only relays that are fenced or migrate are
  there. -/
  total_eq_add : n.total = n.running + n.stopped + n.transitional +
    rows.countP fun r => r.state = .ha ∨ r.state = .migrating

/-- A sum of ones counts. -/
theorem sum_map_eq_countP {w : Relay → Nat} {p : Relay → Prop} [DecidablePred p]
    (hw : ∀ r, w r = if p r then 1 else 0) (rows : List Relay) :
    (rows.map w).sum = rows.countP p := by
  induction rows with
  | nil => rfl
  | cons r rows ih =>
    rw [List.map_cons, List.sum_cons, ih, List.countP_cons, hw, Nat.add_comm]
    simp only [decide_eq_true_eq]

/-- A relay that is not destroyed is counted for its state, is fenced or migrates. -/
theorem live_eq_add (r : Relay) : r.live = r.running + r.stopped + r.transitional +
    if r.state = .ha ∨ r.state = .migrating then 1 else 0 := by
  unfold Relay.live Relay.running Relay.stopped Relay.transitional
  cases r.state <;> rfl

/-- What relays add up to says how many are in which states. -/
theorem exact_ofRows (rows : List Relay) : (ofRows rows).Exact rows where
  running_eq := sum_map_eq_countP (fun _ => rfl) rows
  sessions_eq := by
    simp only [ofRows]
    induction rows with
    | nil => rfl
    | cons r rows ih => by_cases hr : r.state = .running <;> simp [Relay.sessions, hr, ih]
  transitional_eq :=
    sum_map_eq_countP (fun r => by simp [Relay.transitional, RelayState.isTransitional]) rows
  stopped_eq := sum_map_eq_countP (fun _ => rfl) rows
  total_eq := sum_map_eq_countP (fun r => by simp [Relay.live, RelayState.isTerminal]) rows
  total_eq_add := by
    have hlive := congrArg (fun w => (rows.map w).sum) (funext live_eq_add)
    simp only [List.sum_map_add] at hlive
    rw [ofRows, hlive, sum_map_eq_countP fun _ => rfl]

/-- The counters of a zone with these relays are what the relays add up to, if there are no more of
them than a counter can count. -/
theorem ofCapacity_ofRelays (zone : ZoneId) {rows : List Relay} (hlt : rows.length < 2 ^ 32) :
    ofCapacity (.ofRelays zone rows) = ofRows rows := by
  have hle : ∀ (w : Relay → Nat) n, (∀ r, w r ≤ n) → (rows.map w).sum ≤ rows.length * n := by
    intro w n hw
    have hsum := List.sum_le_card_nsmul (rows.map w) n fun x hx => by
      obtain ⟨r, -, rfl⟩ := List.mem_map.mp hx
      exact hw r
    rwa [List.length_map, smul_eq_mul] at hsum
  have hcount : ∀ w : Relay → Nat, (∀ r, w r ≤ 1) → (rows.map w).sum % 2 ^ 32 = (rows.map w).sum :=
    fun w hw => Nat.mod_eq_of_lt (by have := hle w 1 hw; omega)
  have hsessions : (rows.map Relay.sessions).sum < 2 ^ 64 := by
    have hbound := hle Relay.sessions (2 ^ 32 - 1) fun r => by
      have hlt := r.activeSessions.toNat_lt
      unfold Relay.sessions
      split <;> omega
    omega
  rw [ofCapacity, ofRows, ZoneCapacity.runningCount_ofRelays, ZoneCapacity.activeSessions_ofRelays,
    ZoneCapacity.transitionalCount_ofRelays, ZoneCapacity.stoppedCount_ofRelays,
    ZoneCapacity.totalCount_ofRelays, Nat.mod_eq_of_lt hsessions, hcount Relay.running,
    hcount Relay.transitional, hcount Relay.stopped, hcount Relay.live]
  all_goals
    intro r
    simp only [Relay.running, Relay.transitional, Relay.stopped, Relay.live]
    split <;> decide

end Counters

/-- A sum over relays is one over zones, if each relay is in exactly one of them. -/
theorem sum_map_zones {zones : List ZoneId} (hnodup : zones.Nodup) {rows : List Relay}
    (hcover : ∀ r ∈ rows, r.zoneId ∈ zones) (w : Relay → Nat) :
    (zones.map fun zone => ((rows.filter (·.zoneId == zone)).map w).sum).sum =
      (rows.map w).sum := by
  induction rows with
  | nil => simp
  | cons r rows ih =>
    obtain ⟨hr, hrows⟩ := List.forall_mem_cons.mp hcover
    have hsplit : ∀ zone, (((r :: rows).filter (·.zoneId == zone)).map w).sum =
        (if r.zoneId = zone then w r else 0) + ((rows.filter (·.zoneId == zone)).map w).sum := by
      intro zone
      by_cases hz : r.zoneId = zone <;> simp [hz]
    have hone : (zones.map fun zone => if r.zoneId = zone then w r else 0).sum = w r := by
      rw [List.sum_map_eq_nsmul_single r.zoneId _ fun zone hne _ => if_neg hne.symm,
        List.count_eq_one_of_mem hnodup hr, if_pos rfl, one_nsmul]
    simp only [hsplit, List.sum_map_add, hone, ih hrows, List.map_cons, List.sum_cons]

/-- What relays add up to in each zone adds up to what all of them do. -/
theorem Counters.sum_ofRows {zones : List ZoneId} (hnodup : zones.Nodup) {rows : List Relay}
    (hcover : ∀ r ∈ rows, r.zoneId ∈ zones) :
    sum (zones.map fun zone => ofRows (rows.filter (·.zoneId == zone))) = ofRows rows := by
  simp only [sum, ofRows, List.map_map, Function.comp_def, sum_map_zones hnodup hcover]

/-! ## The zones that are counted -/

section
variable {cs : List ZoneCapacity} {rows : List Relay} {zone : ZoneId}

/-- A relay that is counted adds its zone at the end, if it is new. -/
theorem zoneIds_countRelay (cs : List ZoneCapacity) (r : Relay) :
    (countRelay cs r).map (·.zoneId) =
      if r.zoneId ∈ cs.map (·.zoneId) then cs.map (·.zoneId)
      else cs.map (·.zoneId) ++ [r.zoneId] := by
  induction cs with
  | nil => simp [countRelay, ZoneCapacity.zoneId_add, ZoneCapacity.empty]
  | cons c cs ih =>
    rw [countRelay]
    by_cases hz : c.zoneId = r.zoneId
    · simp [hz, ZoneCapacity.zoneId_add]
    · rw [if_neg hz, List.map_cons, ih, List.map_cons]
      simp only [List.mem_cons, Ne.symm hz, false_or]
      split <;> rfl

/-- The zones that are counted are those of the relays. -/
theorem mem_zoneIds_foldl : zone ∈ (rows.foldl countRelay cs).map (·.zoneId) ↔
    zone ∈ cs.map (·.zoneId) ∨ ∃ r ∈ rows, r.zoneId = zone := by
  induction rows generalizing cs with
  | nil => simp
  | cons r rows ih =>
    have hone : zone ∈ (countRelay cs r).map (·.zoneId) ↔
        zone ∈ cs.map (·.zoneId) ∨ r.zoneId = zone := by
      rw [zoneIds_countRelay]
      split
      · next hr => exact (or_iff_left_of_imp fun h => h ▸ hr).symm
      · rw [List.mem_append, List.mem_singleton, eq_comm (a := zone)]
    rw [List.foldl_cons, ih, hone, or_assoc, List.exists_mem_cons_iff]

/-- No zone is counted twice. -/
theorem nodup_zoneIds_foldl (hcs : (cs.map (·.zoneId)).Nodup) :
    ((rows.foldl countRelay cs).map (·.zoneId)).Nodup := by
  induction rows generalizing cs with
  | nil => exact hcs
  | cons r rows ih =>
    refine ih ?_
    rw [zoneIds_countRelay]
    split
    · exact hcs
    · next hr => exact hcs.append (List.nodup_singleton _) (by simpa using hr)

/-- Where no zone has two entries, a zone is looked up by its entry. -/
theorem ZoneCapacity.among_eq_of_mem (hcs : (cs.map (·.zoneId)).Nodup) {c : ZoneCapacity}
    (hc : c ∈ cs) : among cs c.zoneId = c := by
  unfold among
  induction cs with
  | nil => cases hc
  | cons x cs ih =>
    obtain ⟨hx, hcs⟩ := List.nodup_cons.mp hcs
    rcases List.mem_cons.mp hc with rfl | hc
    · simp
    · have hne : x.zoneId ≠ c.zoneId := fun h => hx (List.mem_map.mpr ⟨c, hc, h.symm⟩)
      simpa [hne] using ih hcs hc

end

/-! ## The zones of a registry -/

/-- The capacities are those of all zones that have relays, as the registry answers them for each
zone alone, and they add up. -/
structure Registry.Agrees (g : Registry) (cs : List ZoneCapacity) : Prop where
  /-- No zone has two entries. -/
  nodup : (cs.map (·.zoneId)).Nodup
  /-- A zone has an entry exactly when a relay is in it. -/
  mem_iff : ∀ zone, zone ∈ cs.map (·.zoneId) ↔ ∃ r ∈ g.rows, r.zoneId = zone
  /-- An entry is the capacity of its zone. -/
  entry_eq : ∀ c ∈ cs, g.zoneCapacity c.zoneId = .ok c
  /-- A snapshot takes every zone for what the registry does, whether it has an entry or not. -/
  snapshot_eq : ∀ directory zone,
    g.zoneCapacity zone = .ok ((FleetSnapshot.mk directory cs).capacity zone)
  /-- The capacity of a zone counts the relays in it. -/
  exact : ∀ zone c, g.zoneCapacity zone = .ok c →
    c.zoneId = zone ∧ (Counters.ofCapacity c).Exact (g.zoneRows zone)
  /-- The zones together have what all relays are counted to as if they were in one zone. -/
  sum_eq : ∀ zone, .sum (cs.map Counters.ofCapacity) =
    Counters.ofCapacity (.ofRelays zone g.rows)
  /-- The zones together count all relays. -/
  sum_exact : (Counters.sum (cs.map Counters.ofCapacity)).Exact g.rows

namespace Registry

variable {g : Registry}

/-- Where every row decodes the capacities of all zones are answered with. -/
theorem Readable.zoneCapacities (hg : g.Readable) :
    g.zoneCapacities = .ok (RelayFleet.zoneCapacities g.rows) := by
  rw [Registry.zoneCapacities, hg.listRelays, List.filter_true]
  rfl

/-- A capacity is one of its zone. -/
theorem zoneId_capacityOf (g : Registry) (zone : ZoneId) : (g.capacityOf zone).zoneId = zone := by
  have hfold : ∀ (rows : List Relay) c, (rows.foldl ZoneCapacity.add c).zoneId = c.zoneId := by
    intro rows
    induction rows with
    | nil => exact fun _ => rfl
    | cons r rows ih => exact fun c => (ih _).trans (c.zoneId_add r)
  exact hfold _ _

/-- **The capacities of all zones at once agree with those of each zone alone.** In a registry of
which every row decodes and that has fewer rows than a counter can count, the one pass over all
rows has an entry for each zone with a relay and for no other, a snapshot knows every zone as the
registry does, and each capacity counts the relays of its zone in each state, and their sessions, as
all capacities together count those of the fleet. -/
theorem Readable.agrees (hg : g.Readable) (hlt : g.rows.length < 2 ^ 32) :
    ∃ cs, g.zoneCapacities = .ok cs ∧ g.Agrees cs := by
  let cs := RelayFleet.zoneCapacities g.rows
  have hnodup : (cs.map (·.zoneId)).Nodup := nodup_zoneIds_foldl List.nodup_nil
  have hmem : ∀ zone, zone ∈ cs.map (·.zoneId) ↔ ∃ r ∈ g.rows, r.zoneId = zone := fun zone =>
    mem_zoneIds_foldl.trans (or_iff_right List.not_mem_nil)
  have hamong : ∀ zone, ZoneCapacity.among cs zone = g.capacityOf zone :=
    ZoneCapacity.among_foldl g.rows []
  have hcounters : ∀ zone, Counters.ofCapacity (g.capacityOf zone) = .ofRows (g.zoneRows zone) :=
    fun zone => Counters.ofCapacity_ofRelays zone
      (Nat.lt_of_le_of_lt (List.length_filter_le _ _) hlt)
  have hentry : ∀ c ∈ cs, g.capacityOf c.zoneId = c := fun c hc =>
    (hamong _).symm.trans (ZoneCapacity.among_eq_of_mem hnodup hc)
  have hsum : Counters.sum (cs.map Counters.ofCapacity) = .ofRows g.rows := by
    have hmap : cs.map Counters.ofCapacity =
        (cs.map (·.zoneId)).map fun zone => Counters.ofRows (g.zoneRows zone) := by
      rw [List.map_map]
      refine List.map_congr_left fun c hc => ?_
      rw [Function.comp_apply, ← hcounters, hentry c hc]
    rw [hmap]
    exact Counters.sum_ofRows hnodup fun r hr => (hmem _).mpr ⟨r, hr, rfl⟩
  refine ⟨cs, hg.zoneCapacities, hnodup, hmem, fun c hc => ?_, fun directory zone => ?_,
    fun zone c hc => ?_, fun zone => ?_, ?_⟩
  · rw [hg.zoneCapacity, hentry c hc]
  · rw [hg.zoneCapacity, ← hamong]
    rfl
  · rw [hg.zoneCapacity] at hc
    cases hc
    exact ⟨g.zoneId_capacityOf zone, hcounters zone ▸ Counters.exact_ofRows _⟩
  · rw [hsum, Counters.ofCapacity_ofRelays zone hlt]
  · rw [hsum]
    exact Counters.exact_ofRows _

/-- A running relay with three sessions in one zone, and one that migrates in another. -/
def twoZones : Registry :=
  let running : Relay :=
    { Relay.fresh 0 "relay-1" "zone-a" none 0 with state := .running, activeSessions := 3 }
  let migrating : Relay := { Relay.fresh 0 "relay-2" "zone-b" none 0 with state := .migrating }
  (empty.withRow "relay-1" running).withRow "relay-2" migrating

/-- The capacities agree where two zones have relays. -/
theorem Readable.agrees_twoZones :
    twoZones.Readable ∧ twoZones.rows.length < 2 ^ 32 ∧
      ∃ cs, twoZones.zoneCapacities = .ok cs ∧ twoZones.Agrees cs ∧
        "zone-a" ∈ cs.map (·.zoneId) ∧ "zone-b" ∈ cs.map (·.zoneId) := by
  have hsound : twoZones.Sound := Sound.withRow (Sound.withRow sound_empty rfl) rfl
  have hlt : twoZones.rows.length < 2 ^ 32 := calc
    twoZones.rows.length ≤ _ + 1 := length_rows_withRow_le ..
    _ ≤ empty.rows.length + 1 + 1 := Nat.add_le_add_right (length_rows_withRow_le ..) 1
    _ < 2 ^ 32 := by decide
  obtain ⟨cs, hcs, hagrees⟩ := hsound.readable.agrees hlt
  have hmem : ∀ id r, twoZones.relay? id = some r → r.zoneId ∈ cs.map (·.zoneId) := fun id r hr =>
    (hagrees.mem_iff _).mpr ⟨r, hsound.mem_rows.mpr (hsound.id_eq hr ▸ hr), rfl⟩
  refine ⟨hsound.readable, hlt, cs, hcs, hagrees, ?_, ?_⟩
  · exact hmem "relay-1" _ ((relay?_withRow ..).trans (relay?_withRow_self ..))
  · exact hmem "relay-2" _ (relay?_withRow_self ..)

end Registry

end RelayFleet
