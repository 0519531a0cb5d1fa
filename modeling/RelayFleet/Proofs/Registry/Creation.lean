import Mathlib.Data.List.Pairwise
import RelayFleet.Proofs.Allocation.Undisturbed
import RelayFleet.Proofs.Registry.Order
import RelayFleet.Proofs.Registry.Reuse
import RelayFleet.Proofs.Scan.Expansion

/-!
# The order in which relays were created

A relay is created when its id is issued, and ids are issued in the order of their numbers
(`Reopened.issuedIds_eq`). Listings are in the order of the texts of the ids, so they are in the
order of creation exactly where no id overtakes another one (`Reopened.sublist_iff`). This is so
while fewer than a million ids were issued, and then the oldest relay is picked and restarted first
(`Reopened.inCreationOrder_iff`); the millionth relay comes before the one that was made before it
(`Reopened.not_always_inCreationOrder`).
-/

namespace RelayFleet

/-! ## Ids in the order in which they were issued -/

section
variable {ι α : Type} [DecidableEq ι] {h : List (Moment ι α)} {s s₀ : System ι α}

/-- Only where the next id is asked for an id is given. -/
theorem Action.given?_of_not_issues {a : Action} (ha : ¬ a.issues) (r : a.Reply) :
    a.given? r = none := by
  cases a with
  | transact t => cases t <;> first | rfl | exact absurd rfl ha
  | _ => rfl

/-- The ids that are issued in a run are those with the next numbers. -/
theorem Run.issuedIds_eq (run : Run s₀ h s) (hids : IdsLast s₀.registry h) :
    s.registry.sequence.toNat = s₀.registry.sequence.toNat + issuedIn h ∧
      issuedIds h = (List.range' (s₀.registry.sequence.toNat + 1) (issuedIn h)).map
        fun k => Registry.relayId (.ofNat k) := by
  induction run with
  | start => exact ⟨rfl, rfl⟩
  | @step h s s' m run hs ih =>
    obtain ⟨hsequence, hissued⟩ := ih hids.of_snoc
    obtain ⟨i, a, time, r⟩ := m
    rw [IdsLast, issuedIn_snoc] at hids
    dsimp only at hids
    rw [hs.registry_eq, issuedIn_snoc, issuedIds_snoc, hissued]
    dsimp only
    rw [a.toNat_sequence_registryAfter time (by omega), hsequence]
    refine ⟨Nat.add_assoc .., ?_⟩
    by_cases ha : a.issues
    · obtain rfl : a = .transact .nextRelayId := by
        cases a with
        | transact t => cases t <;> first | rfl | cases ha
        | _ => cases ha
      obtain rfl : r = .ok s.registry.nextRelayId.1 := hs.answers
      rw [if_pos ha] at hids ⊢
      have hnext : s.registry.sequence + 1 =
          .ofNat (s₀.registry.sequence.toNat + 1 + issuedIn h) := by
        rw [← UInt64.toNat_inj, UInt64.toNat_ofNat_of_lt' (by rw [UInt64.size]; omega)]
        exact (Registry.toNat_sequence_nextRelayId (by omega)).trans (by omega)
      rw [List.range'_1_concat, List.map_append, List.map_singleton, ← hnext]
      rfl
    · rw [if_neg ha, Nat.add_zero, Action.given?_of_not_issues ha]
      exact List.append_nil _

end

/-- A relay that stands in the registry has an id that was issued. -/
theorem Standing.mem_issuedIds {ι : Type} {h : List (Moment ι Outcome)} {g : Registry}
    (standing : Standing h g) {id : RelayId} (hid : g.relay? id ≠ none) : id ∈ issuedIds h :=
  standing.unreused.stored id (standing.unreused.rows id hid)

section
variable {ι : Type} [DecidableEq ι] {h : List (Moment ι Outcome)} {g : Registry}

/-- The ids that a registry has issued since its creation are the first ones. -/
theorem Reopened.issuedIds_eq (past : Reopened h g) (hids : issuedIn h < 2 ^ 64) :
    issuedIds h = (List.range' 1 (issuedIn h)).map fun k => Registry.relayId (.ofNat k) := by
  induction past with
  | new => rfl
  | @runs h h' g calls s past run ih =>
    rw [issuedIn_append] at hids
    have hsequence := (past.standing (by omega)).sequence_eq
    have hrest := (run.issuedIds_eq (by rw [IdsLast, System.start, hsequence]; exact hids)).2
    rw [System.start, hsequence, Nat.add_comm _ 1] at hrest
    rw [issuedIn_append, issuedIds, List.filterMap_append]
    change issuedIds h ++ issuedIds h' = _
    rw [ih (by omega), hrest, ← List.map_append, List.range'_append_1]

/-- The one id was issued before the other. -/
def IssuedBefore (h : List (Moment ι Outcome)) (a b : RelayId) : Prop :=
  [a, b].Sublist (issuedIds h)

/-- The first id has a smaller number than the second one. -/
def ByNumber (a b : RelayId) : Prop :=
  ∃ m n, m < n ∧ a = Registry.relayId m ∧ b = Registry.relayId n

/-- Ids are issued in the order of their numbers. -/
theorem Reopened.pairwise_issuedIds (past : Reopened h g) (hids : issuedIn h < 2 ^ 64) :
    (issuedIds h).Pairwise ByNumber := by
  rw [past.issuedIds_eq hids, List.pairwise_map]
  refine List.Pairwise.imp_of_mem (fun {m n} hm hn hlt => ?_) List.pairwise_lt_range'
  rw [List.mem_range'_1] at hm hn
  refine ⟨.ofNat m, .ofNat n, ?_, rfl, rfl⟩
  rw [UInt64.lt_iff_toNat_lt, UInt64.toNat_ofNat_of_lt' (by rw [UInt64.size]; omega),
    UInt64.toNat_ofNat_of_lt' (by rw [UInt64.size]; omega)]
  exact hlt

/-- A number is smaller than another one if its id was issued before. -/
theorem ByNumber.lt {m n : UInt64} (h : ByNumber (Registry.relayId m) (Registry.relayId n)) :
    m < n := by
  obtain ⟨m', n', hlt, hm, hn⟩ := h
  rwa [Registry.relayId_injective hm, Registry.relayId_injective hn]

/-- Ids that were issued and ascend are in the order in which they were issued if none of them
overtakes another one. -/
theorem Reopened.sublist_iff (past : Reopened h g) (hids : issuedIn h < 2 ^ 64) {l : List RelayId}
    (hasc : l.Pairwise (· < ·)) (hissued : ∀ id ∈ l, id ∈ issuedIds h) :
    l.Sublist (issuedIds h) ↔
      ∀ m n, Registry.relayId m ∈ l → Registry.relayId n ∈ l → ¬ Registry.Overtakes n m := by
  have hnumbers := past.pairwise_issuedIds hids
  constructor
  · intro hsub m n hm hn hover
    -- of any two of them one comes first in both orders
    let together (a b : RelayId) : Prop := a < b ∧ ByNumber a b ∨ b < a ∧ ByNumber b a
    have : Std.Symm together := ⟨fun _ _ => Or.symm⟩
    have hall : l.Pairwise together :=
      (hasc.and (hnumbers.sublist hsub)).imp fun hab => .inl hab
    have hne : Registry.relayId m ≠ Registry.relayId n := fun heq => by
      have := Registry.relayId_injective heq
      subst this
      exact UInt64.lt_irrefl _ hover.1
    rcases hall.forall hm hn hne with ⟨hlt, -⟩ | ⟨-, hnumber⟩
    · exact (Registry.relayId_lt_iff hover.1).mp hlt hover
    · exact UInt64.lt_asymm hover.1 hnumber.lt
  · intro hnone
    have : Std.Antisymm ByNumber := ⟨by
      rintro _ _ ⟨m, n, hlt, rfl, rfl⟩ hback
      exact absurd hback.lt (UInt64.lt_asymm hlt)⟩
    have hnodup : l.Nodup := hasc.imp fun hlt heq => by
      subst heq
      exact String.lt_irrefl _ hlt
    refine List.sublist_of_subperm_of_pairwise (List.subperm_of_subset hnodup hissued) ?_ hnumbers
    refine hasc.imp_of_mem fun {a b} ha hb hlt => ?_
    have hnumber : ∀ id ∈ issuedIds h, ∃ n, id = Registry.relayId n := by
      intro id hid
      rw [past.issuedIds_eq hids] at hid
      obtain ⟨k, -, rfl⟩ := List.mem_map.mp hid
      exact ⟨_, rfl⟩
    obtain ⟨m, rfl⟩ := hnumber a (hissued a ha)
    obtain ⟨n, rfl⟩ := hnumber b (hissued b hb)
    refine ⟨m, n, ?_, rfl, rfl⟩
    by_contra hnot
    rcases UInt64.lt_or_eq_of_le (UInt64.not_lt.mp hnot) with hgt | rfl
    · exact String.lt_irrefl _
        (String.lt_trans hlt ((Registry.relayId_lt_iff hgt).mpr (hnone n m hb ha)))
    · exact String.lt_irrefl _ hlt

/-- None of fewer than a million ids overtakes another one. -/
theorem Reopened.not_overtakes (past : Reopened h g) (hfew : issuedIn h < 1000000) {m n : UInt64}
    (hn : Registry.relayId n ∈ issuedIds h) : ¬ Registry.Overtakes n m := by
  intro hover
  rw [past.issuedIds_eq (by omega)] at hn
  obtain ⟨k, hk, heq⟩ := List.mem_map.mp hn
  rw [List.mem_range'_1] at hk
  have hlarge := hover.million_le
  rw [← Registry.relayId_injective heq, UInt64.toNat_ofNat_of_lt' (by rw [UInt64.size]; omega)]
    at hlarge
  omega

/-- Fewer than a million ids are issued in the order of the texts. -/
theorem Reopened.issuedBefore (past : Reopened h g) (hfew : issuedIn h < 1000000) {a b : RelayId}
    (hlt : a < b) (ha : g.relay? a ≠ none) (hb : g.relay? b ≠ none) : IssuedBefore h a b := by
  have standing := past.standing (by omega)
  have hissued : ∀ id ∈ [a, b], id ∈ issuedIds h := by
    simpa using ⟨standing.mem_issuedIds ha, standing.mem_issuedIds hb⟩
  refine (past.sublist_iff (by omega) (by simpa using hlt) hissued).mpr fun m n _ hn => ?_
  exact past.not_overtakes hfew (hissued _ hn)

/-- The relays of a listing have ids that were issued, and they are in the order of creation if none
of the ids overtakes another one. -/
theorem Reopened.listing (past : Reopened h g) (hids : issuedIn h < 2 ^ 64) (keep : Relay → Bool) :
    ∃ relays, g.listRelays keep = .ok relays ∧
      ((relays.map (·.id)).Sublist (issuedIds h) ↔ ∀ m n,
        Registry.relayId m ∈ relays.map (·.id) → Registry.relayId n ∈ relays.map (·.id) →
        ¬ Registry.Overtakes n m) ∧
      (∀ id ∈ relays.map (·.id), id ∈ issuedIds h) := by
  have standing := past.standing hids
  have hissued : ∀ id ∈ (g.rows.filter keep).map (·.id), id ∈ issuedIds h := by
    intro id hid
    obtain ⟨r, hr, rfl⟩ := List.mem_map.mp hid
    have hrow := standing.sound.mem_rows.mp (List.mem_filter.mp hr).1
    exact standing.mem_issuedIds (by rw [hrow]; exact Option.some_ne_none r)
  refine ⟨_, standing.sound.listRelays keep, past.sublist_iff hids ?_ hissued, hissued⟩
  exact List.pairwise_map.mpr (standing.sound.pairwise_rows.filter keep)

/-! ## The oldest relay first -/

/-- The relays come in the order in which they were created. -/
structure InCreationOrder (h : List (Moment ι Outcome)) (g : Registry) : Prop where
  /-- Every id is greater than those that were issued before. -/
  issues : (issuedIds h).Pairwise fun a b => Text.bytes a < Text.bytes b
  /-- Listings have the relays in the order in which their ids were issued. -/
  lists : ∀ keep, ∃ relays, g.listRelays keep = .ok relays ∧
    (relays.map (·.id)).Sublist (issuedIds h)
  /-- First fit picks the oldest of the running relays of a zone that have room. -/
  picks : ∀ (rules : AssignRules) zone l r g', rules.policy = .firstFit →
    Alone g (rules.selectFromPool zone).run l (.ok r) g' →
    ∀ x, rules.Eligible zone g x → x = r ∨ IssuedBefore h r.id x.id
  /-- An expansion restarts the oldest of the stopped relays of a zone. -/
  restarts : ∀ (rules : ScanRules) zone l x g' id, Alone g (rules.expandLocked zone).run l x g' →
    l.findSome? Deed.changed? = some id →
    ∀ k r, g.Pooled zone k r → k = id ∨ IssuedBefore h id k

/-- Fewer than a million ids keep the order of creation. -/
theorem Reopened.inCreationOrder (past : Reopened h g) (hfew : issuedIn h < 1000000) :
    InCreationOrder h g where
  issues := by
    refine (past.pairwise_issuedIds (by omega)).imp_of_mem fun {a b} _ hb hnumber => ?_
    obtain ⟨m, n, hlt, rfl, rfl⟩ := hnumber
    rw [Text.bytes_lt_iff, Registry.relayId_lt_iff hlt]
    exact past.not_overtakes hfew hb
  lists keep := by
    obtain ⟨relays, hlist, hiff, hissued⟩ := past.listing (by omega) keep
    exact ⟨relays, hlist, hiff.mpr fun m n _ hn => past.not_overtakes hfew (hissued _ hn)⟩
  picks rules zone l r g' hpolicy h x hx := by
    obtain ⟨-, -, ⟨r', hr, picks⟩ | ⟨hr, -⟩⟩ := h.selectFromPool (past.standing (by omega)).sound
    · cases hr
      refine (picks.preferred x hx).imp_right fun hprefers => ?_
      rw [hpolicy] at hprefers
      refine past.issuedBefore hfew hprefers ?_ ?_
      · rw [picks.eligible.row]
        exact Option.some_ne_none r
      · rw [hx.row]
        exact Option.some_ne_none x
    · cases hr
  restarts rules zone l x g' id h hid k r pooled := by
    obtain ⟨⟨first, hfirst⟩, hlt⟩ :=
      h.changes_first_pooled (past.standing (by omega)).sound hid pooled
    refine hlt.imp_right fun hlt => past.issuedBefore hfew hlt ?_ ?_
    · rw [hfirst.relay?_eq]
      exact Option.some_ne_none first
    · rw [pooled.relay?_eq]
      exact Option.some_ne_none r

/-- **The order of keys is that of creation up to the millionth relay, and not from there on.**
Whatever a registry goes through since its creation: every id that it issues is greater than those
before, listings have the relays in the order in which they were created, and the oldest relay is
picked and restarted first, exactly as long as fewer than a million ids were issued. A listing is in
that order exactly if no id in it overtakes another one. -/
theorem Reopened.inCreationOrder_iff (past : Reopened h g) (hids : issuedIn h < 2 ^ 64) :
    (InCreationOrder h g ↔ issuedIn h < 1000000) ∧
      ∀ keep, ∃ relays, g.listRelays keep = .ok relays ∧
        ((relays.map (·.id)).Sublist (issuedIds h) ↔ ∀ m n,
          Registry.relayId m ∈ relays.map (·.id) → Registry.relayId n ∈ relays.map (·.id) →
          ¬ Registry.Overtakes n m) := by
  refine ⟨⟨fun law => ?_, past.inCreationOrder⟩, fun keep => ?_⟩
  · by_contra hmany
    have hissues := law.issues
    rw [past.issuedIds_eq hids, List.pairwise_map, List.pairwise_iff_getElem] at hissues
    have hlast := hissues 999998 999999 (by rw [List.length_range']; omega)
      (by rw [List.length_range']; omega) (by omega)
    rw [List.getElem_range', List.getElem_range', Text.bytes_lt_iff] at hlast
    exact (Registry.relayId_lt_iff (by decide)).mp hlast Registry.overtakes_million
  · obtain ⟨relays, hlist, hiff, -⟩ := past.listing hids keep
    exact ⟨relays, hlist, hiff⟩

end

/-! ## A million relays -/

/-- A relay is made. -/
def creatingCall : Operation := .create "zone-a" default

/-- A relay is made by one of the callers who want one. -/
theorem Run.creates {s : System ℕ Outcome} {i : ℕ} (hcall : s.calls i = creatingCall.program) :
    ∃ h s', Run s h s' ∧ issuedIn h = 1 ∧ (∀ j, j ≠ i → s'.calls j = s.calls j) ∧
      ∃ r : Relay, r.id = s.registry.nextRelayId.1 ∧
        s'.registry = s.registry.nextRelayId.2.putRelay r := by
  have made := (((((Run.start : Run s [] s).perform i hcall 0
    (.ok s.registry.nextRelayId.1) rfl).perform
    i (Function.update_self ..) 0 (.ok ⟨none, 0⟩) trivial).perform
    i (Function.update_self ..) 0 0 rfl).perform
    i (Function.update_self ..) 0 (.ok ()) rfl).perform
    i (Function.update_self ..) 0 () trivial
  refine ⟨_, _, made, rfl, fun j hj => ?_, _, rfl, rfl⟩
  simp only [Function.update_of_ne hj]

/-- Any number of relays can be made. -/
theorem Run.creating (n : Nat) :
    ∃ (h : List (Moment ℕ Outcome)) (s : System ℕ Outcome),
      Run (System.start .empty fun _ => creatingCall.program) h s ∧ issuedIn h = n ∧
      s.registry.sequence = .ofNat n ∧ (∀ i, n ≤ i → s.calls i = creatingCall.program) ∧
      ∀ k, 1 ≤ k → k ≤ n → s.registry.relay? (Registry.relayId (.ofNat k)) ≠ none := by
  induction n with
  | zero => exact ⟨[], _, .start, rfl, rfl, fun _ _ => rfl, fun k h1 h0 => absurd h1 (by omega)⟩
  | succ n ih =>
    obtain ⟨h, s, run, hissued, hsequence, hcalls, hrows⟩ := ih
    obtain ⟨h', s', made, hone, hothers, r, hid, hregistry⟩ :=
      Run.creates (hcalls n (Nat.le_refl n))
    have hnext : s.registry.sequence + 1 = .ofNat (n + 1) := by
      rw [hsequence, UInt64.ofNat_add]
      rfl
    refine ⟨h ++ h', s', run.append made, ?_, ?_, fun i hi => ?_, fun k h1 hk => ?_⟩
    · rw [issuedIn_append, hissued, hone]
    · rw [hregistry]
      exact hnext
    · rw [hothers i (by omega)]
      exact hcalls i (by omega)
    · have hid : r.id = Registry.relayId (.ofNat (n + 1)) :=
        hid.trans (congrArg Registry.relayId hnext)
      have hrow : s'.registry.relay? (Registry.relayId (.ofNat k)) =
          if Registry.relayId (.ofNat k) = r.id then some r
          else s.registry.relay? (Registry.relayId (.ofNat k)) := by
        rw [hregistry]
        exact (Registry.relay?_withRow _ _ _ _).trans (by rw [Registry.relay?_issued])
      rw [hrow]
      split
      · exact Option.some_ne_none r
      · next hne =>
        refine hrows k h1 (Nat.le_of_not_lt fun hlt => hne ?_)
        obtain rfl : k = n + 1 := by omega
        exact hid.symm

/-- A million relays have been made. -/
theorem Reopened.million :
    ∃ (h : List (Moment ℕ Outcome)) (g : Registry), Reopened h g ∧ issuedIn h = 1000000 ∧
      ∀ relays, g.listRelays (fun _ => true) = .ok relays →
        Registry.relayId 999999 ∈ relays.map (·.id) ∧
        Registry.relayId 1000000 ∈ relays.map (·.id) := by
  obtain ⟨h, s, run, hissued, -, -, hrows⟩ := Run.creating 1000000
  have past := Reopened.new.runs run
  have hcount : issuedIn ([] ++ h) = 1000000 := hissued
  have hsound := (past.standing (by rw [hcount]; decide)).sound
  have hlisted : ∀ k, 1 ≤ k → k ≤ 1000000 → ∀ relays,
      s.registry.listRelays (fun _ => true) = .ok relays →
      Registry.relayId (.ofNat k) ∈ relays.map (·.id) := by
    intro k h1 hk relays hrelays
    obtain ⟨r, hr⟩ := Option.ne_none_iff_exists'.mp (hrows k h1 hk)
    rw [hsound.listRelays, List.filter_true] at hrelays
    obtain rfl := Except.ok.inj hrelays
    have hid := hsound.id_eq hr
    exact List.mem_map.mpr ⟨r, hsound.mem_rows.mpr (hid.symm ▸ hr), hid⟩
  exact ⟨_, _, past, hcount, fun relays hrelays =>
    ⟨hlisted 999999 (by decide) (by decide) relays hrelays,
      hlisted 1000000 (by decide) (by decide) relays hrelays⟩⟩

/-- The order of a million relays is not that of their creation. -/
theorem Reopened.inCreationOrder_iff_million :
    ∃ (h : List (Moment ℕ Outcome)) (g : Registry) (relays : List Relay), Reopened h g ∧
      issuedIn h = 1000000 ∧ g.listRelays (fun _ => true) = .ok relays ∧
      Registry.relayId 999999 ∈ relays.map (·.id) ∧
      Registry.relayId 1000000 ∈ relays.map (·.id) ∧
      ¬ InCreationOrder h g ∧ ¬ (relays.map (·.id)).Sublist (issuedIds h) := by
  obtain ⟨h, g, past, hissued, hlisted⟩ := Reopened.million
  obtain ⟨hlaw, hlists⟩ := past.inCreationOrder_iff (by rw [hissued]; decide)
  obtain ⟨relays, hrelays, hiff⟩ := hlists fun _ => true
  obtain ⟨hlast, hmillion⟩ := hlisted relays hrelays
  refine ⟨h, g, relays, past, hissued, hrelays, hlast, hmillion, fun law => ?_, fun hsub => ?_⟩
  · have hfew := hlaw.mp law
    omega
  · exact hiff.mp hsub _ _ hlast hmillion Registry.overtakes_million

/-- Relays are not always listed in the order in which they were created. -/
theorem Reopened.not_always_inCreationOrder :
    ¬ ∀ (h : List (Moment ℕ Outcome)) (g : Registry), Reopened h g → issuedIn h < 2 ^ 64 →
      InCreationOrder h g := by
  intro hall
  obtain ⟨h, g, past, hissued, hlisted⟩ := Reopened.million
  have hids : issuedIn h < 2 ^ 64 := by
    rw [hissued]
    decide
  obtain ⟨relays, hrelays, hsub⟩ := (hall h g past hids).lists fun _ => true
  obtain ⟨relays', hrelays', hiff, -⟩ := past.listing hids fun _ => true
  obtain rfl := Except.ok.inj (hrelays.symm.trans hrelays')
  obtain ⟨hlast, hmillion⟩ := hlisted relays hrelays
  exact hiff.mp hsub _ _ hlast hmillion Registry.overtakes_million

end RelayFleet
