import RelayFleet.Proofs.Lifecycle.Effect
import RelayFleet.Proofs.Registry.Count
import RelayFleet.Proofs.Scan.Operations

/-!
# The launch limit

An expansion stores a new relay only if it has counted fewer relays than the launch limit under the
lock. Relays that are being destroyed are not counted, and one that could not be destroyed counts
again, with or without the lock: so a zone exceeds the limit if such a relay comes back to a full
zone, or comes back between the count of an expansion and the relay that the expansion then stores.
It does not exceed the limit in any other way (`Run.within_iff`).
-/

namespace RelayFleet

open Protocol

/-! ## How the number of relays changes -/

namespace Relay

variable {r r' : Relay}

/-- A relay counts once at most. -/
theorem live_le_one (r : Relay) : r.live ≤ 1 := by
  unfold live
  split <;> simp

/-- A relay that is destroyed does not count. -/
theorem live_of_destroyed (h : r.state = .destroyed) : r.live = 0 := by
  simp [live, h, RelayState.isTerminal]

/-- Every other relay counts. -/
theorem live_of_ne (h : r.state ≠ .destroyed) : r.live = 1 := by
  simp [live, h, RelayState.isTerminal]

/-- A relay counts no more than another one if it is destroyed whenever that is. -/
theorem live_le (h : r.state = .destroyed → r'.state = .destroyed) : r'.live ≤ r.live := by
  by_cases hd : r.state = .destroyed
  · rw [live_of_destroyed (h hd)]
    exact Nat.zero_le _
  · rw [live_of_ne hd]
    exact r'.live_le_one

end Relay

namespace Registry

/-- The relays of a zone that are not destroyed. -/
def live (g : Registry) (zone : ZoneId) : Nat := g.zoneTotal zone Relay.live

/-- A relay of the zone that counts as destroyed is given another state back. -/
def Returns (g : Registry) (zone : ZoneId) (a : Action) : Prop :=
  ∃ id x r, a = .transact (.restoring id x) ∧ g.relay? id = some r ∧ r.zoneId = zone ∧
    r.state = .destroyed ∧ x ≠ .destroyed

/-- A relay is stored in the zone where none of its live relays stood. -/
def Gains (g : Registry) (zone : ZoneId) (a : Action) : Prop :=
  ∃ r, a = .transact (.putRelay r) ∧ r.zoneId = zone ∧ r.state ≠ .destroyed ∧
    ∀ r', g.relay? r.id = some r' → r'.zoneId = zone → r'.state = .destroyed

variable {g g' : Registry} {zone : ZoneId} {a : Action}

/-- The number changes with the written row. -/
theorem live_withRow {id : RelayId} {r r' : Relay} (hr : g.relay? id = some r)
    (hzone : r'.zoneId = r.zoneId) (zone : ZoneId) :
    (g.withRow id r').live zone + (if r.zoneId = zone then r.live else 0) =
      g.live zone + if r.zoneId = zone then r'.live else 0 :=
  zoneTotal_withRow_of_relay? hr hzone zone Relay.live

/-- A row that counts no more than the one before adds nothing. -/
theorem live_withRow_le {id : RelayId} {r r' : Relay} (hr : g.relay? id = some r)
    (hzone : r'.zoneId = r.zoneId) (hle : r'.live ≤ r.live) (zone : ZoneId) :
    (g.withRow id r').live zone ≤ g.live zone := by
  have hlive := live_withRow hr hzone zone
  split at hlive <;> omega

/-- A relay that comes back counts again. -/
theorem live_of_returns (hg : g.Sound) (h : g.Returns zone a) (time : Millis) :
    (a.registryAfter time g).live zone = g.live zone + 1 := by
  obtain ⟨id, x, r, rfl, hr, hzone, hstate, hx⟩ := h
  have hrun := hg.updateRelay_some hr time fun r => { r with state := x }
  have hlive := live_withRow hr
    (show ({ r with state := x, updatedAt := time } : Relay).zoneId = r.zoneId from rfl) zone
  rw [Action.registryAfter, Transaction.restoring, Transaction.run, hrun]
  rwa [if_pos hzone, if_pos hzone, Relay.live_of_destroyed hstate, Relay.live_of_ne hx] at hlive

/-- A relay that is stored counts. -/
theorem live_of_gains (h : g.Gains zone a) (time : Millis) :
    (a.registryAfter time g).live zone = g.live zone + 1 := by
  obtain ⟨r, rfl, hzone, hstate, hnew⟩ := h
  have htotal := g.zoneTotal_withRow r.id r zone Relay.live
  have hbefore : ((g.relay? r.id).elim 0 fun r => if r.zoneId = zone then r.live else 0) = 0 := by
    cases hr : g.relay? r.id with
    | none => rfl
    | some r' =>
      show (if r'.zoneId = zone then r'.live else 0) = 0
      split
      · next hz => exact Relay.live_of_destroyed (hnew r' hr hz)
      · rfl
  rwa [hbefore, if_pos hzone, Relay.live_of_ne hstate] at htotal

/-- A relay that is stored in place of one that counted, or in another zone, adds nothing. -/
theorem live_putRelay_le {r : Relay} (hstate : r.state ≠ .destroyed)
    (hnot : ¬ g.Gains zone (.transact (.putRelay r))) :
    (g.withRow r.id r).live zone ≤ g.live zone := by
  have htotal := g.zoneTotal_withRow r.id r zone Relay.live
  have hle := r.live_le_one
  simp only [live]
  by_cases hzone : r.zoneId = zone
  · have hold : ∃ r', g.relay? r.id = some r' ∧ r'.zoneId = zone ∧ r'.state ≠ .destroyed := by
      by_contra hnone
      refine hnot ⟨r, rfl, hzone, hstate, ?_⟩
      intro r' hr' hz
      exact by_contra fun hne => hnone ⟨r', hr', hz, hne⟩
    obtain ⟨r', hr', hz, hne⟩ := hold
    rw [hr', Option.elim, if_pos hz, Relay.live_of_ne hne] at htotal
    split at htotal <;> omega
  · rw [if_neg hzone] at htotal
    omega

end Registry

/-- No operation on a relay makes it count again. -/
theorem RelayState.after_destroyed (op : RelayOp) : RelayState.destroyed.after op = .destroyed := by
  cases op <;> rfl

/-- A step adds to the relays of a zone only by giving one back or by storing one. -/
theorem Effect.live {rights : Rights} {g g' : Registry} {φ φ' : Stage} {a : Action}
    (h : Effect rights g φ a φ' g') (zone : ZoneId) :
    g'.live zone ≤ g.live zone ∨ g'.live zone = g.live zone + 1 ∧
      (g.Returns zone a ∨ g.Gains zone a ∧ ∃ id, φ.duty = .storing id zone) := by
  cases h with
  | keeps relays => exact .inl (Nat.le_of_eq (Registry.zoneTotal_congr relays zone Relay.live))
  | moves hr _ hmoved =>
    refine .inl (Registry.live_withRow_le hr hmoved.keeps.zoneId_eq (Relay.live_le ?_) zone)
    intro hd
    rw [hmoved.state_eq, hd, RelayState.after_destroyed]
  | @restores _ _ id x r r' _ hr keeps hstate =>
    by_cases hback : r.zoneId = zone ∧ r.state = .destroyed ∧ x ≠ .destroyed
    · obtain ⟨hzone, hdestroyed, hx⟩ := hback
      have hlive := Registry.live_withRow hr keeps.zoneId_eq zone
      rw [if_pos hzone, if_pos hzone, Relay.live_of_destroyed hdestroyed,
        Relay.live_of_ne (hstate ▸ hx)] at hlive
      exact .inr ⟨hlive, .inl ⟨id, x, r, rfl, hr, hzone, hdestroyed, hx⟩⟩
    · left
      by_cases hzone : r.zoneId = zone
      · refine Registry.live_withRow_le hr keeps.zoneId_eq (Relay.live_le ?_) zone
        intro hd
        exact by_contra fun hx => hback ⟨hzone, hd, hstate ▸ hx⟩
      · have hlive := Registry.live_withRow hr keeps.zoneId_eq zone
        rw [if_neg hzone, if_neg hzone] at hlive
        exact Nat.le_of_eq hlive
  | @removes _ id =>
    have htotal := g.zoneTotal_withoutRow id zone Relay.live
    left
    simp only [Registry.live]
    omega
  | @stores _ r hstate =>
    by_cases hgains : g.Gains zone (.transact (.putRelay r))
    · obtain ⟨_, ⟨⟩, hzone, -⟩ := id hgains
      exact .inr ⟨Registry.live_of_gains hgains 0, .inr ⟨hgains, r.id, by rw [hzone]⟩⟩
    · exact .inl (Registry.live_putRelay_le (by simp [hstate]) hgains)

/-! ## Runs within the limit -/

section
variable {ι α : Type} {rules : ScanRules} {limit : Nat} {zone : ZoneId} {s₀ s s' : System ι α}
  {h : List (Moment ι α)} {φ : ι → Stage} {φ' : Stage} {m : Move ι}

/-- A relay comes back to the zone in this step. -/
def Moment.Returns (e : Moment ι α) (zone : ZoneId) : Prop :=
  e.before.registry.Returns zone e.move.action

/-- A relay comes back too late to be counted: when the zone has as many relays as the limit allows,
or while a call has the lock that goes on to store a relay in the zone when it has as many. -/
def LateReturn (limit : Nat) (h : List (Moment ι α)) (zone : ZoneId) : Prop :=
  (∃ e ∈ h, e.Returns zone ∧ limit ≤ e.before.registry.live zone) ∨
  ∃ h₁ e h₂ f h₃, h = h₁ ++ e :: h₂ ++ f :: h₃ ∧ e.Returns zone ∧
    (∀ e' ∈ e :: h₂, e'.before.holder = some f.move.caller) ∧
    f.before.registry.Gains zone f.move.action ∧ limit ≤ f.before.registry.live zone

/-- No zone has more relays than the limit allows, at any moment. -/
def Within (limit : Nat) (h : List (Moment ι α)) (s : System ι α) : Prop :=
  (∀ e ∈ h, ∀ zone, e.before.registry.live zone ≤ limit) ∧ ∀ zone, s.registry.live zone ≤ limit

/-- What was late stays late. -/
theorem LateReturn.append (hlate : LateReturn limit h zone) (h' : List (Moment ι α)) :
    LateReturn limit (h ++ h') zone := by
  rcases hlate with ⟨e, he, hlate⟩ | ⟨h₁, e, h₂, f, h₃, rfl, hlate⟩
  · exact .inl ⟨e, List.mem_append_left _ he, hlate⟩
  · exact .inr ⟨h₁, e, h₂, f, h₃ ++ h', by simp, hlate⟩

/-- A new relay is on its way only where one may be created. -/
def Stage.IsDue (rights : Rights) (φ : Stage) : Prop :=
  ∀ id zone, φ.duty = .allocating id zone ∨ φ.duty = .storing id zone → rights.MayCreate φ.hold zone

/-- Every step creates relays only where it may. -/
theorem Stage.Step.isDue {rights : Rights} {φ φ' : Stage} {a : Action} {r : a.Reply}
    (hs : Stage.Step rights φ a r φ') (h : φ.IsDue rights) : φ'.IsDue rights := by
  intro id zone hd
  cases hs with
  | looks | switches => exact h id zone hd
  | operates =>
    exfalso
    simp only [Duty.next] at hd
    split at hd <;> simp at hd
  | provisions calls =>
    cases calls with
    | allocated => exact h id zone (.inl (by simpa using hd))
    | _ => simp at hd
  | issues may =>
    simp only [Duty.allocating.injEq, reduceCtorEq, or_false] at hd
    exact hd.2 ▸ may
  | _ => simp [Stage.rest] at hd

/-- Every zone is within the limit unless a relay has come back too late, and an expansion that may
still create a relay has room for it unless one has come back since the count. -/
structure Limited (rights : Rights) (h : List (Moment ι α)) (s : System ι α) (φ : ι → Stage) :
    Prop where
  sound : s.registry.Sound
  holds : ∀ i, (φ i).hold ≠ .out ↔ s.holder = some i
  isDue : ∀ i, (φ i).IsDue rights
  within : (∀ zone, ¬ LateReturn rights.rules.launchMaxPerZone.toNat h zone) →
    Within rights.rules.launchMaxPerZone.toNat h s ∧
    ∀ i zone relays p, (φ i).hold = .expanding zone relays p → p.IsEarly →
      rights.rules.Admits zone relays →
      s.registry.live zone < rights.rules.launchMaxPerZone.toNat ∨ WhileHeld h i (·.Returns zone)

/-- A count that admits another relay is less than the limit, if the relays can be counted. -/
theorem ScanRules.Admits.live_lt {g : Registry}
    (h : rules.Admits zone (g.rows.filter (·.zoneId == zone)))
    (hle : g.live zone ≤ rules.launchMaxPerZone.toNat) :
    g.live zone < rules.launchMaxPerZone.toNat := by
  have hlt := UInt32.lt_iff_toNat_lt.mp h
  rw [ZoneCapacity.totalCount_ofRelays, Registry.sum_map_filter] at hlt
  have hrange := rules.launchMaxPerZone.toNat_lt
  rwa [Nat.mod_eq_of_lt (show g.zoneTotal zone Relay.live < 2 ^ 32 from
    Nat.lt_of_le_of_lt hle hrange)] at hlt

/-- A call that stores a relay does so in an expansion that may create one, and has the lock. -/
theorem Limited.expanding_of_storing {rights : Rights} (hcreates : ¬ rights.creates)
    (inv : Limited rights h s φ) {i : ι} {id : RelayId} (hduty : (φ i).duty = .storing id zone) :
    s.holder = some i ∧ ∃ relays,
      (φ i).hold = .expanding zone relays (.pooled []) ∧ rights.rules.Admits zone relays := by
  rcases (inv.isDue i id zone (.inr hduty)).inv with ⟨-, hc⟩ | ⟨relays, hhold, -, hadmits⟩
  · exact absurd hc hcreates
  · exact ⟨(inv.holds i).mp (by simp [hhold]), relays, hhold, hadmits⟩

/-- A relay is stored only in a zone that has room for it, if no return is late: none has come back
while its maker had the lock. -/
theorem Limited.live_lt_of_gains {rights : Rights} (hcreates : ¬ rights.creates)
    (inv : Limited rights h s φ)
    (hlate : ∀ zone, ¬ LateReturn rights.rules.launchMaxPerZone.toNat (h ++ [⟨s, m⟩]) zone)
    (hgains : s.registry.Gains zone m.action) {id : RelayId}
    (hduty : (φ m.caller).duty = .storing id zone) :
    s.registry.live zone < rights.rules.launchMaxPerZone.toNat := by
  obtain ⟨-, relays, hhold, hadmits⟩ := inv.expanding_of_storing hcreates hduty
  obtain ⟨-, hroom⟩ := inv.within fun zone hl => hlate zone (hl.append _)
  rcases hroom _ _ _ _ hhold trivial hadmits with hlt | ⟨h₁, e, h₂, rfl, he, hheld⟩
  · exact hlt
  · by_contra hfull
    exact hlate zone (.inr ⟨h₁, e, h₂, ⟨s, m⟩, [], rfl, he, hheld, hgains, Nat.le_of_not_lt hfull⟩)

/-- The room in a zone remains when no relay is stored there, unless one has come back. -/
theorem Effect.room {rights : Rights} {i : ι}
    (heffect : Effect rights s.registry (φ m.caller) m.action φ' s'.registry)
    (hi : s.holder = some i)
    (hroom : s.registry.live zone < limit ∨ WhileHeld h i (·.Returns zone))
    (hnot : s.registry.Gains zone m.action → ∀ id, (φ m.caller).duty ≠ .storing id zone) :
    s'.registry.live zone < limit ∨ WhileHeld (h ++ [⟨s, m⟩]) i (·.Returns zone) := by
  rcases hroom with hlt | hback
  · rcases heffect.live zone with hle | ⟨-, hreturns | ⟨hgains, id, hduty⟩⟩
    · exact .inl (Nat.lt_of_le_of_lt hle hlt)
    · exact .inr ⟨h, ⟨s, m⟩, [], rfl, hreturns, by simpa using hi⟩
    · exact absurd hduty (hnot hgains id)
  · exact .inr (hback.snoc hi)

variable [DecidableEq ι]

/-- An expansion that may still create a relay has room for it after every step, unless one has come
back since the count. -/
theorem Limited.room_step {rights : Rights} (hcreates : ¬ rights.creates)
    (inv : Limited rights h s φ) (hs : RelayFleet.Step s m s')
    (hp : Stage.Step rights (φ m.caller) m.action m.reply φ')
    (hlate : ∀ zone, ¬ LateReturn rights.rules.launchMaxPerZone.toNat h zone) {i : ι}
    {relays : List Relay} {p : Phase}
    (hhold : (Function.update φ m.caller φ' i).hold = .expanding zone relays p)
    (hearly : p.IsEarly) (hadmits : rights.rules.Admits zone relays) :
    s'.registry.live zone < rights.rules.launchMaxPerZone.toNat ∨
      WhileHeld (h ++ [⟨s, m⟩]) i (·.Returns zone) := by
  have heffect := hp.effect_of_step hs inv.sound
  obtain ⟨⟨-, hnow⟩, hroom⟩ := inv.within hlate
  by_cases hi : i = m.caller
  · subst hi
    rw [Function.update_self] at hhold
    rcases hp.reads hs.answers inv.sound hhold with ⟨p', hhold', hearlier⟩ | ⟨-, ha, rfl⟩
    · -- the count was made before, and the expansion stores its relay as the last of early steps
      obtain ⟨hearly', hnot⟩ := hearlier hearly
      have hholder : s.holder = some m.caller := (inv.holds _).mp (by simp [hhold'])
      refine heffect.room hholder (hroom _ zone relays p' hhold' hearly' hadmits) ?_
      rintro ⟨r, hr, -⟩
      exact absurd hr (hnot r)
    · -- this step is the count
      rw [hs.registry_eq, ha]
      exact .inl (hadmits.live_lt (hnow zone))
  · rw [Function.update_of_ne hi] at hhold
    have hholder : s.holder = some i := (inv.holds i).mp (by simp [hhold])
    refine heffect.room hholder (hroom i zone relays p hhold hearly hadmits) ?_
    intro _ id hduty
    obtain ⟨hother, -⟩ := inv.expanding_of_storing hcreates hduty
    rw [hholder] at hother
    exact hi (Option.some.inj hother)

/-- Every step keeps the zones within the limit, or is a late return, or stores a relay after
one. -/
theorem Limited.step {rights : Rights} (hcreates : ¬ rights.creates)
    (inv : Limited rights h s φ) (hs : RelayFleet.Step s m s')
    (hp : Stage.Step rights (φ m.caller) m.action m.reply φ') :
    Limited rights (h ++ [⟨s, m⟩]) s' (Function.update φ m.caller φ') := by
  have heffect := hp.effect_of_step hs inv.sound
  refine ⟨heffect.sound inv.sound, hp.holds hs inv.holds, ?_, ?_⟩
  · intro i
    by_cases hi : i = m.caller
    · subst hi
      simpa using hp.isDue (inv.isDue _)
    · simpa [Function.update_of_ne hi] using inv.isDue i
  · intro hlate
    have hlate₀ : ∀ zone, ¬ LateReturn rights.rules.launchMaxPerZone.toNat h zone :=
      fun zone hl => hlate zone (hl.append _)
    obtain ⟨⟨hbefore, hnow⟩, -⟩ := inv.within hlate₀
    refine ⟨⟨?_, ?_⟩, fun i zone relays p => inv.room_step hcreates hs hp hlate₀⟩
    · intro e he zone
      rcases List.mem_append.mp he with he | he
      · exact hbefore e he zone
      · rw [List.mem_singleton.mp he]
        exact hnow zone
    · intro zone
      rcases heffect.live zone with hle | ⟨heq, hreturns | ⟨hgains, id, hduty⟩⟩
      · exact hle.trans (hnow zone)
      · -- a relay that comes back now does not come back to a full zone
        rw [heq, Nat.succ_le_iff]
        by_contra hfull
        exact hlate zone (.inl ⟨⟨s, m⟩, by simp, hreturns, Nat.le_of_not_lt hfull⟩)
      · rw [heq, Nat.succ_le_iff]
        exact inv.live_lt_of_gains hcreates hlate hgains hduty

/-- A late return takes the zone over the limit. -/
theorem LateReturn.not_within (hlate : LateReturn limit h zone) (run : Run s₀ h s)
    (hsound : ∀ e ∈ h, e.before.registry.Sound) : ¬ Within limit h s := by
  rintro ⟨hbefore, hnow⟩
  have hgrows : ∀ e ∈ h, limit ≤ e.before.registry.live zone →
      (∀ time, (e.move.action.registryAfter time e.before.registry).live zone =
        e.before.registry.live zone + 1) → False := by
    intro e he hfull hgrow
    obtain ⟨s', hs, hle⟩ := run.after_of_mem (P := fun s => s.registry.live zone ≤ limit)
      (fun e he => hbefore e he zone) (hnow zone) he
    rw [hs.registry_eq, hgrow] at hle
    omega
  rcases hlate with ⟨e, he, hreturns, hfull⟩ | ⟨h₁, e, h₂, f, h₃, rfl, -, -, hgains, hfull⟩
  · exact hgrows e he hfull (Registry.live_of_returns (hsound e he) hreturns)
  · exact hgrows f (by simp) hfull (Registry.live_of_gains hgains)

/-- In a run of calls that treat relays well, from a registry without relays, every zone is within
the limit unless a relay has come back too late. -/
theorem Run.limited {rights : Rights} (hcreates : ¬ rights.creates) {g : Registry} (hg : g.Sound)
    (hempty : ∀ zone, g.live zone = 0) {calls : ι → Fleet α} {Q : ι → Stage → α → Prop}
    (hcalls : ∀ i, (conduct rights Registry.Sound).Follows .rest (calls i) (Q i))
    (run : Run (System.start g calls) h s) : ∃ φ, Limited rights h s φ := by
  obtain ⟨φ, inv, -⟩ : ∃ φ, Limited rights h s φ ∧
      ∀ i, (conduct rights Registry.Sound).Follows (φ i) (s.calls i) (Q i) := by
    refine run.follows hcalls ?_ (fun _ _ _ inv => inv.sound)
      fun _ _ _ _ _ _ _ inv hs hp => inv.step hcreates hs hp
    refine ⟨hg, by simp [Stage.rest, System.start], fun i id zone hd => ?_,
      fun _ => ⟨⟨by simp, ?_⟩, ?_⟩⟩
    · simp [Stage.rest] at hd
    · intro zone
      rw [System.start, hempty]
      exact Nat.zero_le _
    · rintro i zone relays p ⟨⟩
  exact ⟨φ, inv⟩

end

/-! ## Runs of passes and operators -/

/-- What passes and operators may do, where only expansions create relays. -/
def Rights.ofScans (rules : ScanRules) : Rights where
  rules := rules
  operates _ := True
  creates := False
  switches := True

/-- A pass with these rules, or a call of an operator that creates no relay. -/
def Operation.ScansWith (rules : ScanRules) : Operation → Prop
  | pass r => r = rules
  | start _ | stop _ | destroy _ | reboot _ | agentDisconnected _ => True
  | _ => False

/-- Passes and operators follow the protocol of calls. -/
theorem Operation.ScansWith.follows {rules : ScanRules} {op : Operation} (h : op.ScansWith rules) :
    (conduct (.ofScans rules) Registry.Sound).Follows .rest op.program fun φ _ => φ = .rest := by
  refine Operation.IsAllowed.follows ?_
  cases op with
  | pass => exact ⟨h, trivial, trivial⟩
  | start | stop | destroy | reboot | agentDisconnected => trivial
  | _ => cases h

/-! ## A run over the limit -/

/-- A run goes on with a listing of the only row. -/
theorem Run.listRow {ι α : Type} [DecidableEq ι] {s₀ s : System ι α} {h : List (Moment ι α)}
    (run : Run s₀ h s) {g : Registry} (hg : g.Sound) (hempty : g.relays = .empty) {id : RelayId}
    {r : Relay} (hreg : s.registry = g.withRow id r) (hid : r.id = id) (i : ι)
    {keep : Relay → Bool} {next : StoreResult (List Relay) → Fleet α}
    (asks : s.calls i = .ask (.transact (.listRelays keep)) next) (rs : List Relay)
    (hrs : [r].filter keep = rs) :
    ∃ h', Run s₀ h'
      ⟨g.withRow id r, s.holder, Function.update s.calls i (next (.ok rs))⟩ := by
  have hlist : s.registry.listRelays keep = .ok rs := by
    rw [hreg, hg.listRelays_withRow_of_empty hempty hid, hrs]
  have hnext := run.perform i asks 0 (.ok rs) hlist.symm
  rw [Action.registryAfter, Transaction.run, hreg] at hnext
  exact ⟨_, hnext⟩

/-- Two passes, and the destruction of the first relay. -/
def crowdingCalls (rules : ScanRules) : Fin 3 → Operation
  | 0 => .pass rules
  | 1 => .destroy (Registry.relayId 1)
  | 2 => .pass rules

/-- These calls are passes and a call of an operator. -/
theorem scansWith_crowdingCalls (rules : ScanRules) :
    ∀ i, (crowdingCalls rules i).ScansWith rules
  | 0 => rfl
  | 1 => trivial
  | 2 => rfl

/-- Rules by which a zone has one relay at most. -/
def crowdingRules : ScanRules := { (default : ScanRules) with launchMaxPerZone := 1 }

/-- One zone that is ready. -/
def crowdingDirectory : ZoneDirectory :=
  .ofZones [⟨"zone-a", true, true, 1, true, true⟩]

/-- The relays of the run below. -/
def crowdingRelay (n : UInt64) (x : RelayState) : Relay :=
  { Relay.fresh 0 (Registry.relayId n) "zone-a" none 0 with state := x }

/-- A relay that comes back to a zone in which another one was stored makes two. -/
theorem Registry.live_crowding {g : Registry} (hg : g.Sound)
    (hr : g.relay? (Registry.relayId 1) = some (crowdingRelay 1 .destroyed))
    (hnone : g.relay? (Registry.relayId 2) = none) :
    1 < (Transaction.run 0 (g.putRelay (crowdingRelay 2 .stopped))
      (.restoring (Registry.relayId 1) .stopped)).2.live "zone-a" := by
  have hgains : g.Gains "zone-a" (.transact (.putRelay (crowdingRelay 2 .stopped))) := by
    refine ⟨_, rfl, rfl, by decide, ?_⟩
    intro r' hr'
    rw [show (crowdingRelay 2 .stopped).id = Registry.relayId 2 from rfl, hnone] at hr'
    cases hr'
  have hreturns : (g.putRelay (crowdingRelay 2 .stopped)).Returns "zone-a"
      (.transact (.restoring (Registry.relayId 1) .stopped)) := by
    refine ⟨_, _, crowdingRelay 1 .destroyed, rfl, ?_, rfl, rfl, by decide⟩
    have hne : Registry.relayId 1 ≠ Registry.relayId 2 := by decide
    exact (relay?_withRow g _ _ _).trans ((if_neg hne).trans hr)
  have hsound : (g.putRelay (crowdingRelay 2 .stopped)).Sound := hg.withRow rfl
  have hstored : (g.putRelay (crowdingRelay 2 .stopped)).live "zone-a" = _ :=
    live_of_gains hgains 0
  have hlive := live_of_returns hsound hreturns 0
  rw [Action.registryAfter, hstored] at hlive
  omega

/-- The first relay does not boot, and is being destroyed. -/
theorem Run.crowding_destroying :
    ∃ h calls next,
      Run (System.start .empty fun i => (crowdingCalls crowdingRules i).program) h
        ⟨({ Registry.empty with sequence := 1 } : Registry).withRow (Registry.relayId 1)
          (crowdingRelay 1 .destroyed), none, calls⟩ ∧
      calls 2 = (Operation.pass crowdingRules).program ∧
      calls 1 = .ask (.provision (.destroy (Registry.relayId 1))) next ∧
      ∀ e, ∃ next', next (.error e) =
        .ask (.transact (.restoring (Registry.relayId 1) .stopped)) next' := by
  let s₀ : System (Fin 3) Outcome :=
    .start .empty fun i => (crowdingCalls crowdingRules i).program
  let r := crowdingRelay 1
  have hg : ({ Registry.empty with sequence := 1 } : Registry).Sound := Registry.sound_empty
  have pooled := (((((((Run.start : Run s₀ [] s₀).perform
    0 rfl 0 crowdingDirectory trivial).perform 0 rfl 0 (.ok []) rfl).perform
    0 rfl 0 (.ok .initial) rfl).perform 0 rfl 0 (.ok ()) rfl).perform
    0 rfl 0 (.ok []) rfl).perform 0 rfl 0 (.ok []) rfl)
  have created := ((((pooled.perform 0 rfl 0 (.ok (Registry.relayId 1)) rfl).perform
    0 rfl 0 (.ok ⟨none, 0⟩) trivial).perform 0 rfl 0 0 rfl).perform
    0 rfl 0 (.ok ()) rfl).perform 0 rfl 0 () trivial
  have starting := created.changeRow hg rfl rfl 0 rfl 0 (r .starting) rfl
  have stopped := (starting.perform
    0 rfl 0 (.error ⟨.start, "no host"⟩) trivial).changeRow hg rfl rfl 0 rfl 0 (r .stopped) rfl
  have released := (stopped.perform 0 rfl 0 () trivial).perform 0 rfl 0 () rfl
  have destroying := released.changeRow hg rfl rfl 1 rfl 0 (r .destroyed) rfl
  exact ⟨_, _, _, destroying, rfl, rfl, fun _ => ⟨_, rfl⟩⟩

/-- The registry while the first relay is being destroyed and the id of the second was issued. -/
def crowdingRegistry : Registry :=
  { ({ Registry.empty with sequence := 1 } : Registry).withRow (Registry.relayId 1)
      (crowdingRelay 1 .destroyed) with sequence := 2 }

/-- The second pass counts no relay and stores another one. -/
theorem Run.crowding_stored :
    ∃ h holder calls next,
      Run (System.start .empty fun i => (crowdingCalls crowdingRules i).program) h
        ⟨crowdingRegistry.putRelay (crowdingRelay 2 .stopped), holder, calls⟩ ∧
      calls 1 = .ask (.provision (.destroy (Registry.relayId 1))) next ∧
      ∀ e, ∃ next', next (.error e) =
        .ask (.transact (.restoring (Registry.relayId 1) .stopped)) next' := by
  obtain ⟨h, calls, next, destroying, h₂, h₁, hnext⟩ := Run.crowding_destroying
  have hg : ({ Registry.empty with sequence := 1 } : Registry).Sound := Registry.sound_empty
  obtain ⟨_, seen⟩ := (destroying.perform 2 (h₂.trans rfl) 0 crowdingDirectory trivial).listRow
    hg rfl rfl rfl 2 rfl [crowdingRelay 1 .destroyed] rfl
  obtain ⟨_, counted⟩ := ((seen.perform 2 rfl 0 (.ok .initial) rfl).perform
    2 rfl 0 (.ok ()) rfl).listRow hg rfl rfl rfl 2 rfl [crowdingRelay 1 .destroyed] rfl
  obtain ⟨_, pooled⟩ := counted.listRow hg rfl rfl rfl 2 rfl [] rfl
  obtain ⟨_, issued⟩ := pooled.transact rfl 2 rfl 0 (show _ = crowdingRegistry from rfl)
  obtain ⟨_, stored⟩ := ((issued.perform 2 rfl 0 (.ok ⟨none, 0⟩) trivial).perform
    2 rfl 0 0 rfl).transact (show _ = crowdingRegistry from rfl) 2 rfl 0
    (congrArg crowdingRegistry.putRelay (rfl : _ = crowdingRelay 2 .stopped))
  exact ⟨_, _, _, next, stored, h₁, hnext⟩

/-- When the destruction of the first relay fails, the zone has two. -/
theorem Run.crowding :
    ∃ (h : List (Moment (Fin 3) Outcome)) (s : System (Fin 3) Outcome),
      Run (System.start .empty fun i => (crowdingCalls crowdingRules i).program) h s ∧
      1 < s.registry.live "zone-a" := by
  obtain ⟨h, holder, calls, next, stored, h₁, hnext⟩ := Run.crowding_stored
  obtain ⟨next', hnext⟩ := hnext ⟨.destroy, "timeout"⟩
  obtain ⟨last, hlast⟩ : ∃ g, (Transaction.run 0
    (crowdingRegistry.putRelay (crowdingRelay 2 .stopped))
    (.restoring (Registry.relayId 1) .stopped)).2 = g := ⟨_, rfl⟩
  have hg : ({ Registry.empty with sequence := 1 } : Registry).Sound := Registry.sound_empty
  have hsound : crowdingRegistry.Sound :=
    (hg.withRow (show (crowdingRelay 1 .destroyed).id = _ from rfl)).congr rfl
  have hlookup : ∀ k, crowdingRegistry.relay? k =
      if k = Registry.relayId 1 then some (crowdingRelay 1 .destroyed) else none :=
    fun k => (Registry.relay?_congr rfl k).trans
      (Registry.relay?_withRow { Registry.empty with sequence := 1 } _ k _)
  have hlive := Registry.live_crowding hsound ((hlookup _).trans (if_pos rfl))
    ((hlookup _).trans (if_neg (by decide)))
  rw [hlast] at hlive
  obtain ⟨_, returned⟩ := (stored.perform 1 h₁ 0 (.error ⟨.destroy, "timeout"⟩) trivial).transact
    rfl 1 hnext 0 hlast
  exact ⟨_, _, returned, hlive⟩

/-! ## The limit and late returns -/

/-- **The launch limit is exceeded by late returns only.** In runs of passes and of operators' calls
from a registry without relays, whatever the order of steps and the outcomes of the provisioner, no
zone ever has more relays than the launch limit if and only if no relay that could not be destroyed
comes back to its zone too late. -/
theorem Run.within_iff {ι : Type} [DecidableEq ι] {rules : ScanRules} {calls : ι → Operation}
    (hcalls : ∀ i, (calls i).ScansWith rules) {h : List (Moment ι Outcome)} {s : System ι Outcome}
    (run : Run (System.start .empty fun i => (calls i).program) h s) :
    Within rules.launchMaxPerZone.toNat h s ↔
      ∀ zone, ¬ LateReturn rules.launchMaxPerZone.toNat h zone := by
  have hlimited : ∀ {h : List (Moment ι Outcome)} {s : System ι Outcome},
      Run (System.start .empty fun i => (calls i).program) h s →
      ∃ φ, Limited (.ofScans rules) h s φ :=
    fun run => run.limited id Registry.sound_empty (fun _ => rfl) fun i => (hcalls i).follows
  have hsound : ∀ e ∈ h, e.before.registry.Sound := by
    intro e he
    obtain ⟨h₁, h₂, rfl⟩ := List.append_of_mem he
    obtain ⟨_, run₁, -, -⟩ := run.of_append_cons
    obtain ⟨_, inv⟩ := hlimited run₁
    exact inv.sound
  constructor
  · exact fun hwithin zone hlate => hlate.not_within run hsound hwithin
  · intro hnone
    obtain ⟨_, inv⟩ := hlimited run
    exact (inv.within hnone).1

/-- There is a run in which a relay comes back too late. -/
theorem Run.within_iff_crowding :
    ∃ (h : List (Moment (Fin 3) Outcome)) (s : System (Fin 3) Outcome),
      Run (System.start .empty fun i => (crowdingCalls crowdingRules i).program) h s ∧
      ∃ zone, LateReturn 1 h zone := by
  obtain ⟨h, s, run, hlive⟩ := Run.crowding
  refine ⟨h, s, run, ?_⟩
  by_contra hnone
  have hwithin := (Run.within_iff (scansWith_crowdingCalls crowdingRules) run).mpr
    fun zone hlate => hnone ⟨zone, hlate⟩
  exact absurd (hwithin.2 "zone-a") (Nat.not_le.mpr hlive)

/-- It is not so that a zone never has more relays than the launch limit. -/
theorem Run.not_always_within :
    ¬ ∀ (rules : ScanRules) (calls : Fin 3 → Operation), (∀ i, (calls i).ScansWith rules) →
      ∀ (h : List (Moment (Fin 3) Outcome)) (s : System (Fin 3) Outcome),
        Run (System.start .empty fun i => (calls i).program) h s →
        Within rules.launchMaxPerZone.toNat h s := by
  intro hclaim
  obtain ⟨h, s, run, hlive⟩ := Run.crowding
  have hwithin := hclaim crowdingRules _ (scansWith_crowdingCalls crowdingRules) h s run
  exact absurd (hwithin.2 "zone-a") (Nat.not_le.mpr hlive)

end RelayFleet
