import RelayFleet.Proofs.Lifecycle.Undisturbed
import RelayFleet.Proofs.Registry.Zones

/-!
# What the expansion of a zone does when nobody interrupts it

An expansion looks at the relays of its zone and then does what they call for (`Plan`). It leaves
the registry as it is unless the zone needs a relay. Then it boots the first one of the stopped
pool, or it removes this relay or leaves it stopped where the provisioner fails; or it stores a new
relay, running or stopped (`Expansion`, `Alone.expand`). Everything that a scan does to the rows of
a registry follows from these cases.
-/

namespace RelayFleet

/-! ## What a zone needs -/

namespace ScanRules

/-- The running relays have too few sessions to spare, and none is starting or stopping. -/
def Needs (rules : ScanRules) (c : ZoneCapacity) : Prop :=
  c.transitionalCount = 0 ∧ rules.Wants c

/-- The zone has no stopped relay and as many relays as it may have. -/
def Full (rules : ScanRules) (g : Registry) (zone : ZoneId) : Prop :=
  (∀ r ∈ g.zoneRows zone, r.state ≠ .stopped) ∧
    rules.launchMaxPerZone ≤ (g.capacityOf zone).totalCount

end ScanRules

/-- The relay is one of the stopped pool of the zone. -/
structure Registry.Pooled (g : Registry) (zone : ZoneId) (id : RelayId) (r : Relay) : Prop where
  relay?_eq : g.relay? id = some r
  zoneId_eq : r.zoneId = zone
  state_eq : r.state = .stopped

/-- The stopped relays of a zone, in the order of their ids. -/
def Registry.pool (g : Registry) (zone : ZoneId) : List Relay :=
  g.rows.filter fun r => r.state = .stopped && r.zoneId == zone

/-- In a sound registry they are the relays of the pool. -/
theorem Registry.Sound.mem_pool {g : Registry} {zone : ZoneId} {r : Relay} (hg : g.Sound) :
    r ∈ g.pool zone ↔ g.Pooled zone r.id r := by
  simp only [Registry.pool, List.mem_filter, hg.mem_rows, Bool.and_eq_true, decide_eq_true_eq,
    beq_iff_eq]
  exact ⟨fun ⟨hr, hstate, hzone⟩ => ⟨hr, hzone, hstate⟩,
    fun ⟨hr, hzone, hstate⟩ => ⟨hr, hstate, hzone⟩⟩

/-- What is left to do for an expansion that has looked at the relays of its zone. -/
inductive Plan (rules : ScanRules) (zone : ZoneId) (g : Registry) :
    Fleet (Except ExpandError StageOutcome) → Prop
  | idle (idle : ¬ rules.Needs (g.capacityOf zone)) : Plan rules zone g (pure (.ok .skipped))
  /-- The first of the pool is restarted. -/
  | restarts {r : Relay} {rest : List Relay} (needs : rules.Needs (g.capacityOf zone))
    (pool_eq : g.pool zone = r :: rest) : Plan rules zone g (ScanRules.restart zone r.id).run
  | full (needs : rules.Needs (g.capacityOf zone)) (pool_eq : g.pool zone = [])
    (limit : rules.launchMaxPerZone ≤ (g.capacityOf zone).totalCount) :
    Plan rules zone g (ExceptT.run do
      ScanRules.announceFailure zone none ("zone at launch limit of "
        ++ toString rules.launchMaxPerZone.toNat ++ " relays")
      return .skipped)
  | launches (needs : rules.Needs (g.capacityOf zone)) (pool_eq : g.pool zone = [])
    (room : (g.capacityOf zone).totalCount < rules.launchMaxPerZone) :
    Plan rules zone g (rules.launchNew zone).run

namespace Deed

/-- Rows are listed. -/
def Lists (d : Deed) : Prop := ∃ keep, d.action = .transact (.listRelays keep)

/-- The relay of which the row is changed. -/
def changed? (d : Deed) : Option RelayId :=
  match d.action with
  | .transact (.updateRelay id _) => some id
  | _ => none

/-- A listing changes no row. -/
theorem Lists.changed?_eq {d : Deed} (h : d.Lists) : d.changed? = none := by
  obtain ⟨keep, haction⟩ := h
  rw [changed?, haction]

end Deed

/-- The provisioner is not called. -/
def Deed.IsQuiet (d : Deed) : Prop := ∀ c, d.action ≠ .provision c

/-- What is quiet is for any zone. -/
theorem Deed.IsQuiet.serves {d : Deed} (h : d.IsQuiet) (zone : ZoneId) : d.Serves zone :=
  fun c hc => absurd hc (h c)

/-- A listing is quiet. -/
theorem Deed.Lists.isQuiet {d : Deed} (h : d.Lists) : d.IsQuiet := by
  obtain ⟨keep, haction⟩ := h
  intro c hc
  rw [haction] at hc
  cases hc

/-- Whatever is not a call to the provisioner is quiet. -/
theorem isQuiet_of_ne {g : Registry} {a : Action} {time : Millis} {r : a.Reply}
    (h : ∀ c, a ≠ .provision c) : ∀ d ∈ [(⟨g, a, time, r⟩ : Deed)], d.IsQuiet := by
  intro d hd
  obtain rfl := List.mem_singleton.mp hd
  exact h

/-- What becomes of a zone that is expanded. -/
inductive Expansion (rules : ScanRules) (zone : ZoneId) (g : Registry) (l : List Deed) :
    Except ExpandError StageOutcome → Registry → Prop
  /-- The lock is not to be had. -/
  | waits (fails : ∃ d ∈ l, d.Fails) (quiet : ∀ d ∈ l, d.IsQuiet) :
    Expansion rules zone g l (.ok .deferred) g
  /-- The zone needs no relay or may have no more. -/
  | skips (idle : ¬ rules.Needs (g.capacityOf zone) ∨ rules.Full g zone)
    (quiet : ∀ d ∈ l, d.IsQuiet) : Expansion rules zone g l (.ok .skipped) g
  /-- A relay of the pool runs. -/
  | restarts {id : RelayId} {r : Relay} {time : Millis}
    (needs : rules.Needs (g.capacityOf zone)) (pooled : g.Pooled zone id r) :
    Expansion rules zone g l (.ok .applied)
      (g.withRow id { r with state := .running, updatedAt := time })
  /-- A relay of the pool could be neither started nor destroyed. -/
  | keeps {id : RelayId} {r : Relay} {time : Millis} {e : ExpandError}
    (needs : rules.Needs (g.capacityOf zone)) (pooled : g.Pooled zone id r)
    (fails : ∃ d ∈ l, d.FailsStart id) :
    Expansion rules zone g l (.error e)
      (g.withRow id { r with state := .stopped, updatedAt := time })
  /-- A relay of the pool could not be started and is removed. -/
  | drops {id : RelayId} {r : Relay} {e : ExpandError}
    (needs : rules.Needs (g.capacityOf zone)) (pooled : g.Pooled zone id r)
    (fails : ∃ d ∈ l, d.FailsStart id) : Expansion rules zone g l (.error e) (g.withoutRow id)
  /-- There are no resources for a new relay. -/
  | refuses {e : ExpandError} (needs : rules.Needs (g.capacityOf zone))
    (fails : ∃ d ∈ l, d.Fails) : Expansion rules zone g l (.error e) g.nextRelayId.2
  /-- A new relay is stored and could not be started. -/
  | stores {r : Relay} {e : ExpandError} (needs : rules.Needs (g.capacityOf zone))
    (fails : ∃ d ∈ l, d.Fails) (id_eq : r.id = g.nextRelayId.1) (zoneId_eq : r.zoneId = zone)
    (state_eq : r.state = .stopped) :
    Expansion rules zone g l (.error e) (g.nextRelayId.2.withRow r.id r)
  /-- A new relay runs. -/
  | launches {r : Relay} (needs : rules.Needs (g.capacityOf zone))
    (room : (g.capacityOf zone).totalCount < rules.launchMaxPerZone)
    (id_eq : r.id = g.nextRelayId.1) (zoneId_eq : r.zoneId = zone)
    (state_eq : r.state = .running) :
    Expansion rules zone g l (.ok .applied) (g.nextRelayId.2.withRow r.id r)

/-- Besides what is done quietly nothing more is said. -/
theorem Expansion.mono {rules : ScanRules} {zone : ZoneId} {g g' : Registry} {l l' : List Deed}
    {x : Except ExpandError StageOutcome} (h : Expansion rules zone g l x g')
    (hsub : ∀ d ∈ l, d ∈ l') (hquiet : ∀ d ∈ l', d ∈ l ∨ d.IsQuiet) :
    Expansion rules zone g l' x g' := by
  have hmore : ∀ {P : Deed → Prop}, (∃ d ∈ l, P d) → ∃ d ∈ l', P d :=
    fun ⟨d, hd, hp⟩ => ⟨d, hsub d hd, hp⟩
  have hstill : (∀ d ∈ l, d.IsQuiet) → ∀ d ∈ l', d.IsQuiet :=
    fun h d hd => (hquiet d hd).elim (h d) id
  cases h with
  | waits fails quiet => exact .waits (hmore fails) (hstill quiet)
  | skips idle quiet => exact .skips idle (hstill quiet)
  | restarts needs pooled => exact .restarts needs pooled
  | keeps needs pooled fails => exact .keeps needs pooled (hmore fails)
  | drops needs pooled fails => exact .drops needs pooled (hmore fails)
  | refuses needs fails => exact .refuses needs (hmore fails)
  | stores needs fails id_eq zoneId_eq state_eq =>
    exact .stores needs (hmore fails) id_eq zoneId_eq state_eq
  | launches needs room id_eq zoneId_eq state_eq =>
    exact .launches needs room id_eq zoneId_eq state_eq

/-! ## What an expansion changes -/

namespace Registry

variable {g : Registry} {zone z : ZoneId} {id k : RelayId} {r r' x : Relay}

namespace Pooled

/-- The row keeps the registry sound when it is written over. -/
theorem sound (h : g.Pooled zone id r) (hg : g.Sound) (hid : r'.id = r.id) :
    (g.withRow id r').Sound :=
  hg.withRow (hid.trans (hg.id_eq h.relay?_eq))

/-- The relay is in its zone only. -/
theorem zoneId_ne (h : g.Pooled zone id r) (hz : z ≠ zone) :
    ∀ x, g.relay? id = some x → x.zoneId ≠ z := by
  intro x hx
  rw [h.relay?_eq] at hx
  cases hx
  rw [h.zoneId_eq]
  exact hz.symm

/-- Whatever is not stopped is not in the pool. -/
theorem eq_stopped (h : g.Pooled zone id r) (hk : g.relay? id = some x) : x.state = .stopped := by
  rw [h.relay?_eq] at hk
  cases hk
  exact h.state_eq

/-- The relay is among the rows of its zone. -/
theorem mem_zoneRows (h : g.Pooled zone id r) (hg : g.Sound) : r ∈ g.zoneRows zone :=
  hg.mem_zoneRows.mpr ⟨(hg.id_eq h.relay?_eq).symm ▸ h.relay?_eq, h.zoneId_eq⟩

/-- The rows of other zones stay when the relay is written over. -/
theorem zoneRows_withRow (h : g.Pooled zone id r) (hg : g.Sound) (hid : r'.id = r.id)
    (hzone : r'.zoneId = r.zoneId) (hz : z ≠ zone) :
    (g.withRow id r').zoneRows z = g.zoneRows z :=
  hg.zoneRows_withRow (hid.trans (hg.id_eq h.relay?_eq))
    (by rw [hzone, h.zoneId_eq]; exact hz.symm) (h.zoneId_ne hz)

/-- What the relay adds to a sum over its zone changes when it is written over. -/
theorem zoneTotal_withRow (h : g.Pooled zone id r) (hzone : r'.zoneId = r.zoneId)
    (w : Relay → Nat) :
    (g.withRow id r').zoneTotal zone w + w r = g.zoneTotal zone w + w r' := by
  have htotal := zoneTotal_withRow_of_relay? h.relay?_eq hzone zone w
  rwa [if_pos h.zoneId_eq, if_pos h.zoneId_eq] at htotal

end Pooled

/-- What a new relay adds to a sum over its zone. -/
theorem zoneTotal_withRow_fresh (hfresh : g.relay? g.nextRelayId.1 = none)
    (hid : r.id = g.nextRelayId.1) (hzone : r.zoneId = zone) (w : Relay → Nat) :
    (g.nextRelayId.2.withRow r.id r).zoneTotal zone w = g.zoneTotal zone w + w r := by
  have htotal := g.nextRelayId.2.zoneTotal_withRow r.id r zone w
  rw [hid, g.relay?_issued, hfresh, if_pos hzone] at htotal
  rw [hid]
  exact htotal.trans (congrArg (· + w r) (zoneTotal_congr rfl zone w))

end Registry

namespace Expansion

variable {rules : ScanRules} {zone z : ZoneId} {g g' : Registry} {l : List Deed}
  {x : Except ExpandError StageOutcome} {k : RelayId} {r : Relay}

/-- The mode stays as it is. -/
theorem mode_eq (h : Expansion rules zone g l x g') : g'.mode = g.mode := by
  cases h <;> rfl

/-- The registry stays sound. -/
theorem sound (h : Expansion rules zone g l x g') (hg : g.Sound) : g'.Sound := by
  have hnext : g.nextRelayId.2.Sound := hg.congr rfl
  cases h with
  | waits | skips => exact hg
  | restarts _ pooled | keeps _ pooled => exact pooled.sound hg rfl
  | drops => exact hg.withoutRow
  | refuses => exact hnext
  | stores | launches => exact hnext.withRow rfl

/-- Unless the provisioner fails or the lock is not to be had, a relay comes to run in the zone, or
nothing is done because the zone needs no relay or may have no more. -/
theorem of_succeeds (h : Expansion rules zone g l x g') (hg : g.Sound)
    (hok : ∀ d ∈ l, ¬ d.Fails) :
    x = .ok .applied ∧ rules.Needs (g.capacityOf zone) ∧ ¬ rules.Full g zone ∨
      x = .ok .skipped ∧ g' = g ∧ (∀ d ∈ l, d.IsQuiet) ∧
        (¬ rules.Needs (g.capacityOf zone) ∨ rules.Full g zone) := by
  have hnone : ∀ {P : Prop}, (∃ d ∈ l, d.Fails) → P := fun ⟨d, hd, hf⟩ => absurd hf (hok d hd)
  have hstart : ∀ {P : Prop} {id}, (∃ d ∈ l, d.FailsStart id) → P :=
    fun ⟨d, hd, hf⟩ => absurd hf.fails (hok d hd)
  cases h with
  | waits fails | refuses _ fails | stores _ fails => exact hnone fails
  | keeps _ _ fails | drops _ _ fails => exact hstart fails
  | skips idle quiet => exact .inr ⟨rfl, rfl, quiet, idle⟩
  | restarts needs pooled =>
    exact .inl ⟨rfl, needs, fun hfull => hfull.1 _ (pooled.mem_zoneRows hg) pooled.state_eq⟩
  | launches needs room =>
    exact .inl ⟨rfl, needs, fun hfull => absurd hfull.2 (UInt32.not_le.mpr room)⟩

/-- A relay that is removed was stopped, and the provisioner has failed to start it. -/
theorem of_removed (h : Expansion rules zone g l x g') (hk : g.relay? k = some r)
    (hgone : g'.relay? k = none) : r.state = .stopped ∧ ∃ d ∈ l, d.FailsStart k := by
  have hthere : ∀ {g₁ : Registry} {id y}, g₁.relay? k = some r →
      (g₁.withRow id y).relay? k ≠ none := by
    intro g₁ id y hr
    rw [Registry.relay?_withRow]
    split
    · simp
    · simp [hr]
  cases h with
  | waits | skips =>
    rw [hk] at hgone
    cases hgone
  | restarts | keeps => exact absurd hgone (hthere hk)
  | @drops id y e needs pooled fails =>
    rw [Registry.relay?_withoutRow] at hgone
    split at hgone
    · next heq =>
      subst heq
      exact ⟨pooled.eq_stopped hk, fails⟩
    · rw [hk] at hgone
      cases hgone
  | refuses =>
    rw [g.relay?_issued, hk] at hgone
    cases hgone
  | stores | launches => exact absurd hgone (hthere ((g.relay?_issued k).trans hk))

/-- One more relay of the zone runs, exactly if the expansion has succeeded; where an id is issued
no relay may stand under it. -/
theorem running_eq_of_fresh (h : Expansion rules zone g l x g')
    (hfresh : g'.sequence ≠ g.sequence → g.relay? g.nextRelayId.1 = none) :
    g'.zoneTotal zone Relay.running =
      g.zoneTotal zone Relay.running + if x = .ok .applied then 1 else 0 := by
  have hrow : ∀ {id y y'}, g.Pooled zone id y → y'.zoneId = y.zoneId →
      (g.withRow id y').zoneTotal zone Relay.running =
        g.zoneTotal zone Relay.running + y'.running := by
    intro id y y' pooled hzone
    have htotal := pooled.zoneTotal_withRow hzone Relay.running
    rwa [Relay.running_of_ne (by simp [pooled.state_eq]), Nat.add_zero] at htotal
  cases h with
  | waits | skips => simp
  | restarts _ pooled => exact hrow pooled rfl
  | keeps _ pooled => exact hrow pooled rfl
  | drops _ pooled =>
    exact Registry.zoneTotal_withoutRow_eq pooled.relay?_eq
      (Relay.running_of_ne (by simp [pooled.state_eq])) zone
  | refuses => exact Registry.zoneTotal_congr rfl zone _
  | stores _ _ id_eq zoneId_eq state_eq =>
    rw [Registry.zoneTotal_withRow_fresh (hfresh g.sequence_issued_ne) id_eq zoneId_eq,
      Relay.running_of_ne (by simp [state_eq])]
    simp
  | launches _ _ id_eq zoneId_eq state_eq =>
    rw [Registry.zoneTotal_withRow_fresh (hfresh g.sequence_issued_ne) id_eq zoneId_eq,
      Relay.running_of_eq state_eq]
    simp

section
variable (h : Expansion rules zone g l x g') (hahead : g.NoneAhead)
  (hroom : g'.sequence ≠ g.sequence → g.sequence.toNat + 1 < 2 ^ 64)
include h hahead hroom

/-- Ids that are to be issued are still to be issued. -/
theorem noneAhead : g'.NoneAhead := by
  cases h with
  | waits | skips => exact hahead
  | restarts _ pooled | keeps _ pooled => exact hahead.withRow pooled.relay?_eq
  | drops => exact hahead.withoutRow
  | refuses => exact hahead.nextRelayId (hroom g.sequence_issued_ne)
  | stores _ _ id_eq | launches _ _ id_eq =>
    rw [id_eq]
    exact hahead.withRow_nextRelayId (hroom g.sequence_issued_ne)

/-- The rows of other zones stay as they are. -/
theorem zoneRows_eq (hg : g.Sound) (hz : z ≠ zone) : g'.zoneRows z = g.zoneRows z := by
  cases h with
  | waits | skips => rfl
  | restarts _ pooled | keeps _ pooled => exact pooled.zoneRows_withRow hg rfl rfl hz
  | drops _ pooled => exact hg.zoneRows_withoutRow (pooled.zoneId_ne hz)
  | refuses => exact Registry.zoneRows_congr_relays rfl z
  | stores _ _ id_eq zoneId_eq | launches _ _ id_eq zoneId_eq =>
    have hfresh := hahead.relay?_nextRelayId (hroom g.sequence_issued_ne)
    refine (Registry.Sound.zoneRows_withRow (hg.congr rfl) rfl
      (zoneId_eq.trans_ne hz.symm) fun y hy => ?_).trans (Registry.zoneRows_congr_relays rfl z)
    rw [id_eq, hfresh] at hy
    cases hy

/-- A relay that is not stopped stays as it is. -/
theorem relay?_of_not_stopped (hk : g.relay? k = some r) (hr : r.state ≠ .stopped) :
    g'.relay? k = some r := by
  have hne : ∀ {id y}, g.Pooled zone id y → k ≠ id := by
    rintro id y pooled rfl
    exact hr (pooled.eq_stopped hk)
  cases h with
  | waits | skips => exact hk
  | restarts _ pooled | keeps _ pooled =>
    rw [Registry.relay?_withRow, if_neg (hne pooled), hk]
  | drops _ pooled => rw [Registry.relay?_withoutRow, if_neg (hne pooled), hk]
  | refuses => exact (g.relay?_issued k).trans hk
  | stores _ _ id_eq | launches _ _ id_eq =>
    rw [Registry.relay?_withRow, if_neg]
    · exact (g.relay?_issued k).trans hk
    · rintro rfl
      rw [id_eq, hahead.relay?_nextRelayId (hroom g.sequence_issued_ne)] at hk
      cases hk

/-- One more relay of the zone runs, exactly if the expansion has succeeded. -/
theorem running_eq : g'.zoneTotal zone Relay.running =
    g.zoneTotal zone Relay.running + if x = .ok .applied then 1 else 0 :=
  h.running_eq_of_fresh fun hne => hahead.relay?_nextRelayId (hroom hne)

/-- Where an expansion succeeds the zone has no more relays than before or than the limit. -/
theorem live_le (hx : x = .ok .applied) (hlt : g.zoneTotal zone Relay.live < 2 ^ 32) :
    g'.zoneTotal zone Relay.live ≤
      max (g.zoneTotal zone Relay.live) rules.launchMaxPerZone.toNat := by
  cases h with
  | @restarts id r time _ pooled =>
    have htotal := pooled.zoneTotal_withRow
      (show ({ r with state := .running, updatedAt := time } : Relay).zoneId = r.zoneId from rfl)
      Relay.live
    have hsame : ({ r with state := .running, updatedAt := time } : Relay).live = r.live := by
      simp [Relay.live, pooled.state_eq, RelayState.isTerminal]
    omega
  | @launches r _ room id_eq zoneId_eq state_eq =>
    rw [UInt32.lt_iff_toNat_lt, Registry.toNat_totalCount_of_lt hlt] at room
    rw [Registry.zoneTotal_withRow_fresh (hahead.relay?_nextRelayId (hroom g.sequence_issued_ne))
      id_eq zoneId_eq]
    have hone : r.live = 1 := by simp [Relay.live, state_eq, RelayState.isTerminal]
    omega
  | _ => cases hx

end

end Expansion

/-! ## Expansions that nobody interrupts -/

namespace Alone

open ScanRules

variable {rules : ScanRules} {zone : ZoneId} {g g' : Registry} {id : RelayId} {r : Relay}
  {l : List Deed} {x : Except ExpandError StageOutcome}

/-- A failure is announced quietly. -/
theorem announceFailure {k : Option RelayId} {reason : String} {y : Unit}
    (h : Alone g (ScanRules.announceFailure zone k reason) l y g') :
    g' = g ∧ ∀ d ∈ l, d.IsQuiet := by
  obtain ⟨time, -, rfl, rfl⟩ := perform h
  exact ⟨rfl, isQuiet_of_ne (by simp)⟩

/-- A listing that a program which may fail goes on from. -/
theorem listed {β ε : Type} {wrap : StoreError → ε} {keep : Relay → Bool}
    {f : List Relay → ExceptT ε Fleet β} {y : Except ε β} (hg : g.Sound)
    (h : Alone g (Fleet.attempt wrap (.listRelays keep) >>= f).run l y g') :
    ∃ l₁ l₂, l = l₁ ++ l₂ ∧ (∀ d ∈ l₁, d.Lists) ∧
      Alone g (f (g.rows.filter keep)).run l₂ y g' := by
  obtain ⟨time, l₂, rfl, h₂⟩ := h.attempted fun _ => congrArg (·, g) (hg.listRelays keep)
  exact ⟨[_], l₂, rfl, List.forall_mem_singleton.mpr ⟨keep, rfl⟩, h₂⟩

/-- An expansion under the lock looks at the relays of its zone and does what they call for. -/
theorem plan (hg : g.Sound) (h : Alone g (rules.expandLocked zone).run l x g') :
    ∃ l₁ l₂ p, l = l₁ ++ l₂ ∧ (∀ d ∈ l₁, d.Lists) ∧ Plan rules zone g p ∧ Alone g p l₂ x g' := by
  obtain ⟨l₁, l₂, rfl, hlists, h₁⟩ := listed hg h
  change Alone g (ExceptT.run (if (g.capacityOf zone).transitionalCount > 0 ∨
    rules.decision (g.capacityOf zone) ≠ .expand then _ else _)) l₂ x g' at h₁
  split at h₁
  · next hidle =>
    refine ⟨l₁, l₂, _, rfl, hlists, .idle fun needs => ?_, h₁⟩
    rcases hidle with htransitional | hsuffices
    · rw [needs.1] at htransitional
      exact absurd htransitional (by decide)
    · exact hsuffices (decision_eq_expand_iff.mpr needs.2)
  · next hneeds =>
    obtain ⟨htransitional, hwants⟩ := not_or.mp hneeds
    have needs : rules.Needs (g.capacityOf zone) :=
      ⟨UInt32.le_zero_iff.mp (UInt32.not_lt.mp htransitional),
        decision_eq_expand_iff.mp (not_not.mp hwants)⟩
    obtain ⟨l₃, l₄, rfl, hlists', h₂⟩ := listed hg h₁
    refine ⟨l₁ ++ l₃, l₄, _, (List.append_assoc ..).symm,
      List.forall_mem_append.mpr ⟨hlists, hlists'⟩, ?_, h₂⟩
    split
    · next hpool => exact .restarts needs hpool
    · next hpool =>
      split
      · next hlimit => exact .full needs hpool hlimit
      · next hlimit => exact .launches needs hpool (UInt32.not_le.mp hlimit)

/-- A relay of the pool is booted, and destroyed if it does not boot. -/
theorem restart (hg : g.Sound) (needs : rules.Needs (g.capacityOf zone))
    (pooled : g.Pooled zone id r) (h : Alone g (ScanRules.restart zone id).run l x g') :
    Expansion rules zone g l x g' ∧ ∀ d ∈ l, d.Serves zone := by
  obtain ⟨l₁, y, g₁, l₂, rfl, h₁, h₂⟩ := h.lift
  obtain ⟨hbooted, hserves⟩ := start hg.keyed pooled.relay?_eq pooled.state_eq h₁
  rw [pooled.zoneId_eq] at hserves
  cases hbooted with
  | up =>
    obtain ⟨rfl, rfl, rfl⟩ := of_pure h₂
    rw [List.append_nil]
    exact ⟨.restarts needs pooled, hserves⟩
  | @down e time fails =>
    let r' : Relay := { r with state := .stopped, updatedAt := time }
    have hid : r.id = id := hg.id_eq pooled.relay?_eq
    obtain ⟨l₃, _, g₃, l₄, rfl, h₃, h₄⟩ := h₂.lift
    obtain ⟨rfl, hquiet⟩ := announceFailure h₃
    obtain ⟨l₅, y', g₅, l₆, rfl, h₅, h₆⟩ := h₄.lift
    have hg' : (g.withRow id r').Sound := hg.withRow hid
    obtain ⟨hgone, hdestroys⟩ := destroy (g.relay?_withRow_self id r') rfl h₅
    obtain ⟨rfl, rfl, rfl⟩ := of_pure h₆
    have hfails : ∃ d ∈ l₁ ++ (l₃ ++ (l₅ ++ [])), d.FailsStart id :=
      fails.imp fun d hd => ⟨List.mem_append_left _ hd.1, hd.2⟩
    refine ⟨?_, List.forall_mem_append.mpr ⟨hserves, ?_⟩⟩
    · rcases hgone with rfl | ⟨time', rfl⟩
      · rw [Registry.withoutRow_withRow]
        exact .drops needs pooled hfails
      · rw [Registry.withRow_withRow]
        exact .keeps (r := r) needs pooled hfails
    · rw [List.append_nil]
      refine List.forall_mem_append.mpr ⟨fun d hd => (hquiet d hd).serves zone, ?_⟩
      exact fun d hd => pooled.zoneId_eq ▸ hdestroys d hd

/-- A new relay is made and booted. -/
theorem launchNew (hg : g.Sound) (needs : rules.Needs (g.capacityOf zone))
    (hroom : (g.capacityOf zone).totalCount < rules.launchMaxPerZone)
    (h : Alone g (rules.launchNew zone).run l x g') :
    Expansion rules zone g l x g' ∧ ∀ d ∈ l, d.Serves zone := by
  obtain ⟨l₁, y, g₁, l₂, rfl, h₁, h₂⟩ := h.lift
  obtain ⟨hcreated, hserves⟩ := create h₁
  cases hcreated with
  | refused fails =>
    obtain ⟨rfl, rfl, rfl⟩ := of_pure h₂
    rw [List.append_nil]
    exact ⟨.refuses needs fails, hserves⟩
  | @stored r id_eq zoneId_eq state_eq =>
    obtain ⟨l₃, y', g₃, l₄, rfl, h₃, h₄⟩ := h₂.lift
    have hsound : (g.nextRelayId.2.withRow r.id r).Sound :=
      Registry.Sound.withRow (hg.congr rfl) rfl
    obtain ⟨hbooted, hboots⟩ := start hsound.keyed (Registry.relay?_withRow_self _ _ _) state_eq h₃
    rw [zoneId_eq] at hboots
    cases hbooted with
    | @up _ time =>
      obtain ⟨rfl, rfl, rfl⟩ := of_pure h₄
      rw [Registry.withRow_withRow, List.append_nil]
      exact ⟨.launches (r := { r with state := .running, updatedAt := time }) needs hroom id_eq
        zoneId_eq rfl, List.forall_mem_append.mpr ⟨hserves, hboots⟩⟩
    | @down _ time fails =>
      obtain ⟨l₅, _, g₅, l₆, rfl, h₅, h₆⟩ := h₄.lift
      obtain ⟨rfl, hquiet⟩ := announceFailure h₅
      obtain ⟨rfl, rfl, rfl⟩ := of_pure h₆
      rw [Registry.withRow_withRow, List.append_nil]
      obtain ⟨d, hd, hfails⟩ := fails
      have hlost : ∃ d ∈ l₁ ++ (l₃ ++ l₅), d.Fails :=
        ⟨d, List.mem_append_right _ (List.mem_append_left _ hd), hfails.fails⟩
      refine ⟨.stores (r := { r with state := .stopped, updatedAt := time }) needs hlost id_eq
        zoneId_eq rfl, ?_⟩
      exact List.forall_mem_append.mpr ⟨hserves, List.forall_mem_append.mpr
        ⟨hboots, fun d hd => (hquiet d hd).serves zone⟩⟩

/-- Quiet deeds may come before and after. -/
theorem expansion_append {l₁ l₂ : List Deed} (hquiet₁ : ∀ d ∈ l₁, d.IsQuiet)
    (hquiet₂ : ∀ d ∈ l₂, d.IsQuiet)
    (h : Expansion rules zone g l x g' ∧ ∀ d ∈ l, d.Serves zone) :
    Expansion rules zone g (l₁ ++ (l ++ l₂)) x g' ∧ ∀ d ∈ l₁ ++ (l ++ l₂), d.Serves zone := by
  refine ⟨h.1.mono (fun d hd => by simp [hd]) fun d hd => ?_, List.forall_mem_append.mpr
    ⟨fun d hd => (hquiet₁ d hd).serves zone, List.forall_mem_append.mpr
      ⟨h.2, fun d hd => (hquiet₂ d hd).serves zone⟩⟩⟩
  rcases List.mem_append.mp hd with hd | hd
  · exact .inr (hquiet₁ d hd)
  · exact (List.mem_append.mp hd).imp_right (hquiet₂ d)

/-- Quiet deeds may come before. -/
theorem expansion_append' {l₁ : List Deed} (hquiet : ∀ d ∈ l₁, d.IsQuiet)
    (h : Expansion rules zone g l x g' ∧ ∀ d ∈ l, d.Serves zone) :
    Expansion rules zone g (l₁ ++ l) x g' ∧ ∀ d ∈ l₁ ++ l, d.Serves zone := by
  have hboth := expansion_append hquiet (List.forall_mem_nil _) h
  rwa [List.append_nil] at hboth

/-- The expansion of a zone under the lock. -/
theorem expandLocked (hg : g.Sound) (h : Alone g (rules.expandLocked zone).run l x g') :
    Expansion rules zone g l x g' ∧ ∀ d ∈ l, d.Serves zone := by
  obtain ⟨l₁, l₂, p, rfl, hlists, hplan, h₁⟩ := plan hg h
  refine expansion_append' (fun d hd => (hlists d hd).isQuiet) ?_
  cases hplan with
  | idle hidle =>
    obtain ⟨rfl, rfl, rfl⟩ := of_pure h₁
    exact ⟨.skips (.inl hidle) (List.forall_mem_nil _), List.forall_mem_nil _⟩
  | @restarts r rest needs pool_eq =>
    have hr : r ∈ g.pool zone := pool_eq ▸ List.mem_cons_self
    exact restart hg needs (hg.mem_pool.mp hr) h₁
  | full needs pool_eq limit =>
    obtain ⟨l₅, _, g₅, l₆, rfl, h₃, h₄⟩ := h₁.lift
    obtain ⟨rfl, hquiet⟩ := announceFailure h₃
    obtain ⟨rfl, rfl, rfl⟩ := of_pure h₄
    rw [List.append_nil]
    refine ⟨.skips (.inr ⟨fun r hr hstate => ?_, limit⟩) hquiet,
      fun d hd => (hquiet d hd).serves zone⟩
    obtain ⟨hrow, hzone⟩ := hg.mem_zoneRows.mp hr
    have hpooled : r ∈ g'.pool zone := hg.mem_pool.mpr ⟨hrow, hzone, hstate⟩
    rw [pool_eq] at hpooled
    cases hpooled
  | launches needs _ room => exact launchNew hg needs room h₁

/-- The first relay that an expansion under the lock changes is the first of the stopped pool, if
there is one. -/
theorem changes_first_pooled {k : RelayId} (hg : g.Sound)
    (h : Alone g (rules.expandLocked zone).run l x g')
    (hid : l.findSome? Deed.changed? = some id) (pooled : g.Pooled zone k r) :
    (∃ first, g.Pooled zone id first) ∧ (k = id ∨ id < k) := by
  obtain ⟨l₁, l₂, p, rfl, hlists, hplan, h₁⟩ := plan hg h
  have hnone : l₁.findSome? Deed.changed? = none :=
    List.findSome?_eq_none_iff.mpr fun d hd => (hlists d hd).changed?_eq
  rw [List.findSome?_append, hnone, Option.none_or] at hid
  have hk := hg.id_eq pooled.relay?_eq
  have hmem : r ∈ g.pool zone := hg.mem_pool.mpr ⟨hk.symm ▸ pooled.1, pooled.2, pooled.3⟩
  cases hplan with
  | idle =>
    obtain ⟨rfl, -, -⟩ := of_pure h₁
    cases hid
  | @restarts first rest _ pool_eq =>
    change Alone g (.ask (.transact (.updateRelay first.id _)) _) l₂ x g' at h₁
    cases h₁
    cases hid
    have hfirst : first ∈ g.pool zone := pool_eq ▸ List.mem_cons_self
    have hasc : (g.pool zone).Pairwise fun a b => a.id < b.id := hg.pairwise_rows.filter _
    rw [pool_eq] at hmem hasc
    refine ⟨⟨first, hg.mem_pool.mp hfirst⟩, ?_⟩
    rcases List.mem_cons.mp hmem with rfl | hmem
    · exact .inl hk.symm
    · exact .inr (hk ▸ (List.pairwise_cons.mp hasc).1 r hmem)
  | full _ pool_eq | launches _ pool_eq =>
    rw [pool_eq] at hmem
    cases hmem

/-- The expansion of a zone. -/
theorem expand (hg : g.Sound) (h : Alone g (rules.expand zone) l x g') :
    Expansion rules zone g l x g' ∧ ∀ d ∈ l, d.Serves zone := by
  have hacquires : ∀ time r, ∀ d ∈ [(⟨g, .acquire rules.lockTimeout, time, r⟩ : Deed)], d.IsQuiet :=
    fun _ _ => isQuiet_of_ne (by simp)
  rcases h.withLock with ⟨time, e, l₁, rfl, h₁⟩ | ⟨time, l₁, time', rfl, h₁⟩
  · obtain ⟨l₂, _, g₂, l₃, rfl, h₂, h₃⟩ := h₁.bind
    obtain ⟨hg₂, hquiet⟩ := announceFailure h₂
    obtain ⟨rfl, rfl, hg₃⟩ := of_pure h₃
    obtain rfl : g = g' := (hg₃.trans hg₂).symm
    have hall := List.forall_mem_append.mpr ⟨hacquires time (.error e), hquiet⟩
    rw [List.append_nil]
    exact ⟨.waits ⟨_, List.mem_cons_self, trivial⟩ hall, fun d hd => (hall d hd).serves zone⟩
  · exact expansion_append (hacquires time _) (isQuiet_of_ne (by simp)) (expandLocked hg h₁)

end Alone

end RelayFleet
