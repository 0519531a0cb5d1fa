import RelayFleet.Proofs.Interleaving.Composition
import RelayFleet.Proofs.Lifecycle.Follows

/-!
# Expansions and passes follow the protocol of calls

An expansion asks for the start of a stopped relay, for a new relay and for the destruction of one
that did not boot only after it has found, under the lock, that its zone lacks relays
(`Rights.MayOperate`, `Rights.MayCreate`). A pass is a tick and a number of expansions; the tick
stops relays where the mode asks for it, and does nothing where the mode is `auto`.
-/

namespace RelayFleet

open Protocol

section
variable {rights : Rights} {Meets : Registry → Prop} {zone : ZoneId} {relays stopped : List Relay}

namespace ScanRules

/-- The end of work under the lock. -/
def Over {α : Type} (φ : Stage) (_ : α) : Prop := φ.duty = .idle ∧ φ.hold ≠ .out

/-- Booting a relay of the pool, and destroying it if it does not boot. -/
theorem follows_restart (hsound : ∀ g, Meets g → g.Sound) {r : Relay}
    (hlacks : rights.rules.Lacks zone relays) (hr : r ∈ stopped) :
    (conduct rights Meets).Follows ⟨.expanding zone relays (.pooled stopped), .idle⟩
      (restart zone r.id).run Over := by
  have mayStart : rights.MayOperate (.expanding zone relays (.pooled stopped)) .start r.id :=
    ⟨hlacks, r, hr, rfl⟩
  have mayDestroy : rights.MayOperate (.expanding zone relays (.begun r.id)) .destroy r.id :=
    ⟨hlacks, rfl⟩
  refine Follows.lift (Lifecycle.follows_start hsound mayStart) ?_
  rintro φ x rfl
  cases x with
  | ok => exact ⟨rfl, by simp [Hold.after]⟩
  | error e =>
    refine Lifecycle.follows_look rfl fun _ => Follows.lift
      (Lifecycle.follows_destroy hsound mayDestroy) ?_
    rintro φ _ rfl
    exact ⟨rfl, by simp [Hold.after]⟩

/-- Provisioning a relay and booting it. -/
theorem follows_launchNew (hsound : ∀ g, Meets g → g.Sound)
    (hlacks : rights.rules.Lacks zone relays) (hadmits : rights.rules.Admits zone relays) :
    (conduct rights Meets).Follows ⟨.expanding zone relays (.pooled []), .idle⟩
      (rights.rules.launchNew zone).run Over := by
  have mayCreate : rights.MayCreate (.expanding zone relays (.pooled [])) zone :=
    ⟨rfl, hlacks, hadmits⟩
  refine Follows.lift (Lifecycle.follows_create mayCreate) ?_
  intro φ x hφ
  cases x with
  | error e =>
    subst hφ
    exact ⟨rfl, by simp⟩
  | ok r =>
    subst hφ
    have mayStart : rights.MayOperate (.expanding zone relays (.created r.id)) .start r.id :=
      ⟨hlacks, rfl⟩
    refine Follows.lift (Lifecycle.follows_start hsound mayStart) ?_
    rintro φ x rfl
    cases x with
    | ok => exact ⟨rfl, by simp [Hold.after, Hold.stored]⟩
    | error e => exact Lifecycle.follows_look rfl fun _ => ⟨rfl, by simp [Hold.after, Hold.stored]⟩

/-- What an expansion does while it has the lock. -/
theorem follows_expandLocked (hsound : ∀ g, Meets g → g.Sound) :
    (conduct rights Meets).Follows ⟨.held, .idle⟩ (rights.rules.expandLocked zone).run Over := by
  refine Follows.bindExcept (S := fun φ x => match x with
    | .ok relays => φ = ⟨.expanding zone relays .counted, .idle⟩
    | .error _ => φ = ⟨.held, .idle⟩) (Follows.attempt fun r _ => ?_) ?_ ?_
  · cases r with
    | error e => exact ⟨_, .looks rfl, rfl⟩
    | ok relays => exact ⟨_, .counts, rfl⟩
  · rintro φ relays rfl
    dsimp only
    split
    · exact ⟨rfl, by simp⟩
    next hneeds =>
    rw [not_or, gt_iff_lt, UInt32.not_lt, not_not] at hneeds
    have hlacks : rights.rules.Lacks zone relays := ⟨UInt32.le_zero_iff.mp hneeds.1, hneeds.2⟩
    refine Follows.bindExcept (S := fun φ x => match x with
      | .ok stopped => φ = ⟨.expanding zone relays (.pooled stopped), .idle⟩
      | .error _ => φ = ⟨.expanding zone relays .counted, .idle⟩)
      (Follows.attempt fun r _ => ?_) ?_ ?_
    · cases r with
      | error e => exact ⟨_, .looks rfl, rfl⟩
      | ok relays => exact ⟨_, .pools, rfl⟩
    · rintro φ stopped rfl
      cases stopped with
      | cons r rest => exact follows_restart hsound hlacks List.mem_cons_self
      | nil =>
        dsimp only
        split
        · exact Lifecycle.follows_look rfl fun _ => ⟨rfl, by simp⟩
        · next hroom => exact follows_launchNew hsound hlacks (UInt32.not_le.mp hroom)
    · rintro φ e rfl
      exact ⟨rfl, by simp⟩
  · rintro φ e rfl
    exact ⟨rfl, by simp⟩

/-- An expansion. -/
theorem follows_expand (hsound : ∀ g, Meets g → g.Sound) :
    (conduct rights Meets).Follows .rest (rights.rules.expand zone) fun φ _ => φ = .rest := by
  intro r _
  cases r with
  | error e => exact ⟨_, .gives_up, fun _ _ => ⟨_, .looks rfl, rfl⟩⟩
  | ok =>
    refine ⟨_, .obtains, ?_⟩
    show (conduct rights Meets).Follows ⟨.held, .idle⟩
      ((rights.rules.expandLocked zone).run >>= fun a => do Fleet.perform .release; return a) _
    refine Follows.bind (follows_expandLocked hsound) ?_
    rintro ⟨hold, d⟩ a ⟨hd, hhold⟩
    cases hd
    exact fun _ _ => ⟨_, .releases hhold, rfl⟩

end ScanRules

/-! ## Ticks and passes -/

namespace Management

/-- A look at the registry. -/
theorem follows_query {t : Transaction} (ht : Action.isLook (.transact t)) :
    (conduct rights Meets).Follows .rest (Fleet.transact t) fun φ _ => φ = .rest :=
  fun _ _ => ⟨_, .looks ht, rfl⟩

/-- A change of the mode. -/
theorem follows_putMode {m : ModeRecord} (hswitch : rights.switches) :
    (conduct rights Meets).Follows .rest (Fleet.transact (.putMode m)) fun φ _ => φ = .rest :=
  fun _ _ => ⟨_, .switches hswitch, rfl⟩

/-- A switch of the mode. -/
theorem follows_set {m : Mode} (hswitch : rights.switches) :
    (conduct rights Meets).Follows .rest (set m).run fun φ _ => φ = .rest :=
  Follows.closedKind.set (follows_query rfl) fun _ => follows_putMode hswitch

/-- A return to the mode before. -/
theorem follows_resume (hswitch : rights.switches) :
    (conduct rights Meets).Follows .rest resume.run fun φ _ => φ = .rest :=
  Follows.closedKind.resume (follows_query rfl) fun _ => follows_putMode hswitch

/-- Advancing a drain. -/
theorem follows_tick (hsound : ∀ g, Meets g → g.Sound) (hstop : rights.operates .stop)
    (hswitch : rights.switches) :
    (conduct rights Meets).Follows .rest tick.run fun φ _ => φ = .rest := by
  have may : ∀ id, rights.MayOperate .out .stop id := fun _ => hstop
  exact Follows.closedKind.tick (fun _ => follows_query rfl)
    (fun id => Lifecycle.follows_stop hsound (may id)) (follows_query rfl)
    fun _ => follows_putMode hswitch

/-- Where the mode is `auto` there is no drain to be advanced. -/
theorem follows_tick_of_auto
    (hauto : ∀ g, Meets g → ∃ record, g.getMode = .ok record ∧ record.current = .auto) :
    (conduct rights Meets).Follows .rest tick.run fun φ _ => φ = .rest := by
  refine Follows.bindExcept (S := fun φ x => ∃ record, x = .ok record ∧ record.current = .auto ∧
    φ = .rest) (Follows.attempt fun r hr => ⟨_, .looks rfl, ?_⟩) ?_ (by simp)
  · obtain ⟨_, g, hg, rfl⟩ := hr
    obtain ⟨record, hrecord, hcurrent⟩ := hauto g hg
    exact ⟨record, by rw [Transaction.run, hrecord]; rfl, hcurrent, rfl⟩
  · rintro φ record ⟨_, ⟨⟩, hcurrent, rfl⟩
    simp only [hcurrent]
    rfl

end Management

namespace ScanRules

/-- A pass, if its tick follows the protocol. -/
theorem follows_runPass (hsound : ∀ g, Meets g → g.Sound)
    (htick : (conduct rights Meets).Follows .rest Management.tick.run fun φ _ => φ = .rest) :
    (conduct rights Meets).Follows .rest rights.rules.runPass fun φ _ => φ = .rest :=
  Follows.closedKind.runPass (fun _ _ => ⟨_, .looks rfl, rfl⟩)
    (fun _ => Management.follows_query rfl) htick fun _ => follows_expand hsound

end ScanRules

end

/-! ## What an expansion has read -/

/-- An expansion that has stored no relay and begun no start. -/
def Phase.IsEarly : Phase → Prop
  | .counted | .pooled _ => True
  | _ => False

/-- An expansion has read the relays of its zone earlier, or reads them now; it has stored none and
begun no start before if it is early still. -/
theorem Stage.Step.reads {rights : Rights} {φ φ' : Stage} {a : Action} {r : a.Reply} {ι : Type}
    {i : ι} {g : Registry} {holder : Option ι} {time : Millis} {zone : ZoneId} {relays : List Relay}
    {p : Phase} (hs : Stage.Step rights φ a r φ') (answers : a.Answers time g i holder r)
    (hg : g.Sound) (hhold : φ'.hold = .expanding zone relays p) :
    (∃ p', φ.hold = .expanding zone relays p' ∧
        (p.IsEarly → p'.IsEarly ∧ ∀ r, a ≠ .transact (.putRelay r))) ∨
      φ.hold = .held ∧ a = .transact (.listRelays (·.zoneId == zone)) ∧
        relays = g.rows.filter (·.zoneId == zone) := by
  have hafter : ∀ {hold : Hold} {op : RelayOp} {id : RelayId},
      hold.after op id = .expanding zone relays p →
      ∃ p', hold = .expanding zone relays p' ∧ (p.IsEarly → p'.IsEarly) := by
    intro hold op id h
    by_cases hop : op = .start
    · subst hop
      cases hold with
      | expanding =>
        cases h
        exact ⟨_, rfl, False.elim⟩
      | _ => cases h
    · rw [Hold.after_of_ne hop] at h
      exact ⟨p, h, fun hp => hp⟩
  cases hs with
  | looks ha => exact .inl ⟨p, hhold, fun hp => ⟨hp, by rintro r rfl; cases ha⟩⟩
  | obtains | gives_up | releases => cases hhold
  | counts =>
    cases hhold
    rw [Action.Answers, Transaction.run, hg.listRelays] at answers
    exact .inr ⟨rfl, rfl, Except.ok.inj answers⟩
  | pools =>
    cases hhold
    exact .inl ⟨.counted, rfl, fun _ => ⟨trivial, by simp⟩⟩
  | operates | misses =>
    obtain ⟨p', hhold, hp⟩ := hafter hhold
    exact .inl ⟨p', hhold, fun h => ⟨hp h, by simp⟩⟩
  | @stores hold =>
    cases hold with
    | expanding =>
      cases hhold
      exact .inl ⟨_, rfl, False.elim⟩
    | _ => cases hhold
  | restores => exact .inl ⟨p, hhold, fun hp => ⟨hp, by simp [Transaction.restoring]⟩⟩
  | _ => exact .inl ⟨p, hhold, fun hp => ⟨hp, by simp⟩⟩

end RelayFleet
