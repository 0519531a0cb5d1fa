import RelayFleet.Proofs.Lifecycle.Conduct
import RelayFleet.Proofs.Registry.Keyed

/-!
# The lifecycle follows the protocol of calls

Each operation on a relay, begun without a duty, does what its duties ask for and ends without one,
whatever the registry and the provisioner answer.
-/

namespace RelayFleet

open Protocol

/-- Only a start changes what an expansion may do. -/
theorem Hold.after_of_ne {hold : Hold} {op : RelayOp} (h : op ≠ .start) (id : RelayId) :
    hold.after op id = hold := by
  cases hold <;> cases op <;> first | rfl | exact absurd rfl h

namespace Lifecycle

section
variable {rights : Rights} {Meets : Registry → Prop} {hold : Hold} {d : Duty} {id : RelayId}
  {ε : Type}

/-- A change of one row is answered with the row under the key and the changed row. -/
theorem change_eq {g : Registry} {time : Millis} {change : Relay → Relay} {c : Registry.Change}
    (hc : .ok c = (Transaction.run time g (.updateRelay id change)).1) :
    g.relay? id = some c.before ∧ c.after = { change c.before with updatedAt := time } := by
  rw [Transaction.run] at hc
  cases hr : g.relay? id with
  | none =>
    obtain ⟨e, -, hfails⟩ := Registry.updateRelay_none hr time change
    rw [hfails] at hc
    cases hc
  | some r =>
    rw [Registry.updateRelay_some hr] at hc
    cases hc
    exact ⟨rfl, rfl⟩

/-- An operation changes the row, and goes on with the changed one if it was legal. -/
theorem transition_eq_ask (id : RelayId) (choose : Relay → RelayOp)
    (onMove : RelayState → Relay → Relay) :
    ∃ next, (transition id choose onMove).run =
        .ask (.transact (.updateRelay id (moved choose onMove))) next ∧
      ∀ c t, nextState c.before.state (choose c.before) = .ok t →
        next (.ok c) = pure (.ok ⟨c.after, c.before.state, t⟩) := by
  refine ⟨_, rfl, fun c t h => ?_⟩
  show ExceptT.bindCont _ (Except.ok c) = _
  simp only [ExceptT.bindCont, h]
  rfl

/-- A transition leads to another state. -/
theorem ne_of_nextState {s s' : RelayState} {op : RelayOp} (h : nextState s op = .ok (.to s')) :
    s' ≠ s := by
  rintro rfl
  cases op with
  | migrationCompleted b => cases b <;> cases s' <;> cases h
  | _ => cases s' <;> cases h

/-- Moving a row keeps its relay. -/
theorem moved_moved (choose : Relay → RelayOp) {onMove : RelayState → Relay → Relay}
    (keeps : ∀ s r, r.Keeps (onMove s r) ∧ (onMove s r).state = r.state) (r : Relay) :
    r.Moved (choose r) (moved choose onMove r) := by
  simp only [moved]
  cases h : nextState r.state (choose r) with
  | error e => exact ⟨⟨rfl, rfl, Nat.le_refl _⟩, by simp [RelayState.after, h], fun _ => rfl⟩
  | ok t =>
    rcases t with s | _
    · obtain ⟨hk, hs⟩ := keeps r.state { r with state := s }
      refine ⟨⟨hk.id_eq, hk.zoneId_eq, hk.activeSessions_le⟩, ?_, ?_⟩
      · simp only [RelayState.after, h]
        exact hs
      · exact fun hsame => absurd (hs.symm.trans hsame) (ne_of_nextState h)
    · exact ⟨⟨rfl, rfl, Nat.le_refl _⟩, by simp [RelayState.after, h], fun _ => rfl⟩

/-- How an operation ends that was applied in one transaction. -/
def Operated (hold : Hold) (d : Duty) (op : RelayOp) (id : RelayId) (φ : Stage) :
    Except LifecycleError Applied → Prop
  | .ok x => φ = ⟨hold.after op id, d.next op id x.source⟩ ∧ x.relay.id = id ∧
      nextState x.source op = .ok x.transition
  | .error _ => φ = ⟨hold.after op id, .idle⟩

/-- An operation on a row. -/
theorem follows_transition (hsound : ∀ g, Meets g → g.Sound) (op : RelayOp)
    {onMove : RelayState → Relay → Relay} (asks : d.Asks rights hold op id)
    (keeps : ∀ s r, r.Keeps (onMove s r) ∧ (onMove s r).state = r.state) :
    (conduct rights Meets).Follows ⟨hold, d⟩ (transition id (fun _ => op) onMove).run
      (Operated hold d op id) := by
  refine Follows.bindExcept
    (S := fun φ x => match x with
      | .ok c => c.after.id = id ∧ φ = ⟨hold.after op id, d.next op id c.before.state⟩
      | .error _ => φ = ⟨hold.after op id, .idle⟩) (Follows.attempt fun r hr => ?_) ?_
    fun φ e h => h
  · cases r with
    | error e => exact ⟨_, .misses (r := default) (fun _ => asks) keeps, rfl⟩
    | ok c =>
      refine ⟨_, .operates (fun _ => asks) keeps, ?_, rfl⟩
      obtain ⟨time, g, hg, hc⟩ := hr
      obtain ⟨hbefore, hafter⟩ := change_eq hc
      rw [hafter]
      exact (moved_moved _ keeps c.before).keeps.id_eq.trans ((hsound g hg).id_eq hbefore)
  · rintro φ c ⟨hid, rfl⟩
    dsimp only
    split
    · next t heq => exact ⟨rfl, hid, heq⟩
    · next e heq =>
      show _ = _
      simp only [Duty.next, heq]

/-- Nothing but the state is changed. -/
theorem keeps_id (_ : RelayState) (r : Relay) : r.Keeps r ∧ r.state = r.state :=
  ⟨⟨rfl, rfl, Nat.le_refl _⟩, rfl⟩

/-- The sessions are over. -/
theorem keeps_withoutSessions (s : RelayState) (r : Relay) :
    r.Keeps (withoutSessions s r) ∧ (withoutSessions s r).state = r.state :=
  ⟨⟨rfl, rfl, Nat.zero_le _⟩, rfl⟩

/-- A step of a call in a program that may fail. -/
theorem follows_perform {α ε : Type} {φ : Stage} {a : Action} {f : a.Reply → ExceptT ε Fleet α}
    {Q : Stage → Except ε α → Prop}
    (h : ∀ r, ∃ φ', Stage.Step rights φ a r φ' ∧ (conduct rights Meets).Follows φ' (f r).run Q) :
    (conduct rights Meets).Follows φ
      ((liftM (Fleet.perform a) : ExceptT ε Fleet a.Reply) >>= f).run Q :=
  fun r _ => h r

/-- A look in a program that may fail. -/
theorem follows_look {α ε : Type} {φ : Stage} {a : Action} {f : a.Reply → ExceptT ε Fleet α}
    {Q : Stage → Except ε α → Prop} (ha : a.isLook)
    (h : ∀ r, (conduct rights Meets).Follows φ (f r).run Q) :
    (conduct rights Meets).Follows φ
      ((liftM (Fleet.perform a) : ExceptT ε Fleet a.Reply) >>= f).run Q :=
  follows_perform fun r => ⟨φ, .looks ha, h r⟩

/-- A relay is put down as running or as stopped, after which its boot is over. -/
theorem follows_bootEnd (hsound : ∀ g, Meets g → g.Sound) {op : RelayOp}
    (hop : op = .startCompleted ∨ op = .startFailed) (asks : d.Asks rights hold op id) :
    (conduct rights Meets).Follows ⟨hold, d⟩ (apply id op).run fun φ _ => φ = ⟨hold, .idle⟩ := by
  refine (follows_transition hsound op asks keeps_id).mono ?_
  intro φ a ha
  have hhold : hold.after op id = hold := Hold.after_of_ne (by rintro rfl; simp at hop) id
  cases a with
  | error e => rw [ha, hhold]
  | ok x =>
    rw [ha.1, hhold]
    rcases hop with rfl | rfl <;> cases x.source <;> rfl

/-- Booting a relay. -/
theorem follows_boot (hsound : ∀ g, Meets g → g.Sound) {r : Relay} (hid : r.id = id) :
    (conduct rights Meets).Follows ⟨hold, .booting id⟩ (boot r).run
      fun φ _ => φ = ⟨hold, .idle⟩ := by
  subst hid
  refine follows_perform ?_
  intro x
  cases x with
  | ok =>
    refine ⟨_, .provisions .up, Follows.bindExcept
      (follows_bootEnd hsound (.inl rfl) ⟨rfl, rfl⟩) ?_ fun _ _ h => h⟩
    rintro φ applied rfl
    exact follows_look rfl fun _ => rfl
  | error e =>
    refine ⟨_, .provisions .down, Follows.bindExcept
      (follows_bootEnd hsound (.inr rfl) ⟨rfl, rfl⟩) ?_ fun _ _ h => h⟩
    rintro φ applied rfl
    rfl

/-- Starting a relay. -/
theorem follows_start (hsound : ∀ g, Meets g → g.Sound) (may : rights.MayOperate hold .start id) :
    (conduct rights Meets).Follows ⟨hold, .idle⟩ (start id).run
      fun φ _ => φ = ⟨hold.after .start id, .idle⟩ := by
  refine Follows.bindExcept (follows_transition hsound _ (d := .idle) may keeps_id) ?_
    fun _ _ h => h
  rintro φ ⟨relay, source, t⟩ ⟨rfl, hid, ht⟩
  rcases t with s | _
  · simp only [Duty.next, ht]
    exact follows_boot hsound hid
  · simp only [Duty.next, ht]
    rfl

/-- Giving a relay its state back. -/
theorem follows_restore {s : RelayState} (hd : d = .stopFailed id s ∨ d = .destroyFailed id s) :
    (conduct rights Meets).Follows ⟨hold, d⟩ (restore id s).run fun φ _ => φ = ⟨hold, .idle⟩ := by
  refine Follows.bindExcept (S := fun φ _ => φ = ⟨hold, .idle⟩)
    (Follows.attempt fun r _ => ⟨_, .restores hd, rfl⟩) ?_ fun _ _ h => h
  rintro φ c rfl
  rfl

/-- Stopping a relay. -/
theorem follows_stop (hsound : ∀ g, Meets g → g.Sound) (may : rights.MayOperate hold .stop id) :
    (conduct rights Meets).Follows ⟨hold, .idle⟩ (stop id).run fun φ _ => φ = ⟨hold, .idle⟩ := by
  have hstop : hold.after .stop id = hold := Hold.after_of_ne (by simp) id
  refine Follows.bindExcept (follows_transition hsound _ (d := .idle) may keeps_id) ?_
    fun _ _ h => hstop ▸ h
  rintro φ ⟨relay, source, t⟩ ⟨rfl, hid, ht⟩
  rw [hstop]
  rcases t with s | _
  · simp only [Duty.next, ht]
    refine follows_perform ?_
    intro x
    cases x with
    | error e =>
      refine ⟨_, .provisions .stopFailed, Follows.bindExcept (follows_restore (.inl rfl)) ?_
        fun _ _ h => h⟩
      rintro φ _ rfl
      rfl
    | ok =>
      have hcompleted : hold.after .stopCompleted id = hold := Hold.after_of_ne (by simp) id
      refine ⟨_, .provisions .stopped, Follows.bindExcept
        (follows_transition hsound .stopCompleted ⟨rfl, rfl⟩ keeps_withoutSessions) ?_
        fun _ _ h => hcompleted ▸ h⟩
      rintro φ applied ⟨rfl, -, -⟩
      rw [hcompleted]
      cases applied.source <;> rfl
  · simp only [Duty.next, ht]
    rfl

/-- Destroying a relay. -/
theorem follows_destroy (hsound : ∀ g, Meets g → g.Sound)
    (may : rights.MayOperate hold .destroy id) :
    (conduct rights Meets).Follows ⟨hold, .idle⟩ (destroy id).run fun φ _ => φ = ⟨hold, .idle⟩ := by
  have hdestroy : hold.after .destroy id = hold := Hold.after_of_ne (by simp) id
  refine Follows.bindExcept (follows_transition hsound _ (d := .idle) may keeps_id) ?_
    fun _ _ h => hdestroy ▸ h
  rintro φ ⟨relay, source, t⟩ ⟨rfl, hid, ht⟩
  rw [hdestroy]
  rcases t with s | _
  · simp only [Duty.next, ht]
    refine follows_perform ?_
    intro x
    cases x with
    | error e =>
      refine ⟨_, .provisions .destroyFailed, Follows.bindExcept (follows_restore (.inr rfl)) ?_
        fun _ _ h => h⟩
      rintro φ _ rfl
      rfl
    | ok =>
      refine ⟨_, .provisions .destroyed, Follows.bindExcept (S := fun φ _ => φ = ⟨hold, .idle⟩)
        (Follows.attempt fun r _ => ⟨_, .removes, rfl⟩) ?_ fun _ _ h => h⟩
      rintro φ _ rfl
      exact fun _ _ => ⟨_, .looks rfl, rfl⟩
  · simp only [Duty.next, ht]
    rfl

/-- Rebooting a relay. -/
theorem follows_reboot (hsound : ∀ g, Meets g → g.Sound) (may : rights.MayOperate hold .reboot id) :
    (conduct rights Meets).Follows ⟨hold, .idle⟩ (reboot id).run fun φ _ => φ = ⟨hold, .idle⟩ := by
  have hreboot : hold.after .reboot id = hold := Hold.after_of_ne (by simp) id
  refine Follows.bindExcept (follows_transition hsound _ (d := .idle) may keeps_id) ?_
    fun _ _ h => hreboot ▸ h
  rintro φ ⟨relay, source, t⟩ ⟨rfl, hid, ht⟩
  rw [hreboot]
  rcases t with s | _
  · simp only [Duty.next, ht]
    exact follows_boot hsound hid
  · simp only [Duty.next, ht]
    refine follows_perform fun x => ⟨_, .provisions .rebooted, ?_⟩
    cases x with
    | error e => rfl
    | ok => exact follows_look rfl fun _ => rfl

/-- Fencing a relay and booting it again. -/
theorem follows_agentDisconnected (hsound : ∀ g, Meets g → g.Sound)
    (may : rights.MayOperate .out .agentDisconnected id) :
    (conduct rights Meets).Follows .rest (agentDisconnected id).run fun φ _ => φ = .rest := by
  refine Follows.bindExcept (follows_transition hsound _ (d := .idle) may keeps_id) ?_
    fun _ _ h => h
  rintro φ ⟨_, source, t⟩ ⟨rfl, -, ht⟩
  have hfencing : Duty.next .idle .agentDisconnected id source = .fencing id := by
    cases source <;> cases ht
    rfl
  rw [hfencing]
  refine follows_perform fun _ => ⟨_, .provisions .fenced, Follows.bindExcept
    (follows_transition hsound .haFenced ⟨rfl, rfl⟩ keeps_withoutSessions) ?_ fun _ _ h => h⟩
  rintro φ ⟨_, source, t⟩ ⟨rfl, -, ht⟩
  have hrestarting : Duty.next (.fenced id) .haFenced id source = .restarting id := by
    cases source <;> cases ht
    rfl
  rw [hrestarting]
  refine Follows.bindExcept (follows_transition hsound .start ⟨rfl, rfl⟩ keeps_id) ?_
    fun _ _ h => h
  rintro φ ⟨relay, source, t⟩ ⟨rfl, hid, ht⟩
  have hbooting : Duty.next (.restarting id) .start id source = .booting id := by
    cases source <;> cases ht <;> rfl
  rw [hbooting]
  exact follows_boot hsound hid

/-- Putting down that a migration begins. -/
theorem follows_migrationStarted (hsound : ∀ g, Meets g → g.Sound)
    (may : rights.MayOperate .out .migrationStarted id) :
    (conduct rights Meets).Follows .rest (migrationStarted id).run fun φ _ => φ = .rest := by
  refine Follows.bindExcept (follows_transition hsound _ (d := .idle) may
    fun s r => ⟨⟨rfl, rfl, Nat.le_refl _⟩, rfl⟩) ?_ fun _ _ h => h
  rintro φ ⟨_, source, t⟩ ⟨rfl, -, ht⟩
  cases source <;> rfl

/-- Putting down that a migration is over. -/
theorem follows_migrationCompleted (may : ∀ b, rights.MayOperate .out (.migrationCompleted b) id) :
    (conduct rights Meets).Follows .rest (migrationCompleted id).run fun φ _ => φ = .rest := by
  have keeps : ∀ (s : RelayState) (r : Relay), r.Keeps { r with preMigrationState := none } ∧
      ({ r with preMigrationState := none } : Relay).state = r.state :=
    fun _ _ => ⟨⟨rfl, rfl, Nat.le_refl _⟩, rfl⟩
  refine Follows.bindExcept (S := fun φ _ => φ = .rest) ?_ ?_ fun _ _ h => h
  · refine Follows.bindExcept (S := fun φ _ => φ = .rest) (Follows.attempt ?_) ?_
      fun _ _ h => h
    · intro r _
      cases r with
      | error e => exact ⟨_, .misses (r := default) (d := .idle) (fun r => may _) keeps, rfl⟩
      | ok c =>
        refine ⟨_, .operates (d := .idle) (fun r => may _) keeps, ?_⟩
        generalize decide (c.before.preMigrationState = some .running) = b
        cases c.before.state <;> cases b <;> rfl
    · rintro φ change rfl
      dsimp only
      split <;> rfl
  · rintro φ applied rfl
    rfl

/-- Making a relay. -/
theorem follows_create {zone : ZoneId} {spec : LaunchSpec} (may : rights.MayCreate hold zone) :
    (conduct rights Meets).Follows ⟨hold, .idle⟩ (create zone spec).run fun φ x => match x with
      | .ok r => φ = ⟨hold.stored r.id, .idle⟩
      | .error _ => φ = ⟨hold, .idle⟩ := by
  refine Follows.bindExcept (S := fun φ x => ∃ id, x = .ok id ∧ φ = ⟨hold, .allocating id zone⟩)
    (Follows.attempt fun r hr => ?_) ?_ (by simp)
  · obtain ⟨_, g, -, rfl⟩ := hr
    exact ⟨_, .issues may, _, rfl, rfl⟩
  · rintro φ id ⟨_, ⟨⟩, rfl⟩
    refine follows_perform ?_
    intro x
    cases x with
    | error e => exact ⟨_, .provisions .refused, follows_look rfl fun _ => rfl⟩
    | ok allocated =>
      refine ⟨_, .provisions .allocated, follows_look rfl fun now => Follows.bindExcept
        (S := fun φ x => x = .ok () ∧ φ = ⟨hold.stored id, .idle⟩)
        (Follows.attempt fun r hr => ?_) ?_ (by simp)⟩
      · obtain ⟨_, g, -, rfl⟩ := hr
        exact ⟨_, .stores rfl rfl rfl rfl, rfl, rfl⟩
      · rintro φ _ ⟨-, rfl⟩
        exact follows_look rfl fun _ => rfl

end

end Lifecycle

end RelayFleet
