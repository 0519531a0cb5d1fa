import RelayFleet.Proofs.Lifecycle.Custody
import RelayFleet.Proofs.Lifecycle.Undisturbed
import RelayFleet.Proofs.Registry.Persistence
import RelayFleet.Proofs.Scan.LaunchLimit

/-!
# Which relays an expansion destroys

An expansion destroys the relay of the stopped pool that it could not start. That start fails when
the provisioner fails, and then the relay is one that cannot boot. It also fails when an operator
moves the relay meanwhile, so that one of the operations of the start is refused (`Overtaken`): the
provisioner has not been asked then, or has started the relay. What an expansion does about a relay
is followed from the listing of the pool on (`Attempt`), and of the relays that it destroys exactly
those could boot, or were not tried, of which it was overtaken (`Run.destroys_unbootable_iff`).
-/

namespace RelayFleet

open Protocol

/-! ## What is said of runs -/

/-- The operation cannot be applied to the relay: there is none, or its state refuses it. -/
def Registry.Refuses (g : Registry) (op : RelayOp) (id : RelayId) : Prop :=
  ∀ x, g.state? id = some x → ∃ e, nextState x op = .error e

section
variable {ι α : Type}

/-- The call asks for the destruction of the relay. -/
def Moment.Condemns (e : Moment ι α) (i : ι) (id : RelayId) : Prop :=
  e.move.caller = i ∧ e.move.action.Applies .destroy id

/-- The provisioner fails when the call asks for the start of the relay. -/
def Moment.FailsStart (e : Moment ι α) (i : ι) (id : RelayId) : Prop :=
  e.move.caller = i ∧ e.deed.FailsStart id

/-- The call is refused an operation on the relay. -/
def Moment.IsRefused (e : Moment ι α) (i : ι) (op : RelayOp) (id : RelayId) : Prop :=
  e.move.caller = i ∧ e.move.action.Applies op id ∧ e.before.registry.Refuses op id

/-- Another call changes the state of the relay. -/
def Moment.Meddles (e : Moment ι α) (i : ι) (id : RelayId) : Prop :=
  e.move.caller ≠ i ∧ e.after.state? id ≠ e.before.registry.state? id

/-- Since the call got the lock the provisioner has failed to start the relay for it. -/
def CouldNotBoot (h : List (Moment ι α)) (i : ι) (id : RelayId) : Prop :=
  WhileHeld h i (·.FailsStart i id)

/-- Since the call got the lock it was refused to begin the start of the relay, or to end it. -/
def Overtaken (h : List (Moment ι α)) (i : ι) (id : RelayId) : Prop :=
  WhileHeld h i fun e => e.IsRefused i .start id ∨ e.IsRefused i .startCompleted id

/-- Since the call got the lock another one has changed the state of the relay. -/
def Meddled (h : List (Moment ι α)) (i : ι) (id : RelayId) : Prop :=
  WhileHeld h i (·.Meddles i id)

/-- Whenever the call asks for the destruction of a relay it has just failed to boot. -/
def DestroysUnbootable (h : List (Moment ι α)) (i : ι) : Prop :=
  ∀ h₁ e h₂ id, h = h₁ ++ e :: h₂ → e.Condemns i id → CouldNotBoot h₁ i id

end

/-! ## Operations and actions -/

section
variable {a : Action} {op op' : RelayOp} {id k : RelayId}

/-- An action applies one operation to one relay, as far as states tell. -/
theorem Action.Applies.after_eq (h : a.Applies op id) (h' : a.Applies op' k) :
    id = k ∧ ∀ x : RelayState, x.after op = x.after op' := by
  obtain ⟨onMove, hkeeps, rfl⟩ := h
  obtain ⟨onMove', hkeeps', heq⟩ := h'
  injection heq with heq
  injection heq with hid hmoved
  refine ⟨hid, fun x => ?_⟩
  have hstate := congrArg Relay.state (congrFun hmoved { (default : Relay) with state := x })
  rwa [Lifecycle.state_moved hkeeps, Lifecycle.state_moved hkeeps'] at hstate

/-- An action that leaves the lock alone and destroys no relay. -/
structure Action.IsMild (a : Action) : Prop where
  lockless : ∀ {ι : Type} (i : ι) holder r, a.holderAfter i holder r = holder
  not_destroys : ∀ id, ¬ a.Applies .destroy id

/-- What does not change a row is mild if it leaves the lock alone. -/
theorem Action.isMild_of_ne
    (hlock : ∀ {ι : Type} (i : ι) holder r, a.holderAfter i holder r = holder)
    (hne : ∀ id change, a ≠ .transact (.updateRelay id change)) : a.IsMild := by
  refine ⟨hlock, ?_⟩
  rintro id ⟨onMove, -, rfl⟩
  exact hne _ _ rfl

/-- An operation other than the destruction is mild. -/
theorem Action.isMild_moved {onMove : RelayState → Relay → Relay}
    (keeps : ∀ s r, (onMove s r).state = r.state) (hop : op ≠ .destroy) :
    (Action.transact (.updateRelay id (Lifecycle.moved (fun _ => op) onMove))).IsMild := by
  refine ⟨fun _ _ _ => rfl, fun k hdestroys => ?_⟩
  have happlies : Action.Applies op id
      (.transact (.updateRelay id (Lifecycle.moved (fun _ => op) onMove))) := ⟨onMove, keeps, rfl⟩
  have hstopped := (happlies.after_eq hdestroys).2 .stopped
  cases op <;> first | exact hop rfl | cases hstopped

/-- Giving a relay its state back is mild. -/
theorem Action.isMild_restores {s : RelayState} :
    (Action.transact (.updateRelay id fun r => { r with state := s })).IsMild := by
  refine ⟨fun _ _ _ => rfl, ?_⟩
  rintro k ⟨onMove, hkeeps, heq⟩
  injection heq with heq
  injection heq with _ hmoved
  exact Lifecycle.moved_ne_restoring hkeeps hmoved.symm

/-- A look is mild. -/
theorem Action.isMild_of_isLook (ha : a.isLook) : a.IsMild := by
  refine isMild_of_ne (fun i holder r => holderAfter_of_isLook ha i holder) ?_
  rintro id change rfl
  cases ha

end

/-- Applies an operation that changes nothing but the state. -/
def Transaction.applying (id : RelayId) (op : RelayOp) : Transaction :=
  .updateRelay id (Lifecycle.moved (fun _ => op) fun _ r => r)

/-- The answer says that the operation was not applied. -/
def RelayOp.Refused (op : RelayOp) (r : StoreResult Registry.Change) : Prop :=
  ∀ c, r = .ok c → ∃ e, nextState c.before.state op = .error e

/-! ## What an expansion does about a relay -/

/-- How far an expansion is. -/
inductive Attempt where
  /-- The call does not have the lock. -/
  | out
  /-- It has the lock and has not listed the stopped relays. -/
  | held
  /-- It has listed the stopped relays. -/
  | pooled (stopped : List Relay)
  /-- It has begun to start the relay. -/
  | begun (id : RelayId)
  /-- The provisioner has started the relay. -/
  | booted (id : RelayId)
  /-- The provisioner has failed to start the relay. -/
  | unbootable (id : RelayId)
  /-- It was refused to begin the start of the relay, or to end it. -/
  | overtaken (id : RelayId)
  /-- It destroys no relay any more before it gives the lock back. -/
  | ended

namespace Attempt

/-- The start of the relay has failed. -/
def HasFailed (φ : Attempt) (id : RelayId) : Prop := φ = .unbootable id ∨ φ = .overtaken id

/-- The operations that may be refused: the one that begins a start, and the one that ends it. -/
inductive Tries : Attempt → RelayOp → RelayId → Prop
  | begins {stopped : List Relay} {r : Relay} (hr : r ∈ stopped) :
    Tries (pooled stopped) .start r.id
  | ends {id : RelayId} : Tries (booted id) .startCompleted id

/-- The steps of an expansion. -/
inductive Step : Attempt → (a : Action) → a.Reply → Attempt → Prop
  | idles {a : Action} {r : a.Reply} (ha : a.IsMild) : Step out a r out
  | gives_up {timeout : Duration} {e : LockTimeout} : Step out (.acquire timeout) (.error e) out
  | obtains {timeout : Duration} : Step out (.acquire timeout) (.ok ()) held
  | looks {a : Action} {r : a.Reply} (ha : a.isLook) : Step held a r held
  | pools {keep : Relay → Bool} {stopped : List Relay} (hkeep : ∀ r, keep r → r.state = .stopped) :
    Step held (.transact (.listRelays keep)) (.ok stopped) (pooled stopped)
  | begins {stopped : List Relay} {r : Relay} {c : Registry.Change} {x : RelayState}
    (hr : r ∈ stopped) (legal : nextState c.before.state .start = .ok (.to x)) :
    Step (pooled stopped) (.transact (.applying r.id .start)) (.ok c) (begun r.id)
  | boots {id : RelayId} : Step (begun id) (.provision (.start id)) (.ok ()) (booted id)
  | fails {id : RelayId} {e : ProvisionError} :
    Step (begun id) (.provision (.start id)) (.error e) (unbootable id)
  | puts_down {id : RelayId} {r : StoreResult Registry.Change} :
    Step (unbootable id) (.transact (.applying id .startFailed)) r (unbootable id)
  | is_overtaken {φ : Attempt} {op : RelayOp} {id : RelayId} {r : StoreResult Registry.Change}
    (tries : φ.Tries op id) (refused : op.Refused r) :
    Step φ (.transact (.applying id op)) r (overtaken id)
  | announces {φ : Attempt} {id : RelayId} {e : Event} (failed : φ.HasFailed id) :
    Step φ (.emit e) () φ
  | condemns {φ : Attempt} {id : RelayId} {r : StoreResult Registry.Change}
    (failed : φ.HasFailed id) : Step φ (.transact (.applying id .destroy)) r ended
  /-- From now on it destroys no relay. -/
  | turns {φ : Attempt} {a : Action} {r : a.Reply} (hout : φ ≠ out) (ha : a.IsMild) :
    Step φ a r ended
  | releases {φ : Attempt} : Step φ .release () out

end Attempt

/-- The protocol of expansions. -/
def replacement : Protocol Attempt := ⟨Registry.Keyed, Attempt.Step⟩

section
variable {α : Type} {P : α → Prop} {p : Fleet α} {φ : Attempt}

/-- Whoever does not have the lock does not get it by what is mild. -/
theorem Asks.follows_out (h : Asks Action.IsMild p P) :
    replacement.Follows .out p fun φ _ => φ = .out := by
  induction p with
  | pure a => exact rfl
  | ask a next ih => exact fun r _ => ⟨_, .idles h.1, ih r (h.2 r)⟩

/-- Whoever has the lock may do what is mild. -/
theorem Asks.follows_ended (h : Asks Action.IsMild p P) (hout : φ ≠ .out) :
    replacement.Follows φ p fun _ _ => True := by
  induction p generalizing φ with
  | pure a => exact trivial
  | ask a next ih => exact fun r _ => ⟨_, .turns hout h.1, ih r (h.2 r) (by simp)⟩

end

namespace Lifecycle

variable {id : RelayId} {op : RelayOp} {φ : Attempt}

/-- An operation is applied, or it is refused. -/
theorem follows_apply {Q : Attempt → Except LifecycleError Applied → Prop}
    (hok : ∀ c t, c.after.id = id → nextState c.before.state op = .ok t →
      ∃ φ', Attempt.Step φ (.transact (.applying id op)) (.ok c) φ' ∧
        Q φ' (.ok ⟨c.after, c.before.state, t⟩))
    (herror : ∀ r, op.Refused r →
      ∃ φ', Attempt.Step φ (.transact (.applying id op)) r φ' ∧ ∀ e, Q φ' (.error e)) :
    replacement.Follows φ (apply id op).run Q := by
  intro r hr
  cases r with
  | error e =>
    obtain ⟨φ', hs, hQ⟩ := herror (.error e) (by simp [RelayOp.Refused])
    exact ⟨φ', hs, hQ _⟩
  | ok c =>
    cases hnext : nextState c.before.state op with
    | error e =>
      obtain ⟨φ', hs, hQ⟩ := herror (.ok c) (by simp [RelayOp.Refused, hnext])
      refine ⟨φ', hs, ?_⟩
      show replacement.Follows φ' (ExceptT.bindCont _ (Except.ok c)) Q
      simp only [ExceptT.bindCont, hnext]
      exact hQ _
    | ok t =>
      obtain ⟨time, g, hkeyed, hc⟩ := hr
      obtain ⟨hbefore, hafter⟩ := change_eq hc
      have hid : c.after.id = id := by
        rw [hafter]
        exact (moved_moved _ keeps_id c.before).keeps.id_eq.trans (hkeyed id _ hbefore)
      obtain ⟨φ', hs, hQ⟩ := hok c t hid hnext
      refine ⟨φ', hs, ?_⟩
      show replacement.Follows φ' (ExceptT.bindCont _ (Except.ok c)) Q
      simp only [ExceptT.bindCont, hnext]
      exact hQ

/-- Booting a relay that was moved to `starting`. -/
theorem replacement_boot {r : Relay} :
    replacement.Follows (.begun r.id) (boot r).run fun φ x => ∀ e, x = .error e →
      φ.HasFailed r.id := by
  intro x _
  cases x with
  | ok =>
    refine ⟨_, .boots, Follows.bindExcept (S := fun φ x => (∀ applied, x = .ok applied → φ ≠ .out) ∧
      ∀ e, x = .error e → φ.HasFailed r.id) (follows_apply ?_ ?_) ?_ fun φ e h _ _ => h.2 e rfl⟩
    · exact fun c t _ _ => ⟨_, .turns (by simp) (Action.isMild_moved (fun _ _ => rfl) (by simp)),
        by simp, by simp⟩
    · exact fun r hr => ⟨_, .is_overtaken .ends hr, fun _ => ⟨by simp, fun _ _ => .inr rfl⟩⟩
    · intro φ applied hout _ _
      exact ⟨_, .turns (hout.1 applied rfl) (Action.isMild_of_isLook rfl), nofun⟩
  | error e =>
    refine ⟨_, .fails, Follows.bindExcept (S := fun φ _ => φ = .unbootable r.id)
      (follows_apply ?_ ?_) ?_ ?_⟩
    · exact fun c t _ _ => ⟨_, .puts_down, rfl⟩
    · exact fun r _ => ⟨_, .puts_down, fun _ => rfl⟩
    · rintro φ applied rfl _ _
      exact .inl rfl
    · rintro φ e rfl _ _
      exact .inl rfl

/-- Starting a relay of the pool. -/
theorem replacement_start {stopped : List Relay} {r : Relay} (hr : r ∈ stopped) :
    replacement.Follows (.pooled stopped) (start r.id).run fun φ x => ∀ e, x = .error e →
      φ.HasFailed r.id := by
  refine Follows.bindExcept (S := fun φ x => (∀ applied, x = .ok applied →
      applied.relay.id = r.id ∧ ∀ y, applied.transition = .to y → φ = .begun r.id) ∧
      ∀ e, x = .error e → φ.HasFailed r.id) (follows_apply ?_ ?_) ?_ fun φ e h _ _ => h.2 e rfl
  · intro c t hid legal
    rcases t with y | _
    · refine ⟨_, .begins hr legal, ?_, by simp⟩
      rintro _ ⟨⟩
      exact ⟨hid, fun _ _ => rfl⟩
    · refine ⟨_, .turns (by simp) (Action.isMild_moved (fun _ _ => rfl) (by simp)), ?_, by simp⟩
      rintro _ ⟨⟩
      exact ⟨hid, by simp⟩
  · exact fun c hc => ⟨_, .is_overtaken (.begins hr) hc, fun _ => ⟨by simp, fun _ _ => .inr rfl⟩⟩
  · rintro φ ⟨relay, source, t⟩ ⟨happlied, -⟩
    obtain ⟨hid, hbegun⟩ := happlied _ rfl
    rcases t with y | _
    · obtain rfl := hbegun y rfl
      dsimp only at hid
      rw [← hid]
      exact replacement_boot
    · exact nofun

/-- Destroying a relay whose start has failed. -/
theorem replacement_destroy (failed : φ.HasFailed id) :
    replacement.Follows φ (destroy id).run fun _ _ => True := by
  have hrest : AsksThen Action.IsMild (destroy id).run :=
    asksThen_destroy_of (Action.isMild_of_ne (fun _ _ _ => rfl) nofun)
      (fun _ => Action.isMild_restores) (Action.isMild_of_ne (fun _ _ _ => rfl) nofun)
      fun _ => Action.isMild_of_isLook rfl
  exact fun r _ => ⟨_, .condemns failed, (hrest r).follows_ended (by simp)⟩

end Lifecycle

namespace ScanRules

variable {rules : ScanRules} {zone : ZoneId}

/-- Starting a relay of the pool, and destroying it if this fails. -/
theorem replacement_restart {stopped : List Relay} {r : Relay} (hr : r ∈ stopped) :
    replacement.Follows (.pooled stopped) (restart zone r.id).run fun _ _ => True := by
  refine Follows.lift (Lifecycle.replacement_start hr) ?_
  intro φ x hfailed
  cases x with
  | ok => exact trivial
  | error e =>
    have failed := hfailed e rfl
    exact fun _ _ => ⟨_, .announces failed,
      Follows.lift (Lifecycle.replacement_destroy failed) fun _ _ _ => trivial⟩

/-- Bringing a new relay online destroys none. -/
theorem mild_launchNew : Asks Action.IsMild (rules.launchNew zone).run fun _ => True := by
  have hmoved : ∀ {id : RelayId} {op : RelayOp}, op ≠ .destroy → Action.IsMild
      (.transact (.updateRelay id (Lifecycle.moved (fun _ => op) fun _ r => r))) :=
    Action.isMild_moved fun _ _ => rfl
  have hprovision : ∀ c, (Action.provision c).IsMild :=
    fun _ => Action.isMild_of_ne (fun _ _ _ => rfl) nofun
  have hemit : ∀ e, (Action.emit e).IsMild := fun _ => Action.isMild_of_isLook rfl
  have hboot : ∀ r, Asks Action.IsMild (Lifecycle.boot r).run fun _ => True := fun r =>
    Lifecycle.asks_boot (hprovision _)
      (fun op hop => hmoved (by rcases hop with rfl | rfl <;> simp)) (hemit _)
  refine Asks.lift (Lifecycle.asks_create_of (Action.isMild_of_ne (fun _ _ _ => rfl) nofun)
    (fun _ => hprovision _) (Action.isMild_of_isLook rfl)
    (fun _ _ _ _ => Action.isMild_of_ne (fun _ _ _ => rfl) nofun) hemit) ?_
  intro x
  cases x with
  | error e => exact .pure trivial
  | ok r =>
    refine Asks.lift (Lifecycle.asks_start_of (hmoved (by simp)) hboot) ?_
    intro x
    cases x with
    | ok => exact .pure trivial
    | error e => exact Asks.performed (hemit _) fun _ => .pure trivial

/-- What an expansion does while it has the lock. -/
theorem replacement_expandLocked :
    replacement.Follows .held (rules.expandLocked zone).run fun _ _ => True := by
  refine Follows.bindExcept (S := fun φ _ => φ = .held)
    (Follows.attempt fun r _ => ⟨_, .looks rfl, rfl⟩) ?_ fun _ _ _ => trivial
  rintro φ relays rfl
  dsimp only
  split
  · exact trivial
  refine Follows.bindExcept (S := fun φ x => ∀ stopped, x = .ok stopped → φ = .pooled stopped)
    (Follows.attempt fun r _ => ?_) ?_ fun _ _ _ => trivial
  · cases r with
    | error e => exact ⟨_, .looks rfl, nofun⟩
    | ok stopped => exact ⟨_, .pools (by simp +contextual), by rintro _ ⟨⟩; rfl⟩
  · intro φ stopped hpooled
    obtain rfl := hpooled stopped rfl
    cases stopped with
    | cons r rest => exact replacement_restart List.mem_cons_self
    | nil =>
      dsimp only
      split
      · exact fun _ _ => ⟨_, .turns (by simp) (Action.isMild_of_isLook rfl), trivial⟩
      · exact mild_launchNew.follows_ended (by simp)

/-- An expansion. -/
theorem replacement_expand :
    replacement.Follows .out (rules.expand zone) fun φ _ => φ = .out := by
  intro r _
  cases r with
  | error e =>
    exact ⟨_, .gives_up, fun _ _ => ⟨_, .idles (Action.isMild_of_isLook rfl), rfl⟩⟩
  | ok =>
    refine ⟨_, .obtains, ?_⟩
    show replacement.Follows .held
      ((rules.expandLocked zone).run >>= fun a => do Fleet.perform .release; return a) _
    exact Follows.bind replacement_expandLocked fun _ _ _ _ _ => ⟨_, .releases, rfl⟩

/-- A pass. -/
theorem replacement_runPass : replacement.Follows .out rules.runPass fun φ _ => φ = .out := by
  have hquiet : ∀ {a : Action}, a.IsMild →
      replacement.Follows .out (Fleet.perform a) fun φ _ => φ = .out :=
    fun ha _ _ => ⟨_, .idles ha, rfl⟩
  have hstop : ∀ id, Asks Action.IsMild (Lifecycle.stop id).run fun _ => True := fun id =>
    Lifecycle.asks_stop_of (Action.isMild_moved (fun _ _ => rfl) (by simp))
      (Action.isMild_of_ne (fun _ _ _ => rfl) nofun) (fun _ => Action.isMild_restores)
      (Action.isMild_moved (fun _ _ => rfl) (by simp))
  refine Follows.closedKind.runPass (hquiet (Action.isMild_of_isLook rfl))
    (fun _ => hquiet (Action.isMild_of_isLook rfl)) ?_ fun _ => replacement_expand
  exact Follows.closedKind.tick (fun _ => hquiet (Action.isMild_of_isLook rfl))
    (fun id => (hstop id).follows_out) (hquiet (Action.isMild_of_isLook rfl))
    fun _ => hquiet (Action.isMild_of_ne (fun _ _ _ => rfl) nofun)

end ScanRules

/-- A call that expands zones. -/
inductive Operation.Expands : Operation → Prop
  | expand {rules : ScanRules} {zone : ZoneId} : Expands (.expand rules zone)
  | pass {rules : ScanRules} : Expands (.pass rules)

/-- Such a call follows the protocol. -/
theorem Operation.Expands.follows {c : Operation} (h : c.Expands) :
    replacement.Follows .out c.program fun φ _ => φ = .out := by
  cases h with
  | expand => exact Follows.closedKind.map ScanRules.replacement_expand
  | pass => exact Follows.closedKind.map ScanRules.replacement_runPass

/-! ## What has happened since an expansion got the lock -/

section
variable {ι α : Type} {h : List (Moment ι α)} {s s' : System ι α} {i : ι} {m : Move ι}
  {e : Moment ι α} {id : RelayId} {x : RelayState} {φ : Attempt}

/-- Since the call got the lock no start of a relay has failed. -/
def Untried (h : List (Moment ι α)) (i : ι) : Prop :=
  ∀ id, ¬ CouldNotBoot h i id ∧ ¬ Overtaken h i id

/-- The relay is in this state, unless another call has changed its state. -/
def LeftIn (h : List (Moment ι α)) (s : System ι α) (i : ι) (id : RelayId) (x : RelayState) :
    Prop :=
  s.registry.state? id = some x ∨ Meddled h i id

/-- In this step no start of a relay fails. -/
def Moment.IsHarmless (e : Moment ι α) (i : ι) : Prop :=
  ∀ id, ¬ e.FailsStart i id ∧ ¬ (e.IsRefused i .start id ∨ e.IsRefused i .startCompleted id)

/-- What has happened to the relays of an expansion that is this far. -/
def Attempt.Tells (h : List (Moment ι α)) (s : System ι α) (i : ι) : Attempt → Prop
  | out | ended => True
  | held => Untried h i
  | pooled stopped => Untried h i ∧ ∀ r ∈ stopped, LeftIn h s i r.id .stopped
  | begun id | booted id => Untried h i ∧ LeftIn h s i id .starting
  | unbootable id => CouldNotBoot h i id ∧ ¬ Overtaken h i id
  | overtaken id => Overtaken h i id ∧ ¬ CouldNotBoot h i id ∧ Meddled h i id

/-- The call has the lock when it is in an expansion, and what the expansion tells is so. -/
structure Attempt.Knows (h : List (Moment ι α)) (s : System ι α) (i : ι) (φ : Attempt) : Prop where
  holds : φ ≠ .out ↔ s.holder = some i
  tells : φ.Tells h s i

/-- The steps of other calls are harmless. -/
theorem Moment.isHarmless_of_ne (hi : e.move.caller ≠ i) : e.IsHarmless i :=
  fun _ => ⟨fun hf => hi hf.1, fun hr => hi (hr.elim And.left And.left)⟩

/-- A step is harmless that neither fails to start a relay nor applies an operation that may be
refused. -/
theorem Moment.isHarmless_of (hstart : ∀ id, ¬ e.deed.FailsStart id)
    (hop : ∀ op id, op = .start ∨ op = .startCompleted → ¬ e.move.action.Applies op id) :
    e.IsHarmless i := by
  refine fun id => ⟨fun hf => hstart id hf.2, ?_⟩
  rintro (⟨-, happlies, -⟩ | ⟨-, happlies, -⟩)
  · exact hop _ id (.inl rfl) happlies
  · exact hop _ id (.inr rfl) happlies

/-- A look is harmless. -/
theorem Moment.isHarmless_of_isLook (ha : e.move.action.isLook) : e.IsHarmless i := by
  obtain ⟨s, j, a, time, r⟩ := e
  cases a with
  | transact t =>
    refine isHarmless_of (fun _ => id) ?_
    rintro op id - ⟨onMove, -, heq⟩
    cases heq
    cases ha
  | provision => cases ha
  | _ => exact isHarmless_of (fun _ => id) fun op id _ => by rintro ⟨_, -, ⟨⟩⟩

/-- A step is harmless that applies an operation which is not refused, or none that may be. -/
theorem Moment.isHarmless_of_applies {op : RelayOp} (happlies : e.move.action.Applies op id)
    (hop : ∀ op', op' = .start ∨ op' = .startCompleted →
      (∀ x : RelayState, x.after op = x.after op') → ¬ e.before.registry.Refuses op' id) :
    e.IsHarmless i := by
  obtain ⟨s, j, a, time, r⟩ := e
  have heq : ∀ {op' k}, a.Applies op' k → id = k ∧ ∀ x : RelayState, x.after op = x.after op' :=
    fun h' => happlies.after_eq h'
  obtain ⟨onMove, -, rfl⟩ := happlies
  refine fun k => ⟨And.right, ?_⟩
  rintro (⟨-, h', hrefuses⟩ | ⟨-, h', hrefuses⟩)
  · obtain ⟨rfl, hafter⟩ := heq h'
    exact hop _ (.inl rfl) hafter hrefuses
  · obtain ⟨rfl, hafter⟩ := heq h'
    exact hop _ (.inr rfl) hafter hrefuses

section
variable (harmless : e.IsHarmless i)
include harmless

/-- In a harmless step no relay fails to boot. -/
theorem Moment.IsHarmless.couldNotBoot_snoc (hheld : e.before.holder = some i) :
    CouldNotBoot (h ++ [e]) i id ↔ CouldNotBoot h i id := by
  rw [CouldNotBoot, WhileHeld.snoc_iff]
  exact ⟨fun hlast => hlast.2.resolve_left (harmless id).1, fun hbefore => ⟨hheld, .inr hbefore⟩⟩

/-- In a harmless step no relay is overtaken. -/
theorem Moment.IsHarmless.overtaken_snoc (hheld : e.before.holder = some i) :
    Overtaken (h ++ [e]) i id ↔ Overtaken h i id := by
  rw [Overtaken, WhileHeld.snoc_iff]
  exact ⟨fun hlast => hlast.2.resolve_left (harmless id).2, fun hbefore => ⟨hheld, .inr hbefore⟩⟩

/-- After a harmless step there is still none. -/
theorem Untried.snoc (hu : Untried h i) (hheld : e.before.holder = some i) :
    Untried (h ++ [e]) i := fun id =>
  ⟨fun hlast => (hu id).1 ((harmless.couldNotBoot_snoc hheld).mp hlast),
    fun hlast => (hu id).2 ((harmless.overtaken_snoc hheld).mp hlast)⟩

/-- After a harmless step in which an expansion does not get any further it tells the same. -/
theorem Attempt.Tells.snoc (htells : φ.Tells h e.before i) (hheld : e.before.holder = some i)
    (hleft : ∀ id x, LeftIn h e.before i id x → LeftIn (h ++ [e]) s' i id x) :
    φ.Tells (h ++ [e]) s' i := by
  cases φ with
  | out | ended => trivial
  | held => exact htells.snoc harmless hheld
  | pooled stopped => exact ⟨htells.1.snoc harmless hheld, fun r hr => hleft _ _ (htells.2 r hr)⟩
  | begun id | booted id => exact ⟨htells.1.snoc harmless hheld, hleft _ _ htells.2⟩
  | unbootable id =>
    rw [Tells, harmless.couldNotBoot_snoc hheld, harmless.overtaken_snoc hheld]
    exact htells
  | overtaken id =>
    rw [Tells, harmless.couldNotBoot_snoc hheld, harmless.overtaken_snoc hheld]
    exact ⟨htells.1, htells.2.1, htells.2.2.snoc hheld⟩

end

/-- An operation was refused if the answer says so. -/
theorem RelayOp.Refused.refuses {op : RelayOp} {r : StoreResult Registry.Change} {g : Registry}
    {time : Millis} (hr : op.Refused r)
    (answers : r = (Transaction.run time g (.applying id op)).1) : g.Refuses op id := by
  intro x hx
  obtain ⟨row, hrow, rfl⟩ := Option.map_eq_some_iff.mp hx
  have hrun := Registry.updateRelay_some hrow time (Lifecycle.moved (fun _ => op) fun _ r => r)
  exact hr _ (answers.trans (congrArg Prod.fst hrun))

/-- The relays that a listing of the stopped relays answers with are stopped. -/
theorem Registry.Keyed.state?_of_listed {g : Registry} (hg : g.Keyed) {keep : Relay → Bool}
    (hkeep : ∀ r, keep r → r.state = .stopped) {stopped : List Relay} {r : Relay}
    (hlist : .ok stopped = g.listRelays keep) (hr : r ∈ stopped) :
    g.state? r.id = some .stopped := by
  obtain ⟨hkept, k, hrow⟩ := Registry.of_mem_listRelays hlist.symm hr
  rw [hg k r hrow, Registry.state?_eq hrow, hkeep r hkept]

/-- A start that moves a relay moves it to `starting`. -/
theorem Registry.state?_of_start {g : Registry} {time : Millis} {c : Registry.Change}
    (answers : .ok c = (Transaction.run time g (.applying id .start)).1)
    (legal : nextState c.before.state .start = .ok (.to x)) :
    ¬ g.Refuses .start id ∧
      (Transaction.run time g (.applying id .start)).2.state? id = some .starting := by
  obtain ⟨hrow, -⟩ := Lifecycle.change_eq answers
  constructor
  · intro hrefuses
    obtain ⟨e, he⟩ := hrefuses _ (Registry.state?_eq hrow)
    rw [legal] at he
    cases he
  · have hstate : (Transaction.run time g (.applying id .start)).2.state? id = _ :=
      g.state?_updateRelay time id (Lifecycle.moved (fun _ => .start) fun _ r => r)
    rw [if_pos rfl, hrow, Option.map_some, Lifecycle.state_moved fun _ _ => rfl] at hstate
    refine hstate.trans (congrArg some ?_)
    cases hbefore : c.before.state <;> rw [hbefore] at legal <;> cases legal
    rfl

/-- A relay stays in its state where a step of the expansion leaves the registry. -/
theorem LeftIn.snoc (hx : LeftIn h s i id x) (hheld : s.holder = some i)
    (hstate : s'.registry.state? id = s.registry.state? id) :
    LeftIn (h ++ [⟨s, m⟩]) s' i id x :=
  hx.imp hstate.trans fun hmeddled => hmeddled.snoc hheld

/-- An operation that is refused has been made impossible by another call. -/
theorem Attempt.Knows.overtaken {op : RelayOp} (inv : φ.Knows h s i) (tries : φ.Tries op id)
    (refused : (⟨s, m⟩ : Moment ι α).IsRefused i op id)
    (hstart : ∀ id, ¬ (⟨s, m⟩ : Moment ι α).deed.FailsStart id) :
    (Attempt.overtaken id).Tells (h ++ [⟨s, m⟩]) s' i := by
  have hop : op = .start ∨ op = .startCompleted := by cases tries <;> simp
  obtain ⟨hheld, huntried, y, ⟨t, legal⟩, hleft⟩ : s.holder = some i ∧ Untried h i ∧
      ∃ y, (∃ t, nextState y op = .ok t) ∧ LeftIn h s i id y := by
    obtain ⟨holds, tells⟩ := inv
    cases tries with
    | begins hr => exact ⟨holds.mp (by simp), tells.1, _, ⟨_, rfl⟩, tells.2 _ hr⟩
    | ends => exact ⟨holds.mp (by simp), tells.1, _, ⟨_, rfl⟩, tells.2⟩
  refine ⟨WhileHeld.snoc_iff.mpr ⟨hheld, .inl ?_⟩, fun hfailed => ?_, ?_⟩
  · rcases hop with rfl | rfl
    · exact .inl refused
    · exact .inr refused
  · rcases (WhileHeld.snoc_iff.mp hfailed).2 with hfails | hbefore
    · exact hstart id hfails.2
    · exact (huntried id).1 hbefore
  · rcases hleft with hstate | hmeddled
    · obtain ⟨e, he⟩ := refused.2.2 y hstate
      rw [legal] at he
      cases he
    · exact hmeddled.snoc hheld

variable [DecidableEq ι]

/-- What others do leaves what an expansion tells. -/
theorem Attempt.Knows.other (inv : φ.Knows h s i) (hs : RelayFleet.Step s m s')
    (hi : m.caller ≠ i) : φ.Knows (h ++ [⟨s, m⟩]) s' i := by
  refine ⟨inv.holds.trans (hs.holder_iff_of_ne hi).symm, ?_⟩
  by_cases hout : φ = .out
  · subst hout
    trivial
  have hheld := inv.holds.mp hout
  refine inv.tells.snoc (e := ⟨s, m⟩) (Moment.isHarmless_of_ne hi) hheld fun id x hx => ?_
  rcases hx with hx | hx
  · by_cases hstate : s'.registry.state? id = s.registry.state? id
    · exact .inl (hstate.trans hx)
    · rw [hs.registry_eq] at hstate
      exact .inr (WhileHeld.snoc_iff.mpr ⟨hheld, .inl ⟨hi, hstate⟩⟩)
  · exact .inr (hx.snoc hheld)

/-- What a call does that does not have the lock. -/
theorem Attempt.Knows.own_out {φ' : Attempt} (inv : Attempt.out.Knows h s m.caller)
    (hs : RelayFleet.Step s m s') (hp : Attempt.Step .out m.action m.reply φ') :
    φ'.Knows (h ++ [⟨s, m⟩]) s' m.caller := by
  have answers := hs.answers
  have hholder := hs.holder_eq
  obtain ⟨i, a, time, r⟩ := m
  have hfree : s.holder ≠ some i := fun hheld => inv.holds.mpr hheld rfl
  have stays : s'.holder = s.holder → Attempt.out.Knows (h ++ [⟨s, ⟨i, a, time, r⟩⟩]) s' i :=
    fun hsame => ⟨iff_of_false (by simp) (hsame ▸ hfree), trivial⟩
  cases hp with
  | idles ha => exact stays (hholder.trans (ha.lockless ..))
  | gives_up => exact stays hholder
  | obtains =>
    refine ⟨iff_of_true (by simp) hholder, fun id => ⟨fun hlast => ?_, fun hlast => ?_⟩⟩
    · exact hfree (WhileHeld.snoc_iff.mp hlast).1
    · exact hfree (WhileHeld.snoc_iff.mp hlast).1
  | is_overtaken tries => cases tries
  | announces failed | condemns failed => rcases failed with hout | hout <;> cases hout
  | turns hout => exact absurd rfl hout
  | releases => exact ⟨iff_of_false (by simp) (by rw [hholder]; exact nofun), trivial⟩

/-- What the call itself does takes an expansion as far as its protocol says. -/
theorem Attempt.Knows.own {φ' : Attempt} (inv : φ.Knows h s m.caller) (hkeyed : s.registry.Keyed)
    (hs : RelayFleet.Step s m s') (hp : Attempt.Step φ m.action m.reply φ') :
    φ'.Knows (h ++ [⟨s, m⟩]) s' m.caller := by
  by_cases hout : φ = .out
  · subst hout
    exact inv.own_out hs hp
  have answers := hs.answers
  have hregistry := hs.registry_eq
  have hholder := hs.holder_eq
  have hheld := inv.holds.mp hout
  have tells := inv.tells
  obtain ⟨i, a, time, r⟩ := m
  have looks : a.isLook → φ.Knows (h ++ [⟨s, ⟨i, a, time, r⟩⟩]) s' i := by
    intro ha
    refine ⟨iff_of_true hout ?_, tells.snoc (e := ⟨s, _⟩) (Moment.isHarmless_of_isLook ha) hheld
      fun id x hx => hx.snoc hheld ?_⟩
    · rw [hholder, Action.holderAfter_of_isLook ha]
      exact hheld
    · rw [hregistry, (Action.isNeutral_of_isLook ha).state?_eq]
  cases hp with
  | idles | gives_up | obtains => exact absurd rfl hout
  | looks ha => exact looks ha
  | pools hkeep =>
    refine ⟨iff_of_true (by simp) (hholder.trans hheld), ?_, fun r hr => .inl ?_⟩
    · exact Untried.snoc (Moment.isHarmless_of_isLook rfl) tells hheld
    · rw [hregistry]
      exact hkeyed.state?_of_listed hkeep answers hr
  | begins hr legal =>
    obtain ⟨hlegal, hstarting⟩ := Registry.state?_of_start answers legal
    refine ⟨iff_of_true (by simp) (hholder.trans hheld),
      tells.1.snoc (Moment.isHarmless_of_applies ⟨_, fun _ _ => rfl, rfl⟩ ?_) hheld,
      .inl (hregistry ▸ hstarting)⟩
    rintro _ (rfl | rfl) hafter
    · exact hlegal
    · cases hafter .starting
  | boots =>
    refine ⟨iff_of_true (by simp) (hholder.trans hheld), tells.snoc (φ := .begun _) (e := ⟨s, _⟩)
      (Moment.isHarmless_of (fun _ => id) ?_) hheld fun id x hx => hx.snoc hheld ?_⟩
    · rintro _ _ - ⟨_, -, ⟨⟩⟩
    · rw [hregistry]
      rfl
  | fails =>
    refine ⟨iff_of_true (by simp) (hholder.trans hheld),
      WhileHeld.snoc_iff.mpr ⟨hheld, .inl ⟨rfl, rfl⟩⟩, fun hlast => ?_⟩
    rcases (WhileHeld.snoc_iff.mp hlast).2 with (⟨-, ⟨_, -, ⟨⟩⟩, -⟩ | ⟨-, ⟨_, -, ⟨⟩⟩, -⟩) | hbefore
    exact (tells.1 _).2 hbefore
  | puts_down =>
    have harmless : (⟨s, ⟨i, _, time, r⟩⟩ : Moment ι α).IsHarmless i := by
      refine Moment.isHarmless_of_applies ⟨_, fun _ _ => rfl, rfl⟩ ?_
      rintro _ (rfl | rfl) hafter <;> cases hafter .starting
    exact ⟨iff_of_true (by simp) (hholder.trans hheld),
      (harmless.couldNotBoot_snoc hheld).mpr tells.1,
      fun hlast => tells.2 ((harmless.overtaken_snoc hheld).mp hlast)⟩
  | is_overtaken tries refused =>
    exact ⟨iff_of_true (by simp) (hholder.trans hheld), inv.overtaken (m := ⟨i, _, time, r⟩) tries
      ⟨rfl, ⟨_, fun _ _ => rfl, rfl⟩, refused.refuses answers⟩ fun _ => id⟩
  | announces => exact looks rfl
  | condemns => exact ⟨iff_of_true (by simp) (hholder.trans hheld), trivial⟩
  | turns _ ha =>
    refine ⟨iff_of_true (by simp) ?_, trivial⟩
    rw [hholder, ha.lockless]
    exact hheld
  | releases => exact ⟨iff_of_false (by simp) (by rw [hholder]; exact nofun), trivial⟩

/-- Only a relay whose start has failed is destroyed. -/
theorem Attempt.Step.hasFailed {φ' : Attempt} {a : Action} {r : a.Reply}
    (hp : Attempt.Step φ a r φ') (hdestroys : a.Applies .destroy id) : φ.HasFailed id := by
  have applying : ∀ {op k}, a = .transact (.applying k op) → k = id ∧
      ∀ x : RelayState, x.after op = x.after .destroy :=
    fun ha => Action.Applies.after_eq ⟨_, fun _ _ => rfl, ha⟩ hdestroys
  cases hp with
  | idles ha | turns _ ha => exact absurd hdestroys (ha.not_destroys id)
  | looks ha => exact absurd hdestroys ((Action.isMild_of_isLook ha).not_destroys id)
  | begins => cases (applying rfl).2 .stopped
  | puts_down => cases (applying rfl).2 .starting
  | is_overtaken tries =>
    cases tries with
    | begins => cases (applying rfl).2 .stopped
    | ends => cases (applying rfl).2 .starting
  | condemns failed => exact (applying rfl).1 ▸ failed
  | _ => obtain ⟨_, -, ⟨⟩⟩ := hdestroys

end

/-! ## The relays that an expansion destroys -/

section
variable {ι : Type} [DecidableEq ι] {calls : ι → Operation} {g : Registry}
  {h : List (Moment ι Outcome)} {s : System ι Outcome} {i : ι}

/-- In a run every call that expands zones is somewhere in its protocol, and what this tells has
happened. -/
theorem Run.knows (hg : g.Keyed) (hexpands : (calls i).Expands)
    (run : Run (System.start g fun i => (calls i).program) h s) :
    ∃ φ : Attempt, φ.Knows h s i ∧ replacement.Follows φ (s.calls i) fun φ _ => φ = .out := by
  refine run.follows_call (I := fun h s φ => φ.Knows h s i) hexpands.follows
    ⟨iff_of_false (by simp) nofun, trivial⟩ (fun _ _ run => run.keyed hg) ?_
    fun _ _ _ _ _ _ inv hs hi => inv.other hs hi
  rintro h s φ m s' φ' run inv hs rfl hp
  exact inv.own (run.keyed hg) hs hp

/-- A relay that an expansion destroys has failed to boot, or it was overtaken because another call
has changed its state; it is never both. -/
theorem Run.condemned (hg : g.Keyed) (hexpands : (calls i).Expands)
    (run : Run (System.start g fun i => (calls i).program) h s) {h₁ h₂ : List (Moment ι Outcome)}
    {e : Moment ι Outcome} {id : RelayId} (heq : h = h₁ ++ e :: h₂) (hcondemns : e.Condemns i id) :
    (CouldNotBoot h₁ i id ∧ ¬ Overtaken h₁ i id) ∨
      Overtaken h₁ i id ∧ ¬ CouldNotBoot h₁ i id ∧ Meddled h₁ i id := by
  subst heq
  obtain ⟨s', run₁, hs, -⟩ := run.of_append_cons
  obtain ⟨rfl, hdestroys⟩ := hcondemns
  obtain ⟨φ, inv, hf⟩ := run₁.knows hg hexpands
  obtain ⟨φ', hp, -⟩ := hf.step hs (run₁.keyed hg)
  rcases hp.hasFailed hdestroys with rfl | rfl
  · exact .inl inv.tells
  · exact .inr inv.tells

/-- **Which relays an expansion destroys.** Take any run of operations on a registry whose relays
stand under their own ids, in any order of steps and with any outcomes of the provisioner, and a
call of it that expands zones. Whenever the call asks for the destruction of a relay the provisioner
has failed to start it for this very expansion: this is so throughout the run if and only if the
call never destroys a relay of which it was overtaken, that is, for which it was refused to begin or
to end the start. A relay is overtaken only if another call has changed its state while the
expansion had the lock. -/
theorem Run.destroysUnbootable_iff (hg : g.Keyed) (hexpands : (calls i).Expands)
    (run : Run (System.start g fun i => (calls i).program) h s) :
    (DestroysUnbootable h i ↔ ∀ h₁ e h₂ id, h = h₁ ++ e :: h₂ → e.Condemns i id →
      ¬ Overtaken h₁ i id) ∧
    ∀ h₁ e h₂ id, h = h₁ ++ e :: h₂ → e.Condemns i id → Overtaken h₁ i id →
      Meddled h₁ i id := by
  have hcondemned : ∀ {h₁ e h₂ id}, h = h₁ ++ e :: h₂ → e.Condemns i id →
      (CouldNotBoot h₁ i id ∧ ¬ Overtaken h₁ i id) ∨
        Overtaken h₁ i id ∧ ¬ CouldNotBoot h₁ i id ∧ Meddled h₁ i id :=
    run.condemned hg hexpands
  refine ⟨⟨fun hunbootable h₁ e h₂ id heq hc hovertaken => ?_,
    fun hnone h₁ e h₂ id heq hc => ?_⟩, fun h₁ e h₂ id heq hc hovertaken => ?_⟩
  · rcases hcondemned heq hc with ⟨-, hnot⟩ | ⟨-, hnot, -⟩
    · exact hnot hovertaken
    · exact hnot (hunbootable h₁ e h₂ id heq hc)
  · rcases hcondemned heq hc with ⟨hfailed, -⟩ | ⟨hovertaken, -⟩
    · exact hfailed
    · exact absurd hovertaken (hnone h₁ e h₂ id heq hc)
  · rcases hcondemned heq hc with ⟨-, hnot⟩ | ⟨-, -, hmeddled⟩
    · exact absurd hovertaken hnot
    · exact hmeddled

end

/-! ## A relay that is stopped while it boots -/

/-- A pass, and the stop of the relay that it starts. -/
def overtakenCalls : Fin 2 → Operation
  | 0 => .pass default
  | 1 => .stop (Registry.relayId 1)

/-- One relay, which is stopped. -/
def overtakenRegistry : Registry :=
  ({ Registry.empty with sequence := 1 } : Registry).withRow (Registry.relayId 1)
    (crowdingRelay 1 .stopped)

/-- The relay stands under its id. -/
theorem keyed_overtakenRegistry : overtakenRegistry.Keyed := by
  have hsound : ({ Registry.empty with sequence := 1 } : Registry).Sound := Registry.sound_empty
  exact hsound.keyed.withRow rfl

/-- The provisioner starts the relay while an operator stops it, and the pass destroys it. -/
theorem Run.overtaking : ∃ (h : List (Moment (Fin 2) Outcome)) (e : Moment (Fin 2) Outcome)
    (s : System (Fin 2) Outcome),
    Run (System.start overtakenRegistry fun i => (overtakenCalls i).program) (h ++ [e]) s ∧
      e.Condemns 0 (Registry.relayId 1) ∧ Overtaken h 0 (Registry.relayId 1) := by
  let s₀ : System (Fin 2) Outcome :=
    .start overtakenRegistry fun i => (overtakenCalls i).program
  let r (x : RelayState) : Relay := crowdingRelay 1 x
  have hg : ({ Registry.empty with sequence := 1 } : Registry).Sound := Registry.sound_empty
  obtain ⟨_, seen⟩ := ((Run.start : Run s₀ [] s₀).perform 0 rfl 0 crowdingDirectory trivial).listRow
    hg rfl rfl rfl 0 rfl [r .stopped] rfl
  obtain ⟨_, counted⟩ := ((seen.perform 0 rfl 0 (.ok .initial) rfl).perform
    0 rfl 0 (.ok ()) rfl).listRow hg rfl rfl rfl 0 rfl [r .stopped] rfl
  obtain ⟨_, pooled⟩ := counted.listRow hg rfl rfl rfl 0 rfl [r .stopped] rfl
  have starting := pooled.changeRow hg rfl rfl 0 rfl 0 (r .starting) rfl
  have stopping := starting.changeRow hg rfl rfl 1 rfl 0 (r .stopping) rfl
  have stopped := (stopping.perform 1 rfl 0 (.ok ()) trivial).changeRow hg rfl rfl
    1 rfl 0 (r .stopped) rfl
  have refused := (stopped.perform 0 rfl 0 (.ok ()) trivial).changeRow hg rfl rfl
    0 rfl 0 (r .stopped) rfl
  have condemned := (refused.perform 0 rfl 0 () trivial).changeRow hg rfl rfl
    0 rfl 0 (r .destroyed) rfl
  have hrefuses : (({ Registry.empty with sequence := 1 } : Registry).withRow (Registry.relayId 1)
      (r .stopped)).Refuses .startCompleted (Registry.relayId 1) := by
    intro x hx
    rw [Registry.state?_withRow_self] at hx
    cases hx
    exact ⟨_, rfl⟩
  exact ⟨_, _, _, condemned, ⟨rfl, _, fun _ _ => rfl, rfl⟩, WhileHeld.snoc_iff.mpr ⟨rfl, .inr
    (WhileHeld.snoc_iff.mpr ⟨rfl, .inl (.inr ⟨rfl, ⟨_, fun _ _ => rfl, rfl⟩, hrefuses⟩)⟩)⟩⟩

/-- The pass is overtaken by the stop, so it destroys a relay that could boot; and it is the stop
that has meddled. -/
theorem Run.destroysUnbootable_iff_overtaking :
    ∃ (h : List (Moment (Fin 2) Outcome)) (e : Moment (Fin 2) Outcome)
      (s : System (Fin 2) Outcome),
      Run (System.start overtakenRegistry fun i => (overtakenCalls i).program) (h ++ [e]) s ∧
      e.Condemns 0 (Registry.relayId 1) ∧ ¬ DestroysUnbootable (h ++ [e]) 0 ∧
      Meddled h 0 (Registry.relayId 1) := by
  obtain ⟨h, e, s, run, hcondemns, hovertaken⟩ := Run.overtaking
  have hexpands : (overtakenCalls 0).Expands := .pass
  obtain ⟨hiff, hmeddled⟩ := Run.destroysUnbootable_iff keyed_overtakenRegistry hexpands run
  exact ⟨h, e, s, run, hcondemns,
    fun hunbootable => hiff.mp hunbootable h e [] _ rfl hcondemns hovertaken,
    hmeddled h e [] _ rfl hcondemns hovertaken⟩

/-- It is not so that a pass destroys only relays that could not boot. -/
theorem Run.not_always_destroysUnbootable :
    ¬ ∀ (calls : Fin 2 → Operation) (g : Registry) (h : List (Moment (Fin 2) Outcome))
      (s : System (Fin 2) Outcome), g.Keyed → (∃ rules, calls 0 = .pass rules) →
      (∃ id, calls 1 = .stop id) → Run (System.start g fun i => (calls i).program) h s →
      DestroysUnbootable h 0 := by
  intro hall
  obtain ⟨h, e, s, run, hcondemns, hovertaken⟩ := Run.overtaking
  have hunbootable :=
    hall overtakenCalls overtakenRegistry _ s keyed_overtakenRegistry ⟨_, rfl⟩ ⟨_, rfl⟩ run
  have hexpands : (overtakenCalls 0).Expands := .pass
  rcases run.condemned keyed_overtakenRegistry hexpands rfl hcondemns with ⟨-, hnot⟩ | ⟨-, hnot, -⟩
  · exact hnot hovertaken
  · exact hnot (hunbootable h e [] _ rfl hcondemns)

end RelayFleet
