import RelayFleet.Proofs.Interleaving.Composition
import RelayFleet.Proofs.Interleaving.Protocol
import RelayFleet.Proofs.Lifecycle.Follows
import RelayFleet.Proofs.Registry.Persistence

/-!
# What a call owes to those who listen

Events are announced apart from the changes of the registry that they are about. In between a call
owes an event: that a relay was stored or removed, or that there are no resources for it
(`Entry`). It pays what it owes next, and about other relays than those that it has found in the
registry it announces nothing (`ChronicleStep`). Every operation keeps to this and owes nothing at
its end (`Operation.follows_chronicle`).
-/

namespace RelayFleet

open Protocol

/-! ## The protocol of events -/

/-- What a call knows of a relay, and what it owes to those who listen. -/
inductive Entry where
  | blank
  /-- The relay is stored. -/
  | present (id : RelayId)
  /-- The id was issued for a new relay. -/
  | issued (id : RelayId)
  /-- There are no resources for the new relay, which is to be announced. -/
  | refused (id : RelayId)
  /-- The new relay was stored, which is to be announced. -/
  | stored (id : RelayId)
  /-- The relay was removed, which is to be announced. -/
  | removed (id : RelayId)

namespace Entry

/-- Nothing is owed. -/
def IsPaid : Entry → Prop
  | blank | present _ => True
  | _ => False

/-- The relay about which an event is owed, or for which an id was issued. -/
def owed? : Entry → Option RelayId
  | blank | present _ => none
  | issued id | refused id | stored id | removed id => some id

end Entry

/-- Writes no row, issues no id, asks for no resources and announces nothing. -/
def Action.IsSilent : Action → Prop
  | .emit _ | .provision (.allocate _ _ _) | .transact .nextRelayId | .transact (.putRelay _)
  | .transact (.updateRelay _ _) | .transact (.deleteRelay _) => False
  | _ => True

/-- The steps of a call that pays what it owes to those who listen. -/
inductive ChronicleStep : Entry → (a : Action) → a.Reply → Entry → Prop
  | rests {φ : Entry} {a : Action} {r : a.Reply} (ha : a.IsSilent) : ChronicleStep φ a r φ
  | changes {φ : Entry} {id : RelayId} {change : Relay → Relay} {x : StoreResult Registry.Change}
    (hid : ∀ r, (change r).id = r.id) :
    ChronicleStep φ (.transact (.updateRelay id change)) x φ
  /-- A row that was changed is there. -/
  | finds {φ : Entry} {id : RelayId} {change : Relay → Relay} {c : Registry.Change}
    (hid : ∀ r, (change r).id = r.id) (hφ : φ.IsPaid) :
    ChronicleStep φ (.transact (.updateRelay id change)) (.ok c) (.present id)
  /-- A row that was listed is there. -/
  | lists {φ : Entry} {keep : Relay → Bool} {relays : List Relay} {r : Relay} (hφ : φ.IsPaid)
    (hr : r ∈ relays) :
    ChronicleStep φ (.transact (.listRelays keep)) (.ok relays) (.present r.id)
  | issues {φ : Entry} {id : RelayId} (hφ : φ.IsPaid) :
    ChronicleStep φ (.transact .nextRelayId) (.ok id) (.issued id)
  | allocates {id : RelayId} {zone : ZoneId} {spec : LaunchSpec} {x : Allocated} :
    ChronicleStep (.issued id) (.provision (.allocate id zone spec)) (.ok x) (.issued id)
  | refuses {id : RelayId} {zone : ZoneId} {spec : LaunchSpec} {e : ProvisionError} :
    ChronicleStep (.issued id) (.provision (.allocate id zone spec)) (.error e) (.refused id)
  | stores {r : Relay} {x : StoreResult Unit} :
    ChronicleStep (.issued r.id) (.transact (.putRelay r)) x (.stored r.id)
  | removes {id : RelayId} {x : StoreResult Bool} :
    ChronicleStep (.present id) (.transact (.deleteRelay id)) x (.removed id)
  | announces {id : RelayId} {zone : ZoneId} {text : String} {x : Unit} :
    ChronicleStep (.stored id) (.emit ⟨.created, zone, some id, text⟩) x (.present id)
  | regrets {id : RelayId} {zone : ZoneId} {text : String} {x : Unit} :
    ChronicleStep (.refused id) (.emit ⟨.createFailure, zone, some id, text⟩) x .blank
  | buries {id : RelayId} {zone : ZoneId} {text : String} {x : Unit} :
    ChronicleStep (.removed id) (.emit ⟨.destroyed, zone, some id, text⟩) x .blank
  /-- Something else is announced of a relay that is there. -/
  | tells {id : RelayId} {kind : EventKind} {zone : ZoneId} {text : String} {x : Unit}
    (hkind : kind ≠ .created ∧ kind ≠ .destroyed) :
    ChronicleStep (.present id) (.emit ⟨kind, zone, some id, text⟩) x (.present id)
  /-- Something is announced that is not about a relay. -/
  | laments {φ : Entry} {kind : EventKind} {zone : ZoneId} {text : String} {x : Unit} :
    ChronicleStep φ (.emit ⟨kind, zone, none, text⟩) x φ

/-- Events are announced as they are owed. -/
def chronicle : Protocol Entry where
  Meets := Registry.Sound
  Step := ChronicleStep

/-- A program that owes nothing at its end if it owes nothing when it begins. -/
def Pays {α : Type} (p : Fleet α) : Prop :=
  ∀ φ : Entry, φ.IsPaid → chronicle.Follows φ p fun φ' _ => φ'.IsPaid

/-- What is put together from programs that pay pays. -/
theorem Pays.closedKind : ClosedKind Pays where
  pure _ _ hφ := hφ
  bind hp hf φ hφ := Follows.bind (hp φ hφ) fun φ' a hφ' => hf a φ' hφ'

/-- What neither writes rows nor issues ids nor announces anything pays. -/
theorem Asks.pays {α : Type} {p : Fleet α} {P : α → Prop}
    (h : Asks (fun a => a.IsSilent ∨ ∃ id change, a = .transact (.updateRelay id change) ∧
      ∀ r, (change r).id = r.id) p P) : Pays p := by
  intro φ hφ
  induction p with
  | pure a => exact hφ
  | ask a next ih =>
    intro r _
    refine ⟨φ, ?_, ih r (h.2 r)⟩
    obtain ha | ⟨id, change, rfl, hid⟩ := h.1
    · exact .rests ha
    · exact .changes hid

/-- An action that writes no row, issues no id and announces nothing. -/
theorem pays_perform {a : Action} (ha : a.IsSilent) : Pays (Fleet.perform a) :=
  fun φ hφ _ _ => ⟨φ, .rests ha, hφ⟩

/-! ## The lifecycle keeps to it -/

namespace Lifecycle

variable {φ : Entry} {id : RelayId}

/-- An action that writes no row, issues no id and announces nothing, in a program that may fail. -/
theorem chronicle_silent {α ε : Type} {a : Action} {f : a.Reply → ExceptT ε Fleet α}
    {Q : Entry → Except ε α → Prop} (ha : a.IsSilent)
    (h : ∀ r, chronicle.Follows φ (f r).run Q) :
    chronicle.Follows φ ((liftM (Fleet.perform a) : ExceptT ε Fleet a.Reply) >>= f).run Q :=
  fun r _ => ⟨φ, .rests ha, h r⟩

/-- A relay that is moved is there. -/
theorem chronicle_transition {choose : Relay → RelayOp} {onMove : RelayState → Relay → Relay}
    (hmove : ∀ s r, Relay.SamePlace r (onMove s r)) (hφ : φ.IsPaid) :
    chronicle.Follows φ (transition id choose onMove).run fun φ' x =>
      (φ' = φ ∨ φ' = .present id) ∧ ∀ a, x = .ok a → φ' = .present id ∧ a.relay.id = id := by
  have hid : ∀ r, (moved choose onMove r).id = r.id := fun r =>
    (Action.samePlace_moved hmove r).id_eq
  refine Follows.bindExcept (S := fun φ' x => (φ' = φ ∨ φ' = .present id) ∧
    ∀ c, x = .ok c → φ' = .present id ∧ c.after.id = id) (Follows.attempt fun x hx => ?_) ?_ ?_
  · cases x with
    | error e => exact ⟨φ, .changes hid, .inl rfl, fun c hc => by cases hc⟩
    | ok c =>
      refine ⟨_, .finds hid hφ, .inr rfl, ?_⟩
      rintro _ ⟨⟩
      obtain ⟨time, g, hg, hc⟩ := hx
      obtain ⟨hbefore, hafter⟩ := change_eq hc
      rw [hafter]
      exact ⟨rfl, (hid c.before).trans (Registry.Sound.id_eq hg hbefore)⟩
  · rintro φ' c ⟨hor, hok⟩
    obtain ⟨rfl, hafter⟩ := hok c rfl
    split
    · refine ⟨hor, ?_⟩
      rintro _ ⟨⟩
      exact ⟨rfl, hafter⟩
    · exact ⟨hor, fun a ha => by cases ha⟩
  · exact fun φ' e h => ⟨h.1, fun a ha => by cases ha⟩

/-- Nothing but the state is changed. -/
theorem samePlace_id (_ : RelayState) (r : Relay) : r.SamePlace r := ⟨rfl, rfl, rfl⟩

/-- The sessions are over. -/
theorem samePlace_withoutSessions (s : RelayState) (r : Relay) :
    r.SamePlace (withoutSessions s r) :=
  ⟨rfl, rfl, rfl⟩

/-- Booting a relay that is there. -/
theorem chronicle_boot {r : Relay} (hid : r.id = id) :
    chronicle.Follows (.present id) (boot r).run fun φ _ => φ = .present id := by
  subst hid
  have hend : ∀ op, chronicle.Follows (.present r.id) (apply r.id op).run
      fun φ _ => φ = .present r.id := fun op =>
    (chronicle_transition (φ := .present r.id) samePlace_id trivial).mono fun φ x h =>
      or_self_iff.mp h.1
  refine chronicle_silent trivial fun x => ?_
  cases x with
  | ok =>
    refine Follows.bindExcept (hend _) ?_ fun _ _ h => h
    rintro φ applied rfl
    exact fun _ _ => ⟨_, .tells ⟨nofun, nofun⟩, rfl⟩
  | error e =>
    refine Follows.bindExcept (hend _) ?_ fun _ _ h => h
    rintro φ applied rfl
    rfl

/-- An operation on a relay, and what follows it where the operation was legal. -/
theorem chronicle_operate {α : Type} {choose : Relay → RelayOp}
    {onMove : RelayState → Relay → Relay} {f : Applied → LifecycleM α}
    (hmove : ∀ s r, Relay.SamePlace r (onMove s r)) (hφ : φ.IsPaid)
    (hf : ∀ applied, applied.relay.id = id →
      chronicle.Follows (.present id) (f applied).run fun φ _ => φ = .present id) :
    chronicle.Follows φ (transition id choose onMove >>= f).run
      fun φ' _ => φ' = φ ∨ φ' = .present id := by
  refine Follows.bindExcept (chronicle_transition hmove hφ) ?_ fun φ' e h => h.1
  rintro φ' applied ⟨-, hok⟩
  obtain ⟨rfl, hid⟩ := hok applied rfl
  exact (hf applied hid).mono fun φ _ h => .inr h

/-- The same of a relay that is known to be there. -/
theorem chronicle_operate_present {α : Type} {choose : Relay → RelayOp}
    {onMove : RelayState → Relay → Relay} {f : Applied → LifecycleM α}
    (hmove : ∀ s r, Relay.SamePlace r (onMove s r))
    (hf : ∀ applied, applied.relay.id = id →
      chronicle.Follows (.present id) (f applied).run fun φ _ => φ = .present id) :
    chronicle.Follows (.present id) (transition id choose onMove >>= f).run
      fun φ _ => φ = .present id :=
  (chronicle_operate (φ := .present id) hmove trivial hf).mono fun _ _ h => or_self_iff.mp h

/-- Starting a relay. -/
theorem chronicle_start (hφ : φ.IsPaid) :
    chronicle.Follows φ (start id).run fun φ' _ => φ' = φ ∨ φ' = .present id := by
  refine chronicle_operate samePlace_id hφ fun applied hid => ?_
  cases applied.transition with
  | unchanged => exact rfl
  | _ => exact chronicle_boot hid

/-- Giving a relay its state back. -/
theorem chronicle_restore {s : RelayState} :
    chronicle.Follows φ (restore id s).run fun φ' _ => φ' = φ := by
  refine Follows.bindExcept (S := fun φ' _ => φ' = φ)
    (Follows.attempt fun x _ => ⟨φ, .changes fun _ => rfl, rfl⟩) ?_ fun _ _ h => h
  rintro φ' c rfl
  rfl

/-- Stopping a relay. -/
theorem chronicle_stop (hφ : φ.IsPaid) :
    chronicle.Follows φ (stop id).run fun φ' _ => φ' = φ ∨ φ' = .present id := by
  refine chronicle_operate samePlace_id hφ fun applied hid => ?_
  cases applied.transition with
  | unchanged => exact rfl
  | _ =>
    refine chronicle_silent trivial fun x => ?_
    cases x with
    | error e =>
      refine Follows.bindExcept chronicle_restore ?_ fun _ _ h => h
      rintro φ _ rfl
      rfl
    | ok =>
      exact chronicle_operate_present samePlace_withoutSessions fun _ _ => rfl

/-- What is paid, or where a relay is there, nothing is owed. -/
theorem isPaid_of_or {φ' : Entry} (hφ : φ.IsPaid) (h : φ' = φ ∨ φ' = .present id) : φ'.IsPaid := by
  rcases h with rfl | rfl
  · exact hφ
  · trivial

/-- Destroying a relay. -/
theorem pays_destroy : Pays (destroy id).run := by
  intro φ hφ
  refine Follows.bindExcept (chronicle_transition samePlace_id hφ) ?_
    fun φ' e h => isPaid_of_or hφ h.1
  rintro φ' applied ⟨-, hok⟩
  obtain ⟨rfl, -⟩ := hok applied rfl
  cases applied.transition with
  | unchanged => exact trivial
  | _ =>
    refine chronicle_silent trivial fun x => ?_
    cases x with
    | error e =>
      refine Follows.bindExcept (chronicle_restore.mono (R := fun φ _ => φ.IsPaid) ?_)
        (fun φ _ h => h) fun φ _ h => h
      rintro φ _ rfl
      trivial
    | ok =>
      refine Follows.bindExcept (S := fun φ x => (∃ b, x = .ok b) ∧ φ = .removed id)
        (Follows.attempt fun x hx => ⟨_, .removes, ?_, rfl⟩) ?_ (by simp)
      · obtain ⟨time, g, -, rfl⟩ := hx
        exact ⟨_, rfl⟩
      · rintro φ _ ⟨-, rfl⟩
        exact fun _ _ => ⟨_, .buries, trivial⟩

/-- Rebooting a relay. -/
theorem chronicle_reboot (hφ : φ.IsPaid) :
    chronicle.Follows φ (reboot id).run fun φ' _ => φ' = φ ∨ φ' = .present id := by
  refine chronicle_operate samePlace_id hφ fun applied hid => ?_
  cases applied.transition with
  | unchanged =>
    refine chronicle_silent trivial fun x => ?_
    cases x with
    | error e => exact rfl
    | ok => exact fun _ _ => ⟨_, .tells ⟨nofun, nofun⟩, rfl⟩
  | _ => exact chronicle_boot hid

/-- Fencing a relay and booting it again. -/
theorem chronicle_agentDisconnected (hφ : φ.IsPaid) :
    chronicle.Follows φ (agentDisconnected id).run fun φ' _ => φ' = φ ∨ φ' = .present id := by
  refine chronicle_operate samePlace_id hφ fun _ _ => chronicle_silent trivial fun _ =>
    chronicle_operate_present samePlace_withoutSessions fun _ _ =>
      chronicle_operate_present samePlace_id fun _ hid => chronicle_boot hid

/-- The beginning of a migration. -/
theorem chronicle_migrationStarted (hφ : φ.IsPaid) :
    chronicle.Follows φ (migrationStarted id).run fun φ' _ => φ' = φ ∨ φ' = .present id :=
  chronicle_operate (fun _ _ => ⟨rfl, rfl, rfl⟩) hφ fun _ _ => rfl

/-- The end of a migration. -/
theorem chronicle_migrationCompleted (hφ : φ.IsPaid) :
    chronicle.Follows φ (migrationCompleted id).run fun φ' _ => φ' = φ ∨ φ' = .present id :=
  chronicle_operate (fun _ _ => ⟨rfl, rfl, rfl⟩) hφ fun _ _ => rfl

/-- Making a relay. -/
theorem chronicle_create {zone : ZoneId} {spec : LaunchSpec} (hφ : φ.IsPaid) :
    chronicle.Follows φ (create zone spec).run fun φ' x =>
      φ'.IsPaid ∧ ∀ r, x = .ok r → φ' = .present r.id := by
  refine Follows.bindExcept (S := fun φ' x => ∃ id, x = .ok id ∧ φ' = .issued id)
    (Follows.attempt fun x hx => ?_) ?_ (by simp)
  · obtain ⟨time, g, -, rfl⟩ := hx
    exact ⟨_, .issues hφ, _, rfl, rfl⟩
  · rintro φ' id ⟨_, ⟨⟩, rfl⟩
    intro x _
    cases x with
    | error e =>
      exact ⟨_, .refuses, fun _ _ => ⟨_, .regrets, trivial, fun r hr => by cases hr⟩⟩
    | ok allocated =>
      refine ⟨_, .allocates, chronicle_silent trivial fun now => Follows.bindExcept
        (S := fun φ' x => x = .ok () ∧ φ' = .stored id) (Follows.attempt fun x hx => ?_) ?_
        (by simp)⟩
      · obtain ⟨time, g, -, rfl⟩ := hx
        exact ⟨_, .stores (r := { Relay.fresh now id zone _ _ with tlsEnabled := _ }), rfl, rfl⟩
      · rintro φ' _ ⟨-, rfl⟩
        intro _ _
        refine ⟨_, .announces, trivial, ?_⟩
        rintro _ ⟨⟩
        rfl

end Lifecycle

/-! ## Scans keep to it -/

namespace ScanRules

open Lifecycle

variable {rules : ScanRules} {zone : ZoneId} {id : RelayId}

/-- Booting a relay of the pool. -/
theorem chronicle_restart :
    chronicle.Follows (.present id) (restart zone id).run fun φ _ => φ.IsPaid := by
  refine Follows.lift (chronicle_start trivial) ?_
  intro φ x hφ
  obtain rfl := or_self_iff.mp hφ
  cases x with
  | ok => exact trivial
  | error e =>
    intro _ _
    exact ⟨_, .tells ⟨nofun, nofun⟩, Follows.lift (pays_destroy _ trivial) fun φ x h => h⟩

/-- Making a relay and booting it. -/
theorem pays_launchNew : Pays (rules.launchNew zone).run := by
  intro φ hφ
  refine Follows.lift (chronicle_create hφ) ?_
  rintro φ' x ⟨hpaid, hok⟩
  cases x with
  | error e => exact hpaid
  | ok r =>
    obtain rfl := hok r rfl
    refine Follows.lift (chronicle_start trivial) ?_
    intro φ x hφ
    obtain rfl := or_self_iff.mp hφ
    cases x with
    | ok => exact trivial
    | error e => exact fun _ _ => ⟨_, .tells ⟨nofun, nofun⟩, trivial⟩

/-- What an expansion does under the lock. -/
theorem pays_expandLocked : Pays (rules.expandLocked zone).run := by
  intro φ hφ
  refine Follows.bindExcept (S := fun φ' _ => φ'.IsPaid)
    (Follows.attempt fun _ _ => ⟨φ, .rests trivial, hφ⟩) ?_ fun _ _ h => h
  intro φ relays hφ
  dsimp only
  split
  · exact hφ
  · refine Follows.bindExcept (S := fun φ' x => φ'.IsPaid ∧
      ∀ r rest, x = .ok (r :: rest) → φ' = .present r.id) (Follows.attempt fun x _ => ?_) ?_
      fun _ _ h => h.1
    · match x with
      | .ok (r :: rest) =>
        refine ⟨_, .lists hφ List.mem_cons_self, trivial, ?_⟩
        rintro _ _ ⟨⟩
        rfl
      | .ok [] | .error e => exact ⟨φ, .rests trivial, hφ, fun _ _ h => by cases h⟩
    · rintro φ stopped ⟨hφ, hfound⟩
      cases stopped with
      | cons r rest =>
        obtain rfl := hfound r rest rfl
        exact chronicle_restart
      | nil =>
        dsimp only
        split
        · exact fun _ _ => ⟨_, .laments, hφ⟩
        · exact pays_launchNew φ hφ

/-- An expansion. -/
theorem pays_expand : Pays (rules.expand zone) := by
  refine Pays.closedKind.bind (pays_perform trivial) fun x => ?_
  cases x with
  | error e => exact fun φ hφ _ _ => ⟨φ, .laments, hφ⟩
  | ok =>
    exact Pays.closedKind.bind pays_expandLocked fun _ =>
      Pays.closedKind.bind (pays_perform trivial) fun _ => Pays.closedKind.pure _

end ScanRules

/-! ## Every operation keeps to it -/

/-- Nothing is owed at the end of an operation if nothing is when it begins. -/
theorem Operation.pays (op : Operation) : Pays op.program := by
  have hpaid : ∀ {α : Type} {p : Fleet α} {id : RelayId}, (∀ φ : Entry, φ.IsPaid →
      chronicle.Follows φ p fun φ' _ => φ' = φ ∨ φ' = .present id) → Pays p :=
    fun h φ hφ => (h φ hφ).mono fun _ _ h => Lifecycle.isPaid_of_or hφ h
  have hget : Pays (Fleet.transact .getMode) := pays_perform trivial
  have hput : ∀ m, Pays (Fleet.transact (.putMode m)) := fun _ => pays_perform trivial
  have hlist : ∀ keep, Pays (Fleet.transact (.listRelays keep)) := fun _ => pays_perform trivial
  have hstop : ∀ id, Pays (Lifecycle.stop id).run := fun id =>
    hpaid fun φ => Lifecycle.chronicle_stop
  have htick := Pays.closedKind.tick hlist hstop hget hput
  cases op with
  | create =>
    exact Pays.closedKind.map fun φ hφ => (Lifecycle.chronicle_create hφ).mono fun _ _ h => h.1
  | start => exact Pays.closedKind.map (hpaid fun φ => Lifecycle.chronicle_start)
  | stop => exact Pays.closedKind.map (hstop _)
  | destroy => exact Pays.closedKind.map Lifecycle.pays_destroy
  | reboot => exact Pays.closedKind.map (hpaid fun φ => Lifecycle.chronicle_reboot)
  | agentDisconnected =>
    exact Pays.closedKind.map (hpaid fun φ => Lifecycle.chronicle_agentDisconnected)
  | migrationStarted =>
    exact Pays.closedKind.map (hpaid fun φ => Lifecycle.chronicle_migrationStarted)
  | migrationCompleted =>
    exact Pays.closedKind.map (hpaid fun φ => Lifecycle.chronicle_migrationCompleted)
  | assign =>
    refine Pays.closedKind.map (AssignRules.asks_assign_of ?_ (fun _ => .inl trivial)
      (.inl trivial)).pays
    intro a ha
    cases ha with
    | marks => exact .inr ⟨_, _, rfl, fun _ => rfl⟩
    | _ => exact .inl trivial
  | report =>
    exact Pays.closedKind.map (asks_applyReport_of (.inl trivial)
      (fun _ _ _ => .inr ⟨_, _, rfl, fun _ => rfl⟩) fun _ _ => .inl trivial).pays
  | expand => exact Pays.closedKind.map ScanRules.pays_expand
  | pass =>
    exact Pays.closedKind.map (Pays.closedKind.runPass (pays_perform trivial) hlist htick
      fun _ => ScanRules.pays_expand)
  | tick => exact Pays.closedKind.map htick
  | setMode => exact Pays.closedKind.map (Pays.closedKind.set hget hput)
  | resumeMode => exact Pays.closedKind.map (Pays.closedKind.resume hget hput)

end RelayFleet
