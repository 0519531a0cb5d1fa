import RelayFleet.Lifecycle
import RelayFleet.Proofs.Interleaving.Asks

/-!
# What lifecycle calls ask for

What a lifecycle call may do is one of a few kinds of actions, whatever it is answered
(`Action.IsUpkeep`): rows are moved by the table of transitions, and lose their sessions where a
stop or a fence is over. None of it touches the allocation lock. A stop and a destruction are about
the relay that they were called for and no other one. A start or reboot takes a relay out of
`stopped` with its first action or not at all.
-/

namespace RelayFleet

open Asks

/-! ## Upkeep -/

/-- The operation ends a stop or a fence. -/
def RelayOp.Halts (op : RelayOp) : Prop := op = .stopCompleted ∨ op = .haFenced

/-- The operation neither ends a stop or a fence nor belongs to a migration. -/
def RelayOp.GoesOn : RelayOp → Prop
  | .stopCompleted | .haFenced | .migrationStarted | .migrationCompleted _ => False
  | _ => True

/-- What ends a stop or a fence does not go on. -/
theorem RelayOp.GoesOn.not_halts {op : RelayOp} (h : op.GoesOn) : ¬ op.Halts := by
  rintro (rfl | rfl) <;> exact h

/-- What lifecycle calls do, about relays as `K` says. -/
inductive Action.IsUpkeep (K : RelayId → Prop) : Action → Prop
  /-- An operation that is not the end of a stop or a fence and not one of a migration. -/
  | applies {id : RelayId} {op : RelayOp} (about : K id) (goes_on : op.GoesOn) :
    IsUpkeep K (.transact (.updateRelay id (Lifecycle.moved (fun _ => op) fun _ r => r)))
  /-- A stop or a fence is over. -/
  | halts {id : RelayId} {op : RelayOp} (about : K id) (ends : op.Halts) :
    IsUpkeep K (.transact (.updateRelay id
      (Lifecycle.moved (fun _ => op) Lifecycle.withoutSessions)))
  /-- A migration begins. -/
  | leaves {id : RelayId} (about : K id) :
    IsUpkeep K (.transact (.updateRelay id (Lifecycle.moved (fun _ => .migrationStarted)
      fun source r => { r with preMigrationState := some source })))
  /-- A migration is over. -/
  | arrives {id : RelayId} (about : K id) :
    IsUpkeep K (.transact (.updateRelay id (Lifecycle.moved
      (fun r => .migrationCompleted (r.preMigrationState = some .running))
      fun _ r => { r with preMigrationState := none })))
  /-- A relay gets its state back. -/
  | restores {id : RelayId} {s : RelayState} (about : K id) :
    IsUpkeep K (.transact (.updateRelay id fun r => { r with state := s }))
  /-- A new relay is stored. -/
  | stores {now : Millis} {id : RelayId} {zone : ZoneId} {address : Option String} {port : UInt16}
    {tls : Bool} (about : K id) :
    IsUpkeep K
      (.transact (.putRelay { Relay.fresh now id zone address port with tlsEnabled := tls }))
  | removes {id : RelayId} (about : K id) : IsUpkeep K (.transact (.deleteRelay id))
  | issues : IsUpkeep K (.transact .nextRelayId)
  | lists {keep : Relay → Bool} : IsUpkeep K (.transact (.listRelays keep))
  | provisions {c : ProvisionCall} (about : K c.relay) : IsUpkeep K (.provision c)
  | emits {e : Event} : IsUpkeep K (.emit e)
  | looks : IsUpkeep K .now

/-- Any relay. -/
abbrev AnyRelay : RelayId → Prop := fun _ => True

/-- Upkeep leaves the lock alone. -/
theorem Action.IsUpkeep.isWork {K : RelayId → Prop} {a : Action} (h : a.IsUpkeep K) : a.IsWork := by
  cases h <;> trivial

/-- Upkeep is about the relays that it is about. -/
theorem Action.IsUpkeep.about {K : RelayId → Prop} {a : Action} (h : a.IsUpkeep K) {id : RelayId}
    (hid : a.relay? = some id) : K id := by
  cases h with
  | issues | lists | emits | looks => cases hid
  | _ about =>
    cases hid
    exact about

/-- Upkeep of some relays is upkeep. -/
theorem Action.IsUpkeep.any {K : RelayId → Prop} {a : Action} (h : a.IsUpkeep K) :
    a.IsUpkeep AnyRelay := by
  cases h with
  | applies _ goes_on => exact .applies trivial goes_on
  | halts _ ends => exact .halts trivial ends
  | leaves => exact .leaves trivial
  | arrives => exact .arrives trivial
  | restores => exact .restores trivial
  | stores => exact .stores trivial
  | removes => exact .removes trivial
  | provisions => exact .provisions trivial
  | issues => exact .issues
  | lists => exact .lists
  | emits => exact .emits
  | looks => exact .looks

/-- A program that asks for upkeep of some relays asks for upkeep. -/
theorem Asks.any {α : Type} {p : Fleet α} {P : α → Prop} {K : RelayId → Prop}
    (h : Asks (Action.IsUpkeep K) p P) : Asks (Action.IsUpkeep AnyRelay) p P :=
  h.mono (fun _ ha => ha.any) fun _ => id

/-- Upkeep of any relays is work. -/
theorem Asks.isWork_of_upkeep {α : Type} {p : Fleet α} {P : α → Prop} {K : RelayId → Prop}
    (h : Asks (Action.IsUpkeep K) p P) : Asks Action.IsWork p P :=
  h.mono (fun _ ha => ha.isWork) fun _ => id

/-- Upkeep of one relay is work on it. -/
theorem Asks.isWorkOn_of_upkeep {α : Type} {p : Fleet α} {P : α → Prop} {k : RelayId}
    (h : Asks (Action.IsUpkeep (· = k)) p P) : Asks (Action.IsWorkOn k) p P :=
  h.mono (fun _ ha => ⟨ha.isWork, fun _ => ha.about⟩) fun _ => id

namespace Lifecycle

variable {id : RelayId}

/-- Moving a row asks for the change of this row. -/
theorem asks_transition {A : Action → Prop} {choose : Relay → RelayOp}
    {onMove : RelayState → Relay → Relay}
    (h : A (.transact (.updateRelay id (moved choose onMove)))) :
    Asks A (transition id choose onMove).run fun _ => True := by
  refine andThen (attempt' h) ?_
  intro change
  cases nextState change.before.state (choose change.before) <;> exact pure trivial

/-- Giving a relay its state back asks for the change of its row. -/
theorem asks_restore_of {A : Action → Prop} {s : RelayState}
    (h : A (.transact (.updateRelay id fun r => { r with state := s }))) :
    Asks A (restore id s).run fun _ => True :=
  andThen (attempt' h) fun _ => pure trivial

/-- Booting a relay asks for its start and for the operation that puts down how this ended. -/
theorem asks_boot {A : Action → Prop} {r : Relay} (hstart : A (.provision (.start r.id)))
    (hend : ∀ op, op = .startCompleted ∨ op = .startFailed →
      A (.transact (.updateRelay r.id (moved (fun _ => op) fun _ r => r))))
    (hup : A (.emit ⟨.up, r.zoneId, some r.id, "relay up"⟩)) :
    Asks A (boot r).run fun _ => True := by
  refine performed hstart ?_
  intro x
  cases x with
  | ok =>
    exact andThen (asks_transition (hend _ (.inl rfl))) fun _ =>
      performed hup fun _ => pure trivial
  | error e => exact andThen (asks_transition (hend _ (.inr rfl))) fun _ => pure trivial

/-- Booting a relay is upkeep. -/
theorem upkeep_boot {r : Relay} : Asks (Action.IsUpkeep AnyRelay) (boot r).run fun _ => True := by
  refine asks_boot (.provisions trivial) (fun op hop => .applies trivial ?_) .emits
  rcases hop with rfl | rfl <;> trivial

/-- Making a relay asks for an id, for resources and for the new row. -/
theorem asks_create_of {A : Action → Prop} {zone : ZoneId} {spec : LaunchSpec}
    (hissue : A (.transact .nextRelayId))
    (hallocate : ∀ id, A (.provision (.allocate id zone spec))) (hlook : A .now)
    (hstore : ∀ now id address port, A (.transact (.putRelay
      { Relay.fresh now id zone address port with tlsEnabled := spec.tlsEnabled })))
    (hemit : ∀ e, A (.emit e)) : Asks A (create zone spec).run fun _ => True := by
  refine andThen (attempt' hissue) fun id => performed (hallocate id) ?_
  intro r
  cases r with
  | error e => exact performed (hemit _) fun _ => pure trivial
  | ok =>
    exact performed hlook fun _ => andThen (attempt' (hstore ..)) fun _ =>
      performed (hemit _) fun _ => pure trivial

/-- Making a relay is upkeep. -/
theorem upkeep_create {zone : ZoneId} {spec : LaunchSpec} :
    Asks (Action.IsUpkeep AnyRelay) (create zone spec).run fun _ => True :=
  asks_create_of .issues (fun _ => .provisions trivial) .looks (fun _ _ _ _ => .stores trivial)
    fun _ => .emits

/-- Starting a relay asks for the operation and, where it moves the relay, for its boot. -/
theorem asks_start_of {A : Action → Prop}
    (hstart : A (.transact (.updateRelay id (moved (fun _ => .start) fun _ r => r))))
    (hboot : ∀ r, Asks A (boot r).run fun _ => True) : Asks A (start id).run fun _ => True := by
  refine andThen (asks_transition hstart) ?_
  intro applied
  cases applied.transition with
  | unchanged => exact pure trivial
  | _ => exact hboot _

/-- Starting a relay is upkeep. -/
theorem upkeep_start : Asks (Action.IsUpkeep AnyRelay) (start id).run fun _ => True :=
  asks_start_of (.applies trivial trivial) fun _ => upkeep_boot

/-- Stopping a relay asks for the operation, for the stop, and for its end or the state that the
relay was in. -/
theorem asks_stop_of {A : Action → Prop}
    (hstop : A (.transact (.updateRelay id (moved (fun _ => .stop) fun _ r => r))))
    (hprovision : A (.provision (.stop id)))
    (hrestore : ∀ s, A (.transact (.updateRelay id fun r => { r with state := s })))
    (hend : A (.transact (.updateRelay id (moved (fun _ => .stopCompleted) withoutSessions)))) :
    Asks A (stop id).run fun _ => True := by
  refine andThen (asks_transition hstop) ?_
  intro applied
  cases applied.transition with
  | unchanged => exact pure trivial
  | _ =>
    refine performed hprovision ?_
    intro x
    cases x with
    | error e => exact andThen (asks_restore_of (hrestore _)) fun _ => pure trivial
    | ok => exact andThen (asks_transition hend) fun _ => pure trivial

/-- Stopping a relay is upkeep of it. -/
theorem upkeep_stop : Asks (Action.IsUpkeep (· = id)) (stop id).run fun _ => True :=
  asks_stop_of (.applies rfl trivial) (.provisions rfl) (fun _ => .restores rfl)
    (.halts rfl (.inl rfl))

/-- Once it has begun, a destruction asks for the destruction of the relay, and for the removal of
its row or the state that the relay was in. -/
theorem asksThen_destroy_of {A : Action → Prop} (hprovision : A (.provision (.destroy id)))
    (hrestore : ∀ s, A (.transact (.updateRelay id fun r => { r with state := s })))
    (hremove : A (.transact (.deleteRelay id)))
    (hemit : ∀ zone, A (.emit ⟨.destroyed, zone, some id, "relay destroyed"⟩)) :
    AsksThen A (destroy id).run := by
  refine .bindExcept (.bindExcept .attempt fun change => ?_) ?_
  · cases nextState change.before.state .destroy <;> exact pure trivial
  · intro applied
    cases applied.transition with
    | unchanged => exact pure trivial
    | _ =>
      refine performed hprovision ?_
      intro x
      cases x with
      | error e => exact andThen (asks_restore_of (hrestore _)) fun _ => pure trivial
      | ok =>
        exact andThen (attempt' hremove) fun _ => bind (perform (hemit _)) fun _ _ => pure trivial

/-- Destroying a relay is upkeep of it. -/
theorem upkeep_destroy : Asks (Action.IsUpkeep (· = id)) (destroy id).run fun _ => True :=
  ⟨.applies rfl trivial,
    asksThen_destroy_of (.provisions rfl) (fun _ => .restores rfl) (.removes rfl) fun _ => .emits⟩

/-- Rebooting a relay is upkeep. -/
theorem upkeep_reboot : Asks (Action.IsUpkeep AnyRelay) (reboot id).run fun _ => True := by
  refine andThen (asks_transition (.applies trivial trivial)) ?_
  intro applied
  cases applied.transition with
  | unchanged =>
    refine performed (.provisions trivial) ?_
    intro x
    cases x with
    | error e => exact pure trivial
    | ok => exact performed .emits fun _ => pure trivial
  | _ => exact upkeep_boot

/-- Fencing a relay and booting it again is upkeep. -/
theorem upkeep_agentDisconnected :
    Asks (Action.IsUpkeep AnyRelay) (agentDisconnected id).run fun _ => True :=
  andThen (asks_transition (.applies trivial trivial)) fun _ =>
    performed (.provisions trivial) fun _ =>
      andThen (asks_transition (.halts trivial (.inr rfl))) fun _ =>
        andThen (asks_transition (.applies trivial trivial)) fun _ => upkeep_boot

/-- The beginning of a migration is upkeep. -/
theorem upkeep_migrationStarted :
    Asks (Action.IsUpkeep AnyRelay) (migrationStarted id).run fun _ => True :=
  andThen (asks_transition (.leaves trivial)) fun _ => pure trivial

/-- The end of a migration is upkeep. -/
theorem upkeep_migrationCompleted :
    Asks (Action.IsUpkeep AnyRelay) (migrationCompleted id).run fun _ => True :=
  andThen (asks_transition (.arrives trivial)) fun _ => pure trivial

/-! ## Work that leaves the lock alone -/

/-- Making a relay leaves the lock alone. -/
theorem asks_create {zone : ZoneId} {spec : LaunchSpec} :
    Asks Action.IsWork (create zone spec).run fun _ => True :=
  upkeep_create.isWork_of_upkeep

/-- Starting a relay leaves the lock alone. -/
theorem asks_start : Asks Action.IsWork (start id).run fun _ => True :=
  upkeep_start.isWork_of_upkeep

/-- Stopping a relay is work on it. -/
theorem asks_stop : Asks (Action.IsWorkOn id) (stop id).run fun _ => True :=
  upkeep_stop.isWorkOn_of_upkeep

/-- Destroying a relay is work on it. -/
theorem asks_destroy : Asks (Action.IsWorkOn id) (destroy id).run fun _ => True :=
  upkeep_destroy.isWorkOn_of_upkeep

/-- Rebooting a relay leaves the lock alone. -/
theorem asks_reboot : Asks Action.IsWork (reboot id).run fun _ => True :=
  upkeep_reboot.isWork_of_upkeep

/-- Fencing a relay and booting it again leaves the lock alone. -/
theorem asks_agentDisconnected : Asks Action.IsWork (agentDisconnected id).run fun _ => True :=
  upkeep_agentDisconnected.isWork_of_upkeep

/-- The beginning of a migration leaves the lock alone. -/
theorem asks_migrationStarted : Asks Action.IsWork (migrationStarted id).run fun _ => True :=
  upkeep_migrationStarted.isWork_of_upkeep

/-- The end of a migration leaves the lock alone. -/
theorem asks_migrationCompleted : Asks Action.IsWork (migrationCompleted id).run fun _ => True :=
  upkeep_migrationCompleted.isWork_of_upkeep

/-! ## Relays that stay stopped -/

/-- Booting a relay leaves stopped relays stopped. -/
theorem asks_boot_keepsStopped {r : Relay} :
    Asks Action.KeepsStopped (boot r).run fun _ => True := by
  refine asks_boot trivial (fun op hop row hrow => ?_) trivial
  rcases hop with rfl | rfl <;> simp [moved, nextState, hrow]

/-- Once it has begun, a start leaves stopped relays stopped. -/
theorem asksThen_start : AsksThen Action.KeepsStopped (start id).run := by
  refine .bindExcept (.bindExcept .attempt fun change => ?_) ?_
  · cases nextState change.before.state .start <;> exact pure trivial
  · intro applied
    cases applied.transition with
    | unchanged => exact pure trivial
    | _ => exact asks_boot_keepsStopped

/-- Once it has begun, a reboot leaves stopped relays stopped. -/
theorem asksThen_reboot : AsksThen Action.KeepsStopped (reboot id).run := by
  refine .bindExcept (.bindExcept .attempt fun change => ?_) ?_
  · cases nextState change.before.state .reboot <;> exact pure trivial
  · intro applied
    cases applied.transition with
    | unchanged =>
      refine performed trivial ?_
      intro x
      cases x with
      | error e => exact pure trivial
      | ok => exact performed trivial fun _ => pure trivial
    | _ => exact asks_boot_keepsStopped

end Lifecycle

end RelayFleet
