import RelayFleet.Proofs.Interleaving.Protocol
import RelayFleet.Scan.Zone

/-!
# How calls treat relays

A call that moves the row of a relay owes the relay something: a relay that was moved to `starting`
is booted and then put down as running or stopped, one that was moved to `stopping` is stopped and
then put down as stopped or given its state back, and so on. `Duty` is what a call owes, `Hold` is
where it stands with the allocation lock and, for an expansion, what it found there, and `conduct`
is the protocol that the operations on relays, the expansions and the passes follow. Which
operations may be asked for without the lock is a parameter of it (`Rights`).
-/

namespace RelayFleet

/-! ## The stages of a call -/

/-- How far an expansion has come since it counted the relays of its zone. -/
inductive Phase where
  | counted
  /-- The stopped relays of the zone were listed. -/
  | pooled (stopped : List Relay)
  /-- A new relay was stored. -/
  | created (id : RelayId)
  /-- A relay is brought online. -/
  | begun (id : RelayId)

/-- Where a call stands with the allocation lock. -/
inductive Hold where
  | out
  | held
  /-- The relays of a zone were read since the lock was had. -/
  | expanding (zone : ZoneId) (relays : List Relay) (phase : Phase)

/-- What a call still has to do about a relay. -/
inductive Duty where
  | idle
  /-- The relay is to be booted, or is booting. -/
  | booting (id : RelayId)
  | booted (id : RelayId)
  | bootFailed (id : RelayId)
  /-- The relay is to be stopped; it was in state `source`. -/
  | stopping (id : RelayId) (source : RelayState)
  | stopped (id : RelayId)
  | stopFailed (id : RelayId) (source : RelayState)
  /-- The relay is to be destroyed; it was in state `source`. -/
  | destroying (id : RelayId) (source : RelayState)
  | gone (id : RelayId)
  | destroyFailed (id : RelayId) (source : RelayState)
  | rebooting (id : RelayId)
  /-- The relay is to be fenced. -/
  | fencing (id : RelayId)
  | fenced (id : RelayId)
  /-- The relay was fenced and is to be booted again. -/
  | restarting (id : RelayId)
  /-- A new relay has its id. -/
  | allocating (id : RelayId) (zone : ZoneId)
  | storing (id : RelayId) (zone : ZoneId)

/-- Where a call stands. -/
structure Stage where
  hold : Hold
  duty : Duty

/-- A call that has not begun, or is over. -/
def Stage.rest : Stage := ⟨.out, .idle⟩

/-! ## What may be done in a stage -/

/-- The relays of a zone are too few, and none of them is on its way. -/
def ScanRules.Lacks (rules : ScanRules) (zone : ZoneId) (relays : List Relay) : Prop :=
  (ZoneCapacity.ofRelays zone relays).transitionalCount = 0 ∧
    rules.decision (ZoneCapacity.ofRelays zone relays) = .expand

/-- The relays of a zone are below the launch limit. -/
def ScanRules.Admits (rules : ScanRules) (zone : ZoneId) (relays : List Relay) : Prop :=
  (ZoneCapacity.ofRelays zone relays).totalCount < rules.launchMaxPerZone

/-- What calls may do. -/
structure Rights where
  /-- The rules of the expansions. -/
  rules : ScanRules
  /-- The operations on relays that may be asked for without the lock. -/
  operates : RelayOp → Prop
  /-- Whether relays may be created without the lock. -/
  creates : Prop
  /-- Whether the mode may be changed. -/
  switches : Prop

namespace Rights

/-- The operations that a call without duties may begin on a relay. Under the lock these are the
start of a relay of the pool, or of the new one, and the destruction of a relay whose start was
tried. -/
def MayOperate (rights : Rights) : Hold → RelayOp → RelayId → Prop
  | .out, op, _ => rights.operates op
  | .expanding zone relays (.pooled stopped), .start, id =>
    rights.rules.Lacks zone relays ∧ ∃ r ∈ stopped, r.id = id
  | .expanding zone relays (.created k), .start, id => rights.rules.Lacks zone relays ∧ k = id
  | .expanding zone relays (.begun k), .destroy, id => rights.rules.Lacks zone relays ∧ k = id
  | _, _, _ => False

/-- The zones in which a call may create a relay. Under the lock this is the zone of the expansion,
if nothing in it can be started and it is below the launch limit. -/
def MayCreate (rights : Rights) : Hold → ZoneId → Prop
  | .out, _ => rights.creates
  | .expanding zone relays (.pooled []), z =>
    zone = z ∧ rights.rules.Lacks zone relays ∧ rights.rules.Admits zone relays
  | _, _ => False

/-- Where a relay may be created. -/
theorem MayCreate.inv {rights : Rights} {hold : Hold} {zone : ZoneId}
    (h : rights.MayCreate hold zone) : hold = .out ∧ rights.creates ∨
      ∃ relays, hold = .expanding zone relays (.pooled []) ∧ rights.rules.Lacks zone relays ∧
        rights.rules.Admits zone relays := by
  rcases hold with _ | _ | ⟨z, relays, phase⟩
  · exact .inl ⟨rfl, h⟩
  · cases h
  · rcases phase with _ | (_ | ⟨_, _⟩) | _ | _
    · cases h
    · obtain ⟨rfl, hlacks, hadmits⟩ := h
      exact .inr ⟨relays, rfl, hlacks, hadmits⟩
    all_goals cases h

end Rights

/-- The hold after an operation was asked for. -/
def Hold.after : Hold → RelayOp → RelayId → Hold
  | .expanding zone relays _, .start, id => .expanding zone relays (.begun id)
  | hold, _, _ => hold

/-- The hold after a relay was stored. -/
def Hold.stored : Hold → RelayId → Hold
  | .expanding zone relays _, id => .expanding zone relays (.created id)
  | hold, _ => hold

/-- The state after an operation: the same, where it does not move the relay. -/
def RelayState.after (s : RelayState) (op : RelayOp) : RelayState :=
  match nextState s op with
  | .ok (.to s') => s'
  | _ => s

namespace Duty

/-- The operations that a call performs on relays. -/
def Asks (rights : Rights) (hold : Hold) : Duty → RelayOp → RelayId → Prop
  | idle, op, id => rights.MayOperate hold op id
  | booted k, op, id => op = .startCompleted ∧ k = id
  | bootFailed k, op, id => op = .startFailed ∧ k = id
  | stopped k, op, id => op = .stopCompleted ∧ k = id
  | fenced k, op, id => op = .haFenced ∧ k = id
  | restarting k, op, id => op = .start ∧ k = id
  | _, _, _ => False

/-- The duty after an operation on a relay in state `s`. A relay that is starting or running already
is booted all the same by the call that has fenced it. -/
def next (d : Duty) (op : RelayOp) (id : RelayId) (s : RelayState) : Duty :=
  match nextState s op, op, d with
  | .ok (.to _), .start, _ | .ok (.to _), .reboot, _ => booting id
  | .ok .unchanged, .start, restarting _ => booting id
  | .ok .unchanged, .reboot, _ => rebooting id
  | .ok (.to _), .stop, _ => stopping id s
  | .ok (.to _), .destroy, _ => destroying id s
  | .ok (.to _), .agentDisconnected, _ => fencing id
  | .ok (.to _), .haFenced, _ => restarting id
  | _, _, _ => idle

/-- The calls to the provisioner that duties ask for, and what is to be done after each outcome. -/
inductive Calls : Duty → (c : ProvisionCall) → c.Reply → Duty → Prop
  | up {id : RelayId} : Calls (booting id) (.start id) (.ok ()) (booted id)
  | down {id : RelayId} {e : ProvisionError} :
    Calls (booting id) (.start id) (.error e) (bootFailed id)
  | stopped {id : RelayId} {s : RelayState} : Calls (stopping id s) (.stop id) (.ok ()) (stopped id)
  | stopFailed {id : RelayId} {s : RelayState} {e : ProvisionError} :
    Calls (stopping id s) (.stop id) (.error e) (stopFailed id s)
  | destroyed {id : RelayId} {s : RelayState} :
    Calls (destroying id s) (.destroy id) (.ok ()) (gone id)
  | destroyFailed {id : RelayId} {s : RelayState} {e : ProvisionError} :
    Calls (destroying id s) (.destroy id) (.error e) (destroyFailed id s)
  | rebooted {id : RelayId} {r : Except ProvisionError Unit} :
    Calls (rebooting id) (.reboot id) r idle
  | fenced {id : RelayId} {r : Except ProvisionError Unit} :
    Calls (fencing id) (.stop id) r (fenced id)
  | allocated {id : RelayId} {zone : ZoneId} {spec : LaunchSpec} {a : Allocated} :
    Calls (allocating id zone) (.allocate id zone spec) (.ok a) (storing id zone)
  | refused {id : RelayId} {zone : ZoneId} {spec : LaunchSpec} {e : ProvisionError} :
    Calls (allocating id zone) (.allocate id zone spec) (.error e) idle

/-- The duty is one to a relay in this state. -/
def Tends (id : RelayId) : Duty → RelayState → Prop
  | booting k, .starting | booted k, .starting | bootFailed k, .starting => k = id
  | stopping k _, .stopping | stopped k, .stopping | stopFailed k _, .stopping => k = id
  | destroying k _, .destroyed | gone k, .destroyed | destroyFailed k _, .destroyed => k = id
  | fencing k, .ha | fenced k, .ha => k = id
  | _, _ => False

end Duty

/-- A row that is changed in its state and its addenda only, and without more sessions. -/
structure Relay.Keeps (r r' : Relay) : Prop where
  id_eq : r'.id = r.id
  zoneId_eq : r'.zoneId = r.zoneId
  activeSessions_le : r'.activeSessions.toNat ≤ r.activeSessions.toNat

/-- A row without sessions gets none. -/
theorem Relay.Keeps.activeSessions_eq_zero {r r' : Relay} (h : r.Keeps r')
    (hr : r.activeSessions = 0) : r'.activeSessions = 0 := by
  have hle := h.activeSessions_le
  rw [hr] at hle
  exact UInt32.toNat_inj.mp (Nat.le_zero.mp hle)

/-- A row after an operation: sessions are lost only where the state changes. -/
structure Relay.Moved (op : RelayOp) (r r' : Relay) : Prop where
  keeps : r.Keeps r'
  state_eq : r'.state = r.state.after op
  activeSessions_eq : r'.state = r.state → r'.activeSessions = r.activeSessions

/-- Gives a relay back the state it was in. -/
def Transaction.restoring (id : RelayId) (s : RelayState) : Transaction :=
  .updateRelay id fun r => { r with state := s }

/-- An action that only looks. -/
def Action.isLook : Action → Bool
  | .now | .emit _ | .directory | .record _ | .counters => true
  | .transact (.getRelay _) | .transact (.listRelays _) | .transact (.getBinding _)
  | .transact .getMode => true
  | _ => false

/-! ## The protocol -/

/-- The steps of a call that treats relays well. -/
inductive Stage.Step (rights : Rights) : Stage → (a : Action) → a.Reply → Stage → Prop
  | looks {φ : Stage} {a : Action} {r : a.Reply} (ha : a.isLook) : Step rights φ a r φ
  | obtains {t : Duration} : Step rights .rest (.acquire t) (.ok ()) ⟨.held, .idle⟩
  | gives_up {t : Duration} {e : LockTimeout} : Step rights .rest (.acquire t) (.error e) .rest
  | releases {hold : Hold} (hout : hold ≠ .out) : Step rights ⟨hold, .idle⟩ .release () .rest
  | counts {zone : ZoneId} {relays : List Relay} :
    Step rights ⟨.held, .idle⟩ (.transact (.listRelays (·.zoneId == zone))) (.ok relays)
      ⟨.expanding zone relays .counted, .idle⟩
  | pools {zone : ZoneId} {relays stopped : List Relay} :
    Step rights ⟨.expanding zone relays .counted, .idle⟩
      (.transact (.listRelays fun r => r.state = .stopped && r.zoneId == zone)) (.ok stopped)
      ⟨.expanding zone relays (.pooled stopped), .idle⟩
  | operates {hold : Hold} {d : Duty} {id : RelayId} {choose : Relay → RelayOp}
    {onMove : RelayState → Relay → Relay} {change : Registry.Change}
    (asks : ∀ r, d.Asks rights hold (choose r) id)
    (keeps : ∀ s r, r.Keeps (onMove s r) ∧ (onMove s r).state = r.state) :
    Step rights ⟨hold, d⟩ (.transact (.updateRelay id (Lifecycle.moved choose onMove))) (.ok change)
      ⟨hold.after (choose change.before) id, d.next (choose change.before) id change.before.state⟩
  | misses {hold : Hold} {d : Duty} {id : RelayId} {choose : Relay → RelayOp}
    {onMove : RelayState → Relay → Relay} {r : Relay} {e : StoreError}
    (asks : ∀ r, d.Asks rights hold (choose r) id)
    (keeps : ∀ s r, r.Keeps (onMove s r) ∧ (onMove s r).state = r.state) :
    Step rights ⟨hold, d⟩ (.transact (.updateRelay id (Lifecycle.moved choose onMove))) (.error e)
      ⟨hold.after (choose r) id, .idle⟩
  | provisions {hold : Hold} {d d' : Duty} {c : ProvisionCall} {r : c.Reply}
    (calls : d.Calls c r d') : Step rights ⟨hold, d⟩ (.provision c) r ⟨hold, d'⟩
  | restores {hold : Hold} {d : Duty} {id : RelayId} {s : RelayState}
    {r : StoreResult Registry.Change} (hd : d = .stopFailed id s ∨ d = .destroyFailed id s) :
    Step rights ⟨hold, d⟩ (.transact (.restoring id s)) r ⟨hold, .idle⟩
  | removes {hold : Hold} {id : RelayId} {r : StoreResult Bool} :
    Step rights ⟨hold, .gone id⟩ (.transact (.deleteRelay id)) r ⟨hold, .idle⟩
  | issues {hold : Hold} {zone : ZoneId} {id : RelayId} (may : rights.MayCreate hold zone) :
    Step rights ⟨hold, .idle⟩ (.transact .nextRelayId) (.ok id) ⟨hold, .allocating id zone⟩
  | stores {hold : Hold} {id : RelayId} {zone : ZoneId} {r : Relay} {x : StoreResult Unit}
    (hid : r.id = id) (hzone : r.zoneId = zone) (hstate : r.state = .stopped)
    (hsessions : r.activeSessions = 0) :
    Step rights ⟨hold, .storing id zone⟩ (.transact (.putRelay r)) x ⟨hold.stored id, .idle⟩
  | switches {φ : Stage} {m : ModeRecord} {r : StoreResult Unit} (may : rights.switches) :
    Step rights φ (.transact (.putMode m)) r φ

/-- The protocol of calls with these rights, on registries as `Meets` says. -/
def conduct (rights : Rights) (Meets : Registry → Prop) : Protocol Stage where
  Meets := Meets
  Step := Stage.Step rights

end RelayFleet
