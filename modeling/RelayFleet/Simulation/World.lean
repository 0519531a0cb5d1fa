import RelayFleet.Allocation.Assign
import RelayFleet.Provisioner.Local
import RelayFleet.Scan.Fleet
import RelayFleet.Simulation.Script

/-!
# A simulated fleet

The world that fleet programs run in: a registry, the local provisioner, a clock that stands still,
and the events and calls so far. Faults can be scripted: calls that fail, and programs that run in
the middle of a call, as if someone else had been faster.
-/

namespace RelayFleet.Simulation

/-- A program that runs in the middle of a call; it ends with the word for its error if it fails. -/
abbrev Hook := Fleet (Option String)

/-- What the provisioner was asked, or what a hook came to. -/
inductive CallRecord where
  | call (c : ProvisionCall) (locked : Bool)
  | hook (error : Option String)
deriving Repr, Inhabited

/-- The world of a fleet. -/
structure World where
  now : Millis
  registry : Registry
  directory : ZoneDirectory
  provisioner : LocalProvisioner
  /-- How long booting takes, in milliseconds. -/
  startDelay : Nat
  /-- The calls that fail before the provisioner sees them, each as often as it stands here. -/
  faults : List ProvisionOp
  /-- What runs in the middle of the next calls. -/
  hooks : List (ProvisionOp × List Hook)
  counters : AssignCounters
  /-- The events so far, the last one first. -/
  events : List Event
  /-- The calls so far, the last one first. -/
  calls : List CallRecord
  /-- Whether the lock is held by hand. -/
  lockedByHand : Bool
deriving Inhabited

namespace World

/-- A world without a past. -/
def fresh (now : Millis) (registry : Registry) (s : Settings) (startDelay : Nat) : World where
  now := now
  registry := registry
  directory := .ofZones s.zones
  provisioner := .fresh s.endpoint.consolePort
  startDelay := startDelay
  faults := []
  hooks := []
  counters := .zero
  events := []
  calls := []
  lockedByHand := false

/-- Puts down a call. -/
def log (w : World) (c : CallRecord) : World := { w with calls := c :: w.calls }

/-- Makes the next calls of an operation fail, so many instead of those that were to fail. -/
def failNext (w : World) (op : ProvisionOp) (n : Nat) : World :=
  { w with faults := w.faults.filter (· ≠ op) ++ List.replicate n op }

/-- Takes the fault of a call, if one is due. -/
def takeFault (op : ProvisionOp) (w : World) : Bool × World :=
  (w.faults.contains op, { w with faults := w.faults.erase op })

/-- Takes the hook of a call, if one is due. -/
def takeHook (op : ProvisionOp) (w : World) : List Hook × World :=
  match w.hooks.find? (·.1 = op) with
  | none => ([], w)
  | some hook => (hook.2, { w with hooks := w.hooks.eraseP (·.1 = op) })

/-- Runs a transaction. -/
def transact (t : Transaction) (w : World) : StoreResult t.Reply × World :=
  let (reply, registry) := t.run w.now w.registry
  (reply, { w with registry := registry })

/-- Asks the local provisioner. -/
def ask {α : Type} (f : LocalProvisioner → α × LocalProvisioner) (w : World) : α × World :=
  let (reply, provisioner) := f w.provisioner
  (reply, { w with provisioner := provisioner })

end World

variable {ρ α : Type}

/-- A script in a world. -/
abbrev WorldScript (ρ α : Type) := Script World ρ α

open Script

/-- Runs a fleet program; `provide` answers its calls to the provisioner. -/
def execute (provide : (c : ProvisionCall) → WorldScript ρ c.Reply) :
    Fleet α → WorldScript ρ α
  | .pure a => pure a
  | .ask (.transact t) next => do
    let reply ← modifyGet (World.transact t)
    execute provide (next reply)
  | .ask .now next => do
    let w ← state
    execute provide (next w.now)
  | .ask (.provision c) next => do
    let reply ← provide c
    execute provide (next reply)
  | .ask (.acquire timeout) next => do
    let had ← acquire timeout
    execute provide (next (if had then .ok () else .error ⟨allocationLockName, timeout⟩))
  | .ask .release next => do
    release
    execute provide (next ())
  | .ask (.emit e) next => do
    modify fun w => { w with events := e :: w.events }
    execute provide (next ())
  | .ask .directory next => do
    let w ← state
    execute provide (next w.directory)
  | .ask (.record o) next => do
    modify fun w => { w with counters := w.counters.record o }
    execute provide (next ())
  | .ask .counters next => do
    let w ← state
    execute provide (next w.counters)

/-- What the local provisioner does with a call; booting takes its time. -/
def provideLocally : (c : ProvisionCall) → WorldScript ρ c.Reply
  | .start _ => do
    modify fun w => { w with provisioner := w.provisioner.beginStart }
    sleep (← state).startDelay
    modifyGet (World.ask LocalProvisioner.finishStart)
  | c => modifyGet (World.ask (·.answer c))

/-- Answers a call: it is put down, its hook runs, a fault that is due makes it fail, and otherwise
the local provisioner answers. Hooks run in hooks down to a depth. -/
def provide : Nat → (c : ProvisionCall) → WorldScript ρ c.Reply
  | depth, c => do
    let locked := (← shared).lock.isHeld
    modify (·.log (.call c locked))
    match depth with
    | 0 => pure ()
    | d + 1 =>
      for hook in ← modifyGet (World.takeHook c.op) do
        let error ← execute (provide d) hook
        modify (·.log (.hook error))
    if ← modifyGet (World.takeFault c.op) then return .error ⟨c.op, "injected"⟩
    else provideLocally c

/-- How deep hooks may run in hooks. -/
def hookDepth : Nat := 64

/-- Runs a fleet program in a world. -/
def perform (p : Fleet α) : WorldScript ρ α := execute (provide hookDepth) p

end RelayFleet.Simulation
