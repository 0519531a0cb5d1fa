import RelayFleet.Relay.State

/-!
# The transitions of a relay

`nextState` is the table of legal operations: for each state and operation it says where the relay
goes, or that it stays, or that the operation is illegal. Nothing else decides which operation may
move a relay.
-/

namespace RelayFleet

/-- An operation that may change the state of a relay. -/
inductive RelayOp where
  | start
  | startCompleted
  | startFailed
  | stop
  | stopCompleted
  | agentDisconnected
  | haFenced
  | migrationStarted
  /-- `resumeRunning` is whether the relay was running when the migration began. -/
  | migrationCompleted (resumeRunning : Bool)
  | destroy
  | reboot
deriving Repr, DecidableEq, Inhabited

namespace RelayOp

/-- Every operation. -/
def all : List RelayOp :=
  [start, startCompleted, startFailed, stop, stopCompleted, agentDisconnected, haFenced,
    migrationStarted, migrationCompleted true, migrationCompleted false, destroy, reboot]

/-- The operation as a verb in front of the relay. -/
def verb : RelayOp → String
  | start => "start"
  | startCompleted => "complete start of"
  | startFailed => "fail start of"
  | stop => "stop"
  | stopCompleted => "complete stop of"
  | agentDisconnected => "disconnect agent of"
  | haFenced => "fence"
  | migrationStarted => "migrate"
  | migrationCompleted _ => "complete migration of"
  | destroy => "destroy"
  | reboot => "reboot"

end RelayOp

/-- The outcome of a legal operation. -/
inductive Transition where
  | to (s : RelayState)
  /-- The relay is already where the operation would put it. -/
  | unchanged
deriving Repr, DecidableEq, Inhabited

/-- An operation that the table does not allow. -/
structure IllegalTransition where
  source : RelayState
  op : RelayOp
deriving Repr, DecidableEq, Inhabited

/-- The text of an illegal transition. -/
def IllegalTransition.message (e : IllegalTransition) : String :=
  "cannot " ++ e.op.verb ++ " relay in state " ++ e.source.word

/-- The transition for `op` on a relay in state `source`. -/
def nextState (source : RelayState) (op : RelayOp) : Except IllegalTransition Transition :=
  match source, op with
  | .stopped, .start => .ok (.to .starting)
  | .stopped, .stop => .ok .unchanged
  | .stopped, .destroy => .ok (.to .destroyed)
  | .stopped, .migrationStarted => .ok (.to .migrating)
  | .stopped, .reboot => .ok (.to .starting)
  | .starting, .start => .ok .unchanged
  | .starting, .startCompleted => .ok (.to .running)
  | .starting, .startFailed => .ok (.to .stopped)
  | .starting, .stop => .ok (.to .stopping)
  | .running, .start => .ok .unchanged
  | .running, .stop => .ok (.to .stopping)
  | .running, .agentDisconnected => .ok (.to .ha)
  | .running, .migrationStarted => .ok (.to .migrating)
  | .running, .reboot => .ok .unchanged
  | .stopping, .stop => .ok .unchanged
  | .stopping, .stopCompleted => .ok (.to .stopped)
  | .ha, .haFenced => .ok (.to .stopped)
  | .ha, .stop => .ok (.to .stopping)
  | .migrating, .migrationCompleted true => .ok (.to .running)
  | .migrating, .migrationCompleted false => .ok (.to .stopped)
  | .migrating, .stop => .ok (.to .stopping)
  | .destroyed, .destroy => .ok .unchanged
  | _, _ => .error ⟨source, op⟩

end RelayFleet
