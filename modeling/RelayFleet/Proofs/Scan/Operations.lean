import RelayFleet.Proofs.Interleaving.Operation
import RelayFleet.Proofs.Scan.Conduct

/-!
# Operations under the protocol of calls

Which calls of a fleet may be made with which rights (`Operation.IsAllowed`). Assignments and
reports are under no rights: they change fields of rows that the protocol says nothing of.
-/

namespace RelayFleet

open Protocol

/-- A call that asks for nothing but what the rights allow. -/
def Operation.IsAllowed (rights : Rights) : Operation → Prop
  | create _ _ => rights.creates
  | start _ => rights.operates .start
  | stop _ => rights.operates .stop
  | destroy _ => rights.operates .destroy
  | reboot _ => rights.operates .reboot
  | agentDisconnected _ => rights.operates .agentDisconnected
  | migrationStarted _ => rights.operates .migrationStarted
  | migrationCompleted _ => ∀ b, rights.operates (.migrationCompleted b)
  | expand rules _ => rules = rights.rules
  | pass rules => rules = rights.rules ∧ rights.operates .stop ∧ rights.switches
  | tick => rights.operates .stop ∧ rights.switches
  | setMode _ | resumeMode => rights.switches
  | assign _ _ _ | report _ _ => False

/-- What a program follows it follows as a call. -/
theorem Protocol.Follows.outcome {rights : Rights} {Meets : Registry → Prop} {α : Type}
    {p : Fleet α} {f : α → Outcome}
    (h : (conduct rights Meets).Follows .rest p fun φ _ => φ = .rest) :
    (conduct rights Meets).Follows .rest (f <$> p) fun φ _ => φ = .rest :=
  Follows.bind h fun _ _ h => h

/-- A call follows the protocol with the rights that allow it. -/
theorem Operation.IsAllowed.follows {rights : Rights} {op : Operation} (h : op.IsAllowed rights) :
    (conduct rights Registry.Sound).Follows .rest op.program fun φ _ => φ = .rest := by
  have hsound : ∀ g, Registry.Sound g → g.Sound := fun _ => id
  have may : ∀ {op : RelayOp} {id : RelayId}, rights.operates op → rights.MayOperate .out op id :=
    fun h => h
  match op, h with
  | create zone spec, h =>
    have may : rights.MayCreate .out zone := h
    refine Follows.outcome ((Lifecycle.follows_create may).mono fun φ x hx => ?_)
    cases x <;> exact hx
  | start id, h => exact (Lifecycle.follows_start hsound (may h)).outcome
  | stop id, h => exact (Lifecycle.follows_stop hsound (may h)).outcome
  | destroy id, h => exact (Lifecycle.follows_destroy hsound (may h)).outcome
  | reboot id, h => exact (Lifecycle.follows_reboot hsound (may h)).outcome
  | agentDisconnected id, h => exact (Lifecycle.follows_agentDisconnected hsound h).outcome
  | migrationStarted id, h => exact (Lifecycle.follows_migrationStarted hsound h).outcome
  | migrationCompleted id, h => exact (Lifecycle.follows_migrationCompleted h).outcome
  | expand _ _, rfl => exact (ScanRules.follows_expand hsound).outcome
  | pass _, ⟨rfl, hstop, hswitch⟩ =>
    exact (ScanRules.follows_runPass hsound (Management.follows_tick hsound hstop hswitch)).outcome
  | tick, ⟨hstop, hswitch⟩ => exact (Management.follows_tick hsound hstop hswitch).outcome
  | setMode _, h => exact (Management.follows_set h).outcome
  | resumeMode, h => exact (Management.follows_resume h).outcome

end RelayFleet
