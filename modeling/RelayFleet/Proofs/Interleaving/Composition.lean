import RelayFleet.Proofs.Interleaving.Asks
import RelayFleet.Proofs.Interleaving.Protocol
import RelayFleet.Scan.Fleet

/-!
# What is put together from other programs

Much that is said of programs is true of a whole one if it is of its parts: that it asks for certain
actions only, or that it follows a protocol from rest to rest. For such a kind of programs
(`ClosedKind`) the operations of management and the passes are walked through once, down to stops,
expansions and what is done to the mode.
-/

namespace RelayFleet

/-- A kind of programs to which a program belongs that goes on from one of them with another. -/
structure ClosedKind (C : ∀ {α : Type}, Fleet α → Prop) : Prop where
  pure {α : Type} (a : α) : C (Pure.pure a)
  bind {α β : Type} {p : Fleet α} {f : α → Fleet β} (hp : C p) (hf : ∀ a, C (f a)) : C (p >>= f)

namespace ClosedKind

variable {C : ∀ {α : Type}, Fleet α → Prop} (hC : ClosedKind C)
include hC

/-! ## Ways of putting programs together -/

section
variable {α β ε : Type}

/-- A program that may fail and goes on with another one where it does not. -/
theorem andThen {p : ExceptT ε Fleet α} {f : α → ExceptT ε Fleet β} (hp : C p.run)
    (hf : ∀ a, C (f a).run) : C (p >>= f).run := by
  refine hC.bind hp ?_
  intro x
  cases x with
  | ok a => exact hf a
  | error e => exact hC.pure _

/-- Something is made of what a program ends with. -/
theorem map {p : Fleet α} {f : α → β} (hp : C p) : C (f <$> p) := hC.bind hp fun _ => hC.pure _

/-- A program in a program that may fail, which does not fail itself. -/
theorem lift {p : Fleet α} {f : α → ExceptT ε Fleet β} (hp : C p) (hf : ∀ a, C (f a).run) :
    C ((liftM p : ExceptT ε Fleet α) >>= f).run :=
  hC.andThen (hC.map hp) hf

/-- A single transaction of a program that may fail. -/
theorem attempt {wrap : StoreError → ε} {t : Transaction} (h : C (Fleet.transact t)) :
    C (Fleet.attempt wrap t).run :=
  hC.map h

/-- A loop. -/
theorem foldlM {f : β → α → Fleet β} {l : List α} (h : ∀ b a, C (f b a)) (b : β) :
    C (l.foldlM f b) := by
  induction l generalizing b with
  | nil => exact hC.pure _
  | cons a l ih =>
    rw [List.foldlM_cons]
    exact hC.bind (h b a) fun b' => ih b'

/-- A loop without a result. -/
theorem forM {f : α → Fleet PUnit} {l : List α} (h : ∀ a, C (f a)) : C (l.forM f) := by
  induction l with
  | nil => exact hC.pure _
  | cons a l ih => exact hC.bind (h a) fun _ => ih

end

/-! ## Management -/

section
variable (hget : C (Fleet.transact .getMode)) (hput : ∀ m, C (Fleet.transact (.putMode m)))
include hget hput

/-- A switch reads the mode and puts it down. -/
theorem set {m : Mode} : C (Management.set m).run := by
  refine hC.andThen (hC.attempt hget) fun r => ?_
  split
  · exact hC.pure _
  · exact hC.andThen (hC.attempt (hput _)) fun _ => hC.pure _

/-- A resume reads the mode and puts it down. -/
theorem resume : C Management.resume.run := by
  refine hC.andThen (hC.attempt hget) fun r => ?_
  split
  · exact hC.pure _
  · exact hC.andThen (hC.attempt (hput _)) fun _ => hC.pure _

end

section
variable (hlist : ∀ keep, C (Fleet.transact (.listRelays keep)))
  (hstop : ∀ id, C (Lifecycle.stop id).run)
include hlist hstop

/-- Stopping what is running looks for it and stops one after the other. -/
theorem stopRunning : C Management.stopRunning.run := by
  refine hC.andThen (hC.attempt (hlist _)) fun _ => hC.map (hC.forM fun r => ?_)
  exact hC.bind (hstop r.id) fun _ => hC.pure _

/-- A tick reads the mode, stops relays and puts down the mode. -/
theorem tick (hget : C (Fleet.transact .getMode)) (hput : ∀ m, C (Fleet.transact (.putMode m))) :
    C Management.tick.run := by
  refine hC.andThen (hC.attempt hget) fun r => ?_
  split
  · exact hC.pure _
  · exact hC.pure _
  · exact hC.andThen (hC.stopRunning hlist hstop) fun _ =>
      hC.andThen (hC.attempt (hput _)) fun _ => hC.pure _
  · refine hC.andThen (hC.stopRunning hlist hstop) fun _ =>
      hC.andThen (hC.attempt (hlist _)) fun remaining => ?_
    split
    · exact hC.andThen (hC.resume hget hput) fun _ => hC.pure _
    · exact hC.pure _

end

/-! ## Passes -/

/-- What a pass does about one zone. -/
theorem runPool {rules : ScanRules} (hexpand : ∀ zone, C (rules.expand zone)) (s : FleetSnapshot)
    (report : PassReport) (zone : ZoneId) : C (rules.handler.runPool s report zone) := by
  refine hC.bind (hC.pure _) fun ready => ?_
  split
  · refine hC.bind (hC.pure _) fun action => ?_
    cases action with
    | noOp => exact hC.pure _
    | shrink => exact hC.pure _
    | expand => exact hC.bind (hC.map (hexpand zone)) fun _ => hC.pure _
  · exact hC.pure _

/-- A pass looks at the directory and the rows, and does what ticks and expansions do. -/
theorem runPass {rules : ScanRules} (hdirectory : C Fleet.directory)
    (hlist : ∀ keep, C (Fleet.transact (.listRelays keep))) (htick : C Management.tick.run)
    (hexpand : ∀ zone, C (rules.expand zone)) : C rules.runPass := by
  refine hC.bind ?_ fun report => hC.pure _
  refine hC.bind (hC.map ?_) fun x => ?_
  · exact hC.lift hdirectory fun _ => hC.andThen (hC.attempt (hlist _)) fun _ => hC.pure _
  · cases x with
    | error e => exact hC.pure _
    | ok s =>
      refine hC.bind (hC.bind htick fun mode => ?_) fun b => ?_
      · split <;> exact hC.pure _
      · split
        · exact hC.foldlM (hC.runPool hexpand s) _
        · exact hC.pure _

end ClosedKind

/-! ## Such kinds -/

/-- Programs that ask for certain actions only. -/
theorem Asks.closedKind {A : Action → Prop} : ClosedKind fun p => Asks A p fun _ => True where
  pure _ := trivial
  bind hp hf := hp.bind fun a _ => hf a

/-- Programs that follow a protocol from a place back to it. -/
theorem Protocol.Follows.closedKind {Φ : Type} {P : Protocol Φ} {φ : Φ} :
    ClosedKind fun p => P.Follows φ p fun φ' _ => φ' = φ where
  pure _ := rfl
  bind hp hf := by
    refine Follows.bind hp ?_
    rintro _ a rfl
    exact hf a

end RelayFleet
