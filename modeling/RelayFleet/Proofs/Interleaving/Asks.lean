import RelayFleet.Fleet.Action

/-!
# The actions that a program asks for

`Asks A p P` says that the program asks for actions of a kind `A` only, whatever it is answered, and
ends as `P` says. It is proved rule by rule along the text of the program.
-/

namespace RelayFleet

variable {α β ε : Type} {A B : Action → Prop}

/-- Every action that the program asks for is of kind `A`, and it ends as `P` says. -/
def Asks (A : Action → Prop) (p : Fleet α) (P : α → Prop) : Prop :=
  match p with
  | .pure a => P a
  | .ask a next => A a ∧ ∀ r, Asks A (next r) P

namespace Asks

variable {P : α → Prop} {Q : β → Prop}

/-- A program that has ended. -/
theorem pure {a : α} (h : P a) : Asks A (Pure.pure a) P := h

/-- More actions may be allowed, and less be said about the end. -/
theorem mono {p : Fleet α} {P' : α → Prop} (h : Asks A p P) (hA : ∀ a, A a → B a)
    (hP : ∀ a, P a → P' a) : Asks B p P' := by
  induction p with
  | pure a => exact hP a h
  | ask a next ih => exact ⟨hA a h.1, fun r => ih r (h.2 r)⟩

/-- A program that goes on with another one. -/
theorem bind {p : Fleet α} {f : α → Fleet β} (h : Asks A p P) (hf : ∀ a, P a → Asks A (f a) Q) :
    Asks A (p >>= f) Q := by
  show Asks A (p.bind f) Q
  induction p with
  | pure a => exact hf a h
  | ask a next ih => exact ⟨h.1, fun r => ih r (h.2 r)⟩

/-- Something is made of what a program ends with. -/
theorem map {p : Fleet α} {f : α → β} (h : Asks A p P) : Asks A (f <$> p) fun _ => True :=
  bind h fun _ _ => trivial

/-- The same where something is said of what is made. -/
theorem map' {p : Fleet α} {f : α → β} (h : Asks A p P) (hf : ∀ a, P a → Q (f a)) :
    Asks A (f <$> p) Q :=
  bind h fun a ha => pure (hf a ha)

/-- A program that may fail and goes on with another one where it does not. -/
theorem bindExcept {p : ExceptT ε Fleet α} {f : α → ExceptT ε Fleet β} {P : Except ε α → Prop}
    {Q : Except ε β → Prop} (h : Asks A p.run P) (hf : ∀ a, P (.ok a) → Asks A (f a).run Q)
    (he : ∀ e, P (.error e) → Q (.error e)) : Asks A (p >>= f).run Q := by
  refine bind h ?_
  intro x hx
  cases x with
  | ok a => exact hf a hx
  | error e => exact he e hx

/-- The same where nothing is said about the ends. -/
theorem andThen {p : ExceptT ε Fleet α} {f : α → ExceptT ε Fleet β}
    (h : Asks A p.run fun _ => True) (hf : ∀ a, Asks A (f a).run fun _ => True) :
    Asks A (p >>= f).run fun _ => True :=
  bindExcept h (fun a _ => hf a) fun _ _ => trivial

/-- A single action. -/
theorem perform {a : Action} (h : A a) : Asks A (Fleet.perform a) fun _ => True :=
  ⟨h, fun _ => trivial⟩

/-- A single transaction of a program that may fail: it fails as the registry does. -/
theorem attempt {wrap : StoreError → ε} {t : Transaction} (h : A (.transact t)) :
    Asks A (Fleet.attempt wrap t).run fun r => ∀ e, r = .error e → ∃ x, e = wrap x := by
  refine ⟨h, ?_⟩
  intro r e he
  cases r with
  | ok => cases he
  | error x => exact ⟨x, (Except.error.inj he).symm⟩

/-- A single transaction of a program that may fail, whatever it ends with. -/
theorem attempt' {wrap : StoreError → ε} {t : Transaction} (h : A (.transact t)) :
    Asks A (Fleet.attempt wrap t).run fun _ => True :=
  (attempt h).mono (fun _ => id) fun _ _ => trivial

/-- A program in a program that may fail, which does not fail itself. -/
theorem lift {p : Fleet α} {f : α → ExceptT ε Fleet β} {Q : Except ε β → Prop}
    (h : Asks A p fun _ => True) (hf : ∀ a, Asks A (f a).run Q) :
    Asks A ((liftM p : ExceptT ε Fleet α) >>= f).run Q :=
  bindExcept (P := fun r => ∃ a, r = .ok a) (bind h fun a _ => pure ⟨a, rfl⟩) (fun a _ => hf a)
    (by simp)

/-- A single action in a program that may fail. -/
theorem performed {a : Action} {f : a.Reply → ExceptT ε Fleet β} {Q : Except ε β → Prop} (h : A a)
    (hf : ∀ r, Asks A (f r).run Q) :
    Asks A ((liftM (Fleet.perform a) : ExceptT ε Fleet a.Reply) >>= f).run Q :=
  lift (perform h) hf

/-- A program under the lock. -/
theorem withLock {timeout : Duration} {busy : LockTimeout → Fleet α} {body : Fleet α}
    {Q : α → Prop} (hacquire : A (.acquire timeout)) (hrelease : A .release)
    (hbusy : ∀ e, Asks A (busy e) fun _ => True) (hbody : Asks A body Q) :
    Asks A (Fleet.withLock timeout busy body) fun _ => True := by
  refine bind (perform hacquire) fun r _ => ?_
  cases r with
  | error e => exact hbusy e
  | ok => exact bind hbody fun a _ => bind (perform hrelease) fun _ _ => pure trivial

end Asks

/-- After its first action the program asks for actions of kind `A` only. -/
def AsksThen (A : Action → Prop) (p : Fleet α) : Prop :=
  match p with
  | .pure _ => True
  | .ask _ next => ∀ r, Asks A (next r) fun _ => True

namespace AsksThen

/-- The program goes on with another one. -/
theorem bind {p : Fleet α} {f : α → Fleet β} (h : AsksThen A p)
    (hf : ∀ a, Asks A (f a) fun _ => True) : AsksThen A (p >>= f) := by
  show AsksThen A (p.bind f)
  cases p with
  | pure a =>
    show AsksThen A (f a)
    have ha := hf a
    cases hfa : f a with
    | pure => trivial
    | ask b next =>
      rw [hfa] at ha
      exact ha.2
  | ask a next => exact fun r => Asks.bind (h r) fun b _ => hf b

/-- A program that may fail goes on with another one where it does not. -/
theorem bindExcept {p : ExceptT ε Fleet α} {f : α → ExceptT ε Fleet β} (h : AsksThen A p.run)
    (hf : ∀ a, Asks A (f a).run fun _ => True) : AsksThen A (p >>= f).run := by
  refine bind h ?_
  intro x
  cases x with
  | ok a => exact hf a
  | error e => trivial

/-- A single transaction. -/
theorem attempt {wrap : StoreError → ε} {t : Transaction} :
    AsksThen A (Fleet.attempt wrap t).run :=
  fun _ => trivial

end AsksThen

/-! ## Kinds of actions -/

/-- The relay that a call to the provisioner is about. -/
def ProvisionCall.relay : ProvisionCall → RelayId
  | allocate id _ _ | start id | stop id | destroy id | reboot id => id

/-- An action that leaves the mode alone. -/
def Action.KeepsMode : Action → Prop
  | .transact (.putMode _) => False
  | _ => True

/-- An action that leaves the allocation lock and the mode alone. -/
def Action.IsWork : Action → Prop
  | .acquire _ | .release | .transact (.putMode _) => False
  | _ => True

/-- Work leaves the mode alone. -/
theorem Action.IsWork.keepsMode {a : Action} (h : a.IsWork) : a.KeepsMode := by
  cases a with
  | transact t => cases t <;> trivial
  | _ => trivial

/-- An action that issues no id, stores no relay and changes no id of a stored relay. -/
def Action.KeepsIds : Action → Prop
  | .transact .nextRelayId | .transact (.putRelay _) => False
  | .transact (.updateRelay _ change) => ∀ r, (change r).id = r.id
  | _ => True

/-- An action that leaves the provisioner, the mode and the ids and states of relays alone. -/
def Action.IsNeutral : Action → Prop
  | .provision _ | .transact .nextRelayId | .transact (.putRelay _)
  | .transact (.deleteRelay _) | .transact (.putMode _) => False
  | .transact (.updateRelay _ change) => ∀ r, (change r).id = r.id ∧ (change r).state = r.state
  | _ => True

/-- A neutral action leaves the mode alone. -/
theorem Action.IsNeutral.keepsMode {a : Action} (h : a.IsNeutral) : a.KeepsMode := by
  cases a with
  | transact t => cases t <;> trivial
  | _ => trivial

/-- An action that leaves the ids of relays alone is one that keeps them. -/
theorem Action.IsNeutral.keepsIds {a : Action} (h : a.IsNeutral) : a.KeepsIds := by
  cases a with
  | transact t =>
    cases t with
    | updateRelay _ change => exact fun r => (h r).1
    | nextRelayId | putRelay => cases h
    | _ => trivial
  | _ => trivial

/-- An action that leaves the lock, the provisioner, the mode and the ids and states of relays
alone. -/
structure Action.IsPlain (a : Action) : Prop where
  isWork : a.IsWork
  isNeutral : a.IsNeutral

/-- An action that leaves a stopped relay stopped, if it changes its row. -/
def Action.KeepsStopped : Action → Prop
  | .transact (.updateRelay _ change) => ∀ r, r.state = .stopped → (change r).state = .stopped
  | _ => True

/-- The relay that an action changes, or calls the provisioner for. -/
def Action.relay? : Action → Option RelayId
  | .provision c => some c.relay
  | .transact (.putRelay r) => some r.id
  | .transact (.updateRelay id _) | .transact (.deleteRelay id) => some id
  | _ => none

/-- An action that leaves the lock alone and is about no relay but this one. -/
structure Action.IsWorkOn (id : RelayId) (a : Action) : Prop where
  isWork : a.IsWork
  relay_eq : ∀ k, a.relay? = some k → k = id

end RelayFleet
