import RelayFleet.Proofs.Interleaving.Since
import RelayFleet.Proofs.Lifecycle.Errand

/-!
# A relay that is stopping or destroyed is in the custody of one call

A stop that has moved a relay to `stopping` keeps it there until it applies `stopCompleted` or gives
the state back, and a destruction that has moved it to `destroyed` until it deletes the row or gives
the state back (`UnderWay`). No other writer of the registry takes a relay into one of these states
or out of it, so a relay is in it if and only if exactly one such call is under way. The last
operation of a stop therefore finds its relay in `stopping`, and the state that a stop or a
destruction gives back without looking at the row overwrites its own one (`Run.custody`).
-/

namespace RelayFleet

open Protocol

/-! ## Calls that keep a relay -/

/-- A state in which a relay is in the custody of the call that brought it there. -/
def RelayState.IsCustody (x : RelayState) : Prop := x = .stopping ∨ x = .destroyed

/-- The call that keeps a relay in a state: a stop in `stopping`, a destruction in `destroyed`. -/
inductive Operation.Keeps (id : RelayId) : Operation → RelayState → Prop
  | stop : Keeps id (.stop id) .stopping
  | destroy : Keeps id (.destroy id) .destroyed

/-- The action applies `op` to the relay, and changes no state otherwise. -/
def Action.Applies (op : RelayOp) (id : RelayId) (a : Action) : Prop :=
  ∃ onMove : RelayState → Relay → Relay, (∀ s r, (onMove s r).state = r.state) ∧
    a = .transact (.updateRelay id (Lifecycle.moved (fun _ => op) onMove))

/-- The actions by which the keeper of a relay ends its custody. -/
inductive Action.EndsCustody (id : RelayId) : RelayState → Action → Prop
  | completes {a : Action} (h : a.Applies .stopCompleted id) : EndsCustody id .stopping a
  | deletes : EndsCustody id .destroyed (.transact (.deleteRelay id))
  | restores {x s : RelayState} : EndsCustody id x (.transact (.restoring id s))

section
variable {ι α : Type}

/-- The registry after the step. -/
def Moment.after (e : Moment ι α) : Registry :=
  e.move.action.registryAfter e.move.time e.before.registry

/-- The step brings the relay to state `x`. -/
def Moment.Brings (e : Moment ι α) (id : RelayId) (x : RelayState) : Prop :=
  ¬ e.before.registry.IsIn id x ∧ e.after.IsIn id x

/-- The call is one that keeps the relay in state `x`; it has brought it there, and has not ended
its custody since. -/
def UnderWay (calls : ι → Operation) (h : List (Moment ι α)) (i : ι) (id : RelayId)
    (x : RelayState) : Prop :=
  (calls i).Keeps id x ∧
    Since (fun e => e.move.caller = i ∧ e.Brings id x)
      (fun e => e.move.caller = i ∧ e.move.action.EndsCustody id x) h

end

/-! ## Which actions end a custody -/

section
variable {id : RelayId} {a : Action} {x y : RelayState}

/-- Only the completion of a stop makes a relay stopped that is stopping. -/
theorem RelayState.after_stopping_eq_stopped {op : RelayOp}
    (h : RelayState.after .stopping op = .stopped) : op = .stopCompleted := by
  cases op with
  | stopCompleted => rfl
  | migrationCompleted b => cases b <;> cases h
  | _ => cases h

/-- No operation leads out of `destroyed`. -/
theorem RelayState.after_of_destroyed (op : RelayOp) :
    RelayState.after .destroyed op = .destroyed := by
  cases op with
  | migrationCompleted b => cases b <;> rfl
  | _ => rfl

/-- An operation is never one that gives back a fixed state: it does nothing to a destroyed relay,
and it does not destroy one that is stopping. -/
theorem Lifecycle.moved_ne_restoring {choose : Relay → RelayOp}
    {onMove : RelayState → Relay → Relay} (keeps : ∀ s r, (onMove s r).state = r.state) :
    Lifecycle.moved choose onMove ≠ fun r => { r with state := y } := by
  intro heq
  have hstate : ∀ r : Relay, r.state.after (choose r) = y := fun r =>
    (state_moved keeps r).symm.trans (congrArg Relay.state (congrFun heq r))
  have hdestroyed := hstate { (default : Relay) with state := .destroyed }
  rw [RelayState.after_of_destroyed] at hdestroyed
  subst hdestroyed
  have hstopping := hstate { (default : Relay) with state := .stopping }
  generalize choose _ = op at hstopping
  cases op with
  | migrationCompleted b => cases b <;> cases hstopping
  | _ => cases hstopping

/-- A call to the provisioner ends no custody. -/
theorem Action.not_endsCustody_provision {call : ProvisionCall} :
    ¬ (Action.provision call).EndsCustody id x := by
  intro hends
  cases hends with
  | completes happlies =>
    obtain ⟨_, -, heq⟩ := happlies
    cases heq

/-- A neutral action ends no custody. -/
theorem Action.IsNeutral.not_endsCustody (ha : a.IsNeutral) : ¬ a.EndsCustody id x := by
  intro hends
  cases hends with
  | completes happlies =>
    obtain ⟨onMove, hkeeps, rfl⟩ := happlies
    have hsame := (ha { (default : Relay) with state := .stopping }).2
    rw [Lifecycle.state_moved hkeeps] at hsame
    cases hsame
  | deletes => cases ha
  | @restores _ s =>
    have hstopping := (ha { (default : Relay) with state := .stopping }).2
    have hstopped := (ha { (default : Relay) with state := .stopped }).2
    exact absurd (hstopping.symm.trans hstopped) (by simp)

/-- Who performs an operation that completes the stop of a relay has stopped it. -/
theorem Duty.Asks.eq_stopped {c : Operation} {d : Duty} {choose : Relay → RelayOp}
    {onMove : RelayState → Relay → Relay} (asks : ∀ r, d.Asks c.rights .out (choose r) id)
    (keeps : ∀ s r, (onMove s r).state = r.state)
    (h : Action.Applies .stopCompleted id
      (.transact (.updateRelay id (Lifecycle.moved choose onMove)))) :
    d = .stopped id := by
  obtain ⟨onMove', hkeeps, heq⟩ := h
  injection heq with heq
  injection heq with _ hmoved
  -- the operation on a relay that is stopping is the completion, as it makes this one stopped
  have hstate := congrArg Relay.state
    (congrFun hmoved { (default : Relay) with state := .stopping })
  rw [Lifecycle.state_moved keeps, Lifecycle.state_moved hkeeps] at hstate
  have hasks := asks { (default : Relay) with state := .stopping }
  rw [RelayState.after_stopping_eq_stopped hstate] at hasks
  cases d with
  | stopped => rw [hasks.2]
  | idle => cases c <;> cases hasks
  | booted | bootFailed | fenced | restarting => cases hasks.1
  | _ => cases hasks

section
variable {e e' : Errand} {x₀ y₀ : Option RelayState} {r : a.Reply}

/-- Only a call that has stopped a relay applies `stopCompleted` to it. -/
theorem Turn.of_applies (h : Turn id e x₀ a r e' y₀) (ha : a.Applies .stopCompleted id) :
    e.duty = .stopped id := by
  cases h with
  | rests hneutral => exact absurd (.completes ha) hneutral.not_endsCustody
  | elsewhere hne =>
    obtain ⟨_, -, rfl⟩ := ha
    exact absurd rfl hne
  | operates asks _ keeps => exact Duty.Asks.eq_stopped asks keeps ha
  | misses asks keeps => exact Duty.Asks.eq_stopped asks keeps ha
  | restores =>
    obtain ⟨_, hkeeps, heq⟩ := ha
    injection heq with heq
    injection heq with _ hmoved
    exact absurd hmoved.symm (Lifecycle.moved_ne_restoring hkeeps)
  | provisions | removes | issues | stores =>
    obtain ⟨_, -, heq⟩ := ha
    cases heq

/-- Only a call whose stop or destruction has failed gives a state back. -/
theorem Turn.of_restoring (h : Turn id e x₀ a r e' y₀) (ha : a = .transact (.restoring id y)) :
    e.duty = .stopFailed id y ∨ e.duty = .destroyFailed id y := by
  cases h with
  | rests hneutral =>
    subst ha
    exact absurd (.restores (x := .stopping)) hneutral.not_endsCustody
  | elsewhere hne =>
    subst ha
    exact absurd rfl hne
  | operates _ _ keeps | misses _ keeps =>
    injection ha with heq
    injection heq with _ hmoved
    exact absurd hmoved (Lifecycle.moved_ne_restoring keeps)
  | @restores _ _ _ s _ hd =>
    injection ha with heq
    injection heq with _ hgives
    have hs : s = y := congrArg Relay.state (congrFun hgives default)
    exact hs ▸ hd
  | provisions | removes | issues | stores => cases ha

end

end

/-! ## What a turn does to a custody -/

section
variable {id : RelayId} {x : RelayState} {e e' : Errand} {x₀ y : Option RelayState} {a : Action}
  {r : a.Reply}

/-- The caller takes the relay into custody, or ends its custody, or leaves it as it is. -/
inductive Passage (id : RelayId) (x : RelayState) (e : Errand) (x₀ : Option RelayState) (a : Action)
    (e' : Errand) (y : Option RelayState) : Prop
  | enters (hx : x₀ ≠ some x) (hy : y = some x) (ht : e'.duty.Tends id x)
    (hkeeps : e'.call.Keeps id x)
  | leaves (ht : e.duty.Tends id x) (hy : y ≠ some x) (ht' : ¬ e'.duty.Tends id x)
    (hends : a.EndsCustody id x)
  | stays (hxy : y = some x ↔ x₀ = some x) (ht : e'.duty.Tends id x ↔ e.duty.Tends id x)
    (hends : e.duty.Tends id x → ¬ a.EndsCustody id x)

/-- An operation gives its caller the custody of the relay that it brings into a state of custody,
and no other one. -/
theorem Duty.tends_next_iff (d : Duty) (op : RelayOp) (id : RelayId) (s : RelayState)
    (hx : x.IsCustody) :
    (d.next op id s).Tends id x ↔ s ≠ x ∧ s.after op = x := by
  rcases hx with rfl | rfl <;> cases op with
  | migrationCompleted b =>
    cases b <;> cases s <;> simp [Duty.next, nextState, RelayState.after, Duty.Tends]
  | start => cases d <;> cases s <;> simp [Duty.next, nextState, RelayState.after, Duty.Tends]
  | _ => cases s <;> simp [Duty.next, nextState, RelayState.after, Duty.Tends]

/-- A call that operates on a relay in its custody completes a stop. -/
theorem Duty.Asks.eq_of_tends_custody {rights : Rights} {hold : Hold} {d : Duty} {op : RelayOp}
    (asks : d.Asks rights hold op id) (hx : x.IsCustody) (ht : d.Tends id x) :
    d = .stopped id ∧ op = .stopCompleted ∧ x = .stopping := by
  cases d with
  | stopped k =>
    rcases hx with rfl | rfl
    · cases ht
      exact ⟨rfl, asks.1, rfl⟩
    · cases ht
  | idle | booted | bootFailed | fenced | restarting => rcases hx with rfl | rfl <;> cases ht
  | _ => cases asks

/-- Another operation does not end a custody. -/
theorem RelayState.after_of_isCustody {op : RelayOp} (hx : x.IsCustody)
    (hne : op = .stopCompleted → x ≠ .stopping) : x.after op = x := by
  rcases hx with rfl | rfl
  · cases op with
    | stopCompleted => exact absurd rfl (hne rfl)
    | migrationCompleted b => cases b <;> rfl
    | _ => rfl
  · exact after_of_destroyed op

/-- Which calls keep the relays that they stop or destroy. -/
theorem Operation.keeps_of_opens {c : Operation} {op : RelayOp} {s : RelayState}
    (hopens : c.Opens op) (hto : c.KeepsTo id) (hx : x.IsCustody) (hs : s ≠ x)
    (hafter : s.after op = x) : c.Keeps id x := by
  rcases hx with rfl | rfl <;> cases op with
  | stop | destroy =>
    cases s <;> first | exact absurd rfl hs | cases hafter
    all_goals
      cases c <;> cases hopens
      cases hto
      constructor
  | migrationCompleted b => cases b <;> cases s <;> first | exact absurd rfl hs | cases hafter
  | _ => cases s <;> first | exact absurd rfl hs | cases hafter

/-- An operation is the passage that its duty says. -/
theorem Passage.operates {c : Operation} {d : Duty} {s : RelayState} {op : RelayOp}
    {choose : Relay → RelayOp} {onMove : RelayState → Relay → Relay} (hx : x.IsCustody)
    (hpresent : d.Tends id x → some s = some x) (asks : ∀ r, d.Asks c.rights .out (choose r) id)
    (hop : d.Asks c.rights .out op id) (keeps : ∀ s r, (onMove s r).state = r.state)
    (hto : c.KeepsTo id) :
    Passage id x ⟨c, d⟩ (some s) (.transact (.updateRelay id (Lifecycle.moved choose onMove)))
      ⟨c, d.next op id s⟩ (some (s.after op)) := by
  have hnext := d.tends_next_iff op id s hx
  by_cases ht : d.Tends id x
  · -- the caller has stopped the relay, and puts this down
    obtain ⟨rfl, rfl, rfl⟩ := hop.eq_of_tends_custody hx ht
    cases hpresent ht
    refine .leaves ht (by simp [RelayState.after, nextState]) (by simp [hnext]) (.completes ?_)
    have hchoose : choose = fun _ => .stopCompleted := funext fun r => (asks r).1
    exact ⟨onMove, keeps, by rw [hchoose]⟩
  · by_cases hs : s = x
    · -- the relay is in the custody of another call
      have hafter : s.after op = s := by
        subst hs
        refine RelayState.after_of_isCustody hx ?_
        rintro rfl rfl
        cases d with
        | stopped => exact ht hop.2
        | idle => cases c <;> cases hop
        | booted | bootFailed | fenced | restarting => cases hop.1
        | _ => cases hop
      have hnot : ¬ (d.next op id s).Tends id x := fun h => (hnext.mp h).1 hs
      exact .stays (by rw [hafter]) (by simp [hnot, ht]) fun h => absurd h ht
    · by_cases hafter : s.after op = x
      · refine .enters (by simpa using hs) (by simpa using hafter) (hnext.mpr ⟨hs, hafter⟩) ?_
        cases d with
        | idle => exact Operation.keeps_of_opens hop hto hx hs hafter
        | booted | bootFailed | stopped | fenced | restarting =>
          obtain ⟨rfl, -⟩ := hop
          rcases hx with rfl | rfl <;> cases s <;> first | exact absurd rfl hs | cases hafter
        | _ => cases hop
      · have hnot : ¬ (d.next op id s).Tends id x := fun h => hafter (hnext.mp h).2
        exact .stays (by simp [hafter, hs]) (by simp [hnot, ht]) fun h => absurd h ht

/-- Every turn of a relay is a passage. -/
theorem Turn.passage (h : Turn id e x₀ a r e' y) (hx : x.IsCustody)
    (hpresent : ∀ x, x.IsCustody → e.duty.Tends id x → x₀ = some x) (hsourced : e.duty.IsSourced)
    (hnew : ∀ r, a = .transact (.putRelay r) → r.id = id → x₀ = none) :
    Passage id x e x₀ a e' y := by
  cases h with
  | rests ha => exact .stays Iff.rfl Iff.rfl fun _ => ha.not_endsCustody
  | elsewhere _ hd hd' =>
    have hnot : ∀ {d : Duty}, d.relay? ≠ some id → ¬ d.Tends id x := fun hd ht => hd ht.relay?_eq
    exact .stays Iff.rfl (by simp [hnot hd, hnot hd']) fun ht => absurd ht (hnot hd)
  | operates asks hop keeps hto =>
    exact .operates hx (hpresent x hx) asks hop keeps hto
  | @misses _ d _ _ _ asks =>
    have ht : ¬ d.Tends id x := fun ht => by cases hpresent x hx ht
    exact .stays Iff.rfl (by simp [ht]) fun h => absurd h ht
  | provisions calls =>
    exact .stays Iff.rfl calls.tends_iff fun _ => Action.not_endsCustody_provision
  | @restores _ d _ s _ hd =>
    -- the state that is given back is none of a custody
    have hs : s ≠ .stopping ∧ s ≠ .destroyed := by
      rcases hd with rfl | rfl
      · rcases hsourced with rfl | rfl | rfl | rfl <;> simp
      · cases hsourced
        simp
    have hy : x₀.map (fun _ => s) ≠ some x := by
      cases x₀ with
      | none => simp
      | some => rcases hx with rfl | rfl <;> simp [hs]
    by_cases ht : d.Tends id x
    · exact .leaves ht hy Duty.not_tends_idle .restores
    · refine .stays ?_ (by simp [ht]) fun h => absurd h ht
      have hx₀ : x₀ ≠ some x := by
        rintro rfl
        rcases hd with rfl | rfl
        · cases hpresent .stopping (.inl rfl) rfl
          exact ht rfl
        · cases hpresent .destroyed (.inr rfl) rfl
          exact ht rfl
      simp [hy, hx₀]
  | removes =>
    have hx₀ := hpresent .destroyed (.inr rfl) rfl
    rcases hx with rfl | rfl
    · exact .stays (by simp [hx₀]) Iff.rfl fun h => by cases h
    · exact .leaves rfl (by simp) Duty.not_tends_idle .deletes
  | issues =>
    have hnot : ∀ {zone : ZoneId}, ¬ Duty.Tends id (.allocating id zone) x := by
      rcases hx with rfl | rfl <;> exact fun h => h
    exact .stays Iff.rfl (by simp [hnot]) fun ht => absurd ht Duty.not_tends_idle
  | stores hid =>
    have hx₀ := hnew _ rfl hid
    have hnot : ∀ {zone : ZoneId}, ¬ Duty.Tends id (.storing id zone) x := by
      rcases hx with rfl | rfl <;> exact fun h => h
    refine .stays ?_ (by simp [hnot]) fun ht => absurd ht hnot
    rcases hx with rfl | rfl <;> simp [hx₀]

end

/-! ## Runs -/

section
variable {ι : Type} {calls : ι → Operation} {h : List (Moment ι Outcome)} {g g₀ : Registry}
  {e : ι → Errand} {s s' : System ι Outcome} {m : Move ι} {e' : Errand} {id : RelayId}
  {x : RelayState}

/-- Who has a relay in custody: exactly the calls that tend it are under way, they find it in their
state, and there is one of them for every relay in such a state, unless it was in it from the
beginning. -/
structure InCustody (calls : ι → Operation) (g₀ : Registry) (h : List (Moment ι Outcome))
    (g : Registry) (e : ι → Errand) (id : RelayId) (x : RelayState) : Prop where
  present : ∀ i, (e i).duty.Tends id x → g.state? id = some x
  unique : ∀ i j, (e i).duty.Tends id x → (e j).duty.Tends id x → i = j
  tended : g.state? id = some x → g₀.state? id ≠ some x → ∃ i, (e i).duty.Tends id x
  /-- Who had brought the relay there before is gone: nobody takes it out of the state. -/
  abandoned : g₀.state? id = some x → g.state? id = some x ∧ ∀ i, ¬ (e i).duty.Tends id x
  underWay_iff : ∀ i, UnderWay calls h i id x ↔ (e i).duty.Tends id x

/-- Everything that is in custody is in that of one call, and what calls are to give back are states
from which they could take it. -/
structure AllInCustody (calls : ι → Operation) (g₀ : Registry) (h : List (Moment ι Outcome))
    (g : Registry) (e : ι → Errand) : Prop where
  inCustody : ∀ id x, x.IsCustody → InCustody calls g₀ h g e id x
  isSourced : ∀ i, (e i).duty.IsSourced

/-- Calls that have not begun have nothing in custody. -/
theorem AllInCustody.start : AllInCustody calls g₀ [] g₀ fun i => ⟨calls i, .idle⟩ := by
  refine ⟨fun id x _ => ⟨by simp, by simp, fun h hne => absurd h hne,
    fun h => ⟨h, by simp⟩, fun i => ?_⟩, fun _ => trivial⟩
  exact ⟨fun hw => absurd hw.2 Since.not_nil, fun ht => absurd ht Duty.not_tends_idle⟩

variable [DecidableEq ι]

/-- Whether a call is under way after one more step. -/
theorem underWay_snoc_iff {i : ι} (hs : RelayFleet.Step s m s') :
    UnderWay calls (h ++ [⟨s, m⟩]) i id x ↔ (calls i).Keeps id x ∧ m.caller = i ∧
        s.registry.state? id ≠ some x ∧ s'.registry.state? id = some x ∨
      UnderWay calls h i id x ∧ ¬ (m.caller = i ∧ m.action.EndsCustody id x) := by
  simp only [UnderWay, Since.snoc_iff, Moment.Brings, Moment.after, Registry.isIn_iff,
    hs.registry_eq]
  tauto

/-- A call takes a relay into custody, ends its custody or leaves it as it is. -/
theorem InCustody.step (inv : InCustody calls g₀ h s.registry e id x)
    (hcall : e'.call = calls m.caller) (hs : RelayFleet.Step s m s')
    (hp : Passage id x (e m.caller) (s.registry.state? id) m.action e' (s'.registry.state? id)) :
    InCustody calls g₀ (h ++ [⟨s, m⟩]) s'.registry (Function.update e m.caller e') id x := by
  cases hp with
  | enters hx hy ht hkeeps =>
    have hothers : ∀ i, i ≠ m.caller → (Function.update e m.caller e' i).duty = (e i).duty :=
      fun i hi => by rw [Function.update_of_ne hi]
    have hcaller : (Function.update e m.caller e' m.caller).duty = e'.duty := by
      rw [Function.update_self]
    have hnone : ∀ i, ¬ (e i).duty.Tends id x := fun i hi => hx (inv.present i hi)
    have honly : ∀ i, (Function.update e m.caller e' i).duty.Tends id x → i = m.caller :=
      fun i hi => by_contra fun hne => hnone i (hothers i hne ▸ hi)
    refine ⟨fun _ _ => hy, fun i j hi hj => (honly i hi).trans (honly j hj).symm,
      fun _ _ => ⟨m.caller, hcaller ▸ ht⟩, fun h => absurd (inv.abandoned h).1 hx, fun i => ?_⟩
    rw [underWay_snoc_iff hs, inv.underWay_iff]
    by_cases hi : i = m.caller
    · subst hi
      simp [ht, hx, hy, hcall ▸ hkeeps]
    · simp [hothers i hi, Ne.symm hi, hnone i]
  | leaves ht hy ht' hends =>
    have honly : ∀ i, (e i).duty.Tends id x → i = m.caller := fun i hi => inv.unique i _ hi ht
    have hnone : ∀ i, ¬ (Function.update e m.caller e' i).duty.Tends id x :=
      (Function.forall_update_iff e fun _ a => ¬ a.duty.Tends id x).mpr
        ⟨ht', fun i hi h => hi (honly i h)⟩
    refine ⟨fun i hi => absurd hi (hnone i), fun i _ hi => absurd hi (hnone i),
      fun h => absurd h hy, fun h => absurd ht ((inv.abandoned h).2 _), fun i => ?_⟩
    rw [underWay_snoc_iff hs, inv.underWay_iff]
    simp only [hy, hnone i, hends, and_true, and_false, false_or, iff_false, not_and, not_not]
    exact fun h => (honly i h).symm
  | stays hxy ht hends =>
    have htends : ∀ i, (Function.update e m.caller e' i).duty.Tends id x ↔ (e i).duty.Tends id x :=
      (Function.forall_update_iff e fun i a => a.duty.Tends id x ↔ (e i).duty.Tends id x).mpr
        ⟨ht, fun _ _ => Iff.rfl⟩
    refine ⟨fun i hi => hxy.mpr (inv.present i ((htends i).mp hi)),
      fun i j hi hj => inv.unique i j ((htends i).mp hi) ((htends j).mp hj), fun h hne => ?_,
      fun h => ?_, fun i => ?_⟩
    · obtain ⟨i, hi⟩ := inv.tended (hxy.mp h) hne
      exact ⟨i, (htends i).mpr hi⟩
    · obtain ⟨hstate, hnobody⟩ := inv.abandoned h
      exact ⟨hxy.mpr hstate, fun i hi => hnobody i ((htends i).mp hi)⟩
    · rw [underWay_snoc_iff hs, inv.underWay_iff, htends i, hxy]
      constructor
      · rintro (⟨-, -, hne, heq⟩ | ⟨h, -⟩)
        · exact absurd heq hne
        · exact h
      · intro h
        refine .inr ⟨h, ?_⟩
        rintro ⟨rfl, hends'⟩
        exact hends h hends'

/-- A step of an errand keeps everything in the custody of one call, where no relay that is stored
replaces one. -/
theorem AllInCustody.step (inv : AllInCustody calls g₀ h s.registry e)
    (hcall : (e m.caller).call = calls m.caller) (hs : RelayFleet.Step s m s')
    (hp : Errand.Step (e m.caller) m.action m.reply e')
    (hturn : ∀ id, Turn id (e m.caller) (s.registry.state? id) m.action m.reply e'
      (s'.registry.state? id))
    (hnew : ∀ r : Relay, m.action = .transact (.putRelay r) → s.registry.state? r.id = none) :
    AllInCustody calls g₀ (h ++ [⟨s, m⟩]) s'.registry (Function.update e m.caller e') := by
  refine ⟨fun id x hx => ?_, ?_⟩
  · refine (inv.inCustody id x hx).step (hp.call_eq.trans hcall) hs ((hturn id).passage hx
      (fun x hx => (inv.inCustody id x hx).present _) (inv.isSourced _) ?_)
    rintro r ha rfl
    exact hnew r ha
  · exact (Function.forall_update_iff e fun _ x => x.duty.IsSourced).mpr
      ⟨hp.isSourced (inv.isSourced _), fun i _ => inv.isSourced i⟩

/-- In a run of errands everything that is in custody is in that of one call. -/
theorem Run.allInCustody (hg : g₀.Sound) (hissued : g₀.Issued) (hcalls : ∀ i, (calls i).IsErrand)
    (run : Run (System.start g₀ fun i => (calls i).program) h s) (hids : IdsLast g₀ h) :
    ∃ e : ι → Errand, AllInCustody calls g₀ h s.registry e ∧ s.registry.Sound ∧
      ∀ i, errands.Follows (e i) (s.calls i) fun e _ => e.duty = .idle := by
  obtain ⟨e, inv, -, hsound, hf⟩ := run.turns (K := IdsLast g₀) (I := AllInCustody calls g₀)
    hg hcalls (fun _ _ => IdsLast.of_snoc) .start
    (fun _ _ _ _ _ _ run hids hcall inv hs hp hturn => inv.step (hcall _) hs hp hturn fun _ ha =>
      run.state?_of_stores hg hissued hids.of_snoc hs ha) hids
  exact ⟨e, inv, hsound, hf⟩

/-- **A relay that is stopping or destroyed is in the custody of one call.** In any run of lifecycle
calls, assignments and reports from a registry without relays, in any order of steps and with any
outcomes of the provisioner, a relay is stopping if and only if there is exactly one stop that has
moved it there and has neither completed it nor given its state back, and destroyed if and only if
there is exactly one destruction that has moved it there and has neither deleted the row nor given
its state back. So whenever a call completes a stop it finds the relay stopping, by its own doing,
and whenever one gives a state back it overwrites the state to which it has moved the relay
itself. -/
theorem Run.custody (hcalls : ∀ i, (calls i).IsErrand)
    (run : Run (System.start .empty fun i => (calls i).program) h s) (hids : IdsLast .empty h)
    (id : RelayId) :
    (∀ x, x = .stopping ∨ x = .destroyed →
      (s.registry.IsIn id x ↔ ∃! i, UnderWay calls h i id x) ∧
      ∀ i, UnderWay calls h i id x → s.registry.IsIn id x) ∧
    ∀ h₁ e h₂, h = h₁ ++ e :: h₂ →
      (e.move.action.Applies .stopCompleted id →
        e.before.registry.IsIn id .stopping ∧ UnderWay calls h₁ e.move.caller id .stopping) ∧
      ∀ y, e.move.action = .transact (.restoring id y) →
        ∃ x, (x = .stopping ∨ x = .destroyed) ∧ e.before.registry.IsIn id x ∧
          UnderWay calls h₁ e.move.caller id x := by
  have hissued : Registry.empty.Issued := fun id hid => absurd (Registry.relay?_empty id) hid
  constructor
  · intro x hx
    obtain ⟨e, hinv, -, -⟩ := run.allInCustody Registry.sound_empty hissued hcalls hids
    have inv := hinv.inCustody id x hx
    have hin : ∀ i, UnderWay calls h i id x → s.registry.IsIn id x := by
      intro i hi
      exact Registry.isIn_iff.mpr (inv.present i ((inv.underWay_iff i).mp hi))
    refine ⟨⟨fun hstate => ?_, fun ⟨i, hi, _⟩ => hin i hi⟩, hin⟩
    obtain ⟨i, hi⟩ := inv.tended (Registry.isIn_iff.mp hstate) (by simp [Registry.state?])
    refine ⟨i, (inv.underWay_iff i).mpr hi, fun j hj => ?_⟩
    exact inv.unique j i ((inv.underWay_iff j).mp hj) hi
  · rintro h₁ m h₂ rfl
    obtain ⟨s', run₁, hs, -⟩ := run.of_append_cons
    have hids₁ : IdsLast .empty h₁ := by
      rw [IdsLast, issuedIn, List.countP_append] at hids
      exact Nat.lt_of_le_of_lt (by rw [issuedIn]; omega) hids
    obtain ⟨e, hinv, hsound, hf⟩ :=
      run₁.allInCustody Registry.sound_empty hissued hcalls hids₁
    obtain ⟨e', hp, -⟩ := (hf m.move.caller).step hs hsound
    have hturn := hp.turn hs.answers hsound id
    have hkept : ∀ x, x.IsCustody → (e m.move.caller).duty.Tends id x →
        m.before.registry.IsIn id x ∧ UnderWay calls h₁ m.move.caller id x := by
      intro x hx ht
      have inv := hinv.inCustody id x hx
      exact ⟨Registry.isIn_iff.mpr (inv.present _ ht), (inv.underWay_iff _).mpr ht⟩
    refine ⟨fun happlies => ?_, fun y hy => ?_⟩
    · refine hkept _ (.inl rfl) ?_
      rw [hturn.of_applies happlies]
      rfl
    · rcases hturn.of_restoring hy with hd | hd
      · exact ⟨.stopping, .inl rfl, hkept _ (.inl rfl) (by rw [hd]; rfl)⟩
      · exact ⟨.destroyed, .inr rfl, hkept _ (.inr rfl) (by rw [hd]; rfl)⟩

end

/-- A relay that boots is stopped: the stop is the one call that has it in custody. -/
theorem Run.custody_stopping :
    ∃ (h : List (Moment (Fin 3) Outcome)) (s : System (Fin 3) Outcome),
      (∀ i, (strandingCalls i).IsErrand) ∧ IdsLast .empty h ∧
      Run (System.start .empty fun i => (strandingCalls i).program) h s ∧
      ∃! i, UnderWay strandingCalls h i (Registry.relayId 1) .stopping := by
  let s₀ : System (Fin 3) Outcome := .start .empty fun i => (strandingCalls i).program
  let r (x : RelayState) : Relay :=
    { Relay.fresh 0 (Registry.relayId 1) "zone-a" none 0 with state := x }
  have herrands : ∀ i, (strandingCalls i).IsErrand
    | 0 => trivial
    | 1 => trivial
    | 2 => trivial
  have hg : ({ Registry.empty with sequence := 1 } : Registry).Sound := Registry.sound_empty
  have created := (((((Run.start : Run s₀ [] s₀).perform
    0 rfl 0 (.ok (Registry.relayId 1)) rfl).perform 0 rfl 0 (.ok ⟨none, 0⟩) trivial).perform
    0 rfl 0 0 rfl).perform 0 rfl 0 (.ok ()) rfl).perform 0 rfl 0 () trivial
  have starting := created.changeRow hg rfl rfl 1 rfl 0 (r .starting) rfl
  have stopping := starting.changeRow hg rfl rfl 2 rfl 0 (r .stopping) rfl
  have hone : Registry.empty.sequence.toNat + 1 < 2 ^ 64 := by decide
  obtain ⟨hstopping, -⟩ := (Run.custody herrands stopping hone (Registry.relayId 1)).1 _ (.inl rfl)
  refine ⟨_, _, herrands, ?_, stopping, hstopping.mp ⟨r .stopping, ?_, rfl⟩⟩
  · exact hone
  · exact Registry.relay?_withRow_self _ _ _

end RelayFleet
