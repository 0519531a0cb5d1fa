import RelayFleet.Proofs.Event.Ledger
import RelayFleet.Proofs.Lifecycle.Undisturbed

/-!
# Lifecycle calls that fail

A call on a relay that nobody interrupts and that fails leaves the relay as it was, but for the time
of its last change (`Handled`, `GoesThrough.rolls_back`). Most of the way back leads through the
table of transitions: a boot that fails puts the relay down as stopped, which it was. A failed stop
or destruction writes down the state that the call has left. Only a relay whose agent was lost does
not come back: it was fenced before it was booted again, so it is stopped and without sessions.
Rows that cannot be read do not matter, as a call reads no row but the one of its relay.
-/

namespace RelayFleet

/-! ## What calls leave behind -/

/-- The error of a program that has failed. -/
def failureOf {α : Type} : Except LifecycleError α → Option LifecycleError
  | .ok _ => none
  | .error e => some e

/-- The error of a lifecycle call that has failed. -/
def Outcome.failure? : Outcome → Option LifecycleError
  | .relay x => failureOf x
  | .destroyed x => failureOf x
  | _ => none

/-- The relay that a call is about. -/
def Operation.target? : Operation → Option RelayId
  | .start id | .stop id | .destroy id | .reboot id | .agentDisconnected id
  | .migrationStarted id | .migrationCompleted id => some id
  | _ => none

/-- What is left of a row where the provisioner fails. -/
def Operation.fallback : Operation → Relay → Relay
  | .agentDisconnected _, r => { r with state := .stopped, activeSessions := 0 }
  | _, r => r

/-- The provisioner is not called, and nothing is announced. -/
def Action.IsQuiet : Action → Prop
  | .provision _ | .emit _ => False
  | _ => True

/-- What a call on a relay leaves behind, and the error with which it ends if it fails. -/
inductive Handled (id : RelayId) (fallback : Relay → Relay) (g : Registry) (l : List Deed) :
    Option LifecycleError → Registry → Prop
  /-- There is no relay that can be read. -/
  | missing {e : LifecycleError} (he : e = .notFound id ∨ e = .store .undecodable)
    (row : g.relay? id = none) (quiet : ∀ d ∈ l, d.action.IsQuiet) :
    Handled id fallback g l (some e) g
  /-- The operation is not legal in the state of the relay. -/
  | illegal {r : Relay} {e : IllegalTransition} {time : Millis} (row : g.relay? id = some r)
    (quiet : ∀ d ∈ l, d.action.IsQuiet) :
    Handled id fallback g l (some (.illegal e)) (g.withRow id { r with updatedAt := time })
  /-- The provisioner has failed. -/
  | failed {r : Relay} {e : ProvisionError} {time : Millis} (row : g.relay? id = some r) :
    Handled id fallback g l (some (.provisioning id e))
      (g.withRow id { fallback r with updatedAt := time })
  | written {r : Relay} : Handled id fallback g l none (g.withRow id r)
  | removed : Handled id fallback g l none (g.withoutRow id)

/-- Nothing is different but the row under a key. -/
structure Registry.DiffersAt (id : RelayId) (g g' : Registry) : Prop where
  relays : ∀ k, k ≠ id → g'.relays.get? k = g.relays.get? k
  bindings_eq : g'.bindings = g.bindings
  mode_eq : g'.mode = g.mode

/-- A row that is written changes nothing else. -/
theorem Registry.differsAt_withRow (g : Registry) (id : RelayId) (r : Relay) :
    DiffersAt id g (g.withRow id r) where
  relays k hk := (g.relays.get?_insert id k _).trans (if_neg hk)
  bindings_eq := rfl
  mode_eq := rfl

/-- A call changes nothing but the row of its relay. -/
theorem Handled.differsAt {id : RelayId} {fallback : Relay → Relay} {g g' : Registry}
    {l : List Deed} {failure : Option LifecycleError} (h : Handled id fallback g l failure g') :
    Registry.DiffersAt id g g' := by
  cases h with
  | missing => exact ⟨fun _ _ => rfl, rfl, rfl⟩
  | illegal | failed | written => exact g.differsAt_withRow id _
  | removed => exact ⟨fun k hk => (g.relays.get?_erase id k).trans (if_neg hk), rfl, rfl⟩

/-! ## Calls on relays -/

/-- How an operation on a row ends that nobody interrupts. -/
inductive Tried (choose : Relay → RelayOp) (onMove : RelayState → Relay → Relay) (id : RelayId)
    (time : Millis) (g : Registry) : Except LifecycleError Applied → Registry → Prop
  | missing {e : LifecycleError} (he : e = .notFound id ∨ e = .store .undecodable)
    (row : g.relay? id = none) : Tried choose onMove id time g (.error e) g
  | illegal {r : Relay} {e : IllegalTransition} (row : g.relay? id = some r) :
    Tried choose onMove id time g (.error (.illegal e)) (g.withRow id { r with updatedAt := time })
  | applied {r r' : Relay} {t : Transition} (row : g.relay? id = some r)
    (legal : nextState r.state (choose r) = .ok t)
    (eq : r' = { Lifecycle.moved choose onMove r with updatedAt := time }) :
    Tried choose onMove id time g (.ok ⟨r', r.state, t⟩) (g.withRow id r')

namespace Alone

open Lifecycle

variable {g g' : Registry} {id : RelayId} {r : Relay} {l : List Deed} {fallback : Relay → Relay}

/-- An operation on a row. -/
theorem tried {choose : Relay → RelayOp} {onMove : RelayState → Relay → Relay}
    {x : Except LifecycleError Applied}
    (h : Alone g (Lifecycle.transition id choose onMove).run l x g') :
    ∃ time, Tried choose onMove id time g x g' := by
  cases hr : g.relay? id with
  | none =>
    have hfails := fun time => Registry.updateRelay_none hr time (moved choose onMove)
    rcases h.andThen with ⟨e, rfl, h₁⟩ | ⟨l₁, c, g₁, l₂, -, h₁, -⟩
    · obtain ⟨time, hx, -, rfl⟩ := h₁.attempt
      obtain ⟨e', he', hrun⟩ := hfails time
      rw [Transaction.run, hrun] at hx ⊢
      cases hx
      refine ⟨time, .missing ?_ hr⟩
      rcases he' with rfl | rfl
      · exact .inr rfl
      · exact .inl rfl
    · obtain ⟨time, hrun⟩ := h₁.attempt_ok
      obtain ⟨e', -, hrun'⟩ := hfails time
      rw [Transaction.run, hrun'] at hrun
      cases hrun
  | some r =>
    obtain ⟨time, l₂, -, h₂⟩ := attempted h fun time =>
      Registry.updateRelay_some hr time (moved choose onMove)
    dsimp only at h₂
    cases hnext : nextState r.state (choose r) with
    | error e =>
      rw [hnext] at h₂
      obtain ⟨-, rfl, rfl⟩ := of_pure h₂
      simp only [moved, hnext]
      exact ⟨time, .illegal hr⟩
    | ok t =>
      rw [hnext] at h₂
      obtain ⟨-, rfl, rfl⟩ := of_pure h₂
      exact ⟨time, .applied hr hnext rfl⟩

/-- A call that begins with an operation on a row ends there, or goes on from the row that was
written. -/
theorem handled_or {β : Type} {choose : Relay → RelayOp} {onMove : RelayState → Relay → Relay}
    {f : Applied → LifecycleM β} {x : Except LifecycleError β}
    (h : Alone g (Lifecycle.transition id choose onMove >>= f).run l x g') :
    Handled id fallback g l (failureOf x) g' ∨
      ∃ r r' t time l₂, g.relay? id = some r ∧ nextState r.state (choose r) = .ok t ∧
        r' = { moved choose onMove r with updatedAt := time } ∧
        Alone (g.withRow id r') (f ⟨r', r.state, t⟩).run l₂ x g' := by
  rcases h.andThen with ⟨e, rfl, h₁⟩ | ⟨l₁, applied, g₁, l₂, -, h₁, h₂⟩
  · have hquiet := (h₁.asks (asks_transition (A := Action.IsQuiet) trivial)).1
    obtain ⟨time, tried⟩ := h₁.tried
    cases tried with
    | missing he row => exact .inl (.missing he row hquiet)
    | illegal row => exact .inl (.illegal row hquiet)
  · obtain ⟨time, tried⟩ := h₁.tried
    cases tried with
    | applied row legal eq => exact .inr ⟨_, _, _, time, l₂, row, legal, eq, h₂⟩

/-- A boot of a relay that is starting: it runs, or it is stopped and the provisioner has failed. -/
theorem handled_boot {k : Relay} {x : Except LifecycleError Relay} (hk : k.id = id)
    (hr : g.relay? id = some r) (hstate : r.state = .starting)
    (h : Alone g (Lifecycle.boot k).run l x g') :
    (∃ p time, x = .error (.provisioning id p) ∧
        g' = g.withRow id { r with state := .stopped, updatedAt := time }) ∨
      ∃ k' r', x = .ok k' ∧ g' = g.withRow id r' := by
  subst hk
  obtain ⟨_, reply, l', -, -, h₁⟩ := performed h
  cases reply with
  | error e =>
    obtain ⟨r', _, l₂, time, rfl, -, -, h₂⟩ := andThen_transition hr (by rw [hstate]; rfl) h₁
    obtain ⟨-, rfl, rfl⟩ := of_pure h₂
    exact .inl ⟨e, time, rfl, rfl⟩
  | ok =>
    obtain ⟨r', _, l₂, time, -, -, -, h₂⟩ := andThen_transition hr (by rw [hstate]; rfl) h₁
    obtain ⟨rfl, rfl, -⟩ := emit h₂
    exact .inr ⟨_, _, rfl, rfl⟩

/-- A stopped relay that was moved to be booted runs, or it is as before. -/
theorem handled_of_boot {r' : Relay} {time : Millis} {x : Except LifecycleError Relay}
    {l' : List Deed} (hg : g.Keyed) (hr : g.relay? id = some r) (hstate : r.state = .stopped)
    (hr' : r' = { r with state := .starting, updatedAt := time })
    (h : Alone (g.withRow id r') (Lifecycle.boot r').run l' x g') :
    Handled id (fun r => r) g l (failureOf x) g' := by
  have hid : r'.id = id := (congrArg Relay.id hr').trans (hg id r hr)
  rcases handled_boot hid (g.relay?_withRow_self id r') (congrArg Relay.state hr') h with
    ⟨p, time', rfl, rfl⟩ | ⟨k', r'', rfl, rfl⟩
  · have hback : ({ r' with state := .stopped, updatedAt := time' } : Relay) =
        { r with updatedAt := time' } := by rw [hr', ← hstate]
    rw [Registry.withRow_withRow, hback]
    exact .failed (r := r) hr
  · rw [Registry.withRow_withRow]
    exact .written

/-- A start. -/
theorem handled_start {x : Except LifecycleError Relay} (hg : g.Keyed)
    (h : Alone g (Lifecycle.start id).run l x g') :
    Handled id (fun r => r) g l (failureOf x) g' := by
  rcases h.handled_or with h | ⟨r, r', t, time, l₂, hr, legal, hr', h₂⟩
  · exact h
  rcases t with s | _
  · rw [moved_to legal] at hr'
    obtain ⟨hstate, rfl⟩ : r.state = .stopped ∧ s = .starting := by
      cases hstate : r.state <;> rw [hstate] at legal <;> cases legal
      exact ⟨rfl, rfl⟩
    exact handled_of_boot hg hr hstate hr' h₂
  · obtain ⟨-, rfl, rfl⟩ := of_pure h₂
    exact .written

/-- A reboot. -/
theorem handled_reboot {x : Except LifecycleError Relay} (hg : g.Keyed)
    (h : Alone g (Lifecycle.reboot id).run l x g') :
    Handled id (fun r => r) g l (failureOf x) g' := by
  rcases h.handled_or with h | ⟨r, r', t, time, l₂, hr, legal, hr', h₂⟩
  · exact h
  rcases t with s | _
  · rw [moved_to legal] at hr'
    obtain ⟨hstate, rfl⟩ : r.state = .stopped ∧ s = .starting := by
      cases hstate : r.state <;> rw [hstate] at legal <;> cases legal
      exact ⟨rfl, rfl⟩
    exact handled_of_boot hg hr hstate hr' h₂
  · rw [moved_unchanged legal] at hr'
    obtain ⟨_, reply, l₃, -, -, h₃⟩ := performed h₂
    cases reply with
    | error e =>
      obtain ⟨-, rfl, rfl⟩ := of_pure h₃
      rw [hr']
      exact .failed (r := r) hr
    | ok =>
      obtain ⟨rfl, rfl, -⟩ := emit h₃
      exact .written

/-- A relay gets back the state that was left. -/
theorem handled_of_restore {α : Type} {r' : Relay} {s : RelayState} {time : Millis}
    {p : ProvisionError} {x : Except LifecycleError α} {l' : List Deed}
    (hr : g.relay? id = some r) (hr' : r' = { r with state := s, updatedAt := time })
    (h : Alone (g.withRow id r') (do
      Lifecycle.restore id r.state
      throw (LifecycleError.provisioning id p) : LifecycleM α).run l' x g') :
    Handled id (fun r => r) g l (failureOf x) g' := by
  have hrow := g.relay?_withRow_self id r'
  rcases h.andThen with ⟨e, -, h₁⟩ | ⟨l₁, _, g₁, l₂, -, h₁, h₂⟩
  · cases (restore hrow h₁).1
  · obtain ⟨-, ⟨time', rfl⟩, -⟩ := restore hrow h₁
    obtain ⟨-, rfl, rfl⟩ := of_pure h₂
    have hback : ({ r' with state := r.state, updatedAt := time' } : Relay) =
        { r with updatedAt := time' } := by rw [hr']
    rw [Registry.withRow_withRow, hback]
    exact .failed (r := r) hr

/-- A stop. -/
theorem handled_stop {x : Except LifecycleError Relay}
    (h : Alone g (Lifecycle.stop id).run l x g') :
    Handled id (fun r => r) g l (failureOf x) g' := by
  rcases h.handled_or with h | ⟨r, r', t, time, l₂, hr, legal, hr', h₂⟩
  · exact h
  rcases t with s | _
  · rw [moved_to legal] at hr'
    obtain rfl : s = .stopping := by
      cases hstate : r.state <;> rw [hstate] at legal <;> cases legal <;> rfl
    obtain ⟨_, reply, l₃, -, -, h₃⟩ := performed h₂
    cases reply with
    | error e => exact handled_of_restore hr hr' h₃
    | ok =>
      have hstopping : r'.state = .stopping := congrArg Relay.state hr'
      obtain ⟨r'', _, l₄, _, -, -, -, h₄⟩ :=
        andThen_transition (g.relay?_withRow_self id r') (by rw [hstopping]; rfl) h₃
      obtain ⟨-, rfl, rfl⟩ := of_pure h₄
      rw [Registry.withRow_withRow]
      exact .written
  · obtain ⟨-, rfl, rfl⟩ := of_pure h₂
    exact .written

/-- A destruction. -/
theorem handled_destroy {x : Except LifecycleError Unit}
    (h : Alone g (Lifecycle.destroy id).run l x g') :
    Handled id (fun r => r) g l (failureOf x) g' := by
  rcases h.handled_or with h | ⟨r, r', t, time, l₂, hr, legal, hr', h₂⟩
  · exact h
  rcases t with s | _
  · rw [moved_to legal] at hr'
    obtain ⟨_, reply, l₃, -, -, h₃⟩ := performed h₂
    cases reply with
    | error e => exact handled_of_restore hr hr' h₃
    | ok =>
      obtain ⟨_, l₄, -, h₄⟩ := attempted h₃ fun _ => rfl
      obtain ⟨rfl, rfl, -⟩ := emit (y := ()) h₄
      change Handled id _ g l none ((g.withRow id r').withoutRow id)
      rw [Registry.withoutRow_withRow]
      exact .removed
  · obtain ⟨-, rfl, rfl⟩ := of_pure h₂
    exact .written

/-- A relay whose agent is lost. -/
theorem handled_agentDisconnected {x : Except LifecycleError Relay} (hg : g.Keyed)
    (h : Alone g (Lifecycle.agentDisconnected id).run l x g') :
    Handled id (fun r => { r with state := .stopped, activeSessions := 0 }) g l (failureOf x)
      g' := by
  rcases h.handled_or with h | ⟨r, r₁, t, time, l₂, hr, legal, hr₁, h₂⟩
  · exact h
  obtain rfl : t = .to .ha := by
    cases hstate : r.state <;> rw [hstate] at legal <;> cases legal
    rfl
  rw [moved_to legal] at hr₁
  have hha : r₁.state = .ha := congrArg Relay.state hr₁
  obtain ⟨_, _, l₃, -, -, h₃⟩ := performed h₂
  obtain ⟨r₂, _, l₄, _, hr₂, -, -, h₄⟩ :=
    andThen_transition (g.relay?_withRow_self id r₁) (by rw [hha]; rfl) h₃
  have hstopped : r₂.state = .stopped := congrArg Relay.state hr₂
  obtain ⟨r₃, _, l₅, _, hr₃, -, -, h₅⟩ :=
    andThen_transition (Registry.relay?_withRow_self _ id r₂) (by rw [hstopped]; rfl) h₄
  have hid : r₃.id = id := by
    rw [hr₃, hr₂, hr₁]
    exact hg id r hr
  rcases handled_boot hid (Registry.relay?_withRow_self _ id r₃) (congrArg Relay.state hr₃) h₅ with
    ⟨p, time', rfl, rfl⟩ | ⟨k', r', rfl, rfl⟩
  · have hfenced : ({ r₃ with state := .stopped, updatedAt := time' } : Relay) =
        { r with state := .stopped, activeSessions := 0, updatedAt := time' } := by
      rw [hr₃, hr₂, hr₁]
      rfl
    simp only [Registry.withRow_withRow, hfenced]
    exact .failed (r := r) hr
  · simp only [Registry.withRow_withRow]
    exact .written

/-- A call that does no more than to move the row. -/
theorem handled_of_transition {choose : Relay → RelayOp} {onMove : RelayState → Relay → Relay}
    {x : Except LifecycleError Relay}
    (h : Alone g (do return (← Lifecycle.transition id choose onMove).relay : LifecycleM Relay).run
      l x g') :
    Handled id (fun r => r) g l (failureOf x) g' := by
  rcases h.handled_or with h | ⟨r, r', t, time, l₂, hr, legal, hr', h₂⟩
  · exact h
  · obtain ⟨-, rfl, rfl⟩ := of_pure h₂
    exact .written

/-- A creation that fails issues an id and announces that there is no relay for it. -/
theorem create_fails {zone : ZoneId} {spec : LaunchSpec} {e : LifecycleError}
    (h : Alone g (Lifecycle.create zone spec).run l (.error e) g') :
    g' = g.nextRelayId.2 ∧ ∃ p, e = .provisioning g.nextRelayId.1 p ∧
      eventsOf l = [⟨.createFailure, zone, some g.nextRelayId.1,
        "relay allocation failed: " ++ p.message⟩] := by
  obtain ⟨_, l₂, rfl, h₂⟩ := attempted h fun _ => rfl
  obtain ⟨_, reply, l₃, -, rfl, h₃⟩ := performed h₂
  cases reply with
  | error p =>
    obtain ⟨_, _, l₄, -, rfl, h₄⟩ := performed h₃
    obtain ⟨rfl, he, rfl⟩ := of_pure h₄
    cases he
    exact ⟨rfl, p, rfl, rfl⟩
  | ok =>
    obtain ⟨_, _, l₄, -, -, h₄⟩ := performed h₃
    obtain ⟨_, l₅, -, h₅⟩ := attempted h₄ fun _ => rfl
    cases (emit h₅).1

end Alone

/-- A creation writes no row but that of the new relay. -/
theorem Created.differsAt {g g' : Registry} {zone : ZoneId} {l : List Deed}
    {x : Except LifecycleError Relay} (h : Created g zone l x g') :
    Registry.DiffersAt g.nextRelayId.1 g g' := by
  cases h with
  | stored id_eq =>
    rw [id_eq]
    obtain ⟨hrelays, hbindings, hmode⟩ := g.nextRelayId.2.differsAt_withRow g.nextRelayId.1 _
    exact ⟨hrelays, hbindings, hmode⟩
  | refused => exact ⟨fun _ _ => rfl, rfl, rfl⟩

/-- **Lifecycle calls that fail are rolled back.** The relays of a registry that can be read stand
under their ids, other rows may be unreadable, and the provisioner does what it likes. Nobody
interrupts a lifecycle call. If it is one on a relay, it leaves behind what `Handled` says, which
for every error is the row as it was, but for the time of its last change; a relay whose agent was
lost is stopped and without sessions. If it is a creation that fails, an id was issued and the
failure announced, and nothing else. No call changes another row or a binding. -/
theorem GoesThrough.rolls_back {ι : Type} [DecidableEq ι] {i : ι} {s s' : System ι Outcome}
    {h : List (Moment ι Outcome)} {call : Operation} {o : Outcome} (hg : s.registry.Keyed)
    (through : GoesThrough call.program i s h s' o) :
    (∀ id, call.target? = some id →
      Handled id call.fallback s.registry (h.map Moment.deed) o.failure? s'.registry ∧
      Registry.DiffersAt id s.registry s'.registry) ∧
    ∀ zone spec, call = .create zone spec →
      (∀ e, o.failure? = some e → s'.registry = s.registry.nextRelayId.2 ∧
        ∃ p, e = .provisioning s.registry.nextRelayId.1 p ∧
          eventsOf (h.map Moment.deed) = [⟨.createFailure, zone, some s.registry.nextRelayId.1,
            "relay allocation failed: " ++ p.message⟩]) ∧
      Registry.DiffersAt s.registry.nextRelayId.1 s.registry s'.registry := by
  constructor
  · intro id hid
    suffices handled : Handled id call.fallback s.registry (h.map Moment.deed) o.failure?
        s'.registry from ⟨handled, handled.differsAt⟩
    cases call with
    | start =>
      cases hid
      obtain ⟨x, rfl, alone⟩ := through.alone.map
      exact alone.handled_start hg
    | stop =>
      cases hid
      obtain ⟨x, rfl, alone⟩ := through.alone.map
      exact alone.handled_stop
    | destroy =>
      cases hid
      obtain ⟨x, rfl, alone⟩ := through.alone.map
      exact alone.handled_destroy
    | reboot =>
      cases hid
      obtain ⟨x, rfl, alone⟩ := through.alone.map
      exact alone.handled_reboot hg
    | agentDisconnected =>
      cases hid
      obtain ⟨x, rfl, alone⟩ := through.alone.map
      exact alone.handled_agentDisconnected hg
    | migrationStarted =>
      cases hid
      obtain ⟨x, rfl, alone⟩ := through.alone.map
      exact alone.handled_of_transition
    | migrationCompleted =>
      cases hid
      obtain ⟨x, rfl, alone⟩ := through.alone.map
      exact alone.handled_of_transition
    | _ => cases hid
  · rintro zone spec rfl
    obtain ⟨x, rfl, alone⟩ := through.alone.map
    refine ⟨fun e he => ?_, alone.create.1.differsAt⟩
    cases x with
    | ok => cases he
    | error =>
      cases he
      exact alone.create_fails

/-- A stop fails beside a row that cannot be read, and the relay goes on running. -/
theorem GoesThrough.rolls_back_stop :
    let id := Registry.relayId 2
    let call : Operation := .stop id
    let before := Registry.unreadable.withRow id (launchingRelay .running)
    ∃ (h : List (Moment Unit Outcome)) (s' : System Unit Outcome) (time : Millis),
      GoesThrough call.program () (.start before fun _ => call.program) h s'
        (.relay (.error (.provisioning id default))) ∧
      s'.registry = before.withRow id { launchingRelay .running with updatedAt := time } := by
  intro id call before
  let row (s : RelayState) : Registry := Registry.unreadable.withRow id (launchingRelay s)
  have hg : before.Keyed := Registry.keyed_unreadable.withRow rfl
  have stopped : Alone before call.program
      [⟨before, .transact (.updateRelay id (Lifecycle.moved (fun _ => .stop) fun _ r => r)), 0,
        .ok ⟨launchingRelay .running, launchingRelay .stopping⟩⟩,
        ⟨row .stopping, .provision (.stop id), 0, .error default⟩,
        ⟨row .stopping, .transact (.updateRelay id fun r => { r with state := .running }), 0,
        .ok ⟨launchingRelay .stopping, launchingRelay .running⟩⟩]
      (.relay (.error (.provisioning id default))) before :=
    .changeRow rfl (.ask trivial (.changeRow rfl .pure))
  have hwork : Asks Action.IsWork call.program fun _ => True :=
    Lifecycle.upkeep_stop.isWork_of_upkeep.map
  let s₀ : System Unit Outcome := .start before fun _ => call.program
  have hrun : Alone s₀.registry call.program _ _ before := stopped
  have hfits : Fits () s₀.holder _ := stopped.fits_append hwork (show Fits () none [] from trivial)
  obtain ⟨h, s', through, -, -⟩ := hrun.goesThrough rfl hfits
  obtain ⟨handled, -⟩ := (GoesThrough.rolls_back hg through).1 id rfl
  generalize hend : s'.registry = g' at handled
  cases handled with
  | missing he => rcases he with he | he <;> cases he
  | @failed r _ time row =>
    obtain rfl := Option.some.inj ((Registry.relay?_withRow_self ..).symm.trans row)
    exact ⟨h, s', time, through, hend⟩

end RelayFleet
