import RelayFleet.Proofs.Interleaving.Alone
import RelayFleet.Proofs.Lifecycle.Asks
import RelayFleet.Proofs.Lifecycle.Effect
import RelayFleet.Proofs.Registry.Keyed

/-!
# What lifecycle operations do when nobody interrupts them

The operations that a scan is made of, from the rows on which a scan calls them: what becomes of the
row, what the operation ends with and what the provisioner is asked for. A boot leads from a stopped
relay to a running one or back (`Booted`), a new relay is stored under the id that was issued for it
(`Created`), and a stopped relay that is destroyed is removed or stays stopped (`Alone.destroy`).
-/

namespace RelayFleet

/-! ## Calls to the provisioner -/

/-- The provisioner fails, or the lock is not to be had. -/
def Action.Fails : (a : Action) → a.Reply → Prop
  | .provision _, .error _ => True
  | .acquire _, .error _ => True
  | _, _ => False

/-- The provisioner fails to start this relay. -/
def Action.FailsStart (id : RelayId) : (a : Action) → a.Reply → Prop
  | .provision (.start k), .error _ => k = id
  | _, _ => False

/-- The call is about a relay of this zone. -/
def ProvisionCall.IsFor (g : Registry) (zone : ZoneId) : ProvisionCall → Prop
  | allocate _ z _ => z = zone
  | c => ∃ r, g.relay? c.relay = some r ∧ r.zoneId = zone

namespace Deed

/-- The provisioner fails, or the lock is not to be had. -/
def Fails (d : Deed) : Prop := d.action.Fails d.reply

/-- The provisioner fails to start this relay. -/
def FailsStart (id : RelayId) (d : Deed) : Prop := d.action.FailsStart id d.reply

/-- If the provisioner is called, it is for this zone. -/
def Serves (zone : ZoneId) (d : Deed) : Prop :=
  ∀ c, d.action = .provision c → c.IsFor d.before zone

/-- A start that fails is a failure. -/
theorem FailsStart.fails {id : RelayId} {d : Deed} (h : d.FailsStart id) : d.Fails := by
  obtain ⟨g, a, time, r⟩ := d
  cases a with
  | provision c =>
    cases c with
    | start =>
      cases r with
      | error e => trivial
      | ok => cases h
    | _ => cases h
  | _ => cases h

end Deed

/-- A transaction is for any zone. -/
theorem serves_transact {g : Registry} {zone : ZoneId} {t : Transaction} {time : Millis}
    {r : StoreResult t.Reply} : Deed.Serves zone ⟨g, .transact t, time, r⟩ :=
  fun _ h => by cases h

/-- What is about a relay is for its zone. -/
theorem Deed.Serves.of_relay {g : Registry} {c : ProvisionCall} {time : Millis} {x : c.Reply}
    {r : Relay} (hc : ∀ id z spec, c ≠ .allocate id z spec) (hr : g.relay? c.relay = some r) :
    Deed.Serves r.zoneId ⟨g, .provision c, time, x⟩ := by
  rintro _ ⟨⟩
  cases c with
  | allocate id z spec => exact absurd rfl (hc id z spec)
  | _ => exact ⟨r, hr, rfl⟩

/-- The provisioner is asked for nothing but resources in this zone. -/
def Action.Allocates (zone : ZoneId) (a : Action) : Prop :=
  ∀ c, a = .provision c → ∃ id spec, c = .allocate id zone spec

/-- A request for resources in a zone is for this zone. -/
theorem Action.Allocates.serves {zone : ZoneId} {d : Deed} (h : d.action.Allocates zone) :
    d.Serves zone := by
  intro c hc
  obtain ⟨id, spec, rfl⟩ := h c hc
  exact rfl

/-- A creation asks the provisioner for resources only. -/
theorem Lifecycle.asks_create_allocates {zone : ZoneId} {spec : LaunchSpec} :
    Asks (Action.Allocates zone) (Lifecycle.create zone spec).run fun _ => True := by
  refine asks_create_of nofun (fun id => ?_) nofun (fun _ _ _ _ => nofun) fun _ => nofun
  rintro _ ⟨⟩
  exact ⟨id, spec, rfl⟩

namespace Lifecycle

variable {choose : Relay → RelayOp} {onMove : RelayState → Relay → Relay} {r : Relay}

/-- The row after an operation that moves it. -/
theorem moved_to {s : RelayState} (legal : nextState r.state (choose r) = .ok (.to s)) :
    moved choose onMove r = onMove r.state { r with state := s } := by
  simp only [moved, legal]

/-- The row after an operation that finds nothing to do. -/
theorem moved_unchanged (legal : nextState r.state (choose r) = .ok .unchanged) :
    moved choose onMove r = r := by
  simp only [moved, legal]

end Lifecycle

/-! ## What becomes of relays -/

/-- What becomes of a relay that is booted: it runs, or the provisioner has failed to start it and
it is stopped. -/
inductive Booted {ε α : Type} (g : Registry) (id : RelayId) (r : Relay) (l : List Deed) :
    Except ε α → Registry → Prop
  | up {x : α} {time : Millis} :
    Booted g id r l (.ok x) (g.withRow id { r with state := .running, updatedAt := time })
  | down {e : ε} {time : Millis} (fails : ∃ d ∈ l, d.FailsStart id) :
    Booted g id r l (.error e) (g.withRow id { r with state := .stopped, updatedAt := time })

/-- What becomes of a relay that is created: it is stored under the id that was issued, or the
provisioner has failed. -/
inductive Created (g : Registry) (zone : ZoneId) (l : List Deed) :
    Except LifecycleError Relay → Registry → Prop
  | stored {r : Relay} (id_eq : r.id = g.nextRelayId.1) (zoneId_eq : r.zoneId = zone)
    (state_eq : r.state = .stopped) : Created g zone l (.ok r) (g.nextRelayId.2.withRow r.id r)
  | refused {e : LifecycleError} (fails : ∃ d ∈ l, d.Fails) :
    Created g zone l (.error e) g.nextRelayId.2

namespace Alone

open Lifecycle

variable {g g' : Registry} {id : RelayId} {r : Relay} {l : List Deed}

/-- An operation that moves the relay under an id. -/
theorem transition {op : RelayOp} {onMove : RelayState → Relay → Relay} {s : RelayState}
    {x : Except LifecycleError Applied} (hr : g.relay? id = some r)
    (hnext : nextState r.state op = .ok (.to s))
    (h : Alone g (Lifecycle.transition id (fun _ => op) onMove).run l x g') :
    ∃ time,
      x = .ok ⟨{ onMove r.state { r with state := s } with updatedAt := time }, r.state, .to s⟩ ∧
      g' = g.withRow id { onMove r.state { r with state := s } with updatedAt := time } ∧
      ∀ zone, ∀ d ∈ l, d.Serves zone := by
  have hrun := fun time => Registry.updateRelay_some hr time (moved (fun _ => op) onMove)
  rw [moved_to hnext] at hrun
  obtain ⟨time, l₂, rfl, h₂⟩ := attempted h hrun
  dsimp only at h₂
  rw [hnext] at h₂
  obtain ⟨rfl, rfl, rfl⟩ := of_pure h₂
  refine ⟨time, rfl, rfl, fun zone d hd => ?_⟩
  obtain rfl := List.mem_singleton.mp hd
  exact serves_transact

/-- A program that applies such an operation goes on from the row that was written. -/
theorem andThen_transition {β : Type} {op : RelayOp} {onMove : RelayState → Relay → Relay}
    {s : RelayState} {f : Applied → LifecycleM β} {x : Except LifecycleError β}
    (hr : g.relay? id = some r) (hnext : nextState r.state op = .ok (.to s))
    (h : Alone g (Lifecycle.transition id (fun _ => op) onMove >>= f).run l x g') :
    ∃ r' l₁ l₂ time, r' = { onMove r.state { r with state := s } with updatedAt := time } ∧
      l = l₁ ++ l₂ ∧ (∀ zone, ∀ d ∈ l₁, d.Serves zone) ∧
      Alone (g.withRow id r') (f ⟨r', r.state, .to s⟩).run l₂ x g' := by
  rcases h.andThen with ⟨e, rfl, h₁⟩ | ⟨l₁, a, g₁, l₂, rfl, h₁, h₂⟩
  · obtain ⟨_, hx, -⟩ := transition hr hnext h₁
    cases hx
  · obtain ⟨time, hx, rfl, hserves⟩ := transition hr hnext h₁
    cases hx
    exact ⟨_, l₁, l₂, time, rfl, rfl, hserves, h₂⟩

/-- An event is announced. -/
theorem emit {β ε : Type} {e : Event} {y : β} {x : Except ε β}
    (h : Alone g ((do Fleet.emit e; return y : ExceptT ε Fleet β)).run l x g') :
    x = .ok y ∧ g' = g ∧ ∀ zone, ∀ d ∈ l, d.Serves zone := by
  obtain ⟨time, r, l₂, -, rfl, hrest⟩ := performed h
  obtain ⟨rfl, rfl, rfl⟩ := of_pure hrest
  refine ⟨rfl, rfl, fun zone d hd => ?_⟩
  obtain rfl := List.mem_singleton.mp hd
  exact fun _ h => by cases h

/-- A boot of a relay that is starting. -/
theorem boot {k : Relay} {x : Except LifecycleError Relay} (hk : k.id = id)
    (hr : g.relay? id = some r) (hstate : r.state = .starting)
    (h : Alone g (Lifecycle.boot k).run l x g') :
    Booted g id r l x g' ∧ ∀ d ∈ l, d.Serves r.zoneId := by
  subst hk
  obtain ⟨time, reply, l', -, rfl, h₁⟩ := performed h
  have hstart : Deed.Serves r.zoneId ⟨g, .provision (.start k.id), time, reply⟩ :=
    .of_relay (by simp) hr
  cases reply with
  | error e =>
    obtain ⟨r', l₁, l₂, t, rfl, rfl, hserves, h₂⟩ :=
      andThen_transition hr (by rw [hstate]; rfl) h₁
    obtain ⟨rfl, rfl, rfl⟩ := of_pure h₂
    rw [List.append_nil]
    exact ⟨.down ⟨_, List.mem_cons_self, rfl⟩, List.forall_mem_cons.mpr ⟨hstart, hserves _⟩⟩
  | ok =>
    obtain ⟨r', l₁, l₂, t, rfl, rfl, hserves, h₂⟩ :=
      andThen_transition hr (by rw [hstate]; rfl) h₁
    obtain ⟨rfl, rfl, hemits⟩ := emit h₂
    exact ⟨.up, List.forall_mem_cons.mpr
      ⟨hstart, List.forall_mem_append.mpr ⟨hserves _, hemits _⟩⟩⟩

/-- A start of a stopped relay. -/
theorem start {x : Except LifecycleError Relay} (hg : g.Keyed) (hr : g.relay? id = some r)
    (hstate : r.state = .stopped) (h : Alone g (Lifecycle.start id).run l x g') :
    Booted g id r l x g' ∧ ∀ d ∈ l, d.Serves r.zoneId := by
  obtain ⟨r', l₁, l₂, t, hr', rfl, hserves, h₂⟩ :=
    andThen_transition hr (by rw [hstate]; rfl) h
  have hid : r'.id = id := (congrArg Relay.id hr').trans (hg id r hr)
  have hstarting : r'.state = .starting := hr' ▸ rfl
  obtain ⟨hbooted, hboots⟩ := boot hid (Registry.relay?_withRow_self g id r')
    hstarting h₂
  subst hr'
  refine ⟨?_, List.forall_mem_append.mpr ⟨hserves _, hboots⟩⟩
  cases hbooted with
  | up =>
    rw [Registry.withRow_withRow]
    exact .up
  | down fails =>
    rw [Registry.withRow_withRow]
    obtain ⟨d, hd, hfails⟩ := fails
    exact .down ⟨d, List.mem_append_right _ hd, hfails⟩

/-- A relay gets its state back. -/
theorem restore {s : RelayState} {x : Except LifecycleError Unit} (hr : g.relay? id = some r)
    (h : Alone g (Lifecycle.restore id s).run l x g') :
    x = .ok () ∧ (∃ time, g' = g.withRow id { r with state := s, updatedAt := time }) ∧
      ∀ zone, ∀ d ∈ l, d.Serves zone := by
  obtain ⟨time, l₂, rfl, h₂⟩ := attempted h fun time => Registry.updateRelay_some hr time _
  obtain ⟨rfl, rfl, rfl⟩ := of_pure h₂
  refine ⟨rfl, ⟨time, rfl⟩, fun zone d hd => ?_⟩
  obtain rfl := List.mem_singleton.mp hd
  exact serves_transact

/-- A destruction of a stopped relay: the row is removed or the relay is stopped again. -/
theorem destroy {x : Except LifecycleError Unit} (hr : g.relay? id = some r)
    (hstate : r.state = .stopped) (h : Alone g (Lifecycle.destroy id).run l x g') :
    (g' = g.withoutRow id ∨
      ∃ time, g' = g.withRow id { r with state := .stopped, updatedAt := time }) ∧
      ∀ d ∈ l, d.Serves r.zoneId := by
  obtain ⟨r', l₁, l₂, t, hr', rfl, hserves, h₂⟩ :=
    andThen_transition hr (by rw [hstate]; rfl) h
  have hzone : r'.zoneId = r.zoneId := hr' ▸ rfl
  have hrow : (g.withRow id r').relay? id = some r' := Registry.relay?_withRow_self g id r'
  obtain ⟨time, reply, l₃, -, rfl, h₃⟩ := performed h₂
  have hcall : Deed.Serves r.zoneId ⟨g.withRow id r', .provision (.destroy id), time, reply⟩ :=
    hzone ▸ .of_relay (by simp) hrow
  have hall : (∀ d ∈ l₃, d.Serves r.zoneId) →
      ∀ d ∈ l₁ ++ ⟨g.withRow id r', .provision (.destroy id), time, reply⟩ :: l₃,
        d.Serves r.zoneId :=
    fun hrest => List.forall_mem_append.mpr
      ⟨hserves _, List.forall_mem_cons.mpr ⟨hcall, hrest⟩⟩
  cases reply with
  | error e =>
    rcases h₃.andThen with ⟨e', rfl, h₄⟩ | ⟨l₄, _, g₄, l₅, rfl, h₄, h₅⟩
    · obtain ⟨hx, -⟩ := restore hrow h₄
      cases hx
    · obtain ⟨rfl, rfl, rfl⟩ := of_pure h₅
      obtain ⟨-, ⟨time', rfl⟩, hrestores⟩ := restore hrow h₄
      rw [List.append_nil] at hall ⊢
      refine ⟨.inr ⟨time', ?_⟩, hall (hrestores _)⟩
      rw [Registry.withRow_withRow, hr', hstate]
  | ok =>
    obtain ⟨time', l₅, rfl, h₅⟩ := attempted h₃ fun _ => rfl
    obtain ⟨rfl, rfl, hemits⟩ := emit (y := ()) h₅
    exact ⟨.inl (g.withoutRow_withRow id r'),
      hall (List.forall_mem_cons.mpr ⟨serves_transact, hemits _⟩)⟩

/-- The creation of a relay. -/
theorem create {zone : ZoneId} {spec : LaunchSpec} {x : Except LifecycleError Relay}
    (h : Alone g (Lifecycle.create zone spec).run l x g') :
    Created g zone l x g' ∧ ∀ d ∈ l, d.Serves zone := by
  refine ⟨?_, fun d hd => ((asks h asks_create_allocates).1 d hd).serves⟩
  obtain ⟨_, l₂, rfl, h₂⟩ := attempted h fun _ => rfl
  obtain ⟨time, reply, l₃, -, rfl, h₃⟩ := performed h₂
  cases reply with
  | error e =>
    obtain ⟨_, _, l₄, -, rfl, h₄⟩ := performed h₃
    obtain ⟨rfl, rfl, rfl⟩ := of_pure h₄
    exact .refused ⟨_, List.mem_cons_of_mem _ List.mem_cons_self, trivial⟩
  | ok a =>
    obtain ⟨time', now, l₄, -, rfl, h₄⟩ := performed h₃
    obtain ⟨_, l₆, rfl, h₆⟩ := attempted h₄ fun _ => rfl
    obtain ⟨rfl, rfl, -⟩ := emit h₆
    exact .stored rfl rfl rfl

end Alone

end RelayFleet
