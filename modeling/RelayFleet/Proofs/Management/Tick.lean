import RelayFleet.Proofs.Management.Drain
import RelayFleet.Proofs.Scan.Pass

/-!
# What a tick does when nobody interrupts it

In both draining modes a tick first stops the running relays one after the other, whatever becomes
of each: one stop is `Alone.stop`, all of them are `Alone.stopAll`, by induction over the relays
that were listed. The two modes part after that (`Alone.tick_suspending`,
`Alone.tick_resetSuspending`).
-/

namespace RelayFleet

/-! ## What the provisioner is asked for -/

/-- A call to the provisioner, and how it ended. -/
abbrev ProvisionCall.Answered : Type := Σ c : ProvisionCall, c.Reply

/-- The call to the provisioner that an action is. -/
def Action.provisioned? : (a : Action) → a.Reply → Option ProvisionCall.Answered
  | .provision c, r => some ⟨c, r⟩
  | _, _ => none

/-- The calls to the provisioner, in their order. -/
def provisionedIn (l : List Deed) : List ProvisionCall.Answered :=
  l.filterMap fun d => d.action.provisioned? d.reply

/-- The calls of two parts follow each other. -/
theorem provisionedIn_append (l₁ l₂ : List Deed) :
    provisionedIn (l₁ ++ l₂) = provisionedIn l₁ ++ provisionedIn l₂ :=
  List.filterMap_append

/-- What is quiet makes no call. -/
theorem provisionedIn_of_isQuiet {l : List Deed} (h : ∀ d ∈ l, d.IsQuiet) :
    provisionedIn l = [] := by
  refine List.filterMap_eq_nil_iff.mpr fun d hd => ?_
  obtain ⟨g, a, time, r⟩ := d
  cases a with
  | provision c => exact absurd rfl (h _ hd c)
  | _ => rfl

/-- A call comes before those that follow it. -/
theorem provisionedIn_cons {g : Registry} {c : ProvisionCall} {time : Millis} {r : c.Reply}
    {l : List Deed} :
    provisionedIn (⟨g, .provision c, time, r⟩ :: l) = ⟨c, r⟩ :: provisionedIn l :=
  rfl

/-- What is for every zone makes no call. -/
theorem Deed.isQuiet_of_serves {d : Deed} (h : ∀ zone, d.Serves zone) : d.IsQuiet := by
  intro c hc
  exact absurd ((h "zone-a" c hc).unique (h "zone-b" c hc)) (by decide)

/-! ## Stops -/

/-- The row of a running relay after a stop that ended like this. -/
def Relay.afterStop (r : Relay) (outcome : Except ProvisionError Unit) (time : Millis) : Relay :=
  match outcome with
  | .ok () => { r with state := .stopped, activeSessions := 0, updatedAt := time }
  | .error _ => { r with updatedAt := time }

/-- The call stops this relay, and its row is as the call has ended. -/
def Registry.HasStopped (g : Registry) (r : Relay) (call : ProvisionCall.Answered) : Prop :=
  ∃ outcome time, call = ⟨.stop r.id, outcome⟩ ∧ g.relay? r.id = some (r.afterStop outcome time)

/-- These relays are stopped, one after the other. -/
structure StopsAll (relays : List Relay) (g : Registry) (calls : List ProvisionCall.Answered)
    (g' : Registry) : Prop where
  rows : List.Forall₂ g'.HasStopped relays calls
  others : ∀ k, k ∉ relays.map (·.id) → g'.relays.get? k = g.relays.get? k
  bindings_eq : g'.bindings = g.bindings
  mode_eq : g'.mode = g.mode
  sequence_eq : g'.sequence = g.sequence
  sound : g.Sound → g'.Sound

namespace StopsAll

variable {g g' : Registry} {r : Relay} {relays : List Relay} {calls : List ProvisionCall.Answered}
  {outcome : Except ProvisionError Unit} {time : Millis}

/-- Where no relay is stopped nothing changes. -/
theorem nil (g : Registry) : StopsAll [] g [] g :=
  ⟨.nil, fun _ _ => rfl, rfl, rfl, rfl, fun hg => hg⟩

/-- One relay is stopped before the others. -/
theorem cons (hr : r.id ∉ relays.map (·.id))
    (h : StopsAll relays (g.withRow r.id (r.afterStop outcome time)) calls g') :
    StopsAll (r :: relays) g (⟨.stop r.id, outcome⟩ :: calls) g' where
  rows := by
    refine .cons ⟨outcome, time, rfl, ?_⟩ h.rows
    rw [Registry.relay?, h.others r.id hr]
    exact Registry.relay?_withRow_self ..
  others k hk := by
    obtain ⟨hne, hk⟩ := not_or.mp (mt List.mem_cons.mpr hk)
    exact (h.others k hk).trans ((g.relays.get?_insert r.id k _).trans (if_neg hne))
  bindings_eq := h.bindings_eq
  mode_eq := h.mode_eq
  sequence_eq := h.sequence_eq
  sound hg := by
    refine h.sound (hg.withRow ?_)
    cases outcome <;> rfl

end StopsAll

namespace Alone

variable {g g' : Registry} {id : RelayId} {r : Relay} {l : List Deed}

/-- A program that begins with an operation on a row makes the calls of its rest. -/
theorem goesOn_transition {β : Type} {op : RelayOp} {onMove : RelayState → Relay → Relay}
    {s : RelayState} {f : Applied → LifecycleM β} {x : Except LifecycleError β}
    (hr : g.relay? id = some r) (hnext : nextState r.state op = .ok (.to s))
    (h : Alone g (Lifecycle.transition id (fun _ => op) onMove >>= f).run l x g') :
    ∃ r' l' time, r' = { onMove r.state { r with state := s } with updatedAt := time } ∧
      provisionedIn l = provisionedIn l' ∧
      Alone (g.withRow id r') (f ⟨r', r.state, .to s⟩).run l' x g' := by
  obtain ⟨r', l₁, l₂, time, hr', rfl, hserves, h₂⟩ := andThen_transition hr hnext h
  have hquiet : ∀ d ∈ l₁, d.IsQuiet := fun d hd =>
    Deed.isQuiet_of_serves fun zone => hserves zone d hd
  refine ⟨r', l₂, time, hr', ?_, h₂⟩
  rw [provisionedIn_append, provisionedIn_of_isQuiet hquiet, List.nil_append]

/-- A stop of a running relay: the provisioner is called once, and the row is as the call has
ended. -/
theorem stop {x : Except LifecycleError Relay} (hr : g.relay? id = some r)
    (hstate : r.state = .running) (h : Alone g (Lifecycle.stop id).run l x g') :
    ∃ outcome time, provisionedIn l = [⟨.stop id, outcome⟩] ∧
      g' = g.withRow id (r.afterStop outcome time) := by
  obtain ⟨r', l₁, time, hr', hcalls, h₁⟩ := goesOn_transition hr (by rw [hstate]; rfl) h
  have hrow : (g.withRow id r').relay? id = some r' := g.relay?_withRow_self id r'
  have hstopping : r'.state = .stopping := congrArg Relay.state hr'
  obtain ⟨clock, outcome, l₂, -, rfl, h₂⟩ := performed h₁
  rw [hcalls, provisionedIn_cons]
  cases outcome with
  | error e =>
    rcases h₂.andThen with ⟨e', rfl, h₃⟩ | ⟨l₃, _, g₃, l₄, rfl, h₃, h₄⟩
    · obtain ⟨hx, -⟩ := restore hrow h₃
      cases hx
    · obtain ⟨rfl, rfl, rfl⟩ := of_pure h₄
      obtain ⟨-, ⟨time', rfl⟩, hserves⟩ := restore hrow h₃
      have hquiet : ∀ d ∈ l₃, d.IsQuiet := fun d hd =>
        Deed.isQuiet_of_serves fun zone => hserves zone d hd
      refine ⟨.error e, time', ?_, ?_⟩
      · rw [List.append_nil, provisionedIn_of_isQuiet hquiet]
      · rw [Registry.withRow_withRow, hr']
        rfl
  | ok =>
    obtain ⟨r'', l₃, time', hr'', hrest, h₃⟩ :=
      goesOn_transition hrow (by rw [hstopping]; rfl) h₂
    obtain ⟨rfl, rfl, rfl⟩ := of_pure h₃
    refine ⟨.ok (), time', by rw [hrest]; rfl, ?_⟩
    rw [Registry.withRow_withRow, hr'', hr']
    rfl

/-- All relays that were listed as running are stopped. -/
theorem stopAll {relays : List Relay} {x : Unit} (hnodup : (relays.map (·.id)).Nodup)
    (hrows : ∀ r ∈ relays, g.relay? r.id = some r ∧ r.state = .running)
    (h : Alone g (Management.stopAll relays) l x g') : StopsAll relays g (provisionedIn l) g' := by
  induction relays generalizing g l with
  | nil =>
    obtain ⟨rfl, -, rfl⟩ := of_pure h
    exact .nil g'
  | cons r relays ih =>
    obtain ⟨⟨hr, hstate⟩, hrest⟩ := List.forall_mem_cons.mp hrows
    obtain ⟨hnot, hnodup⟩ := List.nodup_cons.mp hnodup
    change Alone g ((do let _ ← (Lifecycle.stop r.id).run) >>= fun _ =>
      Management.stopAll relays) l x g' at h
    obtain ⟨l₁, _, g₁, l₂, rfl, h₁, h₂⟩ := h.bind
    obtain ⟨l₃, y, g₃, l₄, rfl, h₃, h₄⟩ := h₁.bind
    obtain ⟨rfl, -, rfl⟩ := of_pure h₄
    obtain ⟨outcome, time, hcalls, rfl⟩ := stop hr hstate h₃
    rw [List.append_nil, provisionedIn_append, hcalls]
    refine .cons hnot (ih hnodup (fun k hk => ?_) h₂)
    have hne : k.id ≠ r.id := fun heq => hnot (List.mem_map.mpr ⟨k, hk, heq⟩)
    rw [Registry.relay?_withRow, if_neg hne]
    exact hrest k hk

/-- The running relays are stopped in the order of their ids. -/
theorem stopRunning {x : StoreResult Unit} (hg : g.Sound)
    (h : Alone g Management.stopRunning.run l x g') :
    x = .ok () ∧ StopsAll (g.rows.filter (·.state = .running)) g (provisionedIn l) g' := by
  obtain ⟨l₁, l₂, rfl, hlists, h₁⟩ := listed hg h
  obtain ⟨_, rfl, h₂⟩ := h₁.map
  have hrunning : ∀ r ∈ g.rows.filter (·.state = .running),
      g.relay? r.id = some r ∧ r.state = .running := by
    intro r hr
    obtain ⟨hmem, hstate⟩ := List.mem_filter.mp hr
    exact ⟨hg.mem_rows.mp hmem, of_decide_eq_true hstate⟩
  have hnodup : ((g.rows.filter (·.state = .running)).map (·.id)).Nodup :=
    (List.pairwise_map.mpr (hg.pairwise_rows.filter _)).imp String.ne_of_lt
  rw [provisionedIn_append, provisionedIn_of_isQuiet fun d hd => (hlists d hd).isQuiet,
    List.nil_append]
  exact ⟨rfl, stopAll hnodup hrunning h₂⟩

end Alone

/-! ## Ticks -/

/-- No relay is running, starting or stopping. -/
def Registry.AtRest (g : Registry) : Prop :=
  ∀ id r, g.relay? id = some r → r.state ≠ .running ∧ r.state ≠ .starting ∧ r.state ≠ .stopping

/-- The running relays are stopped, and nothing else is touched but the mode. -/
structure Registry.Drained (g : Registry) (calls : List ProvisionCall.Answered) (g' : Registry) :
    Prop where
  /-- The provisioner stops each running relay once, in the order of the ids, and is called for
  nothing else; the row of each is as its stop has ended. -/
  stops : ∃ running : List Relay,
    (∀ r, r ∈ running ↔ g.relay? r.id = some r ∧ r.state = .running) ∧
    (running.Pairwise fun a b => a.id < b.id) ∧ List.Forall₂ g'.HasStopped running calls
  /-- Every other row is left as it is. -/
  others : ∀ k, (∀ r, g.relay? k = some r → r.state ≠ .running) →
    g'.relays.get? k = g.relays.get? k
  bindings_eq : g'.bindings = g.bindings
  sequence_eq : g'.sequence = g.sequence

/-- Where the running relays were stopped and the mode was put down after that. -/
theorem StopsAll.drained {g g₁ : Registry} {calls : List ProvisionCall.Answered} (hg : g.Sound)
    (h : StopsAll (g.rows.filter (·.state = .running)) g calls g₁) (mode : Option String) :
    g.Drained calls { g₁ with mode := mode } where
  stops := by
    refine ⟨_, fun r => ?_, hg.pairwise_rows.filter _, h.rows⟩
    rw [List.mem_filter, hg.mem_rows, decide_eq_true_eq]
  others k hk := by
    refine h.others k fun hmem => ?_
    obtain ⟨r, hr, rfl⟩ := List.mem_map.mp hmem
    obtain ⟨hrow, hstate⟩ := List.mem_filter.mp hr
    exact hk r (hg.mem_rows.mp hrow) (of_decide_eq_true hstate)
  bindings_eq := h.bindings_eq
  sequence_eq := h.sequence_eq

/-- Relays that keep a drain from ending are those that are not at rest. -/
theorem Registry.Sound.filter_keepsDraining_isEmpty {g : Registry} (hg : g.Sound) :
    (g.rows.filter (·.state.keepsDraining)).isEmpty = true ↔ g.AtRest := by
  have hstate : ∀ s : RelayState,
      ¬ s.keepsDraining = true ↔ s ≠ .running ∧ s ≠ .starting ∧ s ≠ .stopping := by
    intro s
    simp [RelayState.keepsDraining]
  rw [List.isEmpty_iff, List.filter_eq_nil_iff]
  constructor
  · intro h id r hr
    have hid := hg.id_eq hr
    exact (hstate _).mp (h r (hg.mem_rows.mpr (hid.symm ▸ hr)))
  · exact fun h r hr => (hstate _).mpr (h r.id r (hg.mem_rows.mp hr))

/-- A resume goes to a mode that is no drain. -/
theorem ModeRecord.resumeTarget_eq (m : ModeRecord) :
    m.resumeTarget = .auto ∨ m.resumeTarget = .manual := by
  have hrest := m.not_isDraining_resumeTarget
  cases htarget : m.resumeTarget <;> simp [htarget, Mode.isDraining] at hrest ⊢

namespace Alone

variable {g g' : Registry} {m : ModeRecord} {l : List Deed} {x : StoreResult Mode}

/-- A tick in `suspending` goes on to `resetSuspending`. -/
theorem tick_suspending (hg : g.Sound) (hmode : g.getMode = .ok m)
    (hcurrent : m.current = .suspending) (h : Alone g Management.tick.run l x g') :
    g.Drained (provisionedIn l) g' ∧ x = .ok .resetSuspending ∧
      g'.getMode = .ok { m with current := .resetSuspending } := by
  obtain ⟨time, l₁, rfl, h₁⟩ := attempted h fun _ => congrArg (·, g) hmode
  simp only [hcurrent] at h₁
  rcases h₁.andThen with ⟨e, rfl, h₂⟩ | ⟨l₂, _, g₂, l₃, rfl, h₂, h₃⟩
  · cases (stopRunning hg h₂).1
  · obtain ⟨-, hstops⟩ := stopRunning hg h₂
    obtain ⟨time', l₄, rfl, h₄⟩ := attempted h₃ fun _ => rfl
    obtain ⟨rfl, rfl, rfl⟩ := of_pure h₄
    have hcalls : provisionedIn (⟨g, .transact .getMode, time, .ok m⟩ :: (l₂ ++
        [⟨g₂, .transact (.putMode { m with current := .resetSuspending }), time', .ok ()⟩])) =
        provisionedIn l₂ := (provisionedIn_append ..).trans (List.append_nil _)
    refine ⟨?_, rfl, Registry.getMode_putMode ..⟩
    exact hcalls ▸ hstops.drained hg _

/-- A resume in a drain puts down the mode that it goes back to. -/
theorem resume {y : StoreResult ModeRecord} (hmode : g.getMode = .ok m)
    (hdrain : m.current.isDraining) (h : Alone g Management.resume.run l y g') :
    y = .ok { m with current := m.resumeTarget } ∧
      g' = g.putMode { m with current := m.resumeTarget } ∧ ∀ d ∈ l, d.IsQuiet := by
  have hne : m.current ≠ m.resumeTarget := fun heq =>
    m.not_isDraining_resumeTarget (heq ▸ hdrain)
  obtain ⟨time, l₁, rfl, h₁⟩ := attempted h fun _ => congrArg (·, g) hmode
  rw [if_neg hne] at h₁
  obtain ⟨time', l₂, rfl, h₂⟩ := attempted h₁ fun _ => rfl
  obtain ⟨rfl, rfl, rfl⟩ := of_pure h₂
  refine ⟨rfl, rfl, fun d hd c hc => ?_⟩
  rcases List.mem_cons.mp hd with rfl | hd
  · cases hc
  · obtain rfl := List.mem_singleton.mp hd
    cases hc

/-- A tick in `resetSuspending` goes back to the mode before if all relays are at rest then. -/
theorem tick_resetSuspending (hg : g.Sound) (hmode : g.getMode = .ok m)
    (hcurrent : m.current = .resetSuspending) (h : Alone g Management.tick.run l x g') :
    g.Drained (provisionedIn l) g' ∧
      (g'.AtRest → x = .ok m.resumeTarget ∧
        g'.getMode = .ok { m with current := m.resumeTarget }) ∧
      (¬ g'.AtRest → x = .ok .resetSuspending ∧ g'.mode = g.mode) := by
  obtain ⟨time, l₁, rfl, h₁⟩ := attempted h fun _ => congrArg (·, g) hmode
  simp only [hcurrent] at h₁
  rcases h₁.andThen with ⟨e, rfl, h₂⟩ | ⟨l₂, _, g₂, l₃, rfl, h₂, h₃⟩
  · cases (stopRunning hg h₂).1
  obtain ⟨-, hstops⟩ := stopRunning hg h₂
  have hmode₂ : g₂.getMode = .ok m := by
    rw [Registry.getMode, hstops.mode_eq]
    exact hmode
  obtain ⟨l₄, l₅, rfl, hlists, h₄⟩ := listed (hstops.sound hg) h₃
  have hquiet : ∀ {l₅ : List Deed}, (∀ d ∈ l₅, d.IsQuiet) →
      provisionedIn (⟨g, .transact .getMode, time, .ok m⟩ :: (l₂ ++ (l₄ ++ l₅))) =
        provisionedIn l₂ := by
    intro l₅ hl₅
    have hrest := List.forall_mem_append.mpr ⟨fun d hd => (hlists d hd).isQuiet, hl₅⟩
    refine (provisionedIn_append l₂ _).trans ?_
    rw [provisionedIn_of_isQuiet hrest, List.append_nil]
  split at h₄
  · next hempty =>
    have hrest := (hstops.sound hg).filter_keepsDraining_isEmpty.mp hempty
    rcases h₄.andThen with ⟨e, rfl, h₅⟩ | ⟨l₆, r, g₆, l₇, rfl, h₅, h₆⟩
    · cases (resume hmode₂ (by rw [hcurrent]; rfl) h₅).1
    · obtain ⟨hr, rfl, hquiets⟩ := resume hmode₂ (by rw [hcurrent]; rfl) h₅
      obtain ⟨rfl, rfl, rfl⟩ := of_pure h₆
      cases hr
      rw [hquiet (by simpa using hquiets)]
      exact ⟨hstops.drained hg _, fun _ => ⟨rfl, Registry.getMode_putMode ..⟩,
        fun hnot => absurd hrest hnot⟩
  · next hleft =>
    obtain ⟨rfl, rfl, rfl⟩ := of_pure h₄
    rw [hquiet (List.forall_mem_nil _)]
    exact ⟨hstops.drained hg _,
      fun hrest => absurd ((hstops.sound hg).filter_keepsDraining_isEmpty.mpr hrest) hleft,
      fun _ => ⟨rfl, hstops.mode_eq⟩⟩

end Alone

/-- **A tick does exactly a drain.** Take a registry of which every row decodes and stands under the
id of its relay, with any mode, and a tick that nobody interrupts. In a draining mode it stops the
relays that were running, in the order of their ids and each once, and calls the provisioner for
nothing else: a relay whose stop succeeds is stopped and has no sessions, one whose stop fails is as
before but for the time of its change, and every other row and all bindings are left. From
`suspending` the mode always goes on to `resetSuspending`; from there it is left exactly if then no
relay is running, starting or stopping, for `auto` or `manual`. In these two a tick changes
nothing. -/
theorem GoesThrough.tick_drains {ι : Type} [DecidableEq ι] {i : ι} {s s' : System ι Outcome}
    {h : List (Moment ι Outcome)} {x : Outcome} {m : ModeRecord} (hg : s.registry.Sound)
    (hmode : s.registry.getMode = .ok m)
    (through : GoesThrough Operation.tick.program i s h s' x) :
    let calls := provisionedIn (h.map Moment.deed)
    (m.current.isDraining → s.registry.Drained calls s'.registry) ∧
    (m.current = .suspending → x = .ticked (.ok .resetSuspending) ∧
      s'.registry.getMode = .ok { m with current := .resetSuspending }) ∧
    (m.current = .resetSuspending → ∃ m', x = .ticked (.ok m'.current) ∧
      s'.registry.getMode = .ok m' ∧ m'.previous = m.previous ∧
      (m'.current ≠ .resetSuspending ↔ s'.registry.AtRest) ∧
      (m'.current ≠ .resetSuspending →
        m'.current = m.resumeTarget ∧ (m'.current = .auto ∨ m'.current = .manual))) ∧
    (¬ m.current.isDraining →
      x = .ticked (.ok m.current) ∧ calls = [] ∧ s'.registry = s.registry) := by
  intro calls
  obtain ⟨y, rfl, halone⟩ := through.alone.map
  refine ⟨fun hdrain => ?_, fun hcurrent => ?_, fun hcurrent => ?_, fun hrest => ?_⟩
  · cases hcurrent : m.current with
    | suspending => exact (halone.tick_suspending hg hmode hcurrent).1
    | resetSuspending => exact (halone.tick_resetSuspending hg hmode hcurrent).1
    | auto | manual =>
      rw [hcurrent] at hdrain
      cases hdrain
  · obtain ⟨-, rfl, hmode'⟩ := halone.tick_suspending hg hmode hcurrent
    exact ⟨rfl, hmode'⟩
  · obtain ⟨-, hends, hgoes⟩ := halone.tick_resetSuspending hg hmode hcurrent
    by_cases hrest : s'.registry.AtRest
    · obtain ⟨rfl, hmode'⟩ := hends hrest
      have hne : m.resumeTarget ≠ .resetSuspending := by
        rcases m.resumeTarget_eq with htarget | htarget <;> simp [htarget]
      exact ⟨_, rfl, hmode', rfl, iff_of_true hne hrest, fun _ => ⟨rfl, m.resumeTarget_eq⟩⟩
    · obtain ⟨rfl, hsame⟩ := hgoes hrest
      have hmode' : s'.registry.getMode = .ok m := by
        rw [Registry.getMode, hsame]
        exact hmode
      refine ⟨m, by rw [hcurrent], hmode', rfl, iff_of_false (fun hne => hne hcurrent) hrest,
        fun hne => absurd hcurrent hne⟩
  · obtain ⟨rfl, hsame, hquiet⟩ := halone.tick hmode hrest
    exact ⟨rfl, provisionedIn_of_isQuiet hquiet, hsame⟩

/-! ## A drain that takes two ticks -/

/-- A relay of a fleet that is drained. -/
def drainingRelay (id : RelayId) (x : RelayState) (sessions : UInt32) : Relay :=
  { Relay.fresh 0 id "zone-a" none 0 with state := x, activeSessions := sessions }

/-- Two relays and one that migrates, in a fleet that goes back to `manual` when it is drained. -/
def drainingRegistry (m : Mode) (r₁ r₂ : Relay) : Registry :=
  (((Registry.empty.putMode ⟨m, .manual⟩).withRow "relay-3"
    (drainingRelay "relay-3" .migrating 1)).withRow "relay-2" r₂).withRow "relay-1" r₁

section
variable (m : Mode) (r₁ r₂ : Relay)

/-- Either of the two relays may have been written last. -/
theorem drainingRegistry_eq : drainingRegistry m r₁ r₂ =
    (((Registry.empty.putMode ⟨m, .manual⟩).withRow "relay-3"
      (drainingRelay "relay-3" .migrating 1)).withRow "relay-1" r₁).withRow "relay-2" r₂ :=
  Registry.withRow_comm (by decide) ..

/-- The mode is read back. -/
theorem getMode_drainingRegistry : (drainingRegistry m r₁ r₂).getMode = .ok ⟨m, .manual⟩ :=
  Registry.getMode_putMode .empty _

/-- The mode is changed apart from the relays. -/
theorem putMode_drainingRegistry (m' : Mode) :
    (drainingRegistry m r₁ r₂).putMode ⟨m', .manual⟩ = drainingRegistry m' r₁ r₂ := by
  simp only [drainingRegistry, Registry.putMode_withRow, Registry.putMode_putMode]

/-- A tick reads the mode. -/
theorem run_getMode_drainingRegistry (time : Millis) :
    (Transaction.run time (drainingRegistry m r₁ r₂) .getMode).1 = .ok ⟨m, .manual⟩ := by
  rw [Transaction.run, getMode_drainingRegistry]

/-- The relays stand under their ids. -/
theorem sound_drainingRegistry (h₁ : r₁.id = "relay-1") (h₂ : r₂.id = "relay-2") :
    (drainingRegistry m r₁ r₂).Sound :=
  Registry.Sound.withRow (Registry.Sound.withRow
    (Registry.Sound.withRow (Registry.sound_empty.congr rfl) rfl) h₂) h₁

/-- A listing of the three relays. -/
theorem listRelays_drainingRegistry (h₁ : r₁.id = "relay-1") (h₂ : r₂.id = "relay-2")
    (keep : Relay → Bool) : (drainingRegistry m r₁ r₂).listRelays keep =
      .ok ([r₁, r₂, drainingRelay "relay-3" .migrating 1].filter keep) := by
  have hrows : (drainingRegistry m r₁ r₂).rows =
      [r₁, r₂, drainingRelay "relay-3" .migrating 1] := by
    change List.filterMap _ [_, _, _] = _
    simp [Registry.run?_of_decodeRow (decodeRow_encode _)]
  rw [(sound_drainingRegistry m r₁ r₂ h₁ h₂).listRelays, hrows]

end

/-- The first tick stops one of two running relays, and fails to stop the other one. -/
theorem GoesThrough.suspending_draining :
    ∃ (h : List (Moment Unit Outcome)) (s : System Unit Outcome),
      GoesThrough Operation.tick.program ()
        (.start (drainingRegistry .suspending (drainingRelay "relay-1" .running 2)
          (drainingRelay "relay-2" .running 1)) fun _ => Operation.tick.program) h s
        (.ticked (.ok .resetSuspending)) ∧
      s.registry = drainingRegistry .resetSuspending (drainingRelay "relay-1" .running 2)
        (drainingRelay "relay-2" .stopped 0) ∧
      provisionedIn (h.map Moment.deed) =
        [⟨.stop "relay-1", .error ⟨.stop, "no answer"⟩⟩, ⟨.stop "relay-2", .ok ()⟩] := by
  let r₁ := drainingRelay "relay-1"
  let r₂ := drainingRelay "relay-2"
  let g := (Registry.empty.putMode ⟨.suspending, .manual⟩).withRow "relay-3"
    (drainingRelay "relay-3" .migrating 1)
  have hg : g.Sound := Registry.Sound.withRow (Registry.sound_empty.congr rfl) rfl
  have hg₁ : (g.withRow "relay-1" (r₁ .running 2)).Sound := hg.withRow rfl
  have hg₂ : (g.withRow "relay-2" (r₂ .running 1)).Sound := hg.withRow rfl
  let s₀ : System Unit Outcome :=
    .start (drainingRegistry .suspending (r₁ .running 2) (r₂ .running 1)) fun _ =>
      Operation.tick.program
  have listed := ((Run.start : Run s₀ [] s₀).perform
    () rfl 0 (.ok ⟨.suspending, .manual⟩) (run_getMode_drainingRegistry ..).symm).perform
    () rfl 0 (.ok _) (listRelays_drainingRegistry _ _ _ rfl rfl _).symm
  have kept := ((listed.changeRow hg₂ rfl rfl () rfl 0 (r₁ .stopping 2) rfl).perform
    () rfl 0 (.error ⟨.stop, "no answer"⟩) trivial).changeRow hg₂ rfl rfl
    () rfl 0 (r₁ .running 2) rfl
  have stopped := ((kept.changeRow hg₁ (drainingRegistry_eq ..) rfl
    () rfl 0 (r₂ .stopping 1) rfl).perform
    () rfl 0 (.ok ()) trivial).changeRow hg₁ rfl rfl () rfl 0 (r₂ .stopped 0) rfl
  refine ⟨_, _, ⟨stopped.perform () rfl 0 (.ok ()) rfl, rfl, fun _ _ => rfl, rfl⟩, ?_, rfl⟩
  have hswap := (drainingRegistry_eq .suspending (r₁ .running 2) (r₂ .stopped 0)).symm
  exact (congrArg (Registry.putMode · _) hswap).trans (putMode_drainingRegistry ..)

/-- The second tick stops the relay that is left, and the drain is over. -/
theorem GoesThrough.resetSuspending_draining :
    ∃ (h : List (Moment Unit Outcome)) (s : System Unit Outcome),
      GoesThrough Operation.tick.program ()
        (.start (drainingRegistry .resetSuspending (drainingRelay "relay-1" .running 2)
          (drainingRelay "relay-2" .stopped 0)) fun _ => Operation.tick.program) h s
        (.ticked (.ok .manual)) ∧
      provisionedIn (h.map Moment.deed) = [⟨.stop "relay-1", .ok ()⟩] := by
  let r₁ := drainingRelay "relay-1"
  let r₂ := drainingRelay "relay-2" .stopped 0
  let g := ((Registry.empty.putMode ⟨.resetSuspending, .manual⟩).withRow "relay-3"
    (drainingRelay "relay-3" .migrating 1)).withRow "relay-2" r₂
  have hg : g.Sound := Registry.Sound.withRow
    (Registry.Sound.withRow (Registry.sound_empty.congr rfl) rfl) rfl
  let s₀ : System Unit Outcome :=
    .start (drainingRegistry .resetSuspending (r₁ .running 2) r₂) fun _ => Operation.tick.program
  have listed := ((Run.start : Run s₀ [] s₀).perform
    () rfl 0 (.ok ⟨.resetSuspending, .manual⟩) (run_getMode_drainingRegistry ..).symm).perform
    () rfl 0 (.ok _) (listRelays_drainingRegistry _ _ _ rfl rfl _).symm
  have stopped := ((listed.changeRow hg rfl rfl () rfl 0 (r₁ .stopping 2) rfl).perform
    () rfl 0 (.ok ()) trivial).changeRow hg rfl rfl () rfl 0 (r₁ .stopped 0) rfl
  have hnone : .ok [] = (g.withRow "relay-1" (r₁ .stopped 0)).listRelays
      fun r => r.state.keepsDraining :=
    (listRelays_drainingRegistry .resetSuspending (r₁ .stopped 0) r₂ rfl rfl
      (·.state.keepsDraining)).symm
  have hmode := run_getMode_drainingRegistry .resetSuspending (r₁ .stopped 0) r₂ 0
  have rested := (stopped.perform () rfl 0 (.ok []) hnone).perform
    () rfl 0 (.ok ⟨.resetSuspending, .manual⟩) hmode.symm
  exact ⟨_, _, ⟨rested.perform () rfl 0 (.ok ()) rfl, rfl, fun _ _ => rfl, rfl⟩, rfl⟩

/-- A drain takes two ticks, because the first one fails to stop one of two relays. -/
theorem GoesThrough.tick_drains_stopping :
    ∃ (g : Registry) (h h' : List (Moment Unit Outcome)) (s s' : System Unit Outcome),
      g = drainingRegistry .suspending (drainingRelay "relay-1" .running 2)
        (drainingRelay "relay-2" .running 1) ∧
      g.Sound ∧ g.getMode = .ok ⟨.suspending, .manual⟩ ∧
      GoesThrough Operation.tick.program () (.start g fun _ => Operation.tick.program) h s
        (.ticked (.ok .resetSuspending)) ∧
      g.Drained [⟨.stop "relay-1", .error ⟨.stop, "no answer"⟩⟩, ⟨.stop "relay-2", .ok ()⟩]
        s.registry ∧
      s.registry = drainingRegistry .resetSuspending (drainingRelay "relay-1" .running 2)
        (drainingRelay "relay-2" .stopped 0) ∧
      GoesThrough Operation.tick.program () (.start s.registry fun _ => Operation.tick.program)
        h' s' (.ticked (.ok .manual)) ∧
      s.registry.Drained [⟨.stop "relay-1", .ok ()⟩] s'.registry ∧ s'.registry.AtRest ∧
      s'.registry.getMode = .ok ⟨.manual, .manual⟩ := by
  obtain ⟨h, s, first, hs, hcalls⟩ := GoesThrough.suspending_draining
  obtain ⟨h', s', second, hcalls'⟩ := GoesThrough.resetSuspending_draining
  let r₁ := drainingRelay "relay-1" .running 2
  let r₂ := drainingRelay "relay-2"
  let s₀ : System Unit Outcome :=
    .start (drainingRegistry .suspending r₁ (r₂ .running 1)) fun _ => Operation.tick.program
  let s₁ : System Unit Outcome :=
    .start (drainingRegistry .resetSuspending r₁ (r₂ .stopped 0)) fun _ => Operation.tick.program
  have hg : s₀.registry.Sound := sound_drainingRegistry _ _ _ rfl rfl
  have hg' : s₁.registry.Sound := sound_drainingRegistry _ _ _ rfl rfl
  have hmode : s₀.registry.getMode = .ok ⟨.suspending, .manual⟩ := getMode_drainingRegistry ..
  have hmode' : s₁.registry.getMode = .ok ⟨.resetSuspending, .manual⟩ :=
    getMode_drainingRegistry ..
  obtain ⟨hdrains, -⟩ := GoesThrough.tick_drains hg hmode first
  obtain ⟨hdrains', -, hends, -⟩ := GoesThrough.tick_drains hg' hmode' second
  obtain ⟨⟨current, previous⟩, hm, hended, rfl, hrest, -⟩ := hends rfl
  cases hm
  refine ⟨_, h, h', s, s', rfl, hg, hmode, first, hcalls ▸ hdrains rfl, hs, ?_⟩
  rw [hs]
  exact ⟨second, hcalls' ▸ hdrains' rfl, hrest.mp (by decide), hended⟩

end RelayFleet
