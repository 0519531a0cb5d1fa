import RelayFleet.Proofs.Lifecycle.Asks
import RelayFleet.Proofs.Lifecycle.Stranded
import RelayFleet.Proofs.Registry.Issuance

/-!
# Errands

An errand is a lifecycle call, an assignment or a report together with what it owes to relays. A
call begins only the operations that it is named for (`Operation.Opens`), which the rights of
`conduct`, being the same for all calls, do not say; and an assignment or a report changes nothing
that matters to the protocol of calls. `Turn` says what a step of an errand is to one relay and its
state, and `Run.turns` carries invariants over errands along runs.
-/

namespace RelayFleet

open Protocol

/-! ## Errands and their steps -/

namespace Operation

/-- The operations that a call begins on relays. -/
def Opens : Operation → RelayOp → Prop
  | start _, .start | stop _, .stop | destroy _, .destroy | reboot _, .reboot
  | agentDisconnected _, .agentDisconnected | migrationStarted _, .migrationStarted
  | migrationCompleted _, .migrationCompleted _ => True
  | _, _ => False

/-- What a call may do. -/
def rights (c : Operation) : Rights where
  rules := default
  operates := c.Opens
  creates := ∃ zone spec, c = .create zone spec
  switches := False

/-- The relays that a call is about, where this is known from the call alone. -/
def KeepsTo : Operation → RelayId → Prop
  | stop k, id | destroy k, id => id = k
  | _, _ => True

/-- A call of the lifecycle, an assignment or a report. -/
def IsErrand : Operation → Prop
  | assign _ _ _ | report _ _ => True
  | c => c.IsLifecycle

end Operation

/-- A call and what it owes. -/
structure Errand where
  call : Operation
  duty : Duty

/-- The steps of a call that does what its duties ask for, or leaves the states of relays alone. -/
inductive Errand.Step : Errand → (a : Action) → a.Reply → Errand → Prop
  | rests {e : Errand} {a : Action} {r : a.Reply} (ha : a.IsNeutral) : Step e a r e
  | conducts {c : Operation} {d d' : Duty} {a : Action} {r : a.Reply}
    (hs : Stage.Step c.rights ⟨.out, d⟩ a r ⟨.out, d'⟩)
    (hto : ∀ id, a.relay? = some id → c.KeepsTo id) :
    Step ⟨c, d⟩ a r ⟨c, d'⟩

/-- The protocol of errands. -/
def errands : Protocol Errand where
  Meets := Registry.Sound
  Step := Errand.Step

/-- A call stays what it is. -/
theorem Errand.Step.call_eq {e e' : Errand} {a : Action} {r : a.Reply} (h : Step e a r e') :
    e'.call = e.call := by
  cases h <;> rfl

/-! ## Calls are errands -/

section
variable {α : Type} {p : Fleet α} {P : α → Prop} {Q : Stage → α → Prop} {c : Operation} {d : Duty}

/-- Who is out of the lock and does not ask for it stays out. -/
theorem Stage.Step.hold_eq_out {rights : Rights} {a : Action} {r : a.Reply} {φ' : Stage}
    (h : Stage.Step rights ⟨.out, d⟩ a r φ') (ha : a.IsWork) : φ'.hold = .out := by
  generalize hφ : (⟨.out, d⟩ : Stage) = φ at h
  cases h with
  | looks | switches => exact hφ ▸ rfl
  | obtains | gives_up | releases => cases ha
  | counts | pools => cases hφ
  | _ => cases hφ; rfl

/-- A program that follows the protocol of calls outside of the lock is an errand. -/
theorem Protocol.Follows.errand (hf : (conduct c.rights Registry.Sound).Follows ⟨.out, d⟩ p Q)
    (ha : Asks (fun a => a.IsWork ∧ ∀ id, a.relay? = some id → c.KeepsTo id) p P) :
    errands.Follows ⟨c, d⟩ p fun e a => Q ⟨.out, e.duty⟩ a := by
  induction p generalizing d with
  | pure a => exact hf
  | ask a next ih =>
    intro r hr
    obtain ⟨⟨hold, d'⟩, hs, hnext⟩ := hf r (by cases a <;> exact hr)
    obtain ⟨⟨hwork, hto⟩, hasks⟩ := ha
    cases hs.hold_eq_out hwork
    exact ⟨⟨c, d'⟩, .conducts hs hto, ih r hnext (hasks r)⟩

/-- A program that leaves the states of relays alone is an errand without a duty. -/
theorem Asks.follows_errands (h : Asks Action.IsNeutral p P) :
    errands.Follows ⟨c, .idle⟩ p fun e _ => e.duty = .idle := by
  induction p with
  | pure a => exact rfl
  | ask a next ih => exact fun r _ => ⟨_, .rests h.1, ih r (h.2 r)⟩

end

namespace Operation

variable {c : Operation}

/-- A call of the lifecycle is allowed what it is named for. -/
theorem IsLifecycle.isAllowed (h : c.IsLifecycle) : c.IsAllowed c.rights := by
  cases c with
  | create zone spec => exact ⟨zone, spec, rfl⟩
  | migrationCompleted => exact fun _ => trivial
  | assign | report | expand | pass | tick | setMode | resumeMode => cases h
  | _ => trivial

/-- A call of the lifecycle leaves the lock alone, and keeps to the relay that it is about. -/
theorem IsLifecycle.asks (h : c.IsLifecycle) :
    Asks (fun a => a.IsWork ∧ ∀ id, a.relay? = some id → c.KeepsTo id) c.program
      fun _ => True := by
  have hwork : ∀ {p : Fleet Outcome} {c : Operation}, (∀ id, c.KeepsTo id) →
      Asks Action.IsWork p (fun _ => True) →
      Asks (fun a => a.IsWork ∧ ∀ id, a.relay? = some id → c.KeepsTo id) p fun _ => True :=
    fun hto h => h.mono (fun _ ha => ⟨ha, fun id _ => hto id⟩) fun _ _ => trivial
  have hworkOn : ∀ {p : Fleet Outcome} {c : Operation} {k : RelayId},
      (∀ id, id = k → c.KeepsTo id) → Asks (Action.IsWorkOn k) p (fun _ => True) →
      Asks (fun a => a.IsWork ∧ ∀ id, a.relay? = some id → c.KeepsTo id) p fun _ => True :=
    fun hto h => h.mono (fun _ ha => ⟨ha.isWork, fun id hid => hto id (ha.relay_eq id hid)⟩)
      fun _ _ => trivial
  cases c with
  | create => exact hwork (fun _ => trivial) Lifecycle.asks_create.map
  | start => exact hwork (fun _ => trivial) Lifecycle.asks_start.map
  | stop => exact hworkOn (fun _ => id) Lifecycle.asks_stop.map
  | destroy => exact hworkOn (fun _ => id) Lifecycle.asks_destroy.map
  | reboot => exact hwork (fun _ => trivial) Lifecycle.asks_reboot.map
  | agentDisconnected => exact hwork (fun _ => trivial) Lifecycle.asks_agentDisconnected.map
  | migrationStarted => exact hwork (fun _ => trivial) Lifecycle.asks_migrationStarted.map
  | migrationCompleted => exact hwork (fun _ => trivial) Lifecycle.asks_migrationCompleted.map
  | _ => cases h

/-- A call begins and ends its errand without a duty. -/
theorem IsErrand.follows (h : c.IsErrand) :
    errands.Follows ⟨c, .idle⟩ c.program fun e _ => e.duty = .idle := by
  have hlifecycle : c.IsLifecycle →
      errands.Follows ⟨c, .idle⟩ c.program fun e _ => e.duty = .idle := by
    intro h
    refine (h.isAllowed.follows.errand h.asks).mono ?_
    intro e a he
    exact congrArg Stage.duty he
  cases c with
  | assign => exact AssignRules.asks_assign.map.follows_errands
  | report => exact asks_applyReport.map.follows_errands
  | expand | pass | tick | setMode | resumeMode => cases h
  | _ => exact hlifecycle trivial

end Operation

/-! ## What a step is to one relay -/

namespace Registry

variable {g : Registry} {id : RelayId} {x : RelayState}

/-- The state of a relay, if there is one. -/
def state? (g : Registry) (id : RelayId) : Option RelayState := (g.relay? id).map (·.state)

/-- The relay is in a state that is its state. -/
theorem isIn_iff : g.IsIn id x ↔ g.state? id = some x := by
  rw [IsIn, state?, Option.map_eq_some_iff]

/-- What a relay in the registry is in. -/
theorem state?_eq {r : Relay} (hr : g.relay? id = some r) : g.state? id = some r.state := by
  rw [state?, hr, Option.map_some]

/-- The states after a row was written. -/
theorem state?_withRow (g : Registry) (id k : RelayId) (r : Relay) :
    (g.withRow id r).state? k = if k = id then some r.state else g.state? k := by
  rw [state?, relay?_withRow]
  split <;> rfl

/-- The state in a row that was written. -/
@[simp]
theorem state?_withRow_self (g : Registry) (id : RelayId) (r : Relay) :
    (g.withRow id r).state? id = some r.state := by
  rw [state?_withRow, if_pos rfl]

/-- The states after a row was removed. -/
theorem state?_withoutRow (g : Registry) (id k : RelayId) :
    (g.withoutRow id).state? k = if k = id then none else g.state? k := by
  rw [state?, relay?_withoutRow]
  split <;> rfl

/-- The states depend on the rows alone. -/
theorem state?_congr {g' : Registry} (h : g'.relays = g.relays) : g'.state? id = g.state? id := by
  rw [state?, relay?_congr h, state?]

/-- The states after a row was changed, if it was there. -/
theorem state?_updateRelay (g : Registry) (time : Millis) (k : RelayId) (change : Relay → Relay) :
    (Transaction.run time g (.updateRelay k change)).2.state? id =
      if id = k then (g.relay? k).map fun r => (change r).state else g.state? id := by
  rw [Transaction.run]
  cases hr : g.relay? k with
  | none =>
    obtain ⟨e, -, hfails⟩ := updateRelay_none hr time change
    rw [hfails]
    split
    · next heq => rw [heq, state?, hr]; rfl
    · rfl
  | some r =>
    rw [updateRelay_some hr, state?_withRow]
    rfl

end Registry

/-- An action that only looks is neutral. -/
theorem Action.isNeutral_of_isLook {a : Action} (ha : a.isLook) : a.IsNeutral := by
  cases a with
  | transact t => cases t <;> first | exact trivial | cases ha
  | provision => cases ha
  | _ => trivial

/-- A neutral action leaves the states of relays. -/
theorem Action.IsNeutral.state?_eq {a : Action} (ha : a.IsNeutral) (g : Registry) (time : Millis)
    (id : RelayId) : (a.registryAfter time g).state? id = g.state? id := by
  cases a with
  | transact t =>
    cases t with
    | nextRelayId | putRelay | deleteRelay => cases ha
    | updateRelay k change =>
      rw [Action.registryAfter, g.state?_updateRelay]
      split
      · next heq =>
        have hchange : (fun r => (change r).state) = Relay.state := funext fun r => (ha r).2
        rw [heq, hchange, Registry.state?]
      · rfl
    | releaseBindings k workloads =>
      simp only [Action.registryAfter, Transaction.run, Registry.releaseBindings]
      split <;> exact Registry.state?_congr rfl
    | _ => exact Registry.state?_congr rfl
  | _ => rfl

/-- What an operation makes of a relay in some state, whatever else it changes. -/
theorem Lifecycle.state_moved {choose : Relay → RelayOp} {onMove : RelayState → Relay → Relay}
    (keeps : ∀ s r, (onMove s r).state = r.state) (r : Relay) :
    (Lifecycle.moved choose onMove r).state = r.state.after (choose r) := by
  simp only [Lifecycle.moved]
  cases h : nextState r.state (choose r) with
  | error e => simp [RelayState.after, h]
  | ok t => cases t <;> simp [RelayState.after, h, keeps]

/-- The relay that a duty is about. -/
def Duty.relay? : Duty → Option RelayId
  | .idle => none
  | .booting id | .booted id | .bootFailed id | .stopping id _ | .stopped id | .stopFailed id _
  | .destroying id _ | .gone id | .destroyFailed id _ | .rebooting id | .fencing id | .fenced id
  | .restarting id | .allocating id _ | .storing id _ => some id

/-- Only who has no duty has none to a relay. -/
theorem Duty.eq_idle_of_relay? {d : Duty} (h : d.relay? = none) : d = .idle := by
  cases d <;> first | rfl | cases h

/-- What a step of an errand is to the relay `id`, and how its state is before and after it. -/
inductive Turn (id : RelayId) :
    Errand → Option RelayState → (a : Action) → a.Reply → Errand → Option RelayState → Prop
  | rests {e : Errand} {x : Option RelayState} {a : Action} {r : a.Reply} (ha : a.IsNeutral) :
    Turn id e x a r e x
  /-- A step about another relay. -/
  | elsewhere {c : Operation} {d d' : Duty} {x : Option RelayState} {a : Action} {r : a.Reply}
    (ha : a.relay? ≠ some id) (hd : d.relay? ≠ some id) (hd' : d'.relay? ≠ some id) :
    Turn id ⟨c, d⟩ x a r ⟨c, d'⟩ x
  | operates {c : Operation} {d : Duty} {x : RelayState} {op : RelayOp} {choose : Relay → RelayOp}
    {onMove : RelayState → Relay → Relay} {change : StoreResult Registry.Change}
    (asks : ∀ r, d.Asks c.rights .out (choose r) id) (hop : d.Asks c.rights .out op id)
    (keeps : ∀ s r, (onMove s r).state = r.state) (hto : c.KeepsTo id) :
    Turn id ⟨c, d⟩ (some x) (.transact (.updateRelay id (Lifecycle.moved choose onMove))) change
      ⟨c, d.next op id x⟩ (some (x.after op))
  | misses {c : Operation} {d : Duty} {choose : Relay → RelayOp}
    {onMove : RelayState → Relay → Relay} {change : StoreResult Registry.Change}
    (asks : ∀ r, d.Asks c.rights .out (choose r) id)
    (keeps : ∀ s r, (onMove s r).state = r.state) :
    Turn id ⟨c, d⟩ none (.transact (.updateRelay id (Lifecycle.moved choose onMove))) change
      ⟨c, .idle⟩ none
  | provisions {c : Operation} {d d' : Duty} {x : Option RelayState} {call : ProvisionCall}
    {r : call.Reply} (calls : d.Calls call r d') (hid : call.relay = id) :
    Turn id ⟨c, d⟩ x (.provision call) r ⟨c, d'⟩ x
  | restores {c : Operation} {d : Duty} {x : Option RelayState} {s : RelayState}
    {change : StoreResult Registry.Change} (hd : d = .stopFailed id s ∨ d = .destroyFailed id s) :
    Turn id ⟨c, d⟩ x (.transact (.restoring id s)) change ⟨c, .idle⟩ (x.map fun _ => s)
  | removes {c : Operation} {x : Option RelayState} {r : StoreResult Bool} :
    Turn id ⟨c, .gone id⟩ x (.transact (.deleteRelay id)) r ⟨c, .idle⟩ none
  | issues {c : Operation} {x : Option RelayState} {zone : ZoneId} {r : StoreResult RelayId}
    (may : c.rights.creates) :
    Turn id ⟨c, .idle⟩ x (.transact .nextRelayId) r ⟨c, .allocating id zone⟩ x
  | stores {c : Operation} {x : Option RelayState} {zone : ZoneId} {r : Relay}
    {u : StoreResult Unit} (hid : r.id = id) :
    Turn id ⟨c, .storing id zone⟩ x (.transact (.putRelay r)) u ⟨c, .idle⟩ (some .stopped)

section
variable {id k : RelayId} {d d' : Duty} {c : Operation}

/-- A duty that performs an operation is about no other relay. -/
theorem Duty.Asks.relay?_ne {rights : Rights} {hold : Hold} {op : RelayOp}
    (h : d.Asks rights hold op k) (hk : k ≠ id) : d.relay? ≠ some id := by
  cases d with
  | booted | bootFailed | stopped | fenced | restarting =>
    obtain ⟨-, rfl⟩ := h
    simpa [Duty.relay?] using hk
  | idle => simp [Duty.relay?]
  | _ => cases h

/-- The duty after an operation is about no other relay. -/
theorem Duty.relay?_next_ne (d : Duty) (op : RelayOp) (s : RelayState) (hk : k ≠ id) :
    (d.next op k s).relay? ≠ some id := by
  simp only [Duty.next]
  split <;> simp [Duty.relay?, hk]

/-- A duty that calls the provisioner, and the one after it, are about no other relay. -/
theorem Duty.Calls.relay?_ne {call : ProvisionCall} {r : call.Reply} (h : d.Calls call r d')
    (hk : call.relay ≠ id) : d.relay? ≠ some id ∧ d'.relay? ≠ some id := by
  cases h <;> simpa [Duty.relay?, ProvisionCall.relay] using hk

section
variable {g : Registry} {time : Millis} {choose : Relay → RelayOp}
  {onMove : RelayState → Relay → Relay}

/-- An operation on a relay that is there. -/
theorem Turn.of_operates {change : Registry.Change} (hg : g.Sound)
    (hrun : .ok change =
      (Transaction.run time g (.updateRelay k (Lifecycle.moved choose onMove))).1)
    (asks : ∀ r, d.Asks c.rights .out (choose r) k)
    (keeps : ∀ s r, r.Keeps (onMove s r) ∧ (onMove s r).state = r.state) (hto : c.KeepsTo k) :
    Turn id ⟨c, d⟩ (g.state? id) (.transact (.updateRelay k (Lifecycle.moved choose onMove)))
      (.ok change) ⟨c, d.next (choose change.before) k change.before.state⟩
      ((Transaction.run time g (.updateRelay k (Lifecycle.moved choose onMove))).2.state? id) := by
  obtain ⟨hr, hmoved, hafter⟩ := hg.run_moved keeps hrun
  rw [hafter, Registry.state?_withRow]
  obtain rfl | hk := eq_or_ne k id
  · rw [if_pos rfl, Registry.state?_eq hr, hmoved.state_eq]
    exact .operates asks (asks _) (fun s r => (keeps s r).2) hto
  · rw [if_neg hk.symm]
    exact .elsewhere (by simpa [Action.relay?] using hk) ((asks default).relay?_ne hk)
      (Duty.relay?_next_ne _ _ _ hk)

/-- An operation on a relay that is not there. -/
theorem Turn.of_misses {e : StoreError} (hg : g.Sound)
    (hrun : .error e =
      (Transaction.run time g (.updateRelay k (Lifecycle.moved choose onMove))).1)
    (asks : ∀ r, d.Asks c.rights .out (choose r) k)
    (keeps : ∀ s r, r.Keeps (onMove s r) ∧ (onMove s r).state = r.state) :
    Turn id ⟨c, d⟩ (g.state? id) (.transact (.updateRelay k (Lifecycle.moved choose onMove)))
      (.error e) ⟨c, .idle⟩
      ((Transaction.run time g (.updateRelay k (Lifecycle.moved choose onMove))).2.state? id) := by
  obtain ⟨hnone, hafter⟩ := hg.run_updateRelay_error hrun
  rw [hafter]
  obtain rfl | hk := eq_or_ne k id
  · rw [Registry.state?, hnone]
    exact .misses asks fun s r => (keeps s r).2
  · exact .elsewhere (by simpa [Action.relay?] using hk) ((asks default).relay?_ne hk)
      (by simp [Duty.relay?])

/-- A call to the provisioner. -/
theorem Turn.of_provisions {x : Option RelayState} {call : ProvisionCall} {r : call.Reply}
    (calls : d.Calls call r d') : Turn id ⟨c, d⟩ x (.provision call) r ⟨c, d'⟩ x := by
  by_cases hk : call.relay = id
  · exact .provisions calls hk
  · exact .elsewhere (by simpa [Action.relay?] using hk) (calls.relay?_ne hk).1
      (calls.relay?_ne hk).2

/-- A relay is given its state back. -/
theorem Turn.of_restores {s : RelayState} {x : StoreResult Registry.Change}
    (hd : d = .stopFailed k s ∨ d = .destroyFailed k s) :
    Turn id ⟨c, d⟩ (g.state? id) (.transact (.restoring k s)) x ⟨c, .idle⟩
      ((Transaction.run time g (.restoring k s)).2.state? id) := by
  have hafter : (Transaction.run time g (.restoring k s)).2.state? id =
      if id = k then (g.state? k).map fun _ => s else g.state? id := by
    rw [Registry.state?.eq_def g k, Option.map_map]
    exact g.state?_updateRelay time k fun r => { r with state := s }
  rw [hafter]
  obtain rfl | hk := eq_or_ne k id
  · rw [if_pos rfl]
    exact .restores hd
  · rw [if_neg hk.symm]
    refine .elsewhere (by simpa [Action.relay?, Transaction.restoring] using hk) ?_
      (by simp [Duty.relay?])
    rcases hd with rfl | rfl <;> simpa [Duty.relay?] using hk

/-- A relay is removed. -/
theorem Turn.of_removes {x : StoreResult Bool} :
    Turn id ⟨c, .gone k⟩ (g.state? id) (.transact (.deleteRelay k)) x ⟨c, .idle⟩
      ((g.withoutRow k).state? id) := by
  rw [Registry.state?_withoutRow]
  obtain rfl | hk := eq_or_ne k id
  · rw [if_pos rfl]
    exact .removes
  · rw [if_neg hk.symm]
    exact .elsewhere (by simpa [Action.relay?] using hk) (by simpa [Duty.relay?] using hk)
      (by simp [Duty.relay?])

/-- An id is issued. -/
theorem Turn.of_issues {x : Option RelayState} {zone : ZoneId} (may : c.rights.creates) :
    Turn id ⟨c, .idle⟩ x (.transact .nextRelayId) (.ok k) ⟨c, .allocating k zone⟩ x := by
  obtain rfl | hk := eq_or_ne k id
  · exact .issues may
  · exact .elsewhere (by simp [Action.relay?]) (by simp [Duty.relay?])
      (by simpa [Duty.relay?] using hk)

/-- A new relay is stored. -/
theorem Turn.of_stores {zone : ZoneId} {r : Relay} {x : StoreResult Unit}
    (hstate : r.state = .stopped) :
    Turn id ⟨c, .storing r.id zone⟩ (g.state? id) (.transact (.putRelay r)) x ⟨c, .idle⟩
      ((g.withRow r.id r).state? id) := by
  rw [Registry.state?_withRow]
  obtain rfl | hk := eq_or_ne id r.id
  · rw [if_pos rfl, hstate]
    exact .stores rfl
  · rw [if_neg hk]
    exact .elsewhere (by simpa [Action.relay?] using hk.symm)
      (by simpa [Duty.relay?] using hk.symm) (by simp [Duty.relay?])

end

/-- Every step of an errand is a turn of each relay. -/
theorem Errand.Step.turn {e e' : Errand} {a : Action} {r : a.Reply} {ι : Type} {i : ι}
    {holder : Option ι} {time : Millis} {g : Registry} (h : Errand.Step e a r e')
    (answers : a.Answers time g i holder r) (hg : g.Sound) (id : RelayId) :
    Turn id e (g.state? id) a r e' ((a.registryAfter time g).state? id) := by
  cases h with
  | rests ha =>
    rw [ha.state?_eq]
    exact .rests ha
  | @conducts c d d' _ _ hs hto =>
    generalize hφ : (⟨.out, d⟩ : Stage) = φ at hs
    generalize hφ' : (⟨.out, d'⟩ : Stage) = φ' at hs
    cases hs with
    | looks ha =>
      cases hφ.trans hφ'.symm
      rw [(Action.isNeutral_of_isLook ha).state?_eq]
      exact .rests (Action.isNeutral_of_isLook ha)
    | gives_up =>
      cases hφ
      cases hφ'
      exact .rests trivial
    | obtains | counts | pools => cases hφ'
    | releases hout =>
      cases hφ
      exact absurd rfl hout
    | switches may => cases may
    | operates asks keeps =>
      cases hφ
      cases hφ'
      exact .of_operates hg answers asks keeps (hto _ rfl)
    | misses asks keeps =>
      cases hφ
      cases hφ'
      exact .of_misses hg answers asks keeps
    | provisions calls =>
      cases hφ
      cases hφ'
      exact .of_provisions calls
    | restores hd =>
      cases hφ
      cases hφ'
      exact .of_restores hd
    | removes =>
      cases hφ
      cases hφ'
      exact .of_removes
    | issues may =>
      cases hφ
      cases hφ'
      exact .of_issues may
    | stores hid _ hstate =>
      cases hφ
      cases hφ'
      subst hid
      exact .of_stores hstate

end

/-! ## Runs of errands -/

/-- The registry stays sound. -/
theorem Errand.Step.sound {e e' : Errand} {a : Action} {r : a.Reply} {ι : Type} {i : ι}
    {holder : Option ι} {time : Millis} {g : Registry} (h : Errand.Step e a r e')
    (answers : a.Answers time g i holder r) (hg : g.Sound) : (a.registryAfter time g).Sound := by
  cases h with
  | rests ha => exact (ha.keepsIds.registryAfter hg time).1
  | conducts hs => exact (hs.effect answers hg).sound hg

section
variable {ι : Type} [DecidableEq ι] {calls : ι → Operation} {g : Registry}
  {h : List (Moment ι Outcome)} {s s' : System ι Outcome} {m : Move ι} {e : Errand}

/-- In a run of errands every step is a turn of each relay, so what such turns preserve holds of the
registry and the errands at its end, which still do what is owed. The turns have to preserve it in
runs of a kind `K` only, if the run is of this kind and all that it goes through. -/
theorem Run.turns {K : List (Moment ι Outcome) → Prop}
    {I : List (Moment ι Outcome) → Registry → (ι → Errand) → Prop} (hg : g.Sound)
    (hcalls : ∀ i, (calls i).IsErrand) (hclosed : ∀ h e, K (h ++ [e]) → K h)
    (hinit : I [] g fun i => ⟨calls i, .idle⟩)
    (hstep : ∀ h s e m s' e', Run (System.start g fun i => (calls i).program) h s →
      K (h ++ [⟨s, m⟩]) → (∀ i, (e i).call = calls i) → I h s.registry e →
      RelayFleet.Step s m s' → Errand.Step (e m.caller) m.action m.reply e' →
      (∀ id, Turn id (e m.caller) (s.registry.state? id) m.action m.reply e'
        (s'.registry.state? id)) →
      I (h ++ [⟨s, m⟩]) s'.registry (Function.update e m.caller e'))
    (run : Run (System.start g fun i => (calls i).program) h s) (hk : K h) :
    ∃ e : ι → Errand, I h s.registry e ∧ (∀ i, (e i).call = calls i) ∧ s.registry.Sound ∧
      ∀ i, errands.Follows (e i) (s.calls i) fun e _ => e.duty = .idle := by
  obtain ⟨e, ⟨hinv, hcall, hsound⟩, hf⟩ := run.follows_while
    (I := fun h s e => I h s.registry e ∧ (∀ i, (e i).call = calls i) ∧ s.registry.Sound)
    hclosed (fun i => (hcalls i).follows) ⟨hinit, fun _ => rfl, hg⟩ (fun _ _ _ inv => inv.2.2)
    (fun h s e m s' e' run hk inv hs hp => by
      obtain ⟨hinv, hcall, hsound⟩ := inv
      have hp : Errand.Step (e m.caller) m.action m.reply e' := hp
      refine ⟨hstep h s e m s' e' run hk hcall hinv hs hp fun id => ?_, ?_, ?_⟩
      · rw [hs.registry_eq]
        exact hp.turn hs.answers hsound id
      · exact (Function.forall_update_iff e fun i x => x.call = calls i).mpr
          ⟨hp.call_eq.trans (hcall _), fun i _ => hcall i⟩
      · rw [hs.registry_eq]
        exact hp.sound hs.answers hsound) hk
  exact ⟨e, hinv, hcall, hsound, hf⟩

/-- A call that stores a relay does not replace one. -/
theorem Run.state?_of_stores (hg : g.Sound) (hissued : g.Issued)
    (run : Run (System.start g fun i => (calls i).program) h s) (hids : IdsLast g h)
    (hs : RelayFleet.Step s m s') {r : Relay} (ha : m.action = .transact (.putRelay r)) :
    s.registry.state? r.id = none := by
  obtain ⟨i, a, time, x⟩ := m
  obtain ⟨next, asks, -⟩ := hs
  subst ha
  rw [Registry.state?, run.absent_of_stores hg hissued hids asks, Option.map_none]

end

/-! ## Duties along turns -/

section
variable {id : RelayId} {d d' : Duty} {e e' : Errand} {x y : Option RelayState} {q : RelayState}
  {a : Action} {r : a.Reply}

/-- Who has no duty owes nothing. -/
@[simp]
theorem Duty.not_tends_idle : ¬ Duty.Tends id .idle q := by
  cases q <;> exact fun h => h

/-- A duty to a relay is about it. -/
theorem Duty.Tends.relay?_eq (h : d.Tends id q) : d.relay? = some id := by
  cases d <;> cases q <;> first | exact congrArg some h | cases h

/-- An outcome of the provisioner leaves to be done what was to be done, and nothing more. -/
theorem Duty.Calls.tends_iff {call : ProvisionCall} {r : call.Reply} (h : d.Calls call r d') :
    d'.Tends id q ↔ d.Tends id q := by
  cases h <;> cases q <;> exact Iff.rfl

/-- The state that is to be given back stays one from which the operation was legal. -/
theorem Errand.Step.isSourced (h : Errand.Step e a r e') (he : e.duty.IsSourced) :
    e'.duty.IsSourced := by
  cases h with
  | rests => exact he
  | conducts hs => exact hs.isSourced he

/-- A relay in a state in which it is owed something is owed it by the caller after the step, or it
was in this state before, or the caller had to give it this state back. -/
theorem Turn.tended (h : Turn id e x a r e' y) (hy : y = some q) :
    q.IsSettled ∨ e'.duty.Tends id q ∨
      (e.duty = .stopFailed id q ∨ e.duty = .destroyFailed id q) ∨
      x = some q ∧ (e.duty.Tends id q → e'.duty.Tends id q) := by
  cases h with
  | rests => exact .inr (.inr (.inr ⟨hy, fun h => h⟩))
  | elsewhere _ hd _ => exact .inr (.inr (.inr ⟨hy, fun h => absurd h.relay?_eq hd⟩))
  | @operates _ _ x₀ _ _ _ _ _ hop =>
    cases hy
    rcases Duty.tends_next hop x₀ with hsettled | htends | ⟨hsame, hnot⟩
    · exact .inl hsettled
    · exact .inr (.inl htends)
    · rw [hsame]
      exact .inr (.inr (.inr ⟨rfl, fun h => absurd h hnot⟩))
  | provisions calls => exact .inr (.inr (.inr ⟨hy, calls.tends⟩))
  | restores hd =>
    obtain ⟨_, -, rfl⟩ := Option.map_eq_some_iff.mp hy
    exact .inr (.inr (.inl hd))
  | issues => exact .inr (.inr (.inr ⟨hy, fun h => by cases h⟩))
  | stores =>
    cases hy
    exact .inl (.inl rfl)
  | misses | removes => cases hy

end

end RelayFleet
