import RelayFleet.Proofs.Lifecycle.Follows

/-!
# What steps do to the relays

A step under the protocol of calls leaves the rows of a sound registry, or writes or removes a
single one of them (`Effect`). Invariants of runs are proved from this alone.
-/

namespace RelayFleet

/-! ## Duties and states -/

/-- An operation leaves the relay in a state in which nothing is owed to it, or the caller owes it
what the state asks for, or the operation left a state that was none of the caller's concern. -/
theorem Duty.tends_next {rights : Rights} {hold : Hold} {d : Duty} {op : RelayOp} {id : RelayId}
    (asks : d.Asks rights hold op id) (s : RelayState) :
    (s.after op = .stopped ∨ s.after op = .running ∨ s.after op = .migrating) ∨
      (d.next op id s).Tends id (s.after op) ∨ s.after op = s ∧ ¬ d.Tends id s := by
  cases d with
  | booted | bootFailed | stopped | fenced | restarting =>
    obtain ⟨rfl, rfl⟩ := asks
    cases s <;> simp [RelayState.after, nextState, Duty.next, Duty.Tends]
  | idle =>
    cases op with
    | migrationCompleted b =>
      cases b <;> cases s <;> simp [RelayState.after, nextState, Duty.next, Duty.Tends]
    | _ => cases s <;> simp [RelayState.after, nextState, Duty.next, Duty.Tends]
  | _ => cases asks

/-- A call is concerned with the relay only that it performs operations on. -/
theorem Duty.Asks.eq_of_tends {rights : Rights} {hold : Hold} {d : Duty} {op : RelayOp}
    {id k : RelayId} {s : RelayState} (asks : d.Asks rights hold op id) (h : d.Tends k s) :
    k = id := by
  cases d with
  | booted | bootFailed | stopped | fenced =>
    obtain ⟨-, rfl⟩ := asks
    cases s <;> first | exact h.symm | cases h
  | restarting | idle => cases s <;> cases h
  | _ => cases asks

/-- A call that has to give a relay its state back is concerned with no other relay. -/
theorem Duty.eq_of_tends_of_failed {d : Duty} {id k : RelayId} {s x : RelayState}
    (hd : d = .stopFailed id s ∨ d = .destroyFailed id s) (h : d.Tends k x) : k = id := by
  rcases hd with rfl | rfl <;> cases x <;> first | exact h.symm | cases h

/-- A duty to a relay does not end with the answer of the provisioner. -/
theorem Duty.Calls.tends {d d' : Duty} {c : ProvisionCall} {r : c.Reply} (h : d.Calls c r d')
    {id : RelayId} {s : RelayState} (ht : d.Tends id s) : d'.Tends id s := by
  cases h <;> cases s <;> exact ht

/-! ## Effects -/

/-- What a step of a call does to the relays of a registry. -/
inductive Effect (rights : Rights) (g : Registry) : Stage → Action → Stage → Registry → Prop
  /-- No row is touched, and duties end to relays only that do not exist. -/
  | keeps {φ φ' : Stage} {a : Action} {g' : Registry} (relays : g'.relays = g.relays)
    (tends : ∀ id r, g.relay? id = some r → φ.duty.Tends id r.state → φ'.duty.Tends id r.state) :
    Effect rights g φ a φ' g'
  /-- An operation on a relay. -/
  | moves {a : Action} {hold : Hold} {d : Duty} {op : RelayOp} {id : RelayId} {r r' : Relay}
    (hr : g.relay? id = some r) (asks : d.Asks rights hold op id) (hmoved : r.Moved op r') :
    Effect rights g ⟨hold, d⟩ a ⟨hold.after op id, d.next op id r.state⟩ (g.withRow id r')
  /-- A relay gets its state back. -/
  | restores {hold : Hold} {d : Duty} {id : RelayId} {s : RelayState} {r r' : Relay}
    (hd : d = .stopFailed id s ∨ d = .destroyFailed id s) (hr : g.relay? id = some r)
    (keeps : r.Keeps r') (hstate : r'.state = s) :
    Effect rights g ⟨hold, d⟩ (.transact (.restoring id s)) ⟨hold, .idle⟩ (g.withRow id r')
  /-- A relay that was destroyed is removed. -/
  | removes {hold : Hold} {id : RelayId} :
    Effect rights g ⟨hold, .gone id⟩ (.transact (.deleteRelay id)) ⟨hold, .idle⟩ (g.withoutRow id)
  /-- A new relay is stored. -/
  | stores {hold : Hold} {r : Relay} (hstate : r.state = .stopped)
    (hsessions : r.activeSessions = 0) :
    Effect rights g ⟨hold, .storing r.id r.zoneId⟩ (.transact (.putRelay r))
      ⟨hold.stored r.id, .idle⟩ (g.withRow r.id r)

section
variable {rights : Rights} {g g' : Registry} {φ φ' : Stage} {a : Action}

/-- An action that only looks leaves the registry. -/
theorem Action.registryAfter_of_isLook {a : Action} (ha : a.isLook) (time : Millis)
    (g : Registry) : a.registryAfter time g = g := by
  cases a with
  | transact t => cases t <;> first | rfl | cases ha
  | _ => rfl

/-- A change of a row that is there. -/
theorem Registry.Sound.run_updateRelay (hg : g.Sound) {id : RelayId} {time : Millis}
    {change : Relay → Relay} {c : Registry.Change}
    (hc : .ok c = (Transaction.run time g (.updateRelay id change)).1) :
    g.relay? id = some c.before ∧ c.after = { change c.before with updatedAt := time } ∧
      (Transaction.run time g (.updateRelay id change)).2 = g.withRow id c.after := by
  obtain ⟨hbefore, hafter⟩ := Lifecycle.change_eq hc
  refine ⟨hbefore, hafter, ?_⟩
  rw [Transaction.run, hg.updateRelay_some hbefore, hafter]

/-- A change of a row fails only because the row is not there, and leaves the registry. -/
theorem Registry.Sound.run_updateRelay_error (hg : g.Sound) {id : RelayId} {time : Millis}
    {change : Relay → Relay} {e : StoreError}
    (he : .error e = (Transaction.run time g (.updateRelay id change)).1) :
    g.relay? id = none ∧ (Transaction.run time g (.updateRelay id change)).2 = g := by
  rw [Transaction.run] at he ⊢
  cases hr : g.relay? id with
  | none => exact ⟨rfl, by rw [hg.updateRelay_none hr]⟩
  | some r =>
    rw [hg.updateRelay_some hr] at he
    cases he

/-- An operation on a row that is there. -/
theorem Registry.Sound.run_moved (hg : g.Sound) {id : RelayId} {time : Millis}
    {choose : Relay → RelayOp} {onMove : RelayState → Relay → Relay} {c : Registry.Change}
    (keeps : ∀ s r, r.Keeps (onMove s r) ∧ (onMove s r).state = r.state)
    (hc : .ok c = (Transaction.run time g (.updateRelay id (Lifecycle.moved choose onMove))).1) :
    g.relay? id = some c.before ∧ c.before.Moved (choose c.before) c.after ∧
      (Transaction.run time g (.updateRelay id (Lifecycle.moved choose onMove))).2 =
        g.withRow id c.after := by
  obtain ⟨hr, hafter, hrun⟩ := hg.run_updateRelay hc
  obtain ⟨hkeeps, hstate, hsame⟩ := Lifecycle.moved_moved choose keeps c.before
  refine ⟨hr, ?_, hrun⟩
  rw [hafter]
  exact ⟨⟨hkeeps.id_eq, hkeeps.zoneId_eq, hkeeps.activeSessions_le⟩, hstate, hsame⟩

/-- A run goes on with a change of the row that was written last. -/
theorem Run.changeRow {ι α : Type} [DecidableEq ι] {s₀ s : System ι α} {h : List (Moment ι α)}
    (run : Run s₀ h s) (hg : g.Sound) {id : RelayId} {r : Relay}
    (hreg : s.registry = g.withRow id r) (hid : r.id = id) (i : ι) {change : Relay → Relay}
    {next : StoreResult Registry.Change → Fleet α}
    (asks : s.calls i = .ask (.transact (.updateRelay id change)) next) (time : Millis)
    (r' : Relay) (hchange : { change r with updatedAt := time } = r') :
    Run s₀ (h ++ [⟨s, ⟨i, .transact (.updateRelay id change), time, .ok ⟨r, r'⟩⟩⟩])
      ⟨g.withRow id r', s.holder, Function.update s.calls i (next (.ok ⟨r, r'⟩))⟩ := by
  subst hchange
  have hrun := hg.updateRelay_withRow hid time change
  rw [← hreg] at hrun
  have hnext := run.perform i asks time (.ok ⟨r, _⟩) (congrArg Prod.fst hrun).symm
  rwa [Action.registryAfter, Transaction.run, hrun] at hnext

/-- Every step of the protocol has an effect of these kinds. -/
theorem Stage.Step.effect {r : a.Reply} {ι : Type} {i : ι} {holder : Option ι}
    {time : Millis} (hs : Stage.Step rights φ a r φ') (answers : a.Answers time g i holder r)
    (hg : g.Sound) : Effect rights g φ a φ' (a.registryAfter time g) := by
  cases hs with
  | looks ha => exact .keeps (by rw [Action.registryAfter_of_isLook ha]) fun _ _ _ h => h
  | obtains | gives_up | releases | counts | pools => exact .keeps rfl fun _ _ _ h => h
  | issues => exact .keeps rfl fun _ _ _ h => by cases h
  | switches => exact .keeps rfl fun _ _ _ h => h
  | provisions calls => exact .keeps rfl fun _ _ _ h => calls.tends h
  | removes => exact .removes
  | stores hid hzone hstate hsessions =>
    subst hid hzone
    exact .stores hstate hsessions
  | @operates _ _ id choose onMove change asks keeps =>
    obtain ⟨hr, hmoved, hrun⟩ := hg.run_moved keeps answers
    rw [Action.registryAfter, hrun]
    exact .moves hr (asks _) hmoved
  | misses asks =>
    obtain ⟨hnone, hrun⟩ := hg.run_updateRelay_error answers
    rw [Action.registryAfter, hrun]
    refine .keeps rfl ?_
    intro k r hr h
    rw [(asks default).eq_of_tends h, hnone] at hr
    cases hr
  | @restores _ d id s x hd =>
    cases x with
    | error e =>
      obtain ⟨hnone, hrun⟩ := hg.run_updateRelay_error answers
      rw [Action.registryAfter, Transaction.restoring, hrun]
      refine .keeps rfl ?_
      intro k r hr h
      rw [Duty.eq_of_tends_of_failed hd h, hnone] at hr
      cases hr
    | ok change =>
      obtain ⟨hr, hafter, hrun⟩ := hg.run_updateRelay answers
      rw [Action.registryAfter, Transaction.restoring, hrun, ← Transaction.restoring]
      exact .restores hd hr (hafter ▸ ⟨rfl, rfl, Nat.le_refl _⟩) (hafter ▸ rfl)

/-- Every step of a run that is one of the protocol has an effect of these kinds. -/
theorem Stage.Step.effect_of_step {ι α : Type} [DecidableEq ι] {s s' : System ι α} {m : Move ι}
    (hp : Stage.Step rights φ m.action m.reply φ') (hs : RelayFleet.Step s m s')
    (hg : s.registry.Sound) : Effect rights s.registry φ m.action φ' s'.registry := by
  rw [hs.registry_eq]
  exact hp.effect hs.answers hg

/-- The registry stays sound. -/
theorem Effect.sound (h : Effect rights g φ a φ' g') (hg : g.Sound) : g'.Sound := by
  cases h with
  | keeps relays => exact hg.congr relays
  | moves hr _ hmoved => exact hg.withRow (hmoved.keeps.id_eq.trans (hg.id_eq hr))
  | restores _ hr keeps => exact hg.withRow (keeps.id_eq.trans (hg.id_eq hr))
  | removes => exact hg.withoutRow
  | stores => exact hg.withRow rfl

/-! ## The lock -/

/-- An action that only looks leaves the lock. -/
theorem Action.holderAfter_of_isLook {ι : Type} {r : a.Reply} (ha : a.isLook) (i : ι)
    (holder : Option ι) : a.holderAfter i holder r = holder := by
  cases a <;> first | rfl | cases ha

/-- A step gets the lock, or gives it back, or leaves it. -/
theorem Stage.Step.holder {r : a.Reply} {ι : Type} {i : ι} {holder : Option ι} {time : Millis}
    (hs : Stage.Step rights φ a r φ') (answers : a.Answers time g i holder r) :
    (holder = none ∧ φ'.hold ≠ .out ∧ a.holderAfter i holder r = some i) ∨
      (φ.hold ≠ .out ∧ φ'.hold = .out ∧ a.holderAfter i holder r = none) ∨
      ((φ'.hold = .out ↔ φ.hold = .out) ∧ a.holderAfter i holder r = holder) := by
  have hafter : ∀ (hold : Hold) (op : RelayOp) (id : RelayId),
      hold.after op id = .out ↔ hold = .out := by
    intro hold op id
    cases hold <;> cases op <;> simp [Hold.after]
  cases hs with
  | looks ha => exact .inr (.inr ⟨Iff.rfl, Action.holderAfter_of_isLook ha i holder⟩)
  | obtains => exact .inl ⟨answers, by simp, rfl⟩
  | releases hout => exact .inr (.inl ⟨hout, rfl, rfl⟩)
  | operates | misses => exact .inr (.inr ⟨hafter _ _ _, rfl⟩)
  | @stores hold => exact .inr (.inr ⟨by cases hold <;> simp [Hold.stored], rfl⟩)
  | counts | pools => exact .inr (.inr ⟨by simp, rfl⟩)
  | _ => exact .inr (.inr ⟨Iff.rfl, rfl⟩)

/-- The calls that are in the lock according to their stages are the one that has it. -/
theorem Stage.Step.holds {ι α : Type} [DecidableEq ι] {s s' : System ι α} {m : Move ι}
    {φ : ι → Stage} (hp : Stage.Step rights (φ m.caller) m.action m.reply φ')
    (hs : RelayFleet.Step s m s') (inv : ∀ i, (φ i).hold ≠ .out ↔ s.holder = some i) (i : ι) :
    (Function.update φ m.caller φ' i).hold ≠ .out ↔ s'.holder = some i := by
  rw [hs.holder_eq]
  by_cases hi : i = m.caller
  · subst hi
    rw [Function.update_self]
    rcases hp.holder hs.answers with ⟨-, hin, heq⟩ | ⟨-, hout, heq⟩ | ⟨hiff, heq⟩ <;> rw [heq]
    · simp [hin]
    · simp [hout]
    · rw [← inv, ne_eq, hiff]
  · rw [Function.update_of_ne hi]
    rcases hp.holder hs.answers with ⟨hnone, -, heq⟩ | ⟨hin, -, heq⟩ | ⟨-, heq⟩ <;> rw [heq]
    · rw [inv, hnone]
      simpa using Ne.symm hi
    · rw [inv, (inv _).mp hin]
      simpa using Ne.symm hi
    · exact inv i

end

end RelayFleet
