import RelayFleet.Proofs.Lifecycle.Custody
import RelayFleet.Proofs.Registry.Persistence

/-!
# A migration returns a relay to where it was

The row of a migrating relay remembers the state in which the migration found it. A stop may take
the relay out of `migrating` and give it back, and the state that a migration has left behind stays
in the row until the next one, so what is remembered is a matter of the history: it is the state
from which the relay departed last (`Moment.Departs`), in every row that remembers one, migrating or
not. A row gets to `migrating` by a departure or because a failed stop gives this state back
(`MigrationStep`); in between the relay is in the custody of this stop, and nothing forgets what it
remembers (`Remembrance`).
-/

namespace RelayFleet

/-! ## Departures -/

/-- The beginning of the migration of a relay. -/
def Action.leaving (id : RelayId) : Action :=
  .transact (.updateRelay id (Lifecycle.moved (fun _ => .migrationStarted)
    fun source r => { r with preMigrationState := some source }))

/-- The end of the migration of a relay, as a change of its row. -/
def Lifecycle.arriving : Relay → Relay :=
  moved (fun r => .migrationCompleted (r.preMigrationState = some .running))
    fun _ r => { r with preMigrationState := none }

section
variable {ι α : Type}

/-- A migration of the relay begins, which was in state `x`. -/
def Moment.Departs (id : RelayId) (x : RelayState) (e : Moment ι α) : Prop :=
  e.move.action = .leaving id ∧ e.before.registry.IsIn id x ∧
    nextState x .migrationStarted = .ok (.to .migrating)

/-- The last migration of the relay that has begun has found it in state `x`. -/
def LeftFrom (h : List (Moment ι α)) (id : RelayId) (x : RelayState) : Prop :=
  Since (Moment.Departs id x) (fun e => ∃ y, Moment.Departs id y e) h

end

/-- Migrations begin in `running` and in `stopped`. -/
theorem RelayState.running_or_stopped_of_migrationStarted {x : RelayState} {t : Transition}
    (h : nextState x .migrationStarted = .ok t) : x = .running ∨ x = .stopped := by
  cases x <;> first | exact .inl rfl | exact .inr rfl | cases h

/-- Only the beginning of a migration leads to `migrating`. -/
theorem RelayState.after_eq_migrating {x : RelayState} {op : RelayOp}
    (h : x.after op = .migrating) (hop : op ≠ .migrationStarted) : x = .migrating := by
  cases op with
  | migrationStarted => exact absurd rfl hop
  | migrationCompleted b => cases b <;> cases x <;> first | rfl | cases h
  | _ => cases x <;> first | rfl | cases h

/-! ## What a step does to what a row remembers -/

/-- How the row that stands under a key after a regular step has come there, as far as migrations
are concerned. -/
inductive MigrationStep (g : Registry) (a : Action) (id : RelayId) (r' : Relay) : Prop
  | stores (action : a = .transact (.putRelay r')) (id_eq : r'.id = id)
    (state : r'.state = .stopped) (pre : r'.preMigrationState = none)
  /-- It remembers what it did before, and no migration begins. -/
  | keeps {r : Relay} (row : g.relay? id = some r)
    (pre : r'.preMigrationState = r.preMigrationState)
    (state : r'.state = .migrating →
      r.state = .migrating ∨ a = .transact (.restoring id .migrating))
    (stays : a = .leaving id → nextState r.state .migrationStarted ≠ .ok (.to .migrating))
  | departs {r : Relay} (row : g.relay? id = some r) (action : a = .leaving id)
    (legal : nextState r.state .migrationStarted = .ok (.to .migrating))
    (pre : r'.preMigrationState = some r.state)
  | arrives {r : Relay} (row : g.relay? id = some r) (state : r.state = .migrating)
    (state' : r'.state = .running ∨ r'.state = .stopped) (pre : r'.preMigrationState = none)

/-- An operation that is not one of a migration. -/
theorem MigrationStep.of_moved {g : Registry} {id : RelayId} {r : Relay} {a : Action} {op : RelayOp}
    {onMove : RelayState → Relay → Relay} {time : Millis} (row : g.relay? id = some r)
    (stays : a = .leaving id → nextState r.state .migrationStarted ≠ .ok (.to .migrating))
    (hop : op ≠ .migrationStarted)
    (hmove : ∀ s r, (onMove s r).state = r.state ∧
      (onMove s r).preMigrationState = r.preMigrationState) :
    MigrationStep g a id { Lifecycle.moved (fun _ => op) onMove r with updatedAt := time } := by
  refine .keeps row ?_ (fun h => .inl ?_) stays
  · unfold Lifecycle.moved
    split
    · exact (hmove _ _).2
    · rfl
  · have hstate : (Lifecycle.moved (fun _ => op) onMove r).state = r.state.after op :=
      Lifecycle.state_moved (fun s r => (hmove s r).1) r
    exact RelayState.after_eq_migrating (hstate.symm.trans h) hop

/-- The row under a key after a regular step has come there in one of these ways. -/
theorem Action.IsRegular.migrationStep {a : Action} (ha : a.IsRegular) {g : Registry} (hg : g.Sound)
    {time : Millis} {id : RelayId} {r' : Relay}
    (hr' : (a.registryAfter time g).relay? id = some r') : MigrationStep g a id r' := by
  by_cases hdeparts : ∃ r, g.relay? id = some r ∧ a = .leaving id ∧
      nextState r.state .migrationStarted = .ok (.to .migrating)
  · obtain ⟨r, hr, rfl, hlegal⟩ := hdeparts
    rw [leaving, registryAfter, Transaction.run, hg.updateRelay_some hr,
      Registry.relay?_withRow_self] at hr'
    cases hr'
    refine .departs hr rfl hlegal ?_
    simp [Lifecycle.moved, hlegal]
  have stays : ∀ r, g.relay? id = some r → a = .leaving id →
      nextState r.state .migrationStarted ≠ .ok (.to .migrating) :=
    fun r hr ha hlegal => hdeparts ⟨r, hr, ha, hlegal⟩
  cases a.rowOrigin hr' with
  | rests row => exact .keeps row rfl .inl (stays _ row)
  | stores action id_eq =>
    subst action
    cases ha with
    | serves h =>
      cases h with
      | upkeep h =>
        cases h
        exact .stores rfl id_eq rfl rfl
    | booking h => cases h
  | @changes r change row action eq =>
    subst action eq
    cases ha with
    | serves h =>
      cases h with
      | upkeep h =>
        cases h with
        | applies _ goes_on =>
          refine .of_moved row (stays r row) ?_ fun _ _ => ⟨rfl, rfl⟩
          rintro rfl
          exact goes_on
        | halts _ ends =>
          refine .of_moved row (stays r row) ?_ fun _ _ => ⟨rfl, rfl⟩
          rintro rfl
          rcases ends with h | h <;> cases h
        | leaves =>
          -- the relay does not depart, so its row is left as it is
          have hsame : Lifecycle.moved (fun _ => .migrationStarted)
              (fun source r => { r with preMigrationState := some source }) r = r := by
            have hillegal := stays r row rfl
            unfold Lifecycle.moved
            cases hx : r.state <;> simp_all [nextState]
          rw [hsame]
          exact .keeps row rfl .inl (stays r row)
        | arrives =>
          by_cases hstate : r.state = .migrating
          · cases hb : decide (r.preMigrationState = some .running) <;>
              exact .arrives row hstate (by simp [Lifecycle.moved, hstate, hb, nextState])
                (by simp [Lifecycle.moved, hstate, hb, nextState])
          · have hsame : Lifecycle.arriving r = r := by
              unfold Lifecycle.arriving Lifecycle.moved
              cases hx : r.state <;> simp_all [nextState]
            show MigrationStep g _ id { Lifecycle.arriving r with updatedAt := time }
            rw [hsame]
            exact .keeps row rfl .inl (stays r row)
        | restores =>
          refine .keeps row rfl (fun h => .inr ?_) (stays r row)
          cases h
          rfl
    | booking h =>
      cases h
      exact .keeps row rfl .inl (stays r row)
    | reports => exact .keeps row rfl .inl (stays r row)

/-! ## Stops that are to give a state back -/

/-- The call has stopped the relay in state `x` and is to give it this state back if the stop
fails. -/
def Duty.Returns (id : RelayId) (x : RelayState) (d : Duty) : Prop :=
  d = .stopping id x ∨ d = .stopFailed id x

section
variable {id : RelayId} {x : RelayState} {d : Duty}

/-- Who is to give a relay its state back has it in custody. -/
theorem Duty.Returns.tends (h : d.Returns id x) : d.Tends id .stopping := by
  rcases h with rfl | rfl <;> exact rfl

/-- A stop is to give back the state that it has found. -/
theorem Duty.Returns.of_next {op : RelayOp} {s : RelayState} (h : (d.next op id s).Returns id x) :
    s = x ∧ s.after op = .stopping := by
  refine ⟨?_, ((d.tends_next_iff op id s (.inl rfl)).mp h.tends).2⟩
  unfold Duty.next at h
  split at h <;> rcases h with h | h <;> cases h
  rfl

/-- Who is to give a state back was to do so before, or has just stopped the relay in it. -/
theorem Turn.returns {e e' : Errand} {x₀ y : Option RelayState} {a : Action} {r : a.Reply}
    (h : Turn id e x₀ a r e' y) (hd : e'.duty.Returns id x) :
    e.duty.Returns id x ∨ x₀ = some x ∧ y = some .stopping := by
  cases h with
  | rests => exact .inl hd
  | elsewhere _ _ hd' => exact absurd hd.tends.relay?_eq hd'
  | operates =>
    obtain ⟨rfl, hafter⟩ := Duty.Returns.of_next hd
    exact .inr ⟨rfl, by rw [hafter]⟩
  | provisions calls =>
    refine .inl ?_
    rcases hd with rfl | rfl <;> cases calls
    exact .inl rfl
  | misses | restores | removes | issues | stores => rcases hd with hd | hd <;> cases hd

end

/-! ## Runs -/

section
variable {ι : Type} {calls : ι → Operation} {h : List (Moment ι Outcome)} {g : Registry}
  {e : ι → Errand} {s s' : System ι Outcome} {m : Move ι} {e' : Errand} {id : RelayId} {r : Relay}
  {g₀ : Registry}

/-- What rows remember: the state from which the relay departed last. Migrating relays remember it,
and so do those that are to get this state back. -/
structure Remembrance (h : List (Moment ι Outcome)) (g : Registry) (e : ι → Errand) : Prop where
  leftFrom : ∀ id r x, g.relay? id = some r → r.preMigrationState = some x → LeftFrom h id x
  migrating : ∀ id r, g.relay? id = some r → r.state = .migrating → r.preMigrationState ≠ none
  returns : ∀ i id r, (e i).duty.Returns id .migrating → g.relay? id = some r →
    r.preMigrationState ≠ none

/-- A step after which the relay has the row `r'` leaves it remembering if it is migrating, or is to
get this state back. -/
theorem Remembrance.remembers {r' : Relay} (inv : Remembrance h s.registry e)
    (custody : AllInCustody calls g₀ h s.registry e)
    (hstep : MigrationStep s.registry m.action id r')
    (hnew : ∀ r : Relay, m.action = .transact (.putRelay r) → s.registry.state? r.id = none)
    (hreturns : r'.state = .migrating ∧ m.action ≠ .transact (.restoring id .migrating) ∨
      (∃ i, (e i).duty.Returns id .migrating) ∨
      s.registry.state? id = some .migrating ∧ r'.state = .stopping) :
    r'.preMigrationState ≠ none := by
  have hstopping : ∀ i, (e i).duty.Returns id .migrating → s.registry.state? id = some .stopping :=
    fun i hi => (custody.inCustody id _ (.inl rfl)).present i hi.tends
  cases hstep with
  | stores action id_eq state =>
    have habsent := hnew _ action
    rw [id_eq] at habsent
    rcases hreturns with ⟨hmigrating, -⟩ | ⟨i, hi⟩ | ⟨hmigrating, -⟩
    · rw [state] at hmigrating
      cases hmigrating
    · rw [hstopping i hi] at habsent
      cases habsent
    · rw [hmigrating] at habsent
      cases habsent
  | keeps row pre state =>
    rw [pre]
    rcases hreturns with ⟨hmigrating, hnot⟩ | ⟨i, hi⟩ | ⟨hmigrating, -⟩
    · exact inv.migrating id _ row ((state hmigrating).resolve_right hnot)
    · exact inv.returns i id _ hi row
    · rw [Registry.state?_eq row] at hmigrating
      exact inv.migrating id _ row (Option.some.inj hmigrating)
  | departs _ _ _ pre => simp [pre]
  | arrives row state state' =>
    -- the relay was migrating, and is not any more
    rcases hreturns with ⟨hmigrating, -⟩ | ⟨i, hi⟩ | ⟨-, hafter⟩
    · rw [hmigrating] at state'
      rcases state' with h | h <;> cases h
    · have hstate := hstopping i hi
      rw [Registry.state?_eq row, state] at hstate
      cases hstate
    · rw [hafter] at state'
      rcases state' with h | h <;> cases h

/-- The end of a migration gives the relay the state that its row remembers. -/
theorem Lifecycle.arriving_eq {x : RelayState} (hstate : r.state = .migrating)
    (hpre : r.preMigrationState = some x) (hx : x = .running ∨ x = .stopped) :
    arriving r = { r with state := x, preMigrationState := none } := by
  rcases hx with rfl | rfl <;> simp [arriving, moved, hstate, hpre, nextState]

/-- What is remembered is a state in which migrations begin. -/
theorem LeftFrom.running_or_stopped {x : RelayState} (hx : LeftFrom h id x) :
    x = .running ∨ x = .stopped := by
  obtain ⟨-, e, -, -, hdeparts, -⟩ := hx
  exact RelayState.running_or_stopped_of_migrationStarted hdeparts.2.2

variable [DecidableEq ι]

/-- A step of an errand leaves rows remembering where their relays departed from last. -/
theorem Remembrance.step (inv : Remembrance h s.registry e)
    (custody : AllInCustody calls g₀ h s.registry e) (hsound : s.registry.Sound)
    (hs : RelayFleet.Step s m s') (ha : m.action.IsRegular)
    (hturn : ∀ id, Turn id (e m.caller) (s.registry.state? id) m.action m.reply e'
      (s'.registry.state? id))
    (hnew : ∀ r : Relay, m.action = .transact (.putRelay r) → s.registry.state? r.id = none) :
    Remembrance (h ++ [⟨s, m⟩]) s'.registry (Function.update e m.caller e') := by
  have hstep : ∀ {id r'}, s'.registry.relay? id = some r' →
      MigrationStep s.registry m.action id r' := by
    intro id r' hr'
    rw [hs.registry_eq] at hr'
    exact ha.migrationStep hsound hr'
  refine ⟨fun id r' x hr' hx => ?_, fun id r' hr' hstate => ?_, fun i id r' => ?_⟩
  · refine Since.snoc_iff.mpr ?_
    cases hstep hr' with
    | stores _ _ _ pre | arrives _ _ _ pre =>
      rw [pre] at hx
      cases hx
    | keeps row pre _ stays =>
      refine .inr ⟨inv.leftFrom id _ x row (pre ▸ hx), ?_⟩
      rintro ⟨y, haction, ⟨r, hr, rfl⟩, hlegal⟩
      rw [show s.registry.relay? id = some r from hr] at row
      cases row
      exact stays haction hlegal
    | departs row action legal pre =>
      rw [pre] at hx
      cases hx
      exact .inl ⟨action, ⟨_, row, rfl⟩, legal⟩
  · by_cases hrestores : m.action = .transact (.restoring id .migrating)
    · -- a failed stop gives the relay this state back
      refine inv.remembers custody (hstep hr') hnew (.inr (.inl ⟨m.caller, ?_⟩))
      rcases (hturn id).of_restoring hrestores with hd | hd
      · exact .inr hd
      · have hsourced := custody.isSourced m.caller
        rw [hd] at hsourced
        cases hsourced
    · exact inv.remembers custody (hstep hr') hnew (.inl ⟨hstate, hrestores⟩)
  · refine (Function.forall_update_iff e fun _ x => x.duty.Returns id .migrating →
      s'.registry.relay? id = some r' → r'.preMigrationState ≠ none).mpr ⟨?_, ?_⟩ i
    · intro hd hr'
      refine inv.remembers custody (hstep hr') hnew ?_
      rcases (hturn id).returns hd with hd | ⟨hbefore, hafter⟩
      · exact .inr (.inl ⟨m.caller, hd⟩)
      · rw [Registry.state?_eq hr'] at hafter
        exact .inr (.inr ⟨hbefore, Option.some.inj hafter⟩)
    · intro j _ hd hr'
      exact inv.remembers custody (hstep hr') hnew (.inr (.inl ⟨j, hd⟩))

/-- In a run of errands from a registry without relays every row remembers where its relay departed
from last, and those of migrating relays do. -/
theorem Run.remembrance (hcalls : ∀ i, (calls i).IsErrand)
    (run : Run (System.start .empty fun i => (calls i).program) h s) (hids : IdsLast .empty h) :
    ∃ e : ι → Errand, Remembrance h s.registry e ∧ s.registry.Sound := by
  have hissued : Registry.empty.Issued := fun id hid => absurd (Registry.relay?_empty id) hid
  obtain ⟨e, ⟨-, inv, -⟩, -, hsound, -⟩ := run.turns (K := IdsLast .empty)
    (I := fun h g e => AllInCustody calls .empty h g e ∧ Remembrance h g e ∧ g.Sound)
    Registry.sound_empty hcalls (fun _ _ => IdsLast.of_snoc)
    ⟨.start, ⟨by simp, by simp, by simp⟩, Registry.sound_empty⟩
    (fun h s e m s' e' run hids hcall inv hs hp hturn => by
      obtain ⟨custody, inv, hsound⟩ := inv
      have ha : m.action.IsRegular := (run.step hs).regular ⟨s, m⟩ (by simp)
      have hnew : ∀ r : Relay, m.action = .transact (.putRelay r) →
          s.registry.state? r.id = none := fun _ ha =>
        run.state?_of_stores Registry.sound_empty hissued hids.of_snoc hs ha
      refine ⟨custody.step (hcall _) hs hp hturn hnew,
        inv.step custody hsound hs ha hturn hnew, ?_⟩
      rw [hs.registry_eq]
      exact ha.sound hsound _) hids
  exact ⟨e, inv, hsound⟩

/-- **A migration returns a relay to where it was.** In any run of lifecycle calls, migrations,
assignments and reports from a registry without relays, in any order of steps and with any outcomes
of the provisioner, the row of a migrating relay remembers the state from which the relay departed
last, which is `running` or `stopped`. The end of the migration, whenever it comes, is one
transaction, which gives the row exactly this state and lets it remember none, and the call ends
with the row that was written. -/
theorem Run.resumes (hcalls : ∀ i, (calls i).IsErrand)
    (run : Run (System.start .empty fun i => (calls i).program) h s) (hids : IdsLast .empty h)
    (hr : s.registry.relay? id = some r) (hstate : r.state = .migrating) :
    ∃ x, (x = .running ∨ x = .stopped) ∧ r.preMigrationState = some x ∧ LeftFrom h id x ∧
      ∃ next, (Operation.migrationCompleted id).program =
          .ask (.transact (.updateRelay id Lifecycle.arriving)) next ∧
        ∀ time, let r' := { r with state := x, preMigrationState := none, updatedAt := time }
          Transaction.run time s.registry (.updateRelay id Lifecycle.arriving) =
            (.ok ⟨r, r'⟩, s.registry.withRow id r') ∧
          next (.ok ⟨r, r'⟩) = .pure (.relay (.ok r')) := by
  obtain ⟨e, inv, hsound⟩ := run.remembrance hcalls hids
  obtain ⟨x, hpre⟩ := Option.ne_none_iff_exists'.mp (inv.migrating id r hr hstate)
  have hleft := inv.leftFrom id r x hr hpre
  have hx := hleft.running_or_stopped
  refine ⟨x, hx, hpre, hleft, _, rfl, fun time => ⟨?_, ?_⟩⟩
  · rw [Transaction.run, hsound.updateRelay_some hr, Lifecycle.arriving_eq hstate hpre hx]
  · cases r
    cases hstate
    cases hpre
    rcases hx with rfl | rfl <;> rfl

end

/-- A relay is made, started and migrated, and a stop is tried in between. -/
def migratingCalls : Fin 4 → Operation
  | 0 => .create "zone-a" default
  | 1 => .start (Registry.relayId 1)
  | 2 => .migrationStarted (Registry.relayId 1)
  | 3 => .stop (Registry.relayId 1)

/-- A stop has taken a running relay out of its migration, and has given it back. -/
theorem Run.resumes_migrating :
    ∃ (h : List (Moment (Fin 4) Outcome)) (s : System (Fin 4) Outcome) (r : Relay),
      (∀ i, (migratingCalls i).IsErrand) ∧ IdsLast .empty h ∧
      Run (System.start .empty fun i => (migratingCalls i).program) h s ∧
      s.registry.relay? (Registry.relayId 1) = some r ∧ r.state = .migrating ∧
      r.preMigrationState = some .running ∧ LeftFrom h (Registry.relayId 1) .running := by
  let s₀ : System (Fin 4) Outcome := .start .empty fun i => (migratingCalls i).program
  let r (x : RelayState) : Relay :=
    { Relay.fresh 0 (Registry.relayId 1) "zone-a" none 0 with state := x }
  let away (x : RelayState) : Relay := { r x with preMigrationState := some .running }
  have herrands : ∀ i, (migratingCalls i).IsErrand
    | 0 => trivial
    | 1 => trivial
    | 2 => trivial
    | 3 => trivial
  have hg : ({ Registry.empty with sequence := 1 } : Registry).Sound := Registry.sound_empty
  have created := (((((Run.start : Run s₀ [] s₀).perform
    0 rfl 0 (.ok (Registry.relayId 1)) rfl).perform 0 rfl 0 (.ok ⟨none, 0⟩) trivial).perform
    0 rfl 0 0 rfl).perform 0 rfl 0 (.ok ()) rfl).perform 0 rfl 0 () trivial
  have starting := created.changeRow hg rfl rfl 1 rfl 0 (r .starting) rfl
  have running := (starting.perform 1 rfl 0 (.ok ()) trivial).changeRow
    hg rfl rfl 1 rfl 0 (r .running) rfl
  have leaves := running.changeRow hg rfl rfl 2 rfl 0 (away .migrating) rfl
  have stopping := leaves.changeRow hg rfl rfl 3 rfl 0 (away .stopping) rfl
  have returned := (stopping.perform 3 rfl 0 (.error ⟨.stop, "timeout"⟩) trivial).changeRow
    hg rfl rfl 3 rfl 0 (away .migrating) rfl
  have hids : Registry.empty.sequence.toNat + 1 < 2 ^ 64 := by decide
  have hrow := Registry.relay?_withRow_self { Registry.empty with sequence := 1 }
    (Registry.relayId 1) (away .migrating)
  obtain ⟨x, -, hpre, hleft, -⟩ := Run.resumes herrands returned hids hrow rfl
  cases hpre
  refine ⟨_, _, _, herrands, ?_, returned, hrow, rfl, rfl, hleft⟩
  exact hids

end RelayFleet
