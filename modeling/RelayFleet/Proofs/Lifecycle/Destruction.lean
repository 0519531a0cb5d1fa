import RelayFleet.Proofs.Lifecycle.Custody
import RelayFleet.Proofs.Registry.Reuse

/-!
# Whether an acknowledged destruction is final

A call to destroy a relay returns without an error where it has deleted the row, and also where it
has found the relay destroyed (`Run.acknowledges`). In the second case the relay is in the custody
of another call, which waits for the provisioner. Nothing but the end of that custody takes the
relay out of `destroyed`: the deletion of its row, after which it never comes back, or a failure,
after which it is stopped again. So what was acknowledged is final if and only if no destruction
gives the relay its state back later (`Reopened.destroyed_final_iff`).
-/

namespace RelayFleet

open Protocol

/-! ## What is said of a destruction -/

section
variable {ι : Type}

/-- A call to destroy the relay has returned without an error. -/
def Acknowledged (calls : ι → Operation) (s : System ι Outcome) (id : RelayId) : Prop :=
  ∃ i, calls i = .destroy id ∧ s.calls i = .pure (.destroyed (.ok ()))

/-- What was acknowledged holds now: the relay is in no state but `destroyed`, and there is no row
for it when all calls have returned. -/
structure Final (calls : ι → Operation) (s : System ι Outcome) (id : RelayId) : Prop where
  destroyed : Acknowledged calls s id → ∀ x, s.registry.IsIn id x → x = .destroyed
  gone : Acknowledged calls s id → s.Finished → s.registry.relay? id = none

/-- A call to destroy the relay gives it its state back. -/
def Moment.Undoes (calls : ι → Operation) (e : Moment ι Outcome) (id : RelayId) : Prop :=
  calls e.move.caller = .destroy id ∧ ∃ x, e.move.action = .transact (.restoring id x)

variable [DecidableEq ι] {calls : ι → Operation} {s s' : System ι Outcome} {m : Move ι}
  {id : RelayId}

/-- What is acknowledged stays acknowledged. -/
theorem Acknowledged.step (ha : Acknowledged calls s id) (hs : RelayFleet.Step s m s') :
    Acknowledged calls s' id := by
  obtain ⟨i, hcall, hreturned⟩ := ha
  refine ⟨i, hcall, ?_⟩
  rw [hs.calls_of_ne, hreturned]
  rintro rfl
  exact hs.ne_pure _ hreturned

end

/-! ## How a destruction comes to be acknowledged -/

/-- What a call that is to destroy a relay knows of it: nothing yet, or that the relay was destroyed
when it looked, or that it has deleted the row itself. -/
inductive Verdict where
  | pending
  | found
  | deleted

/-- The steps to the verdict of a destruction. A call that has found the relay destroyed takes
none. -/
inductive Verdict.Step (id : RelayId) : Verdict → (a : Action) → a.Reply → Verdict → Prop
  | waits {v : Verdict} {a : Action} {r : a.Reply} (hv : v ≠ .found) : Step id v a r v
  | finds {c : Registry.Change} (hstate : c.before.state = .destroyed) :
    Step id .pending
      (.transact (.updateRelay id (Lifecycle.moved (fun _ => .destroy) fun _ r => r)))
      (.ok c) .found
  | deletes {r : StoreResult Bool} : Step id .pending (.transact (.deleteRelay id)) r .deleted

/-- The protocol of the verdicts on a relay. -/
def verdicts (id : RelayId) : Protocol Verdict where
  Meets _ := True
  Step := Verdict.Step id

section
variable {id : RelayId}

/-- A program that is not asked for a verdict gives none. -/
theorem Fleet.follows_verdicts {α : Type} (p : Fleet α) {v : Verdict} (hv : v ≠ .found) :
    (verdicts id).Follows v p fun v' _ => v' = v := by
  induction p with
  | pure a => exact rfl
  | ask a next ih => exact fun r _ => ⟨v, .waits hv, ih r⟩

/-- The first transaction of a destruction leaves the relay alone only where it finds it
destroyed. -/
theorem Lifecycle.verdict_apply :
    (verdicts id).Follows .pending (apply id .destroy).run fun v x =>
      (v = .found ∧ ∃ applied, x = .ok applied ∧ applied.transition = .unchanged) ∨
        v = .pending ∧ ∀ applied, x = .ok applied → applied.transition ≠ .unchanged := by
  refine Follows.bindExcept (S := fun v x => match x with
    | .ok c => v = .found ∧ c.before.state = .destroyed ∨
        v = .pending ∧ c.before.state ≠ .destroyed
    | .error _ => v = .pending) (Follows.attempt fun r _ => ?_) ?_ ?_
  · cases r with
    | error e => exact ⟨.pending, .waits (by simp), rfl⟩
    | ok c =>
      by_cases hstate : c.before.state = .destroyed
      · refine ⟨.found, .finds hstate, ?_⟩
        exact Or.inl ⟨rfl, hstate⟩
      · refine ⟨.pending, .waits (by simp), ?_⟩
        exact Or.inr ⟨rfl, hstate⟩
  · rintro v c (⟨rfl, hstate⟩ | ⟨rfl, hstate⟩)
    · dsimp only
      rw [hstate]
      exact .inl ⟨rfl, _, rfl, rfl⟩
    · dsimp only
      cases hfrom : c.before.state with
      | destroyed => exact absurd hfrom hstate
      | stopped => exact Or.inr ⟨rfl, by rintro _ ⟨⟩; simp⟩
      | _ => exact Or.inr ⟨rfl, by rintro _ ⟨⟩⟩
  · rintro v e rfl
    exact .inr ⟨rfl, by simp⟩

/-- A destruction that returns without an error has a verdict, and one that has found the relay
destroyed returns so. -/
theorem Lifecycle.verdict_destroy :
    (verdicts id).Follows .pending (destroy id).run fun v x => x = .ok () → v ≠ .pending := by
  refine Follows.bindExcept Lifecycle.verdict_apply ?_ (by simp)
  rintro v ⟨relay, source, transition⟩ (⟨rfl, _, ⟨⟩, rfl⟩ | ⟨rfl, hmoves⟩)
  · rintro -
    simp
  · cases transition with
    | unchanged => exact absurd rfl (hmoves _ rfl)
    | _ =>
      refine Follows.lift (Q := fun v _ => v = .pending)
        (Fleet.follows_verdicts _ (by simp)) ?_
      rintro _ r rfl
      cases r with
      | error e =>
        refine Follows.bindExcept (S := fun _ _ => True)
          ((Fleet.follows_verdicts (restore id source).run (by simp)).mono fun _ _ _ => trivial)
          ?_ (by simp)
        rintro v - -
        rintro ⟨⟩
      | ok =>
        refine Follows.bindExcept (S := fun v _ => v = .deleted)
          (Follows.attempt fun r _ => ⟨.deleted, .deletes, rfl⟩) ?_ (by simp)
        rintro _ - rfl
        refine (Fleet.follows_verdicts _ (by simp)).mono ?_
        rintro _ _ rfl
        simp

/-- Every call follows the protocol of verdicts, and a destruction that was acknowledged has one. -/
theorem Operation.follows_verdicts (c : Operation) :
    (verdicts id).Follows .pending c.program fun v o =>
      c = .destroy id → o = .destroyed (.ok ()) → v ≠ .pending := by
  by_cases hc : c = .destroy id
  · subst hc
    refine Follows.bind Lifecycle.verdict_destroy ?_
    rintro v x hx - hok
    cases hok
    exact hx rfl
  · exact (Fleet.follows_verdicts (v := .pending) _ (by simp)).mono fun _ _ _ h => absurd h hc

end

section
variable {ι : Type} [DecidableEq ι] {calls : ι → Operation} {g : Registry}
  {h : List (Moment ι Outcome)} {s s' : System ι Outcome} {m : Move ι} {id : RelayId}

/-- A destruction is acknowledged by a step that finds the relay destroyed, or by one that deletes
its row, or after such a deletion. -/
theorem Run.acknowledges (run : Run (System.start g fun i => (calls i).program) h s)
    (hsound : s.registry.Sound) (hs : RelayFleet.Step s m s')
    (hbefore : ¬ Acknowledged calls s id) (hafter : Acknowledged calls s' id) :
    m.action.Applies .destroy id ∧ s.registry.IsIn id .destroyed ∨
      ∃ e ∈ h ++ [⟨s, m⟩], e.move.action = .transact (.deleteRelay id) := by
  let inv (h : List (Moment ι Outcome)) (_ : System ι Outcome) (v : ι → Verdict) : Prop :=
    ∀ i, v i = .deleted → ∃ e ∈ h, e.move.action = .transact (.deleteRelay id)
  have hstep : ∀ h s v m s' v', Run (System.start g fun i => (calls i).program) h s →
      inv h s v → RelayFleet.Step s m s' → Verdict.Step id (v m.caller) m.action m.reply v' →
      inv (h ++ [⟨s, m⟩]) s' (Function.update v m.caller v') := by
    rintro h s v m s' v' - hinv - hp
    have hmore : ∀ i, v i = .deleted → ∃ e ∈ h ++ [⟨s, m⟩],
        e.move.action = .transact (.deleteRelay id) := by
      intro i hi
      obtain ⟨e, he, ha⟩ := hinv i hi
      exact ⟨e, List.mem_append_left _ he, ha⟩
    obtain ⟨i, a, time, r⟩ := m
    refine (Function.forall_update_iff v fun _ x => x = .deleted → _).mpr
      ⟨fun hv => ?_, fun i _ => hmore i⟩
    change Verdict.Step id (v i) a r v' at hp
    generalize hi : v i = x at hp
    cases hp with
    | waits => exact hmore i (hi.trans hv)
    | finds => cases hv
    | deletes => exact ⟨_, List.mem_append_right _ List.mem_cons_self, rfl⟩
  obtain ⟨v, hdeleted, hf⟩ := run.follows (P := verdicts id) (I := inv)
    (fun i => (calls i).follows_verdicts) (by simp [inv]) (fun _ _ _ _ => trivial) hstep
  obtain ⟨i, hcall, hreturned⟩ := hafter
  have hi : i = m.caller := by
    by_contra hne
    exact hbefore ⟨i, hcall, hs.calls_of_ne hne ▸ hreturned⟩
  subst hi
  obtain ⟨v', hp, hend⟩ := (hf m.caller).step hs trivial
  rw [hreturned] at hend
  have hv' : v' ≠ .pending := hend hcall rfl
  have hanswers := hs.answers
  obtain ⟨i, a, time, r⟩ := m
  change Verdict.Step id (v i) a r v' at hp
  generalize hi : v i = x at hp
  cases hp with
  | finds hstate =>
    exact .inl ⟨⟨_, fun _ _ => rfl, rfl⟩, _, (hsound.run_updateRelay hanswers).1, hstate⟩
  | deletes => exact .inr ⟨_, List.mem_append_right _ List.mem_cons_self, rfl⟩
  | waits hv =>
    cases v' with
    | deleted =>
      obtain ⟨e, he, ha⟩ := hdeleted i hi
      exact .inr ⟨e, List.mem_append_left _ he, ha⟩
    | pending => exact absurd rfl hv'
    | found => exact absurd rfl hv

end

/-! ## What a turn makes of a relay that is destroyed or gone -/

/-- An operation gives no state back. -/
theorem Action.Applies.ne_restoring {id : RelayId} {a : Action} {op : RelayOp} {x : RelayState}
    (h : a.Applies op id) : a ≠ .transact (.restoring id x) := by
  obtain ⟨_, hkeeps, rfl⟩ := h
  intro heq
  injection heq with heq
  injection heq with _ hmoved
  exact Lifecycle.moved_ne_restoring hkeeps hmoved

/-- Only a destruction keeps a relay destroyed. -/
theorem Operation.Keeps.eq_destroy {id : RelayId} {c : Operation} (h : c.Keeps id .destroyed) :
    c = .destroy id := by
  cases h
  rfl

section
variable {id : RelayId} {e e' : Errand} {x y : Option RelayState} {a : Action} {r : a.Reply}

/-- Only a call that has destroyed the relay deletes its row. -/
theorem Turn.of_deletes (h : Turn id e x a r e' y) (ha : a = .transact (.deleteRelay id)) :
    e.duty = .gone id := by
  cases h with
  | rests hneutral =>
    subst ha
    cases hneutral
  | elsewhere hne =>
    subst ha
    exact absurd rfl hne
  | removes => rfl
  | operates | misses | provisions | restores | issues | stores => cases ha

/-- A relay that is destroyed or gone stays so, unless it is given a state back or stored. -/
theorem Turn.destroyed_or_gone (h : Turn id e x a r e' y)
    (hx : x = none ∨ x = some .destroyed)
    (hrestores : x = some .destroyed → ∀ s, a ≠ .transact (.restoring id s))
    (hstores : ∀ r, a = .transact (.putRelay r) → r.id ≠ id) :
    y = none ∨ y = some .destroyed := by
  cases h with
  | operates =>
    obtain hx | ⟨⟨⟩⟩ := hx
    · cases hx
    · exact .inr (congrArg some (RelayState.after_of_destroyed _))
  | restores =>
    rcases hx with rfl | rfl
    · exact .inl rfl
    · exact absurd rfl (hrestores rfl _)
  | stores hid => exact absurd hid (hstores _ rfl)
  | misses | removes => exact .inl rfl
  | rests | elsewhere | provisions | issues => exact hx

end

/-! ## Runs of errands on a registry that was opened again -/

section
variable {ι : Type} {calls : ι → Operation} {g : Registry}
  {h₀ h : List (Moment ι Outcome)} {s s' : System ι Outcome} {m : Move ι} {id : RelayId}

/-- The relay was stored, and now it is destroyed or gone. -/
structure Ended (h : List (Moment ι Outcome)) (g : Registry) (id : RelayId) : Prop where
  stored : id ∈ storedIds h
  state : g.state? id = none ∨ g.state? id = some .destroyed

variable [DecidableEq ι]

/-- A relay that was stored is not stored again. -/
theorem Reopened.id_ne_of_stores {e : Moment ι Outcome} (hlast : Reopened (h ++ [e]) g)
    (hids : issuedIn (h ++ [e]) < 2 ^ 64) (hid : id ∈ storedIds h) {r : Relay}
    (ha : e.move.action = .transact (.putRelay r)) : r.id ≠ id := by
  have hnodup := (hlast.standing hids).unreused.stored_nodup
  rw [storedIds_snoc, ha] at hnodup
  rintro rfl
  exact (List.nodup_append.mp hnodup).2.2 _ hid _ (by simp [Action.stored?]) rfl

section
variable (past : Reopened h₀ g) (hcalls : ∀ i, (calls i).IsErrand)
  (run : Run (System.start g fun i => (calls i).program) h s)
  (hids : issuedIn (h₀ ++ h) < 2 ^ 64)
include past hcalls run hids

/-- The calls of a run with what they owe. -/
theorem Reopened.allInCustody :
    ∃ e : ι → Errand, AllInCustody calls g h s.registry e ∧ s.registry.Sound ∧
      ∀ i, errands.Follows (e i) (s.calls i) fun e _ => e.duty = .idle := by
  rw [issuedIn_append] at hids
  obtain ⟨hsound, hissued, hsequence, -, -⟩ := past.standing (by omega)
  exact run.allInCustody hsound hissued hcalls (by rw [IdsLast]; omega)

/-- What a step of a run is to a relay, its caller having a duty. -/
theorem Reopened.turn (hs : RelayFleet.Step s m s') (id : RelayId) :
    ∃ (e : ι → Errand) (e' : Errand), AllInCustody calls g h s.registry e ∧
      Turn id (e m.caller) (s.registry.state? id) m.action m.reply e' (s'.registry.state? id) := by
  obtain ⟨e, custody, hsound, hf⟩ := past.allInCustody hcalls run hids
  obtain ⟨e', hp, -⟩ := (hf m.caller).step hs hsound
  refine ⟨e, e', custody, ?_⟩
  rw [hs.registry_eq]
  exact hp.turn hs.answers hsound id

/-- Where a call deletes a row there is one. -/
theorem Reopened.removes_of_deletes {e : Moment ι Outcome} (he : e ∈ h)
    (ha : e.move.action = .transact (.deleteRelay id)) : e.Removes id := by
  obtain ⟨h₁, h₂, rfl⟩ := List.append_of_mem he
  obtain ⟨s', run₁, hs, -⟩ := run.of_append_cons
  have hids₁ : issuedIn (h₀ ++ h₁) < 2 ^ 64 := by
    rw [issuedIn_append, issuedIn_append] at hids
    rw [issuedIn_append]
    omega
  obtain ⟨d, d', custody, hturn⟩ := past.turn hcalls run₁ hids₁ hs id
  have hpresent := (custody.inCustody id .destroyed (.inr rfl)).present e.move.caller
    (by rw [hturn.of_deletes ha]; rfl)
  refine ⟨ha, fun hnone => ?_⟩
  rw [Registry.state?, hnone] at hpresent
  cases hpresent

/-- Who gives a destroyed relay its state back has destroyed it. -/
theorem Reopened.undoes_of_restoring (hs : RelayFleet.Step s m s') {x : RelayState}
    (ha : m.action = .transact (.restoring id x))
    (hstate : s.registry.state? id = some .destroyed) :
    (⟨s, m⟩ : Moment ι Outcome).Undoes calls id := by
  obtain ⟨e, _, custody, hturn⟩ := past.turn hcalls run hids hs id
  refine ⟨?_, x, ha⟩
  rcases hturn.of_restoring ha with hd | hd
  · have hpresent := (custody.inCustody id .stopping (.inl rfl)).present m.caller
      (by rw [hd]; rfl)
    rw [hstate] at hpresent
    cases hpresent
  · have hunder := ((custody.inCustody id .destroyed (.inr rfl)).underWay_iff m.caller).mpr
      (by rw [hd]; rfl)
    exact hunder.1.eq_destroy

/-- A relay that a destruction gives its state back is not destroyed any more. -/
theorem Reopened.isIn_of_undoes (hs : RelayFleet.Step s m s')
    (hu : (⟨s, m⟩ : Moment ι Outcome).Undoes calls id) :
    ∃ x, x ≠ .destroyed ∧ s'.registry.IsIn id x := by
  obtain ⟨-, x, ha⟩ := hu
  obtain ⟨e, _, custody, hturn⟩ := past.turn hcalls run hids hs id
  have hduty := hturn.of_restoring ha
  have hsourced := custody.isSourced m.caller
  have hpresent : ∃ y, s.registry.IsIn id y := by
    rcases hduty with hd | hd
    · exact ⟨_, Registry.isIn_iff.mpr
        ((custody.inCustody id .stopping (.inl rfl)).present m.caller (by rw [hd]; rfl))⟩
    · exact ⟨_, Registry.isIn_iff.mpr
        ((custody.inCustody id .destroyed (.inr rfl)).present m.caller (by rw [hd]; rfl))⟩
  have hafter : s'.registry.state? id = (s.registry.relay? id).map fun _ => x := by
    rw [hs.registry_eq, ha]
    exact (Registry.state?_updateRelay _ m.time id _).trans (if_pos rfl)
  refine ⟨x, ?_, Registry.isIn_iff.mpr ?_⟩
  · rintro rfl
    rcases hduty with hd | hd <;> rw [hd] at hsourced <;> simp [Duty.IsSourced] at hsourced
  · obtain ⟨_, r, hr, -⟩ := hpresent
    rw [hafter, hr]
    rfl

end

/-- What has ended stays so in a step that gives it no state back. -/
theorem Reopened.ended_step (past : Reopened h₀ g) (hcalls : ∀ i, (calls i).IsErrand)
    (run : Run (System.start g fun i => (calls i).program) h s) (hs : RelayFleet.Step s m s')
    (hids : issuedIn (h₀ ++ (h ++ [⟨s, m⟩])) < 2 ^ 64) (hended : Ended (h₀ ++ h) s.registry id)
    (hrestores : s.registry.state? id = some .destroyed →
      ∀ x, m.action ≠ .transact (.restoring id x)) :
    Ended (h₀ ++ (h ++ [⟨s, m⟩])) s'.registry id := by
  have hlast := past.runs (run.step hs)
  rw [← List.append_assoc] at hids hlast ⊢
  have hids₀ : issuedIn (h₀ ++ h) < 2 ^ 64 := by
    rw [issuedIn_snoc] at hids
    omega
  obtain ⟨_, _, -, hturn⟩ := past.turn hcalls run hids₀ hs id
  refine ⟨?_, hturn.destroyed_or_gone hended.state hrestores
    fun r hr => hlast.id_ne_of_stores hids hended.stored hr⟩
  rw [storedIds_snoc]
  exact List.mem_append_left _ hended.stored

/-- A relay whose destruction was acknowledged has ended, as long as no destruction gives it its
state back after that. -/
theorem Reopened.ended (past : Reopened h₀ g) (hcalls : ∀ i, (calls i).IsErrand)
    (run : Run (System.start g fun i => (calls i).program) h s)
    (hids : issuedIn (h₀ ++ h) < 2 ^ 64)
    (hundoes : ∀ e ∈ h, e.Undoes calls id → ¬ Acknowledged calls e.before id)
    (ha : Acknowledged calls s id) : Ended (h₀ ++ h) s.registry id := by
  induction run with
  | start =>
    obtain ⟨i, hcall, hreturned⟩ := ha
    simp only [System.start, hcall] at hreturned
    cases hreturned
  | @step h s s' m run hs ih =>
    have hids₀ : issuedIn (h₀ ++ h) < 2 ^ 64 := by
      rw [← List.append_assoc, issuedIn_snoc] at hids
      omega
    by_cases hbefore : Acknowledged calls s id
    · refine past.ended_step hcalls run hs hids
        (ih hids₀ (fun e he => hundoes e (List.mem_append_left _ he)) hbefore) ?_
      intro hstate x haction
      exact hundoes ⟨s, m⟩ (by simp)
        (past.undoes_of_restoring hcalls run hids₀ hs haction hstate) hbefore
    · have hstands := (past.runs run).standing hids₀
      rcases run.acknowledges hstands.sound hs hbefore ha with ⟨happlies, hin⟩ | ⟨e, he, hdeletes⟩
      · have hstate := Registry.isIn_iff.mp hin
        obtain ⟨r, hr, -⟩ := hin
        refine past.ended_step hcalls run hs hids ⟨hstands.unreused.rows id ?_, .inr hstate⟩
          fun _ _ => happlies.ne_restoring
        rw [hr]
        exact Option.some_ne_none r
      · -- a row was deleted, and no relay is stored there again
        have hremoves := past.removes_of_deletes hcalls (run.step hs) hids he hdeletes
        obtain ⟨hid, hnone⟩ := ((past.runs (run.step hs)).standing hids).unreused.removed e
          (List.mem_append_right _ he) id hremoves
        exact ⟨hid, .inl (Option.map_eq_none_iff.mpr hnone)⟩

/-- What was acknowledged is final where no destruction gives the relay its state back afterwards,
and the row is not one that an earlier destruction has left behind. -/
theorem Reopened.final (past : Reopened h₀ g) (hcalls : ∀ i, (calls i).IsErrand)
    (run : Run (System.start g fun i => (calls i).program) h s)
    (hids : issuedIn (h₀ ++ h) < 2 ^ 64)
    (hundoes : ∀ e ∈ h, e.Undoes calls id → ¬ Acknowledged calls e.before id)
    (hleft : g.IsIn id .destroyed → s.Finished → ¬ Acknowledged calls s id) :
    Final calls s id := by
  refine ⟨fun ha x hx => ?_, fun ha hfinished => ?_⟩
  · have hstate := Registry.isIn_iff.mp hx
    rcases (past.ended hcalls run hids hundoes ha).state with hgone | hdestroyed
    · rw [hgone] at hstate
      cases hstate
    · rw [hdestroyed] at hstate
      exact (Option.some.inj hstate).symm
  · rcases (past.ended hcalls run hids hundoes ha).state with hgone | hdestroyed
    · exact Option.map_eq_none_iff.mp hgone
    · -- the destruction that keeps the relay has not returned
      obtain ⟨e, custody, -, hf⟩ := past.allInCustody hcalls run hids
      obtain ⟨i, hi⟩ := (custody.inCustody id .destroyed (.inr rfl)).tended hdestroyed
        fun hg => hleft (Registry.isIn_iff.mpr hg) hfinished ha
      obtain ⟨o, ho⟩ := hfinished i
      have hend := hf i
      rw [ho] at hend
      have hidle : (e i).duty = .idle := hend
      rw [hidle] at hi
      exact absurd hi Duty.not_tends_idle

/-- **When an acknowledged destruction is final.** Take any run of lifecycle calls, assignments and
reports, any number of destructions of the relay among them, in any order of steps and with any
outcomes of the provisioner, on a registry that went through anything before. From when a call to
destroy the relay has returned without an error, the relay is in no state but `destroyed`, and when
all calls have returned there is no row for it: this is so throughout the run if and only if no
destruction gives the relay its state back after another one was acknowledged, and none is
acknowledged on account of a row that was left behind, destroyed, when the registry was closed. -/
theorem Reopened.destroyed_final_iff (past : Reopened h₀ g) (hcalls : ∀ i, (calls i).IsErrand)
    (run : Run (System.start g fun i => (calls i).program) h s)
    (hids : issuedIn (h₀ ++ h) < 2 ^ 64) (id : RelayId) :
    ((∀ e ∈ h, Final calls e.before id) ∧ Final calls s id) ↔
      (∀ e ∈ h, e.Undoes calls id → ¬ Acknowledged calls e.before id) ∧
        (g.IsIn id .destroyed → s.Finished → ¬ Acknowledged calls s id) := by
  have hpart : ∀ {h₁ h₂}, h = h₁ ++ h₂ → issuedIn (h₀ ++ h₁) < 2 ^ 64 := by
    rintro h₁ h₂ rfl
    rw [issuedIn_append, issuedIn_append] at hids
    rw [issuedIn_append]
    omega
  constructor
  · rintro ⟨hbefore, hend⟩
    refine ⟨fun e he hu ha => ?_, fun hin hfinished ha => ?_⟩
    · obtain ⟨s', hs, hafter⟩ := run.after_of_mem (P := (Final calls · id)) hbefore hend he
      obtain ⟨h₁, h₂, rfl⟩ := List.append_of_mem he
      obtain ⟨_, run₁, -, -⟩ := run.of_append_cons
      obtain ⟨x, hx, hin⟩ := past.isIn_of_undoes hcalls run₁ (hpart rfl) hs hu
      exact hx (hafter.destroyed (ha.step hs) x hin)
    · obtain ⟨e, custody, -, -⟩ := past.allInCustody hcalls run hids
      have hstays := (custody.inCustody id .destroyed (.inr rfl)).abandoned
        (Registry.isIn_iff.mp hin)
      rw [Registry.state?, hend.gone ha hfinished] at hstays
      cases hstays.1
  · rintro ⟨hundoes, hleft⟩
    refine ⟨fun e he => ?_, past.final hcalls run hids hundoes hleft⟩
    obtain ⟨h₁, h₂, rfl⟩ := List.append_of_mem he
    obtain ⟨s', run₁, hs, -⟩ := run.of_append_cons
    refine past.final hcalls run₁ (hpart rfl)
      (fun e' he' => hundoes e' (List.mem_append_left _ he')) fun _ hfinished => ?_
    obtain ⟨o, ho⟩ := hfinished e.move.caller
    exact absurd ho (hs.ne_pure o)

end

/-! ## Two destructions of one relay -/

/-- A relay is made, and two calls are to destroy it. -/
def rivalDestructions : Fin 3 → Operation
  | 0 => .create "zone-a" default
  | 1 | 2 => .destroy (Registry.relayId 1)

/-- These are errands. -/
theorem rivalDestructions_isErrand : ∀ i, (rivalDestructions i).IsErrand
  | 0 | 1 | 2 => trivial

/-- The second destruction finds the relay destroyed while the first one waits for the provisioner,
and is acknowledged at once. Then the first one may fail, and the relay is stopped again; or it
succeeds. -/
theorem Run.rivalDestructions_acknowledged :
    (∃ (h : List (Moment (Fin 3) Outcome)) (s : System (Fin 3) Outcome),
      Run (System.start .empty fun i => (rivalDestructions i).program) h s ∧ issuedIn h = 1 ∧
      s.Finished ∧ Acknowledged rivalDestructions s (Registry.relayId 1) ∧
      s.registry.IsIn (Registry.relayId 1) .stopped) ∧
    ∃ (h : List (Moment (Fin 3) Outcome)) (s : System (Fin 3) Outcome),
      Run (System.start .empty fun i => (rivalDestructions i).program) h s ∧ issuedIn h = 1 ∧
      s.Finished ∧ Acknowledged rivalDestructions s (Registry.relayId 1) ∧
      ∀ e ∈ h, ¬ e.Undoes rivalDestructions (Registry.relayId 1) := by
  let s₀ : System (Fin 3) Outcome := .start .empty fun i => (rivalDestructions i).program
  let r (x : RelayState) : Relay :=
    { Relay.fresh 0 (Registry.relayId 1) "zone-a" none 0 with state := x }
  have hg : ({ Registry.empty with sequence := 1 } : Registry).Sound := Registry.sound_empty
  have created := (((((Run.start : Run s₀ [] s₀).perform
    0 rfl 0 (.ok (Registry.relayId 1)) rfl).perform 0 rfl 0 (.ok ⟨none, 0⟩) trivial).perform
    0 rfl 0 0 rfl).perform 0 rfl 0 (.ok ()) rfl).perform 0 rfl 0 () trivial
  have destroying := created.changeRow hg rfl rfl 1 rfl 0 (r .destroyed) rfl
  have acknowledged := destroying.changeRow hg rfl rfl 2 rfl 0 (r .destroyed) rfl
  have failed := (acknowledged.perform 1 rfl 0 (.error ⟨.destroy, "unreachable"⟩)
    trivial).changeRow hg rfl rfl 1 rfl 0 (r .stopped) rfl
  have succeeded := ((acknowledged.perform 1 rfl 0 (.ok ()) trivial).perform 1 rfl 0 _ rfl).perform
    1 rfl 0 () trivial
  refine ⟨⟨_, _, failed, rfl, ?_, ⟨2, rfl, rfl⟩, r .stopped, ?_, rfl⟩,
    ⟨_, _, succeeded, rfl, ?_, ⟨2, rfl, rfl⟩, ?_⟩⟩
  · exact fun
      | 0 => ⟨_, rfl⟩
      | 1 => ⟨_, rfl⟩
      | 2 => ⟨_, rfl⟩
  · exact Registry.relay?_withRow_self _ _ _
  · exact fun
      | 0 => ⟨_, rfl⟩
      | 1 => ⟨_, rfl⟩
      | 2 => ⟨_, rfl⟩
  · have happlies : Action.Applies .destroy (Registry.relayId 1) (.transact (.updateRelay
        (Registry.relayId 1) (Lifecycle.moved (fun _ => .destroy) fun _ r => r))) :=
      ⟨_, fun _ _ => rfl, rfl⟩
    simp only [List.nil_append, List.forall_mem_append, List.forall_mem_singleton]
    and_intros
    all_goals
      rintro ⟨-, x, hrestores⟩
      first | exact happlies.ne_restoring hrestores | simp [Transaction.restoring] at hrestores

/-- The destruction that finds the relay destroyed is acknowledged before the first one succeeds,
and what it was told is final. -/
theorem Reopened.destroyed_final_iff_rival :
    ∃ (h : List (Moment (Fin 3) Outcome)) (s : System (Fin 3) Outcome),
      Reopened ([] : List (Moment (Fin 3) Outcome)) .empty ∧
      (∀ i, (rivalDestructions i).IsErrand) ∧
      Run (System.start .empty fun i => (rivalDestructions i).program) h s ∧
      issuedIn ([] ++ h) < 2 ^ 64 ∧ s.Finished ∧
      Acknowledged rivalDestructions s (Registry.relayId 1) ∧
      (∀ e ∈ h, Final rivalDestructions e.before (Registry.relayId 1)) ∧
      Final rivalDestructions s (Registry.relayId 1) := by
  obtain ⟨-, h, s, run, hids, hfinished, hacknowledged, hundoes⟩ :=
    Run.rivalDestructions_acknowledged
  have hlast : issuedIn ([] ++ h) < 2 ^ 64 := by
    rw [List.nil_append, hids]
    decide
  have hempty : ¬ Registry.empty.IsIn (Registry.relayId 1) .destroyed := by
    simp [Registry.isIn_iff, Registry.state?]
  exact ⟨h, s, .new, rivalDestructions_isErrand, run, hlast, hfinished, hacknowledged,
    (Reopened.new.destroyed_final_iff rivalDestructions_isErrand run hlast _).mpr
      ⟨fun e he hu => absurd hu (hundoes e he), fun hin => absurd hin hempty⟩⟩

/-- An acknowledged destruction is not always final: the relay may be stopped again when all calls
have returned. -/
theorem Run.not_always_final :
    ¬ ∀ (calls : Fin 3 → Operation) (h : List (Moment (Fin 3) Outcome))
      (s : System (Fin 3) Outcome) (id : RelayId), (∀ i, (calls i).IsErrand) →
      Run (System.start .empty fun i => (calls i).program) h s → issuedIn h < 2 ^ 64 →
      Final calls s id := by
  intro hall
  obtain ⟨⟨h, s, run, hids, -, hacknowledged, hin⟩, -⟩ := Run.rivalDestructions_acknowledged
  have hfinal := hall _ h s (Registry.relayId 1) rivalDestructions_isErrand run
    (by rw [hids]; decide)
  have hdestroyed := hfinal.destroyed hacknowledged _ hin
  cases hdestroyed

end RelayFleet
