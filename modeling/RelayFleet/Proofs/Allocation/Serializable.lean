import RelayFleet.Proofs.Interleaving.Calls
import RelayFleet.Proofs.Interleaving.Serial

/-!
# Assignments and expansions are serializable

An assignment and the expansion of a zone do all their work on the registry while they have the
allocation lock, and every way out of that work leads to the release: an error of the registry or of
the provisioner is a value that the work ends with. So `Run.serializable` applies the replay of
`Run.serialized` to any family of such calls.
-/

namespace RelayFleet

open Protocol

/-! ## Work that leaves the lock alone -/

/-- A program that leaves the lock alone may be run under it. -/
theorem Asks.follows_inside {α : Type} {p : Fleet α} {P : α → Prop} (h : Asks Action.IsWork p P) :
    lockDiscipline.Follows .inside p fun φ a => φ = .inside ∧ P a := by
  induction p with
  | pure a => exact ⟨rfl, h⟩
  | ask a next ih =>
    intro r _
    obtain ⟨ha, hnext⟩ := h
    refine ⟨.inside, .works ?_ ?_, ih r (hnext r)⟩
    · rintro rfl
      exact ha
    · cases a <;> first | rfl | exact ha.elim

/-! ## Refusals -/

/-- An outcome that a call has without ever having had the lock. -/
def Outcome.IsRefusal : Outcome → Prop
  | .assigned (.error e) => e.IsRefusal
  | .expanded (.ok .deferred) => True
  | _ => False

/-- Under the lock an expansion leaves the lock alone. -/
theorem ScanRules.asks_expandLocked {rules : ScanRules} {zone : ZoneId} :
    Asks Action.IsWork (rules.expandLocked zone).run fun r => r ≠ .ok .deferred :=
  upkeep_expandLocked.isWork_of_upkeep

/-! ## The whole calls -/

section
variable {α : Type} {Refused : α → Prop}

/-- Work under the lock is framed by getting the lock and giving it back, and who does not get the
lock only announces it. -/
theorem follows_withLock {timeout : Duration} {busy : LockTimeout → Fleet α} {body : Fleet α}
    (hbusy : ∀ e, lockDiscipline.Follows .refused (busy e) (LockStage.Ends Refused))
    (hbody : Asks Action.IsWork body fun a => ¬ Refused a) :
    lockDiscipline.Follows .before (Fleet.withLock timeout busy body) (LockStage.Ends Refused) := by
  intro r _
  cases r with
  | error e => exact ⟨.refused, .gives_up, hbusy e⟩
  | ok =>
    refine ⟨.inside, .obtains, ?_⟩
    show lockDiscipline.Follows .inside (body >>= fun a => do Fleet.perform .release; return a) _
    refine Follows.bind hbody.follows_inside ?_
    rintro φ a ⟨rfl, ha⟩
    exact fun _ _ => ⟨.done, .releases, ha⟩

end

namespace Operation

/-- A call whose only writes are made under the lock. -/
def IsLocked : Operation → Prop
  | assign _ _ _ | expand _ _ => True
  | _ => False

/-- A call that writes under the lock only keeps the discipline. -/
theorem IsLocked.follows {op : Operation} (h : op.IsLocked) :
    lockDiscipline.Follows .before op.program (LockStage.Ends Outcome.IsRefusal) := by
  match op, h with
  | assign rules zone w, _ =>
    refine Follows.bind (Q := LockStage.Ends fun r => ∃ e, r = .error e ∧ e.IsRefusal) ?_ ?_
    · rw [AssignRules.assign]
      split
      · exact ⟨_, rfl, trivial⟩
      · refine follows_withLock (fun e => ⟨_, rfl, trivial⟩) ?_
        refine AssignRules.asks_assignLocked.mono (fun _ ha => ha.isWork) ?_
        intro a ha
        rintro ⟨e, rfl, he⟩
        exact ha e rfl he
    · refine fun φ a ha => LockStage.Ends.imp (β := Outcome) ha ?_
      cases a <;> simp [Outcome.IsRefusal]
  | expand rules zone, _ =>
    refine Follows.bind (Q := LockStage.Ends fun r => r = .ok .deferred) ?_ ?_
    · refine follows_withLock (fun e _ _ => ⟨.refused, .aside_refused rfl, rfl⟩) ?_
      exact ScanRules.asks_expandLocked
    · refine fun φ a ha => LockStage.Ends.imp (β := Outcome) ha ?_
      rcases a with e | o
      · simp [Outcome.IsRefusal]
      · cases o <;> simp [Outcome.IsRefusal]

end Operation

/-- **Assignments and expansions are serializable.** Whatever the order in which the steps of any
number of assignments and expansions are taken, and whatever the provisioner answers, the calls that
got the allocation lock could have been run one after the other, in the order in which they got it:
making the same moves, with the same answers and at the same times, they leave the same registry and
come to the same results. The calls that never had the lock are those that were refused, and no move
of theirs changes the registry. -/
theorem Run.serializable {ι : Type} [DecidableEq ι] {calls : ι → Operation}
    (hcalls : ∀ i, (calls i).IsLocked) {g : Registry} {h : List (Moment ι Outcome)}
    {s : System ι Outcome} (run : Run (System.start g fun i => (calls i).program) h s) :
    (lockOrder (movesOf h)).Nodup ∧
    (∃ h' s', Run (System.start g fun i => (calls i).program) h' s' ∧
      movesOf h' = serialMoves (movesOf h) ∧ s'.registry = s.registry ∧
      ∀ i ∈ lockOrder (movesOf h), s'.calls i = s.calls i) ∧
    ∀ i a, s.calls i = .pure a → (a.IsRefusal ↔ i ∉ lockOrder (movesOf h)) ∧
      (a.IsRefusal → ∀ e ∈ h, e.move.caller = i →
        e.move.action.registryAfter e.move.time e.before.registry = e.before.registry) := by
  obtain ⟨φ, inv, hφ⟩ := run.serialized (fun i => (hcalls i).follows) rfl
  refine ⟨inv.nodup, ?_, ?_⟩
  · obtain ⟨h', s', hrun, hmoves, hg, -, hin, -⟩ := inv.serial
    exact ⟨h', s', hrun, hmoves, hg, hin⟩
  · intro i a ha
    have hends := hφ i
    rw [ha] at hends
    have hiff : a.IsRefusal ↔ i ∉ lockOrder (movesOf h) := by
      rw [inv.mem_order_iff]
      revert hends
      cases φ i <;> simp [Follows, LockStage.Ends]
    refine ⟨hiff, ?_⟩
    intro hr e he hcaller
    exact Action.registryAfter_of_isAside (inv.aside e he (hcaller ▸ hiff.mp hr)) _ _

/-- Of two expansions of a zone one gets the lock and the other is put off while it is at work. -/
theorem Run.serializable_contended :
    ∃ (h : List (Moment Bool Outcome)) (s : System Bool Outcome),
      lockOrder (movesOf h) = [false] ∧ s.calls true = .pure (.expanded (.ok .deferred)) ∧
      ∃ h' s',
        Run (System.start .empty fun _ => (Operation.expand default "zone-a").program) h' s' ∧
        movesOf h' = serialMoves (movesOf h) ∧ s'.registry = s.registry ∧
        ∀ i ∈ lockOrder (movesOf h), s'.calls i = s.calls i := by
  let calls : Bool → Operation := fun _ => .expand default "zone-a"
  let s : System Bool Outcome := .start .empty fun i => (calls i).program
  have run := (((Run.start : Run s [] s).perform false rfl 0 (.ok ()) rfl).perform true rfl 0
    (.error ⟨allocationLockName, default⟩) rfl).perform true rfl 0 () trivial
  exact ⟨_, _, rfl, rfl, ((Run.serializable
    (show ∀ i, (calls i).IsLocked from fun _ => trivial) run).2.1)⟩

end RelayFleet
