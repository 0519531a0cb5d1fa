import RelayFleet.Proofs.Allocation.Staying
import RelayFleet.Proofs.Registry.Keyed

/-!
# Assignments that fail

An assignment that fails leaves no trace, even beside rows that cannot be read
(`GoesThrough.assign_fails`). Everything that can fail comes before the first write: an assignment
books a relay only that it has just read, so the binding is put down and the row of the relay is
there to be changed (`Alone.book_fails`). A workload in a phase in which it may not ask is refused
before the assignment asks for the lock.
-/

namespace RelayFleet

namespace Alone

variable {rules : AssignRules} {zone : ZoneId} {w : WorkloadId} {now : Millis} {g g' : Registry}
  {l : List Deed} {binding : Option Binding} {e : AllocError}

/-- Looking at the bound relay changes nothing, and a relay that it finds is there. -/
theorem previousRelay_reads {x : Except AllocError (Option Relay)}
    (h : Alone g (rules.previousRelay zone now binding).run l x g') :
    g' = g ∧ ∀ r, x = .ok (some r) → ∃ id, g.relay? id = some r := by
  match binding with
  | none =>
    obtain ⟨-, rfl, rfl⟩ := of_pure h
    exact ⟨rfl, by simp⟩
  | some ⟨_, none, _⟩ =>
    obtain ⟨-, rfl, rfl⟩ := of_pure h
    exact ⟨rfl, by simp⟩
  | some ⟨_, some id, _⟩ =>
    rcases h.andThen with ⟨e, rfl, h₁⟩ | ⟨l₁, found, g₁, l₂, -, h₁, h₂⟩
    · obtain ⟨_, -, -, hsame⟩ := h₁.attempt
      exact ⟨hsame, by simp⟩
    · obtain ⟨_, hrun⟩ := h₁.attempt_ok
      obtain ⟨hread, rfl⟩ := Prod.mk.inj hrun
      obtain ⟨-, rfl, rfl⟩ := of_pure h₂
      refine ⟨rfl, fun r hr => ⟨id, Registry.getRelay_eq_some_iff.mp ?_⟩⟩
      obtain ⟨hfound, -⟩ := Option.filter_eq_some_iff.mp (Except.ok.inj hr)
      exact hfound ▸ hread

/-- Picking from the pool changes nothing, and the relay that is picked is there. -/
theorem selectFromPool_reads {x : Except AllocError Relay}
    (h : Alone g (rules.selectFromPool zone).run l x g') :
    g' = g ∧ ∀ r, x = .ok r → ∃ id, g.relay? id = some r := by
  rcases h.andThen with ⟨e, rfl, h₁⟩ | ⟨l₁, running, g₁, l₂, -, h₁, h₂⟩
  · obtain ⟨_, -, -, hsame⟩ := h₁.attempt
    exact ⟨hsame, by simp⟩
  · obtain ⟨_, hrun⟩ := h₁.attempt_ok
    obtain ⟨hread, rfl⟩ := Prod.mk.inj hrun
    split at h₂
    · next r hpick =>
      obtain ⟨-, rfl, rfl⟩ := of_pure h₂
      refine ⟨rfl, ?_⟩
      rintro _ ⟨⟩
      have hmem := List.mem_of_mem_filter (PolicyKind.mem_of_select? hpick)
      exact (Registry.of_mem_listRelays hread hmem).2
    · obtain ⟨-, rfl, rfl⟩ := of_pure h₂
      exact ⟨rfl, by simp⟩

/-- Booking a relay that is there fails before it writes. -/
theorem book_fails {id : RelayId} {r : Relay} (hg : g.Keyed) (hr : g.relay? id = some r)
    (h : Alone g (rules.book binding w now r).run l (.error e) g') : g' = g := by
  obtain ⟨l₁, endpoint, g₁, l₂, -, h₁, h₂⟩ := h.bind
  cases hendpoint : RelayEndpoint.ofRelay r rules.endpoint with
  | error e =>
    rw [hendpoint] at h₁
    obtain ⟨-, rfl, rfl⟩ := of_pure h₁
    obtain ⟨-, -, rfl⟩ := of_pure h₂
    rfl
  | ok endpoint =>
    rw [hendpoint] at h₁
    obtain ⟨-, rfl, rfl⟩ := of_pure h₁
    change Alone g₁ (ExceptT.run (if binding.bind (·.relayId) ≠ some r.id then _ else _)) l₂ _ g'
      at h₂
    obtain rfl := hg id r hr
    split at h₂
    · obtain ⟨_, l₃, -, h₃⟩ := attempted h₂ fun _ => rfl
      have hput : (g₁.putBinding ⟨w, some r.id, now⟩).relay? r.id = some r := hr
      obtain ⟨_, l₄, -, h₄⟩ := attempted h₃ fun time => Registry.updateRelay_some hput time _
      obtain ⟨-, hx, -⟩ := of_pure h₄
      cases hx
    · obtain ⟨-, hx, -⟩ := of_pure h₂
      cases hx

/-- Under the lock an assignment fails before it writes. -/
theorem assignLocked_fails (hg : g.Keyed)
    (h : Alone g (rules.assignLocked zone w).run l (.error e) g') : g' = g := by
  obtain ⟨_, now, l₁, -, -, h₁⟩ := h.performed
  change Alone g _ l₁ _ g' at h₁
  rcases h₁.andThen with ⟨e, -, h₂⟩ | ⟨l₂, binding, g₂, l₃, -, h₂, h₃⟩
  · obtain ⟨_, -, -, hsame⟩ := h₂.attempt
    exact hsame
  obtain ⟨_, -, -, rfl : g₂ = g⟩ := h₂.attempt
  rcases h₃.andThen with ⟨e, -, h₄⟩ | ⟨l₄, found, g₄, l₅, -, h₄, h₅⟩
  · exact h₄.previousRelay_reads.1
  obtain ⟨rfl, hfound⟩ := h₄.previousRelay_reads
  cases found with
  | some r =>
    obtain ⟨id, hr⟩ := hfound r rfl
    exact book_fails hg hr h₅
  | none =>
    rcases h₅.andThen with ⟨e, -, h₆⟩ | ⟨l₆, r, g₆, l₇, -, h₆, h₇⟩
    · exact h₆.selectFromPool_reads.1
    · obtain ⟨rfl, hpicked⟩ := h₆.selectFromPool_reads
      obtain ⟨id, hr⟩ := hpicked r rfl
      exact book_fails hg hr h₇

end Alone

/-- A workload may not ask in its phase. -/
def AllocError.IsNotAssignable : AllocError → Prop
  | .notAssignable _ _ => True
  | _ => False

namespace GoesThrough

variable {ι : Type} [DecidableEq ι] {i : ι} {s s' : System ι Outcome} {h : List (Moment ι Outcome)}
  {rules : AssignRules} {zone : ZoneId} {w : Workload} {x : Except AllocError RelayEndpoint}

/-- An assignment leaves the lock to whom it has found it. -/
theorem assign_holder_eq
    (through : GoesThrough (Operation.assign rules zone w).program i s h s' (.assigned x)) :
    s'.holder = s.holder := by
  obtain ⟨hfits, hholder⟩ := through.run.fits through.lone
  rw [hholder]
  rcases through.alone_assign.assign_cases with ⟨-, hl, -⟩ | ⟨-, _, _, hl, -⟩ |
    ⟨-, _, l₁, _, hl, -⟩
  · rw [hl]
    rfl
  · rw [hl]
    rfl
  · rw [hl] at hfits ⊢
    have hfree : s.holder = none := hfits.1
    rw [holderThrough, List.foldl_append, hfree]
    rfl

/-- **An assignment that fails leaves no trace.** The relays of the registry that can be read stand
under their ids, and other rows and bindings may be unreadable. Nobody interrupts an assignment,
which has not the lock when it begins. If it fails, for whatever reason, the registry and the lock
are as before. If the workload may not ask in its phase, the assignment does nothing at all, whoever
has the lock, and fails for this reason. -/
theorem assign_fails (hg : s.registry.Keyed) (hout : s.holder ≠ some i) :
    (∀ h s' e,
      GoesThrough (Operation.assign rules zone w).program i s h s' (.assigned (.error e)) →
      s'.registry = s.registry ∧ s'.holder = s.holder ∧ s'.holder ≠ some i ∧
        (e.IsNotAssignable → h = [])) ∧
    (w.phase.isAssignable = false → s.calls i = (Operation.assign rules zone w).program →
      ∀ h s' x, GoesThrough (Operation.assign rules zone w).program i s h s' (.assigned x) ↔
        h = [] ∧ s' = s ∧ x = .error (.notAssignable w.id w.phase)) := by
  constructor
  · intro h s' e through
    have hholder := through.assign_holder_eq
    suffices s'.registry = s.registry ∧ (e.IsNotAssignable → h = []) from
      ⟨this.1, hholder, hholder ▸ hout, this.2⟩
    rcases through.alone_assign.assign_cases with ⟨-, hl, -, hsame⟩ | ⟨-, _, _, -, hx, hsame⟩ |
      ⟨-, _, l₁, _, -, h₁⟩
    · exact ⟨hsame, fun _ => List.map_eq_nil_iff.mp hl⟩
    · cases hx
      exact ⟨hsame, False.elim⟩
    · have hlater := (h₁.asks AssignRules.asks_assignLocked).2 e rfl
      refine ⟨h₁.assignLocked_fails hg, fun he => absurd ?_ hlater⟩
      cases e with
      | notAssignable => trivial
      | _ => cases he
  · intro hphase hbegins h s' x
    constructor
    · intro through
      have hrefused := through.alone_assign
      rw [AssignRules.assign, if_pos (by simp [hphase])] at hrefused
      obtain ⟨hl, hx, -⟩ := hrefused.of_pure
      obtain rfl := List.map_eq_nil_iff.mp hl
      exact ⟨rfl, through.run.of_nil, hx⟩
    · rintro ⟨rfl, rfl, rfl⟩
      refine ⟨.start, hbegins, List.forall_mem_nil _, ?_⟩
      rw [hbegins, Operation.program, AssignRules.assign, if_pos (by simp [hphase])]
      rfl

end GoesThrough

/-- The pool cannot be listed, and the assignment that has tried to is gone without a trace. -/
theorem GoesThrough.assign_fails_unreadable :
    let call : Operation := .assign returningRules "zone-a" ⟨"w", .running⟩
    ∃ (h : List (Moment Unit Outcome)) (s' : System Unit Outcome),
      GoesThrough call.program () (.start Registry.unreadable fun _ => call.program) h s'
        (.assigned (.error (.store .undecodable))) ∧
      s'.registry = Registry.unreadable ∧ s'.holder = none := by
  intro call
  let s₀ : System Unit Outcome := .start Registry.unreadable fun _ => call.program
  have hbinding : Registry.unreadable.getBinding "w" = .ok none := rfl
  have hpool : ∀ keep, Registry.unreadable.listRelays keep = .error .undecodable := by
    intro keep
    rw [Registry.listRelays, show Registry.unreadable.relays.values.mapM (decodeRow Relay.decoder) =
      .error .undecodable by decide +kernel]
    rfl
  have locked := (Run.start : Run s₀ [] s₀).perform () rfl 0 (.ok ()) rfl
  have unbound := (locked.perform () rfl 0 0 rfl).perform () rfl 0 (.ok none) hbinding.symm
  have failed := unbound.perform () rfl 0 (.error .undecodable) (hpool _).symm
  have through : GoesThrough call.program () s₀ _ _ (.assigned (.error (.store .undecodable))) :=
    ⟨failed.perform () rfl 0 () rfl, rfl, by simp, rfl⟩
  have hout : s₀.holder ≠ some () := by simp [s₀, System.start]
  obtain ⟨hsame, hholder, -⟩ :=
    (GoesThrough.assign_fails Registry.keyed_unreadable hout).1 _ _ _ through
  exact ⟨_, _, through, hsame, hholder⟩

end RelayFleet
