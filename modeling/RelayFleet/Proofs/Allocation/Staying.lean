import RelayFleet.Proofs.Allocation.Backing
import RelayFleet.Proofs.Allocation.Undisturbed

/-!
# Workloads stay where they are

A workload that was given a relay gets the same endpoint when it asks again, and nothing is written
then (`Run.sticks`), whatever went on in between: as long as the relay ran, no report of it ended
the binding of the workload and no other assignment of the workload bound it elsewhere. For what
operations do leaves a stored relay in its zone and at its address (`Action.IsRegular.samePlace`),
and of all of them only such an assignment or report writes a binding (`Operation.spares`), so the
workload stays bound to a running relay at this endpoint (`AssignRules.Anchors.step`). When it asks
again the relay must have room or a session of the workload.
-/

namespace RelayFleet

open Asks

/-! ## Who writes a binding -/

/-- The operation is an assignment of the workload. -/
def Operation.Books (w : WorkloadId) (op : Operation) : Prop :=
  ∃ rules zone w', op = .assign rules zone w' ∧ w'.id = w

/-- The operation is a report of the relay that ends the session of the workload. -/
def Operation.Expires (id : RelayId) (w : WorkloadId) (op : Operation) : Prop :=
  ∃ text report, op = .report id text ∧ StatusReport.parse text = .ok report ∧
    w ∈ report.expiredTags

/-- Writes no binding of the workload to the relay. -/
def Action.Spares (w : WorkloadId) (id : RelayId) (a : Action) : Prop :=
  ∀ b, b.relayId = some id → ¬ a.WritesBinding w b

/-- Service writes no binding. -/
theorem Action.IsService.spares {a : Action} (h : a.IsService) (w : WorkloadId) (id : RelayId) :
    a.Spares w id := by
  intro b _ hwrites
  cases h with
  | upkeep h => cases h <;> cases hwrites
  | _ => cases hwrites

/-- Operations write no binding of a workload to a relay, except for assignments of the workload and
reports of the relay that end its session. -/
theorem Operation.spares (op : Operation) (w : WorkloadId) (id : RelayId) :
    Asks (fun a => a.Spares w id ∨ (op.Books w ∧ ∃ b, a = .transact (.putBinding b)) ∨
      op.Expires id w) op.program fun _ => True := by
  cases op with
  | assign rules zone w' =>
    refine (AssignRules.asks_assign_of ?_ (fun _ => .inl fun _ _ h => h)
      (.inl fun _ _ h => h)).map
    intro a ha
    cases ha with
    | binds =>
      by_cases hw : w'.id = w
      · exact .inr (.inl ⟨⟨rules, zone, w', rfl, hw⟩, _, rfl⟩)
      · exact .inl fun _ _ => hw
    | _ => exact .inl fun _ _ h => h
  | report k text =>
    refine (asks_applyReport_of (.inl fun _ _ h => h) (fun _ _ _ => .inl fun _ _ h => h) ?_).map
    intro report hparse
    by_cases hends : k = id ∧ w ∈ report.expiredTags
    · obtain ⟨rfl, hmem⟩ := hends
      exact .inr (.inr ⟨text, report, rfl, hparse, hmem⟩)
    · refine .inl fun b hb h => hends ⟨?_, h.2⟩
      exact Option.some.inj (h.1.symm.trans hb)
  | _ =>
    exact (Operation.service (by simp) (by simp)).mono (fun _ ha => .inl (ha.spares w id))
      fun _ _ => trivial

/-! ## What becomes of the relay and the binding -/

/-- The endpoint of a relay depends on where it is. -/
theorem Relay.SamePlace.ofRelay_eq {r r' : Relay} (h : r.SamePlace r') (s : EndpointSettings) :
    RelayEndpoint.ofRelay r' s = RelayEndpoint.ofRelay r s := by
  rw [RelayEndpoint.ofRelay, h.publicAddress_eq, h.id_eq, RelayEndpoint.ofRelay]

/-- The endpoint of a relay has its id. -/
theorem RelayEndpoint.relayId_eq {r : Relay} {s : EndpointSettings} {endpoint : RelayEndpoint}
    (h : ofRelay r s = .ok endpoint) : endpoint.relayId = r.id := by
  unfold ofRelay at h
  split at h <;> cases h
  rfl

/-- A binding is there as long as no action writes it. -/
theorem Registry.IsBound.registryAfter {g : Registry} {a : Action} {w : WorkloadId} {id : RelayId}
    (h : g.IsBound w id) (ha : a.Spares w id) (time : Millis) :
    (a.registryAfter time g).IsBound w id := by
  obtain ⟨b, hb, hid⟩ := h
  unfold getBinding at hb
  split at hb
  · next text htext =>
    cases hdec : decodeRow Binding.decoder text with
    | error e =>
      rw [hdec] at hb
      cases hb
    | ok b' =>
      rw [hdec] at hb
      cases hb
      refine ⟨b, ?_, hid⟩
      rw [getBinding, Action.bindings_registryAfter hdec (ha b hid) htext]
      exact congrArg (some <$> ·) hdec
  · cases hb

namespace AssignRules

variable {rules : AssignRules} {zone : ZoneId} {w : WorkloadId} {g : Registry}
  {endpoint : RelayEndpoint} {now : Millis}

/-- The workload is bound to a running relay of the zone that is at the endpoint. -/
def Anchors (rules : AssignRules) (zone : ZoneId) (w : WorkloadId) (endpoint : RelayEndpoint)
    (g : Registry) : Prop :=
  ∃ r, rules.Offers zone g r endpoint ∧ g.IsBound w r.id

/-- An operation leaves the workload where it is as long as it spares the binding and the relay goes
on running. -/
theorem Anchors.step {a : Action} {time : Millis} (h : rules.Anchors zone w endpoint g)
    (ha : a.IsRegular) (hspares : a.Spares w endpoint.relayId)
    (hrunning : (a.registryAfter time g).IsIn endpoint.relayId .running) :
    rules.Anchors zone w endpoint (a.registryAfter time g) := by
  obtain ⟨r, offers, hbound⟩ := h
  rw [RelayEndpoint.relayId_eq offers.endpoint_eq] at hspares hrunning
  obtain ⟨r', hr', hstate⟩ := hrunning
  have hsame : r.SamePlace r' := by
    cases a.rowOrigin hr' with
    | rests row =>
      rw [offers.row] at row
      cases row
      exact ⟨rfl, rfl, rfl⟩
    | changes row action eq =>
      rw [offers.row] at row
      cases row
      subst action eq
      have hchange := ha.samePlace r
      exact ⟨hchange.id_eq, hchange.zoneId_eq, hchange.publicAddress_eq⟩
    | stores action =>
      -- a new relay is not running
      subst action
      cases ha with
      | serves h =>
        cases h with
        | upkeep h =>
          cases h
          cases hstate
      | booking h => cases h
  refine ⟨r', ⟨?_, hstate, hsame.zoneId_eq.trans offers.zoneId_eq, ?_⟩, ?_⟩
  · rw [hsame.id_eq]
    exact hr'
  · rw [hsame.ofRelay_eq]
    exact offers.endpoint_eq
  · rw [hsame.id_eq]
    exact hbound.registryAfter hspares time

/-- The relay has room, or at this time a session of the workload that is bound. -/
def HasPlace (rules : AssignRules) (g : Registry) (id : RelayId) (w : WorkloadId) (now : Millis) :
    Prop :=
  ∀ r, g.relay? id = some r → rules.hasRoom r ∨
    ∃ b, g.getBinding w = .ok (some b) ∧ hasPreviousSession rules.stickyTimeout now r b

/-- A workload may stay on its relay if there is place for it. -/
theorem Anchors.keeps (h : rules.Anchors zone w endpoint g)
    (hplace : rules.HasPlace g endpoint.relayId w now) :
    ∃ r, rules.Keeps zone w now g r ∧ rules.Offers zone g r endpoint := by
  obtain ⟨r, offers, b, hb, hid⟩ := h
  rw [RelayEndpoint.relayId_eq offers.endpoint_eq] at hplace
  refine ⟨r, ⟨b, hb, hid, offers.row, ?_⟩, offers⟩
  simp only [mayKeep, RelayState.isAssignable, offers.state_eq, offers.zoneId_eq, decide_true,
    beq_self_eq_true, Bool.true_and, Bool.or_eq_true]
  rcases hplace r offers.row with hroom | ⟨b', hb', hsession⟩
  · exact .inl hroom
  · rw [hb] at hb'
    cases hb'
    exact .inr hsession

end AssignRules

namespace Booked

variable {rules : AssignRules} {zone : ZoneId} {w : WorkloadId} {g g' : Registry} {now : Millis}
  {endpoint : RelayEndpoint}

/-- An assignment that succeeds leaves the workload bound to a relay at its endpoint. -/
theorem anchors (h : Booked rules zone w now g (.ok endpoint) g') :
    rules.Anchors zone w endpoint g' := by
  cases h with
  | stays finds endpoint_eq bound => exact ⟨_, finds.offers endpoint_eq, bound⟩
  | @moves r _ time finds endpoint_eq =>
    have offers := finds.offers endpoint_eq
    refine ⟨{ r with lastAssignedAt := some now, updatedAt := time },
      ⟨Registry.relay?_withRow_self .., offers.state_eq, offers.zoneId_eq, ?_⟩, ?_⟩
    · rw [← endpoint_eq]
      exact Relay.SamePlace.ofRelay_eq ⟨rfl, rfl, rfl⟩ _
    · refine ⟨⟨w, some r.id, now⟩, ?_, rfl⟩
      exact Registry.getBinding_after (b := ⟨w, some r.id, now⟩) (List.forall_mem_nil _)

/-- An assignment leaves a workload that may stay on its relay where it is. -/
theorem of_keeps {r : Relay} {x : Except AllocError RelayEndpoint}
    (h : Booked rules zone w now g x g') (hkeeps : rules.Keeps zone w now g r)
    (hendpoint : RelayEndpoint.ofRelay r rules.endpoint = .ok endpoint) :
    x = .ok endpoint ∧ g' = g := by
  have hfound : ∀ {r'}, rules.Finds zone w now g r' → r = r' := fun finds =>
    finds.unique (.inl hkeeps)
  cases h with
  | unreadable binding_eq =>
    obtain ⟨b, hb, -⟩ := hkeeps
    rw [binding_eq] at hb
    cases hb
  | exhausted lost => exact absurd hkeeps (lost r)
  | unreachable finds address =>
    obtain rfl := hfound finds
    rw [RelayEndpoint.ofRelay, address] at hendpoint
    cases hendpoint
  | stays finds endpoint_eq =>
    obtain rfl := hfound finds
    exact ⟨endpoint_eq.symm.trans hendpoint, rfl⟩
  | moves finds _ free =>
    obtain rfl := hfound finds
    exact absurd hkeeps.isBound free

end Booked

namespace Alone

variable {rules : AssignRules} {zone : ZoneId} {w : Workload} {now : Millis} {g : Registry}
  {r : Relay} {endpoint : RelayEndpoint}

/-- Whoever finds the lock free can get it, assign a relay and give the lock back. -/
theorem assign_of_locked {ι : Type} {l : List Deed} {x : Except AllocError RelayEndpoint}
    {g' : Registry} (hphase : w.phase.isAssignable) (i : ι) (time : Millis)
    (hlocked : Alone g (rules.assignLocked zone w.id).run l x g') :
    let l' := ⟨g, .acquire rules.lockTimeout, time, .ok ()⟩ :: (l ++ [⟨g', .release, time, ()⟩])
    Alone g (rules.assign zone w) l' x g' ∧ Fits i none l' := by
  have hwork : Asks Action.IsWork (rules.assignLocked zone w.id).run AssignRules.Unrefused :=
    AssignRules.asks_assignLocked.mono (fun _ ha => ha.isWork) fun _ => id
  refine ⟨?_, rfl, hlocked.fits_append hwork ⟨rfl, trivial⟩⟩
  rw [AssignRules.assign, if_neg (by simp [hphase])]
  exact .ask trivial (hlocked.followed (.ask trivial .pure))

/-- Whoever finds the lock free can assign a relay to a workload that may ask for one. -/
theorem exists_assign {ι : Type} (rules : AssignRules) (zone : ZoneId) (i : ι)
    (hphase : w.phase.isAssignable) (now : Millis) (g : Registry) :
    ∃ l x g', Alone g (rules.assign zone w) l x g' ∧ Fits i none l ∧ (∀ d ∈ l, d.time = now) ∧
      ∀ e, x ≠ .error (.lockTimeout e) := by
  obtain ⟨l, x, g', hlocked, htimes⟩ := exists_alone (rules.assignLocked zone w.id).run now g
  obtain ⟨alone, hfits⟩ := hlocked.assign_of_locked hphase i now
  refine ⟨_, x, g', alone, hfits, ?_, fun e hx => ?_⟩
  · exact List.forall_mem_cons.mpr ⟨rfl, List.forall_mem_append.mpr
      ⟨htimes, List.forall_mem_singleton.mpr rfl⟩⟩
  · exact (hlocked.asks AssignRules.asks_assignLocked).2 _ hx trivial

/-- What has become of a workload that may ask for a relay and of which the assignment has had the
lock. -/
theorem booked {l : List Deed} {x : Except AllocError RelayEndpoint} {g' : Registry}
    (hg : g.Sound) (hphase : w.phase.isAssignable) (hlock : ∀ e, x ≠ .error (.lockTimeout e))
    (h : Alone g (rules.assign zone w) l x g') :
    ∃ now, (∃ d ∈ l, d.Reads now) ∧ Booked rules zone w.id now g x g' := by
  rcases (h.assign hg).1 with ⟨hnot, -⟩ | ⟨e, hx, -⟩ | hbooked
  · rw [hphase] at hnot
    cases hnot
  · exact absurd hx (hlock e)
  · exact hbooked

/-- A workload that may stay on its relay can be assigned there by whoever finds the lock free. -/
theorem assign_of_keeps {ι : Type} (i : ι) (hg : g.Sound) (hphase : w.phase.isAssignable)
    (hkeeps : rules.Keeps zone w.id now g r)
    (hendpoint : RelayEndpoint.ofRelay r rules.endpoint = .ok endpoint) :
    ∃ l, Alone g (rules.assign zone w) l (.ok endpoint) g ∧ Fits i none l := by
  obtain ⟨l, x, g', alone, hfits, htimes, hlock⟩ :=
    exists_assign rules zone i hphase now g
  obtain ⟨now', ⟨d, hd, -, hreads⟩, booked⟩ := alone.booked hg hphase hlock
  obtain rfl : now' = now := hreads.symm.trans (htimes d hd)
  obtain ⟨rfl, rfl⟩ := booked.of_keeps hkeeps hendpoint
  exact ⟨l, alone, hfits⟩

end Alone

/-! ## Between two assignments -/

section
variable {ι : Type} [DecidableEq ι] {calls : ι → Operation} {rules : AssignRules} {zone : ZoneId}
  {w : WorkloadId} {endpoint : RelayEndpoint} {g : Registry} {h₀ h : List (Moment ι Outcome)}
  {s s' : System ι Outcome}

/-- The moment is one of a call that goes through undisturbed in this run and ends with `x`. -/
def Moment.IsWithin (calls : ι → Operation) (s : System ι Outcome) (h : List (Moment ι Outcome))
    (x : Outcome) (e : Moment ι Outcome) : Prop :=
  ∃ h₁ s₁ h₂ s₂ h₃, h = h₁ ++ h₂ ++ h₃ ∧ Run s h₁ s₁ ∧
    GoesThrough (calls e.move.caller).program e.move.caller s₁ h₂ s₂ x ∧ e ∈ h₂

/-- Nothing in a run takes the workload from its relay. -/
structure LeavesBound (calls : ι → Operation) (w : WorkloadId) (id : RelayId)
    (s : System ι Outcome) (h : List (Moment ι Outcome)) (s' : System ι Outcome) : Prop where
  run : Run s h s'
  /-- An assignment of the workload puts down no binding, or it goes through undisturbed and
  fails. -/
  others : ∀ e ∈ h, (calls e.move.caller).Books w →
    ¬ e.deed.Binds ∨ ∃ error, e.IsWithin calls s h (.assigned (.error error))
  /-- No report of the relay ends the session of the workload. -/
  expires : ∀ e ∈ h, ¬ (calls e.move.caller).Expires id w
  /-- The relay runs all the time. -/
  running : (∀ e ∈ h, e.before.registry.IsIn id .running) ∧ s'.registry.IsIn id .running

/-- An assignment that goes through is a run of its program alone. -/
theorem GoesThrough.alone_assign {i : ι} {w : Workload} {x : Except AllocError RelayEndpoint}
    (through : GoesThrough (Operation.assign rules zone w).program i s h s' (.assigned x)) :
    Alone s.registry (rules.assign zone w) (h.map Moment.deed) x s'.registry := by
  obtain ⟨x', hx, alone⟩ := through.alone.map
  cases hx
  exact alone

/-- The same of a call that is an assignment. -/
theorem GoesThrough.assign {i : ι} {w : Workload} {x : Except AllocError RelayEndpoint}
    (through : GoesThrough (calls i).program i s h s' (.assigned x))
    (hcall : calls i = .assign rules zone w) :
    Alone s.registry (rules.assign zone w) (h.map Moment.deed) x s'.registry := by
  rw [hcall] at through
  exact through.alone_assign

namespace LeavesBound

open AssignRules

variable {id : RelayId}

/-- Everything in the run spares the binding of the workload to the relay. -/
theorem spares (between : LeavesBound calls w id s h s') (hg : g.Sound)
    (run : Run (System.start g fun i => (calls i).program) h₀ s) {e : Moment ι Outcome}
    (he : e ∈ h) : e.move.action.Spares w id := by
  have hasks := ((run.append between.run).asks fun i => (calls i).spares w id).1 e
    (List.mem_append_right _ he)
  rcases hasks with hspares | ⟨hbooks, b, hbinds⟩ | hexpires
  · exact hspares
  · rcases between.others e he hbooks with hnot | ⟨error, h₁, s₁, h₂, s₂, h₃, -, r₁, through, hmem⟩
    · exact absurd ⟨b, hbinds⟩ hnot
    · obtain ⟨rules, zone, w', hcall, -⟩ := hbooks
      have hquiet := ((through.assign hcall).assign ((run.append r₁).sound hg)).2 error rfl
      exact absurd ⟨b, hbinds⟩ (hquiet _ (List.mem_map_of_mem hmem))
  · exact absurd hexpires (between.expires e he)

/-- The workload stays at its endpoint all through the run. -/
theorem anchors (between : LeavesBound calls w endpoint.relayId s h s') (hg : g.Sound)
    (run : Run (System.start g fun i => (calls i).program) h₀ s)
    (anchors : rules.Anchors zone w endpoint s.registry) :
    rules.Anchors zone w endpoint s'.registry := by
  have hspares := fun e => between.spares hg run (e := e)
  obtain ⟨between, -, -, hrunning, hends⟩ := between
  induction between with
  | start => exact anchors
  | @step h s₁ s₂ m r hs ih =>
    have hbefore := run.append r
    have hnow := hrunning ⟨s₁, m⟩ (by simp)
    have hregular := (hbefore.step hs).regular ⟨s₁, m⟩ (by simp)
    rw [hs.registry_eq] at hends ⊢
    refine Anchors.step (ih ?_ ?_ hnow) hregular (hspares ⟨s₁, m⟩ (by simp)) hends
    · exact fun e he => hspares e (List.mem_append_left _ he)
    · exact fun e he => hrunning e (List.mem_append_left _ he)

end LeavesBound

/-- **Workloads stay where they are.** In a run of operations from a sound registry an assignment
goes through and gives the workload an endpoint. After this the operations go on, interleaved in any
way, and nothing takes the workload from its relay (`LeavesBound`). Then the workload asks again in
a phase in which it may. If the assignment goes through and gets the lock, and the relay has place
for the workload when it looks at the clock, it ends with the same endpoint and leaves the registry
unchanged. If the lock is free, it can go through like this. -/
theorem Run.sticks {i₁ i₂ : ι} {w₁ w₂ : Workload} {h₁ : List (Moment ι Outcome)}
    {s₁ s₂ s₃ : System ι Outcome} (hg : g.Sound)
    (run : Run (System.start g fun i => (calls i).program) h₀ s₁)
    (hcall₁ : calls i₁ = .assign rules zone w₁)
    (first : GoesThrough (calls i₁).program i₁ s₁ h₁ s₂ (.assigned (.ok endpoint)))
    (between : LeavesBound calls w₁.id endpoint.relayId s₂ h s₃)
    (hcall₂ : calls i₂ = .assign rules zone w₂) (hid : w₂.id = w₁.id)
    (hphase : w₂.phase.isAssignable) :
    (∀ h₂ s₄ x, GoesThrough (calls i₂).program i₂ s₃ h₂ s₄ (.assigned x) →
      (∀ e, x ≠ .error (.lockTimeout e)) →
      (∀ now, (∃ e ∈ h₂, e.deed.Reads now) →
        rules.HasPlace s₃.registry endpoint.relayId w₁.id now) →
      x = .ok endpoint ∧ s₄.registry = s₃.registry) ∧
    ∀ now, rules.HasPlace s₃.registry endpoint.relayId w₁.id now → s₃.holder = none →
      s₃.calls i₂ = (calls i₂).program →
      ∃ h₂ s₄, GoesThrough (calls i₂).program i₂ s₃ h₂ s₄ (.assigned (.ok endpoint)) ∧
        s₄.registry = s₃.registry := by
  have run₂ := run.append first.run
  have hg₃ := (run₂.append between.run).sound hg
  have anchors : rules.Anchors zone w₁.id endpoint s₃.registry := by
    refine between.anchors hg run₂ ?_
    rcases ((first.assign hcall₁).assign (run.sound hg)).1 with
      ⟨-, hx, -⟩ | ⟨e, hx, -⟩ | ⟨now, -, booked⟩
    · cases hx
    · cases hx
    · exact booked.anchors
  constructor
  · intro h₂ s₄ x second hlock hplace
    obtain ⟨now, ⟨d, hd, hreads⟩, booked⟩ := (second.assign hcall₂).booked hg₃ hphase hlock
    obtain ⟨e, he, rfl⟩ := List.mem_map.mp hd
    obtain ⟨r, hkeeps, offers⟩ := anchors.keeps (hplace now ⟨e, he, hreads⟩)
    rw [hid] at booked
    exact booked.of_keeps hkeeps offers.endpoint_eq
  · intro now hplace hfree hbegins
    obtain ⟨r, hkeeps, offers⟩ := anchors.keeps hplace
    rw [← hid] at hkeeps
    obtain ⟨l, alone, hfits⟩ := Alone.assign_of_keeps i₂ hg₃ hphase hkeeps offers.endpoint_eq
    have hprogram : Alone s₃.registry (calls i₂).program l (.assigned (.ok endpoint))
        s₃.registry := by
      rw [hcall₂, ← List.append_nil l]
      exact alone.followed .pure
    rw [← hfree] at hfits
    obtain ⟨h₂, s₄, second, -, hsame⟩ := hprogram.goesThrough hbegins hfits
    exact ⟨h₂, s₄, second, hsame⟩

end

/-- A workload gets its endpoint again when its session has filled the relay. -/
theorem Run.sticks_returning :
    ∃ (h₀ h₁ h h₂ : List (Moment (Fin 5) Outcome)) (s₁ s₂ s₃ s₄ : System (Fin 5) Outcome),
      Run (System.start .empty fun i => (returningCalls i).program) h₀ s₁ ∧
      GoesThrough (returningCalls 2).program 2 s₁ h₁ s₂ (.assigned (.ok returningEndpoint)) ∧
      LeavesBound returningCalls "w" (Registry.relayId 1) s₂ h s₃ ∧
      (∀ r, s₃.registry.relay? (Registry.relayId 1) = some r → ¬ returningRules.hasRoom r) ∧
      GoesThrough (returningCalls 4).program 4 s₃ h₂ s₄ (.assigned (.ok returningEndpoint)) ∧
      s₄.registry = s₃.registry := by
  obtain ⟨h₀, calls, running, h₂, h₃, h₄⟩ := Run.returning_running
  obtain ⟨h₁, calls', first, h₃', h₄'⟩ := Run.returning_bound h₂
  obtain ⟨h, calls'', reported, hlone, h₄''⟩ := Run.returning_reported (h₃'.trans h₃)
  have hrow : ∀ r, (returningRegistry.withRow (Registry.relayId 1) r).relay? (Registry.relayId 1) =
      some r := fun r => Registry.relay?_withRow_self ..
  let s₂ : System (Fin 5) Outcome :=
    ⟨returningRegistry.withRow (Registry.relayId 1) returningBound, none, calls'⟩
  let s₃ : System (Fin 5) Outcome :=
    ⟨returningRegistry.withRow (Registry.relayId 1) returningFull, none, calls''⟩
  have between : LeavesBound returningCalls "w" (Registry.relayId 1) s₂ h s₃ := by
    refine ⟨reported, fun e he hbooks => ?_, fun e he hexpires => ?_, fun e he => ?_,
      ⟨_, hrow _, rfl⟩⟩
    · obtain ⟨rules, zone, w', hcall, -⟩ := hbooks
      rw [(hlone e he).1] at hcall
      cases hcall
    · obtain ⟨text, report, hcall, hparse, hmem⟩ := hexpires
      rw [(hlone e he).1] at hcall
      cases hcall
      rw [parse_returningText] at hparse
      cases hparse
      cases hmem
    · rw [(hlone e he).2]
      exact ⟨_, hrow _, rfl⟩
  have hplace : returningRules.HasPlace (returningRegistry.withRow (Registry.relayId 1)
      returningFull) returningEndpoint.relayId "w" 0 := by
    intro r hr
    obtain rfl : returningFull = r := Option.some.inj ((hrow _).symm.trans hr)
    refine .inr ⟨_, (Registry.getBinding_withRow ..).trans getBinding_returningRegistry, ?_⟩
    have hpayload : returningFull.statusPayload = some returningText := rfl
    simp only [hasPreviousSession, hpayload, parse_returningText]
    rfl
  have hcall₂ : returningCalls 2 = .assign returningRules "zone-a" ⟨"w", .running⟩ := rfl
  have hcall₄ : returningCalls 4 = .assign returningRules "zone-a" ⟨"w", .running⟩ := rfl
  obtain ⟨h', s₄, second, hsame⟩ := (Run.sticks Registry.sound_empty running hcall₂ first between
    hcall₄ rfl rfl).2 0 hplace rfl (h₄''.trans (h₄'.trans h₄))
  refine ⟨h₀, h₁, h, h', _, _, _, s₄, running, first, between, fun r hr => ?_, second, hsame⟩
  obtain rfl : returningFull = r := Option.some.inj ((hrow _).symm.trans hr)
  decide

end RelayFleet
