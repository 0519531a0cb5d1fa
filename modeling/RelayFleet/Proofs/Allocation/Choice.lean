import RelayFleet.Proofs.Allocation.Staying

/-!
# Which relay a workload gets

A workload goes back to the relay of its binding where that is running in the wanted zone and there
is a place for it (`AssignRules.Returns`). Otherwise it gets, among the running relays of the zone
that have room, the one that the policy prefers to all others. This is said here without the program
that finds the relay (`AssignRules.Chooses`), together with all that an assignment answers and
writes (`Assigns`), and every assignment of which nobody takes the lock does this
(`GoesThrough.assign_agrees`).
-/

namespace RelayFleet

/-! ## Places that are kept -/

namespace Relay

/-- The last report of the relay lists a connection of the workload. -/
def Carries (r : Relay) (w : WorkloadId) : Prop :=
  ∃ text report, r.statusPayload = some text ∧ StatusReport.parse text = .ok report ∧
    ∃ c ∈ report.activeConnections, c.tag = w

/-- The last report of the relay does not tell whether a workload that was bound at this time has a
connection. -/
inductive LeavesOpen (r : Relay) (w : WorkloadId) (assignedAt : Millis) : Prop
  /-- There is no report. -/
  | silent (payload : r.statusPayload = none)
  /-- The report cannot be used. -/
  | unusable {text : String} {e : ReportError} (payload : r.statusPayload = some text)
    (parses : StatusReport.parse text = .error e)
  /-- The report has no connection of the workload, but it is older than the binding, or nobody
  knows how old it is. -/
  | outdated {text : String} {report : StatusReport} (payload : r.statusPayload = some text)
    (parses : StatusReport.parse text = .ok report)
    (absent : ∀ c ∈ report.activeConnections, c.tag ≠ w)
    (before : ∀ received, r.statusReceivedAt = some received → received < assignedAt)

end Relay

/-- A report has a connection for a workload if it lists one. -/
theorem StatusReport.hasConnectionFor_iff {report : StatusReport} {w : WorkloadId} :
    report.hasConnectionFor w ↔ ∃ c ∈ report.activeConnections, c.tag = w := by
  simp [hasConnectionFor]

/-- A session is worth keeping where the relay reports it, or where its report leaves the question
open and the binding is young. -/
theorem hasPreviousSession_iff {timeout now : Millis} {r : Relay} {b : Binding} :
    hasPreviousSession timeout now r b ↔ r.Carries b.workloadId ∨
      r.LeavesOpen b.workloadId b.assignedAt ∧
        now.toNat - b.assignedAt.toNat < timeout.toNat := by
  have hrecent : b.isRecent timeout now ↔ now.toNat - b.assignedAt.toNat < timeout.toNat := by
    simp [Binding.isRecent]
  rw [← hrecent]
  unfold hasPreviousSession
  cases hpayload : r.statusPayload with
  | none =>
    refine ⟨fun h => .inr ⟨.silent hpayload, h⟩, ?_⟩
    rintro (⟨text, report, htext, -⟩ | ⟨-, h⟩)
    · rw [hpayload] at htext
      cases htext
    · exact h
  | some text =>
    dsimp only
    cases hparse : StatusReport.parse text with
    | error e =>
      refine ⟨fun h => .inr ⟨.unusable hpayload hparse, h⟩, ?_⟩
      rintro (⟨text', report, htext, hreport, -⟩ | ⟨-, h⟩)
      · rw [hpayload] at htext
        cases htext
        rw [hparse] at hreport
        cases hreport
      · exact h
    | ok report =>
      dsimp only
      split
      · next hlists =>
        have hcarries := StatusReport.hasConnectionFor_iff.mp hlists
        exact ⟨fun _ => .inl ⟨text, report, hpayload, hparse, hcarries⟩, fun _ => rfl⟩
      · next habsent =>
        have habsent : ∀ c ∈ report.activeConnections, c.tag ≠ b.workloadId := fun c hc htag =>
          habsent (StatusReport.hasConnectionFor_iff.mpr ⟨c, hc, htag⟩)
        have hnot : ¬ r.Carries b.workloadId := by
          rintro ⟨text', report', htext, hreport, c, hc, htag⟩
          rw [hpayload] at htext
          cases htext
          rw [hparse] at hreport
          cases hreport
          exact habsent c hc htag
        have hopen : r.LeavesOpen b.workloadId b.assignedAt ↔
            ∀ received, r.statusReceivedAt = some received → received < b.assignedAt := by
          refine ⟨?_, .outdated hpayload hparse habsent⟩
          rintro (hnone | ⟨htext, herror⟩ | ⟨-, -, -, hbefore⟩)
          · rw [hpayload] at hnone
            cases hnone
          · rw [hpayload] at htext
            cases htext
            rw [hparse] at herror
            cases herror
          · exact hbefore
        rw [hopen]
        cases r.statusReceivedAt with
        | none => simp [hnot]
        | some received =>
          by_cases hle : b.assignedAt ≤ received
          · simp [hnot, hle]
          · simp [hnot, hle, UInt64.not_le.mp hle]

/-! ## The choice -/

/-- Every binding decodes and stands under the id of its workload. -/
def Registry.BindingsSound (g : Registry) : Prop :=
  ∀ w text, g.bindings.get? w = some text →
    ∃ b, decodeRow Binding.decoder text = .ok b ∧ b.workloadId = w

/-- The binding of a workload is there or it is not, and it is one of the workload. -/
theorem Registry.BindingsSound.getBinding {g : Registry} (h : g.BindingsSound) (w : WorkloadId) :
    ∃ binding, g.getBinding w = .ok binding ∧ ∀ b, binding = some b → b.workloadId = w := by
  unfold Registry.getBinding
  split
  · next text htext =>
    obtain ⟨b, hb, hw⟩ := h w text htext
    rw [hb]
    refine ⟨some b, rfl, ?_⟩
    rintro _ ⟨⟩
    exact hw
  · exact ⟨none, rfl, nofun⟩

/-- A binding is put down under the id of its workload. -/
theorem Registry.BindingsSound.putBinding {g : Registry} (h : g.BindingsSound) (b : Binding) :
    (g.putBinding b).BindingsSound := by
  intro w text htext
  have hrow := (g.bindings.get?_insert b.workloadId w _).symm.trans htext
  split at hrow
  · next heq =>
    cases hrow
    exact ⟨b, b.decodeRow_encode, heq.symm⟩
  · exact h w text hrow

namespace AssignRules

variable {rules : AssignRules} {zone : ZoneId} {w : WorkloadId} {now : Millis} {g : Registry}
  {r : Relay}

/-- The workload is bound to the relay, which is running in the zone, and there is a place for it:
the relay has room or a connection of the workload, or its report leaves this open and the binding
is younger than the timeout. -/
structure Returns (rules : AssignRules) (zone : ZoneId) (w : WorkloadId) (now : Millis)
    (g : Registry) (r : Relay) : Prop where
  row : g.relay? r.id = some r
  state_eq : r.state = .running
  zoneId_eq : r.zoneId = zone
  place : ∃ assignedAt, g.getBinding w = .ok (some ⟨w, some r.id, assignedAt⟩) ∧
    (r.activeSessions < rules.capacityPerInstance ∨ r.Carries w ∨
      r.LeavesOpen w assignedAt ∧ now.toNat - assignedAt.toNat < rules.stickyTimeout.toNat)

/-- The relay is the one to which the workload goes back, or there is none to which it may and the
policy prefers the relay to all others that are running in the zone and have room. -/
inductive Chooses (rules : AssignRules) (zone : ZoneId) (w : WorkloadId) (now : Millis)
    (g : Registry) (r : Relay) : Prop
  | returns (h : rules.Returns zone w now g r)
  | picks (none : ∀ x, ¬ rules.Returns zone w now g x) (h : rules.Picks zone g r)

/-- A workload may stay on the relays to which it goes back. -/
theorem keeps_iff_returns (hg : g.BindingsSound) :
    rules.Keeps zone w now g r ↔ rules.Returns zone w now g r := by
  obtain ⟨binding, hbinding, hown⟩ := hg.getBinding w
  have hmay : ∀ b, rules.mayKeep zone now b r ↔ r.state = .running ∧ r.zoneId = zone ∧
      (r.activeSessions < rules.capacityPerInstance ∨
        hasPreviousSession rules.stickyTimeout now r b) := fun b => by
    simp [mayKeep, RelayState.isAssignable, hasRoom, and_assoc]
  constructor
  · rintro ⟨⟨w', _, assignedAt⟩, hb, rfl, hr, hkeep⟩
    obtain ⟨hstate, hzone, hplace⟩ := (hmay _).mp hkeep
    obtain rfl : w' = w := by
      rw [hbinding] at hb
      exact hown _ (Except.ok.inj hb)
    exact ⟨hr, hstate, hzone, assignedAt, hb, hplace.imp_right hasPreviousSession_iff.mp⟩
  · rintro ⟨hr, hstate, hzone, assignedAt, hb, hplace⟩
    refine ⟨_, hb, rfl, hr, (hmay _).mpr ⟨hstate, hzone, ?_⟩⟩
    exact hplace.imp_right (hasPreviousSession_iff (b := ⟨w, some r.id, assignedAt⟩)).mpr

/-- An assignment finds the relay that is chosen. -/
theorem finds_iff_chooses (hg : g.BindingsSound) :
    rules.Finds zone w now g r ↔ rules.Chooses zone w now g r := by
  unfold Finds
  simp only [keeps_iff_returns hg]
  constructor
  · rintro (h | ⟨hnone, h⟩)
    · exact .returns h
    · exact .picks hnone h
  · rintro (h | ⟨hnone, h⟩)
    · exact .inl h
    · exact .inr ⟨hnone, h⟩

end AssignRules

/-! ## What is answered and written -/

/-- The workload was bound to the relay at this time, and nothing else is different. -/
structure Rebound (w : WorkloadId) (r : Relay) (now : Millis) (g g' : Registry) : Prop where
  binding : g'.getBinding w = .ok (some ⟨w, some r.id, now⟩)
  row : ∃ time, g'.relay? r.id = some { r with lastAssignedAt := some now, updatedAt := time }
  bindings : ∀ v, v ≠ w → g'.bindings.get? v = g.bindings.get? v
  relays : ∀ id, id ≠ r.id → g'.relays.get? id = g.relays.get? id
  mode_eq : g'.mode = g.mode
  sequence_eq : g'.sequence = g.sequence

/-- What an assignment answers and what it leaves behind is what the choice of the relay says. -/
structure Assigns (rules : AssignRules) (zone : ZoneId) (w : WorkloadId) (now : Millis)
    (g : Registry) (x : Except AllocError RelayEndpoint) (g' : Registry) : Prop where
  /-- There is no capacity if there is no relay to choose. -/
  exhausted : x = .error (.capacityExhausted zone) ↔ ∀ r, ¬ rules.Chooses zone w now g r
  /-- A relay without an address is refused. -/
  unreachable : ∀ r, rules.Chooses zone w now g r → r.publicAddress = none →
    x = .error (.noPublicAddress r.id)
  /-- Otherwise the endpoint of the relay is given, and the binding names the relay. -/
  assigned : ∀ r endpoint, rules.Chooses zone w now g r →
    RelayEndpoint.ofRelay r rules.endpoint = .ok endpoint → x = .ok endpoint ∧ g'.IsBound w r.id
  /-- An assignment that fails writes nothing. -/
  fails : ∀ e, x = .error e → g' = g
  /-- Nothing is written if the binding named the relay already. -/
  stays : ∀ r, rules.Chooses zone w now g r → g.IsBound w r.id → g' = g
  /-- Otherwise the workload is bound to the relay and nothing else is written. -/
  moves : ∀ r endpoint, rules.Chooses zone w now g r →
    RelayEndpoint.ofRelay r rules.endpoint = .ok endpoint → ¬ g.IsBound w r.id →
    Rebound w r now g g'

/-- A relay with an endpoint has an address. -/
theorem RelayEndpoint.publicAddress_ne_none {r : Relay} {settings : EndpointSettings}
    {endpoint : RelayEndpoint} (h : ofRelay r settings = .ok endpoint) :
    r.publicAddress ≠ none := by
  intro hnone
  rw [ofRelay, hnone] at h
  cases h

/-- The binding of a workload and the time of the assignment are all that is written. -/
theorem rebound_withRow {w : WorkloadId} {r : Relay} {now time : Millis} {g : Registry} :
    Rebound w r now g ((g.putBinding ⟨w, some r.id, now⟩).withRow r.id
      { r with lastAssignedAt := some now, updatedAt := time }) where
  binding := Registry.getBinding_after (b := ⟨w, some r.id, now⟩) (List.forall_mem_nil _)
  row := ⟨time, Registry.relay?_withRow_self ..⟩
  bindings v hv := by
    show (g.bindings.insert w _).get? v = _
    rw [Table.get?_insert, if_neg hv]
  relays id hid := by
    show (g.relays.insert r.id _).get? id = _
    rw [Table.get?_insert, if_neg hid]
  mode_eq := rfl
  sequence_eq := rfl

/-- The relay that an assignment has found decides about what it answers and writes. -/
theorem Booked.assigns {rules : AssignRules} {zone : ZoneId} {w : WorkloadId} {now : Millis}
    {g g' : Registry} {x : Except AllocError RelayEndpoint} (h : Booked rules zone w now g x g')
    (hg : g.BindingsSound) : Assigns rules zone w now g x g' := by
  have hiff : ∀ {r}, rules.Finds zone w now g r ↔ rules.Chooses zone w now g r :=
    AssignRules.finds_iff_chooses hg
  have hsame : ∀ {r r'}, rules.Finds zone w now g r → rules.Chooses zone w now g r' → r' = r :=
    fun finds chooses => finds.unique (hiff.mpr chooses)
  cases h with
  | unreadable binding_eq =>
    obtain ⟨binding, hbinding, -⟩ := hg.getBinding w
    rw [binding_eq] at hbinding
    cases hbinding
  | exhausted lost full =>
    have hnone : ∀ r, ¬ rules.Chooses zone w now g r := fun r chooses => by
      rcases hiff.mpr chooses with h | ⟨-, h⟩
      · exact lost r h
      · exact full r h.eligible
    exact {
      exhausted := ⟨fun _ => hnone, fun _ => rfl⟩
      unreachable := fun r chooses => absurd chooses (hnone r)
      assigned := fun r _ chooses => absurd chooses (hnone r)
      fails := fun _ _ => rfl
      stays := fun _ _ _ => rfl
      moves := fun r _ chooses => absurd chooses (hnone r) }
  | @unreachable r finds address =>
    have hendpoint : ∀ {endpoint}, RelayEndpoint.ofRelay r rules.endpoint ≠ .ok endpoint :=
      fun heq => RelayEndpoint.publicAddress_ne_none heq address
    exact {
      exhausted := ⟨nofun, fun hnone => absurd (hiff.mp finds) (hnone r)⟩
      unreachable := fun r' chooses _ => by rw [hsame finds chooses]
      assigned := fun r' _ chooses heq => absurd (hsame finds chooses ▸ heq) hendpoint
      fails := fun _ _ => rfl
      stays := fun _ _ _ => rfl
      moves := fun r' _ chooses heq => absurd (hsame finds chooses ▸ heq) hendpoint }
  | @stays r endpoint finds endpoint_eq bound =>
    have haddress := RelayEndpoint.publicAddress_ne_none endpoint_eq
    exact {
      exhausted := ⟨nofun, fun hnone => absurd (hiff.mp finds) (hnone r)⟩
      unreachable := fun r' chooses hnone => absurd (hsame finds chooses ▸ hnone) haddress
      assigned := fun r' endpoint' chooses heq => by
        obtain rfl := hsame finds chooses
        exact ⟨endpoint_eq.symm.trans heq, bound⟩
      fails := nofun
      stays := fun _ _ _ => rfl
      moves := fun r' _ chooses _ hfree => by
        obtain rfl := hsame finds chooses
        exact absurd bound hfree }
  | @moves r endpoint time finds endpoint_eq free =>
    have haddress := RelayEndpoint.publicAddress_ne_none endpoint_eq
    exact {
      exhausted := ⟨nofun, fun hnone => absurd (hiff.mp finds) (hnone r)⟩
      unreachable := fun r' chooses hnone => absurd (hsame finds chooses ▸ hnone) haddress
      assigned := fun r' endpoint' chooses heq => by
        obtain rfl := hsame finds chooses
        exact ⟨endpoint_eq.symm.trans heq, _, rebound_withRow.binding, rfl⟩
      fails := nofun
      stays := fun r' chooses bound => by
        obtain rfl := hsame finds chooses
        exact absurd bound free
      moves := fun r' _ chooses _ _ => by
        obtain rfl := hsame finds chooses
        exact rebound_withRow }

/-- **An assignment does what its specification says.** The rows of relays and bindings of the
registry decode and stand under their own ids, and a workload asks for a relay in a phase in which
it may. Nobody interrupts the assignment, and it has the lock. Then what it answers and what it
leaves behind is decided by the relay that is chosen at the time at which it looks at the clock
(`Assigns`). If the lock is free, the assignment goes through like this at any time. -/
theorem GoesThrough.assign_agrees {ι : Type} [DecidableEq ι] {i : ι} {s : System ι Outcome}
    {rules : AssignRules} {zone : ZoneId} {w : Workload} (hg : s.registry.Sound)
    (hbindings : s.registry.BindingsSound) (hphase : w.phase.isAssignable) :
    (∀ h s' x, GoesThrough (Operation.assign rules zone w).program i s h s' (.assigned x) →
      (∀ e, x ≠ .error (.lockTimeout e)) →
      ∃ now, (∃ e ∈ h, e.deed.Reads now) ∧
        Assigns rules zone w.id now s.registry x s'.registry) ∧
    ∀ now, s.holder = none → s.calls i = (Operation.assign rules zone w).program →
      ∃ h s' x, GoesThrough (Operation.assign rules zone w).program i s h s' (.assigned x) ∧
        (∀ e ∈ h, e.move.time = now) ∧ Assigns rules zone w.id now s.registry x s'.registry := by
  constructor
  · intro h s' x through hlock
    let calls : ι → Operation := fun _ => .assign rules zone w
    have alone := GoesThrough.assign
      (show GoesThrough (calls i).program i s h s' (.assigned x) from through) rfl
    obtain ⟨now, ⟨d, hd, hreads⟩, booked⟩ := alone.booked hg hphase hlock
    obtain ⟨e, he, rfl⟩ := List.mem_map.mp hd
    exact ⟨now, ⟨e, he, hreads⟩, booked.assigns hbindings⟩
  · intro now hfree hbegins
    obtain ⟨l, x, g', alone, hfits, htimes, hlock⟩ :=
      Alone.exists_assign rules zone i hphase now s.registry
    obtain ⟨now', ⟨d, hd, -, hreads⟩, booked⟩ := alone.booked hg hphase hlock
    obtain rfl : now' = now := hreads.symm.trans (htimes d hd)
    have hprogram : Alone s.registry (Operation.assign rules zone w).program l (.assigned x)
        g' := by
      rw [← List.append_nil l]
      exact alone.followed .pure
    rw [← hfree] at hfits
    obtain ⟨h, s', through, hdeeds, rfl⟩ := hprogram.goesThrough hbegins hfits
    refine ⟨h, s', x, through, fun e he => htimes e.deed ?_, booked.assigns hbindings⟩
    rw [← hdeeds]
    exact List.mem_map_of_mem he

/-- The relay of a workload, which is full and has not reported. -/
def crowdedRelay : Relay :=
  { returningRelay with activeSessions := 1 }

/-- An idle relay in the same zone. -/
def idleRelay : Relay :=
  { returningRelay with id := Registry.relayId 2 }

/-- Both relays and the binding of the workload to the full one. -/
def crowdedRegistry : Registry :=
  (returningRegistry.withRow (Registry.relayId 1) crowdedRelay).withRow (Registry.relayId 2)
    idleRelay

/-- The workload is bound to the idle relay. -/
theorem GoesThrough.assign_agrees_crowded :
    let call : Operation := .assign returningRules "zone-a" ⟨"w", .running⟩
    ∃ (h : List (Moment Unit Outcome)) (s' : System Unit Outcome),
      GoesThrough call.program () (.start crowdedRegistry fun _ => call.program) h s'
        (.assigned (.ok { returningEndpoint with relayId := Registry.relayId 2 })) ∧
      Rebound "w" idleRelay 0 crowdedRegistry s'.registry := by
  have hg : crowdedRegistry.Sound :=
    Registry.Sound.withRow (Registry.Sound.withRow (Registry.sound_empty.congr rfl) rfl) rfl
  have hbindings : crowdedRegistry.BindingsSound :=
    Registry.BindingsSound.putBinding (g := { Registry.empty with sequence := 1 }) nofun
      ⟨"w", some (Registry.relayId 1), 0⟩
  have hrows : ∀ r, crowdedRegistry.relay? r.id = some r → r = idleRelay ∨ r = crowdedRelay := by
    intro r hr
    rw [crowdedRegistry, Registry.relay?_withRow, Registry.relay?_withRow] at hr
    split at hr
    · exact .inl (Option.some.inj hr).symm
    · split at hr
      · exact .inr (Option.some.inj hr).symm
      · cases hr
  have hbinding : crowdedRegistry.getBinding "w" =
      .ok (some ⟨"w", some (Registry.relayId 1), 0⟩) := by
    rw [crowdedRegistry, Registry.getBinding_withRow, Registry.getBinding_withRow,
      getBinding_returningRegistry]
  have chooses : returningRules.Chooses "zone-a" "w" 0 crowdedRegistry idleRelay := by
    refine .picks (fun r returns => ?_)
      ⟨⟨Registry.relay?_withRow_self .., rfl, rfl, by decide⟩, fun r eligible => ?_⟩
    · obtain ⟨assignedAt, hb, hplace⟩ := returns.place
      simp only [hbinding, Except.ok.injEq, Option.some.injEq, Binding.mk.injEq] at hb
      rcases hrows r returns.row with rfl | rfl
      · exact absurd hb.2.1 (by decide)
      · rcases hplace with hroom | ⟨text, report, hpayload, -⟩ | ⟨-, hrecent⟩
        · exact absurd hroom (by decide)
        · cases hpayload
        · exact absurd hrecent (Nat.not_lt_zero _)
    · rcases hrows r eligible.row with rfl | rfl
      · exact .inl rfl
      · exact absurd eligible.room (by decide)
  obtain ⟨h, s', x, through, -, assigns⟩ := (GoesThrough.assign_agrees (i := ())
    (s := .start crowdedRegistry fun _ => Operation.program
      (.assign returningRules "zone-a" ⟨"w", .running⟩)) hg hbindings rfl).2 0 rfl rfl
  obtain ⟨rfl, -⟩ := assigns.assigned idleRelay _ chooses rfl
  refine ⟨h, s', through, assigns.moves idleRelay _ chooses rfl ?_⟩
  rintro ⟨b, hb, hid⟩
  cases (show _ = _ from hbinding.symm.trans hb)
  exact absurd hid (by decide)

end RelayFleet
