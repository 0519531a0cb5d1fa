import RelayFleet.Proofs.Interleaving.Alone
import RelayFleet.Proofs.Interleaving.Calls
import RelayFleet.Proofs.Registry.Ids
import RelayFleet.Proofs.Scan.Operations

/-!
# Relays are stored under new ids

A call stores a relay only under the id that it was given last (`issuance`), and only once. So in
any run of operations, as long as the registry has ids left, every relay has an id that was issued
(`Run.issuing`), and a relay that is stored replaces none (`Run.absent_of_stores`).
-/

namespace RelayFleet

open Protocol

/-! ## The protocol of issued ids -/

/-- The steps of a call that stores relays under ids that it was given. The stage is the id under
which it may store one. -/
inductive IssuanceStep : Option RelayId → (a : Action) → a.Reply → Option RelayId → Prop
  | keeps {φ φ' : Option RelayId} {a : Action} {r : a.Reply} (ha : a.KeepsIds)
    (hφ : φ' = φ ∨ φ' = none) : IssuanceStep φ a r φ'
  | issues {φ : Option RelayId} {id : RelayId} :
    IssuanceStep φ (.transact .nextRelayId) (.ok id) (some id)
  | stores {r : Relay} {x : StoreResult Unit} :
    IssuanceStep (some r.id) (.transact (.putRelay r)) x none

/-- Relays are stored under ids that were given for them. -/
def issuance : Protocol (Option RelayId) where
  Meets := Registry.Sound
  Step := IssuanceStep

/-- A program that leaves the states of relays alone stores none. -/
theorem Asks.follows_issuance {α : Type} {p : Fleet α} {P : α → Prop} {φ : Option RelayId}
    (h : Asks Action.IsNeutral p P) : issuance.Follows φ p fun _ _ => True := by
  induction p with
  | pure a => trivial
  | ask a next ih => exact fun r _ => ⟨φ, .keeps h.1.keepsIds (.inl rfl), ih r (h.2 r)⟩

/-- The id under which a call may store a relay. -/
def Duty.pending : Duty → Option RelayId
  | .allocating id _ | .storing id _ => some id
  | _ => none

/-- An operation leaves no relay to be stored. -/
theorem Duty.pending_next (d : Duty) (op : RelayOp) (id : RelayId) (s : RelayState) :
    (d.next op id s).pending = none := by
  unfold Duty.next
  split <;> rfl

/-- Calls that treat relays well store them under ids that were given for them. -/
theorem Stage.Step.issuance {rights : Rights} {φ φ' : Stage} {a : Action} {r : a.Reply}
    (hs : Stage.Step rights φ a r φ') : IssuanceStep φ.duty.pending a r φ'.duty.pending := by
  cases hs with
  | looks ha =>
    refine .keeps ?_ (.inl rfl)
    cases a with
    | transact t => cases t <;> trivial
    | _ => trivial
  | operates _ keeps =>
    exact .keeps (fun r => (Lifecycle.moved_moved _ keeps r).keeps.id_eq)
      (.inr (Duty.pending_next _ _ _ _))
  | misses _ keeps =>
    exact .keeps (fun r => (Lifecycle.moved_moved _ keeps r).keeps.id_eq) (.inr rfl)
  | provisions calls => cases calls <;> exact .keeps trivial (by simp [Duty.pending])
  | restores => exact .keeps (fun _ => rfl) (.inr rfl)
  | issues => exact .issues
  | stores hid =>
    subst hid
    exact .stores
  | _ => exact .keeps trivial (by simp [Duty.pending, Stage.rest])

/-! ## Every operation keeps to it -/

/-- An assignment leaves the states of relays alone. -/
theorem AssignRules.asks_assign {rules : AssignRules} {zone : ZoneId} {w : Workload} :
    Asks Action.IsNeutral (rules.assign zone w) fun _ => True :=
  asks_assign_of (fun _ ha => ha.isPlain.isNeutral) (fun _ => trivial) trivial

/-- A report leaves the states of relays alone. -/
theorem asks_applyReport {id : RelayId} {text : String} :
    Asks Action.IsNeutral (applyReport id text) fun _ => True :=
  asks_applyReport_of trivial (fun _ _ _ _ => ⟨rfl, rfl⟩) fun _ _ => trivial

/-- The rights of all calls. -/
def Rights.all (rules : ScanRules) : Rights where
  rules := rules
  operates _ := True
  creates := True
  switches := True

/-- Every call stores relays under ids that were given for them. -/
theorem Operation.follows_issuance (op : Operation) :
    issuance.Follows none op.program fun _ _ => True := by
  have hallowed : ∀ rules, op.IsAllowed (.all rules) →
      issuance.Follows none op.program fun _ _ => True := by
    intro rules h
    exact (Follows.map (P := conduct (.all rules) Registry.Sound) (T := issuance)
      (fun φ => φ.duty.pending) (fun _ => id) (fun _ _ _ _ hs => hs.issuance) h.follows).mono
      fun _ _ _ => trivial
  cases op with
  | assign => exact AssignRules.asks_assign.map.follows_issuance
  | report => exact asks_applyReport.map.follows_issuance
  | expand rules => exact hallowed rules rfl
  | pass rules => exact hallowed rules ⟨rfl, trivial, trivial⟩
  | tick => exact hallowed default ⟨trivial, trivial⟩
  | migrationCompleted => exact hallowed default fun _ => trivial
  | _ => exact hallowed default trivial

/-! ## Runs -/

section
variable {ι α : Type} {s s' : System ι α} {h : List (Moment ι α)} {φ : ι → Option RelayId}
  {φ' : Option RelayId} {m : Move ι} {g g' : Registry} {a : Action}

/-- Asks for the next id. -/
def Action.issues : Action → Bool
  | .transact .nextRelayId => true
  | _ => false

/-- How many ids were issued in a run. -/
def issuedIn (h : List (Moment ι α)) : Nat := h.countP (·.move.action.issues)

/-- A run and its continuation issue the ids of both. -/
theorem issuedIn_append (h₁ h₂ : List (Moment ι α)) :
    issuedIn (h₁ ++ h₂) = issuedIn h₁ + issuedIn h₂ :=
  List.countP_append

/-- One more step may issue one more id. -/
theorem issuedIn_snoc (h : List (Moment ι α)) (e : Moment ι α) :
    issuedIn (h ++ [e]) = issuedIn h + if e.move.action.issues then 1 else 0 := by
  rw [issuedIn_append, issuedIn.eq_def [e], List.countP_singleton]

/-- The registry has ids left after the run. -/
def IdsLast (g : Registry) (h : List (Moment ι α)) : Prop :=
  g.sequence.toNat + issuedIn h < 2 ^ 64

/-- It has had ids left before. -/
theorem IdsLast.of_snoc {e : Moment ι α} (hids : IdsLast g (h ++ [e])) : IdsLast g h := by
  rw [IdsLast, issuedIn_snoc] at hids
  exact Nat.lt_of_le_of_lt (by omega) hids

/-- An action that issues no id and stores no relay adds no row. -/
theorem Action.KeepsIds.registryAfter (ha : a.KeepsIds) (hg : g.Sound) (time : Millis) :
    (a.registryAfter time g).Sound ∧ (a.registryAfter time g).sequence = g.sequence ∧
      ∀ id, g.relay? id = none → (a.registryAfter time g).relay? id = none := by
  have hcongr : ∀ {g' : Registry}, g'.relays = g.relays → g'.sequence = g.sequence →
      g'.Sound ∧ g'.sequence = g.sequence ∧ ∀ id, g.relay? id = none → g'.relay? id = none :=
    fun hr hs => ⟨hg.congr hr, hs, fun id hid => (Registry.relay?_congr hr id).trans hid⟩
  cases a with
  | transact t =>
    cases t with
    | nextRelayId | putRelay => cases ha
    | updateRelay id change =>
      rw [Action.registryAfter, Transaction.run]
      cases hr : g.relay? id with
      | none =>
        rw [hg.updateRelay_none hr]
        exact hcongr rfl rfl
      | some r =>
        rw [hg.updateRelay_some hr]
        refine ⟨hg.withRow ((ha r).trans (hg.id_eq hr)), rfl, ?_⟩
        intro k hk
        rw [Registry.relay?_withRow, if_neg, hk]
        rintro rfl
        rw [hk] at hr
        cases hr
    | deleteRelay id =>
      refine ⟨hg.withoutRow, rfl, ?_⟩
      intro k hk
      show (g.withoutRow id).relay? k = none
      rw [Registry.relay?_withoutRow, hk, ite_self]
    | releaseBindings id workloads =>
      simp only [Action.registryAfter, Transaction.run, Registry.releaseBindings]
      split <;> exact hcongr rfl rfl
    | _ => exact hcongr rfl rfl
  | _ => exact hcongr rfl rfl

/-- The ids of rows and those under which calls may store relays were issued; a call that may store
a relay under an id is the only one, and there is none under it yet. -/
structure Numbered (g : Registry) (φ : ι → Option RelayId) : Prop where
  issued : g.Issued
  pending_issued : ∀ i id, φ i = some id → g.HasIssued id
  pending_absent : ∀ i id, φ i = some id → g.relay? id = none
  pending_unique : ∀ i j id, φ i = some id → φ j = some id → i = j

variable [DecidableEq ι]

/-- Actions that issue no id and store no relay keep to what is numbered. -/
theorem Numbered.keeps (inv : Numbered g φ) (hg : g.Sound) (ha : a.KeepsIds) (time : Millis) {i : ι}
    (hφ : φ' = φ i ∨ φ' = none) : Numbered (a.registryAfter time g) (Function.update φ i φ') := by
  obtain ⟨-, hsequence, habsent⟩ := ha.registryAfter hg time
  have hissued : ∀ {id}, g.HasIssued id → (a.registryAfter time g).HasIssued id :=
    fun h => h.mono (hsequence ▸ UInt64.le_refl _)
  have hold : ∀ j id, Function.update φ i φ' j = some id → φ j = some id := by
    intro j id hj
    by_cases hji : j = i
    · subst hji
      rw [Function.update_self] at hj
      rcases hφ with rfl | rfl
      · exact hj
      · cases hj
    · rwa [Function.update_of_ne hji] at hj
  exact {
    issued := fun id hid => hissued (inv.issued id fun hnone => hid (habsent id hnone))
    pending_issued := fun j id hj => hissued (inv.pending_issued j id (hold j id hj))
    pending_absent := fun j id hj => habsent id (inv.pending_absent j id (hold j id hj))
    pending_unique := fun j k id hj hk => inv.pending_unique j k id (hold j id hj) (hold k id hk) }

/-- The next id is given to one call, and there is no relay under it. -/
theorem Numbered.issues (inv : Numbered g φ) (hroom : g.sequence.toNat + 1 < 2 ^ 64) (i : ι) :
    Numbered g.nextRelayId.2 (Function.update φ i (some g.nextRelayId.1)) := by
  have hnew := Registry.not_hasIssued_nextRelayId hroom
  have hissued : ∀ {id}, g.HasIssued id → g.nextRelayId.2.HasIssued id := fun h =>
    h.mono (UInt64.le_iff_toNat_le.mpr (by rw [Registry.toNat_sequence_nextRelayId hroom]; omega))
  have hpending : ∀ j id, Function.update φ i (some g.nextRelayId.1) j = some id →
      j = i ∧ id = g.nextRelayId.1 ∨ φ j = some id ∧ id ≠ g.nextRelayId.1 := by
    intro j id hj
    by_cases hji : j = i
    · subst hji
      rw [Function.update_self] at hj
      exact .inl ⟨rfl, (Option.some.inj hj).symm⟩
    · rw [Function.update_of_ne hji] at hj
      refine .inr ⟨hj, ?_⟩
      rintro rfl
      exact hnew (inv.pending_issued j _ hj)
  refine ⟨fun id hid => hissued (inv.issued id hid), fun j id hj => ?_, fun j id hj => ?_,
    fun j k id hj hk => ?_⟩
  · rcases hpending j id hj with ⟨-, rfl⟩ | ⟨hj, -⟩
    · exact Registry.hasIssued_nextRelayId
    · exact hissued (inv.pending_issued j id hj)
  · show g.relay? id = none
    rcases hpending j id hj with ⟨-, rfl⟩ | ⟨hj, -⟩
    · exact by_contra fun hne => hnew (inv.issued _ hne)
    · exact inv.pending_absent j id hj
  · rcases hpending j id hj with ⟨rfl, rfl⟩ | ⟨hj, hne⟩ <;>
      rcases hpending k _ hk with ⟨rfl, heq⟩ | ⟨hk, hne'⟩
    · rfl
    · exact absurd rfl hne'
    · exact absurd heq hne
    · exact inv.pending_unique j k id hj hk

/-- A relay is stored under the id that was given for it. -/
theorem Numbered.stores (inv : Numbered g φ) {r : Relay} {i : ι} (hi : φ i = some r.id) :
    Numbered (g.putRelay r) (Function.update φ i none) := by
  have hrelay : ∀ id, (g.putRelay r).relay? id = if id = r.id then some r else g.relay? id :=
    fun id => Registry.relay?_withRow g r.id id r
  have hpending : ∀ j id, Function.update φ i none j = some id → φ j = some id ∧ id ≠ r.id := by
    intro j id hj
    by_cases hji : j = i
    · subst hji
      rw [Function.update_self] at hj
      cases hj
    · rw [Function.update_of_ne hji] at hj
      refine ⟨hj, ?_⟩
      rintro rfl
      exact hji (inv.pending_unique j i _ hj hi)
  refine ⟨fun id hid => ?_, fun j id hj => inv.pending_issued j id (hpending j id hj).1,
    fun j id hj => ?_,
    fun j k id hj hk => inv.pending_unique j k id (hpending j id hj).1 (hpending k id hk).1⟩
  · show g.HasIssued id
    by_cases hne : id = r.id
    · exact hne ▸ inv.pending_issued i r.id hi
    · rw [hrelay, if_neg hne] at hid
      exact inv.issued id hid
  · rw [hrelay, if_neg (hpending j id hj).2]
    exact inv.pending_absent j id (hpending j id hj).1

/-- Where a run from `g` stands: its relays are numbered. -/
structure Issuing (g : Registry) (h : List (Moment ι α)) (s : System ι α)
    (φ : ι → Option RelayId) : Prop where
  sound : s.registry.Sound
  sequence_eq : s.registry.sequence.toNat = g.sequence.toNat + issuedIn h
  numbered : Numbered s.registry φ

/-- A step of a call that stores relays under ids that it was given. -/
theorem Issuing.step (inv : Issuing g h s φ) (hids : IdsLast g (h ++ [⟨s, m⟩]))
    (hs : RelayFleet.Step s m s') (hp : IssuanceStep (φ m.caller) m.action m.reply φ') :
    Issuing g (h ++ [⟨s, m⟩]) s' (Function.update φ m.caller φ') := by
  obtain ⟨hsound, hsequence, hnumbered⟩ := inv
  obtain ⟨i, a, time, r⟩ := m
  have hanswers := hs.answers
  rw [IdsLast, issuedIn_snoc] at hids
  suffices hnext : (a.registryAfter time s.registry).Sound ∧
      (a.registryAfter time s.registry).sequence.toNat =
        g.sequence.toNat + (issuedIn h + if a.issues then 1 else 0) ∧
      Numbered (a.registryAfter time s.registry) (Function.update φ i φ') by
    rw [← hs.registry_eq] at hnext
    exact ⟨hnext.1, hnext.2.1.trans (by rw [issuedIn_snoc]), hnext.2.2⟩
  change IssuanceStep (φ i) a r φ' at hp
  generalize hstage : φ i = stage at hp
  cases hp with
  | keeps ha hφ =>
    obtain ⟨hsound', hkept, -⟩ := ha.registryAfter hsound time
    have hissues : a.issues = false := by
      cases a with
      | transact t => cases t <;> first | rfl | cases ha
      | _ => rfl
    exact ⟨hsound', by simp [hkept, hsequence, hissues],
      hnumbered.keeps hsound ha time (hstage ▸ hφ)⟩
  | issues =>
    cases hanswers
    simp only [Action.issues, if_true] at hids ⊢
    have hroom : s.registry.sequence.toNat + 1 < 2 ^ 64 := by omega
    refine ⟨hsound.congr rfl, ?_, hnumbered.issues hroom i⟩
    rw [← Nat.add_assoc, ← hsequence]
    exact Registry.toNat_sequence_nextRelayId hroom
  | stores => exact ⟨hsound.withRow rfl, hsequence, hnumbered.stores hstage⟩

end

variable {ι : Type} [DecidableEq ι] {calls : ι → Operation} {g : Registry}
  {h : List (Moment ι Outcome)} {s : System ι Outcome}

/-- In a run of operations from issued relays, relays are numbered as long as there are ids left. -/
theorem Run.issuing (hg : g.Sound) (hissued : g.Issued)
    (run : Run (System.start g fun i => (calls i).program) h s) (hids : IdsLast g h) :
    ∃ φ, Issuing g h s φ ∧ ∀ i, issuance.Follows (φ i) (s.calls i) fun _ _ => True :=
  run.follows_while (fun _ _ => IdsLast.of_snoc) (fun i => (calls i).follows_issuance)
    ⟨hg, rfl, hissued, by simp, by simp, by simp⟩ (fun _ _ _ inv => inv.sound)
    (fun _ _ _ _ _ _ _ hids inv hs hp => inv.step hids hs hp) hids

/-- A call that is about to store a relay does not replace one. -/
theorem Run.absent_of_stores (hg : g.Sound) (hissued : g.Issued)
    (run : Run (System.start g fun i => (calls i).program) h s) (hids : IdsLast g h) {i : ι}
    {r : Relay} {next : StoreResult Unit → Fleet Outcome}
    (hi : s.calls i = .ask (.transact (.putRelay r)) next) : s.registry.relay? r.id = none := by
  obtain ⟨φ, inv, hφ⟩ := run.issuing hg hissued hids
  have hcall := hφ i
  rw [hi] at hcall
  obtain ⟨φ', hp, -⟩ := hcall (.ok ()) ⟨0, s.registry, inv.sound, rfl⟩
  generalize hstage : φ i = stage at hp
  cases hp with
  | keeps ha => cases ha
  | stores => exact inv.numbered.pending_absent i r.id hstage

/-! ## Programs that run alone -/

/-- An action issues an id or leaves the counter. -/
theorem Action.sequence_registryAfter (a : Action) (time : Millis) (g : Registry) :
    (a.registryAfter time g).sequence = if a.issues then g.sequence + 1 else g.sequence := by
  cases a with
  | transact t =>
    cases t with
    | updateRelay id change =>
      simp only [registryAfter, Transaction.run, Registry.updateRelay]
      split <;> rfl
    | releaseBindings id workloads =>
      simp only [registryAfter, Transaction.run, Registry.releaseBindings]
      split <;> rfl
    | _ => rfl
  | _ => rfl

/-- The counter goes on by one where an id is issued, as long as there are any left. -/
theorem Action.toNat_sequence_registryAfter (a : Action) (time : Millis) {g : Registry}
    (hroom : g.sequence.toNat + (if a.issues then 1 else 0) < 2 ^ 64) :
    (a.registryAfter time g).sequence.toNat = g.sequence.toNat + if a.issues then 1 else 0 := by
  rw [a.sequence_registryAfter]
  split
  · next hissues =>
    rw [if_pos hissues] at hroom
    exact Registry.toNat_sequence_nextRelayId hroom
  · rfl

/-- How many ids were issued on the way. -/
def issuedBy (l : List Deed) : Nat := l.countP (·.action.issues)

/-- Nothing is issued where nothing is done. -/
@[simp]
theorem issuedBy_nil : issuedBy [] = 0 := rfl

/-- The ids that are issued further on are added. -/
theorem issuedBy_append (l l' : List Deed) : issuedBy (l ++ l') = issuedBy l + issuedBy l' :=
  List.countP_append

/-- How many ids are issued with one more deed in front. -/
theorem issuedBy_cons (d : Deed) (l : List Deed) :
    issuedBy (d :: l) = issuedBy l + if d.action.issues then 1 else 0 :=
  List.countP_cons

/-- The counter goes on by the ids that are issued, as long as there are any left. -/
theorem Alone.toNat_sequence {α : Type} {g g' : Registry} {p : Fleet α} {l : List Deed} {x : α}
    (h : Alone g p l x g') (hroom : g.sequence.toNat + issuedBy l < 2 ^ 64) :
    g'.sequence.toNat = g.sequence.toNat + issuedBy l := by
  induction h with
  | pure => rfl
  | @ask g g' a next time r l x _ _ ih =>
    simp only [issuedBy_cons] at hroom ⊢
    have hnext := a.toNat_sequence_registryAfter time (g := g) (by omega)
    rw [ih (by omega)]
    omega

end RelayFleet
