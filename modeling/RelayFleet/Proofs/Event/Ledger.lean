import Mathlib.Logic.Function.Basic
import RelayFleet.Proofs.Event.Chronicle
import RelayFleet.Proofs.Registry.Issuance
import RelayFleet.Proofs.Registry.Keyed

/-!
# Events are a log of the registry

When operations are completed one after the other on an empty registry, the events that they
announce tell which relays are stored (`InTurn.mirrored`). What is announced about one id is told by
its `Account`: nothing, that there were no resources for it, that the relay was made and what became
of it, and at last that it was destroyed. While a call owes an event the account of one id may lag
behind the registry, and those of the others never do (`Ledger`).
-/

namespace RelayFleet

/-! ## What is announced -/

/-- The event that is announced, if one is. -/
def Action.event? : Action → Option Event
  | .emit e => some e
  | _ => none

/-- The events that are announced on the way. -/
def eventsOf (l : List Deed) : List Event := l.filterMap (·.action.event?)

/-- What is announced about a relay on the way, in this order. -/
def toldAbout (l : List Deed) (id : RelayId) : List EventKind :=
  ((eventsOf l).filter (·.relayId = some id)).map (·.kind)

/-- More is announced on the way further on. -/
theorem toldAbout_append (l l' : List Deed) (id : RelayId) :
    toldAbout (l ++ l') id = toldAbout l id ++ toldAbout l' id := by
  simp [toldAbout, eventsOf]

/-- The provisioner refuses resources for the relay. -/
def Action.Refuses (id : RelayId) : (a : Action) → a.Reply → Prop
  | .provision (.allocate k _ _), .error _ => k = id
  | _, _ => False

/-- On the way the provisioner refuses resources for the relay. -/
def RefusedIn (l : List Deed) (id : RelayId) : Prop := ∃ d ∈ l, d.action.Refuses id d.reply

/-- What tells that a relay was neither made nor destroyed. -/
def EventKind.IsNews (k : EventKind) : Prop := k ≠ .created ∧ k ≠ .destroyed

/-- All that is announced about a relay, which is stored or not. -/
inductive Account : Bool → List EventKind → Prop
  | unheard : Account false []
  | refused : Account false [.createFailure]
  | live {news : List EventKind} (h : ∀ k ∈ news, k.IsNews) : Account true (.created :: news)
  | gone {news : List EventKind} (h : ∀ k ∈ news, k.IsNews) :
    Account false (.created :: (news ++ [.destroyed]))

/-- The events of the actions are a faithful log of the registry that they lead to. -/
structure Mirrors (l : List Deed) (g : Registry) : Prop where
  /-- What was made and not destroyed is stored, and nothing else is. -/
  stored (id : RelayId) : (∃ r ∈ g.rows, r.id = id) ↔
    .created ∈ toldAbout l id ∧ .destroyed ∉ toldAbout l id
  created_once (id : RelayId) : (toldAbout l id).count .created ≤ 1
  destroyed_once (id : RelayId) : (toldAbout l id).count .destroyed ≤ 1
  /-- A relay comes up and reboots after it was made and before it is destroyed. -/
  within (id : RelayId) {before after : List EventKind} {k : EventKind}
    (split : toldAbout l id = before ++ k :: after) (hk : k = .up ∨ k = .rebooted) :
    .created ∈ before ∧ .destroyed ∉ before
  /-- Of a relay for which there are no resources nothing is announced but this. -/
  refused (id : RelayId) (h : RefusedIn l id) : toldAbout l id = [.createFailure]
  /-- The last that is announced about a relay is that it was destroyed. -/
  last (id : RelayId) {before after : List EventKind}
    (split : toldAbout l id = before ++ .destroyed :: after) : after = []

namespace Account

variable {b : Bool} {kinds before after : List EventKind} {k : EventKind}

/-- News tell of nothing else. -/
theorem not_mem_news {news : List EventKind} (h : ∀ k ∈ news, k.IsNews) :
    EventKind.created ∉ news ∧ EventKind.destroyed ∉ news :=
  ⟨fun hmem => (h _ hmem).1 rfl, fun hmem => (h _ hmem).2 rfl⟩

/-- What is stored was made and not destroyed. -/
theorem stored_iff (h : Account b kinds) : b = true ↔ .created ∈ kinds ∧ .destroyed ∉ kinds := by
  cases h with
  | unheard | refused => simp
  | live h => simp [not_mem_news h]
  | gone h => simp

/-- It was made once and destroyed once. -/
theorem count_le_one (h : Account b kinds) :
    kinds.count .created ≤ 1 ∧ kinds.count .destroyed ≤ 1 := by
  cases h with
  | unheard | refused => decide
  | live h | gone h =>
    obtain ⟨hcreated, hdestroyed⟩ := not_mem_news h
    simp [List.count_append, List.count_eq_zero.mpr hcreated,
      List.count_eq_zero.mpr hdestroyed]

/-- After it was destroyed nothing is announced. -/
theorem eq_nil_of_destroyed (h : Account b kinds) (hsplit : kinds = before ++ .destroyed :: after) :
    after = [] := by
  have hmem : EventKind.destroyed ∈ kinds := by simp [hsplit]
  cases h with
  | unheard => cases hmem
  | refused => simp at hmem
  | live h => simp [not_mem_news h] at hmem
  | @gone news h =>
    by_contra hne
    -- the last event stands after this one, so this one is among the news
    have hinit := congrArg List.dropLast hsplit
    rw [← List.cons_append, List.dropLast_concat, List.dropLast_append_cons,
      List.dropLast_cons_of_ne_nil hne] at hinit
    have hearlier : EventKind.destroyed ∈ .created :: news := by
      rw [hinit]
      simp
    simp [not_mem_news h] at hearlier

/-- It comes up and reboots after it was made and before it is destroyed. -/
theorem within (h : Account b kinds) (hsplit : kinds = before ++ k :: after)
    (hk : k = .up ∨ k = .rebooted) : .created ∈ before ∧ .destroyed ∉ before := by
  constructor
  · cases before with
    | nil => cases h <;> cases hsplit <;> simp at hk
    | cons k' before =>
      cases h with
      | unheard | refused => simp at hsplit
      | live | gone =>
        rw [← (List.cons.inj hsplit).1]
        exact List.mem_cons_self
  · intro hmem
    obtain ⟨b₁, b₂, rfl⟩ := List.append_of_mem hmem
    rw [List.append_assoc, List.cons_append] at hsplit
    simpa using h.eq_nil_of_destroyed hsplit

/-- Something was announced of what is stored. -/
theorem ne_nil (h : Account true kinds) : kinds ≠ [] := by
  cases h
  simp

/-- What is stored was not refused. -/
theorem ne_refused (h : Account true kinds) : kinds ≠ [.createFailure] := by
  cases h
  simp

/-- News of what is stored. -/
theorem tell (h : Account true kinds) (hk : k.IsNews) : Account true (kinds ++ [k]) := by
  cases h with
  | live h => exact .live (List.forall_mem_append.mpr ⟨h, List.forall_mem_singleton.mpr hk⟩)

/-- What was stored is destroyed. -/
theorem bury (h : Account true kinds) : Account false (kinds ++ [.destroyed]) := by
  cases h with
  | live h => exact .gone h

end Account

/-! ## What the call owes is what the accounts lack -/

/-- A relay is stored under the id. -/
def Registry.has (g : Registry) (id : RelayId) : Bool := (g.relay? id).isSome

/-- A relay that was found is stored. -/
theorem Registry.has_of_relay? {g : Registry} {id : RelayId} {r : Relay}
    (hr : g.relay? id = some r) : g.has id = true := by
  rw [has, hr]
  rfl

/-- What is stored where a row was put down. -/
theorem Registry.has_withRow (g : Registry) (id k : RelayId) (r : Relay) :
    (g.withRow id r).has k = (g.has k || decide (k = id)) := by
  rw [has, relay?_withRow, has]
  split <;> simp [*]

/-- What is stored where a row was removed. -/
theorem Registry.has_withoutRow (g : Registry) (id k : RelayId) :
    (g.withoutRow id).has k = (g.has k && !decide (k = id)) := by
  rw [has, relay?_withoutRow, has]
  split <;> simp [*]

/-- Which ids were issued is told by the counter. -/
theorem Registry.hasIssued_congr {g g' : Registry} (h : g'.sequence = g.sequence) (id : RelayId) :
    g'.HasIssued id ↔ g.HasIssued id := by
  rw [HasIssued, HasIssued, h]

/-- What the call knows is so, and what it owes is what the account of its relay lacks. -/
def Entry.Stands (g : Registry) (told : RelayId → List EventKind) : Entry → Prop
  | blank => True
  | present id => g.has id = true
  | issued id | refused id => g.HasIssued id ∧ g.has id = false ∧ told id = []
  | stored id => g.has id = true ∧ told id = []
  | removed id => g.has id = false ∧ Account true (told id)

/-- The accounts are those of the registry, but for the one about which the call owes an event. -/
structure Ledger (told : RelayId → List EventKind) (refused : RelayId → Prop) (g : Registry)
    (φ : Entry) : Prop where
  issued : ∀ id, g.has id = true → g.HasIssued id
  unheard : ∀ id, ¬ g.HasIssued id → told id = []
  accounts : ∀ id, φ.owed? ≠ some id → Account (g.has id) (told id)
  stands : φ.Stands g told
  refusals : ∀ id, refused id → told id = [.createFailure] ∨ φ = .refused id

namespace Ledger

variable {told : RelayId → List EventKind} {refused : RelayId → Prop} {g g' : Registry}
  {φ φ' : Entry} {id : RelayId}

/-- On an empty registry nothing has been announced. -/
theorem start : Ledger (fun _ => []) (fun _ => False) .empty .blank where
  issued id hid := by simp [Registry.has, Registry.relay?_empty] at hid
  unheard _ _ := rfl
  accounts id _ := by
    rw [Registry.has, Registry.relay?_empty]
    exact .unheard
  stands := trivial
  refusals := by simp

/-- Where nothing is owed every account is that of the registry. -/
theorem account (inv : Ledger told refused g φ) (hφ : φ.IsPaid) (id : RelayId) :
    Account (g.has id) (told id) := by
  refine inv.accounts id ?_
  cases φ with
  | blank | present => simp [Entry.owed?]
  | _ => cases hφ

/-- Nothing was refused for which nothing else is owed and of which something else was told. -/
theorem not_refused (inv : Ledger told refused g φ) (htold : told id ≠ [.createFailure])
    (hφ : φ ≠ .refused id) : ¬ refused id :=
  fun h => (inv.refusals id h).elim htold hφ

/-- The same relays are stored, and the same ids were issued. -/
theorem congr (inv : Ledger told refused g φ) (hrows : ∀ id, g'.has id = g.has id)
    (hsequence : g'.sequence = g.sequence) : Ledger told refused g' φ := by
  have hissued := Registry.hasIssued_congr hsequence
  refine ⟨fun id => ?_, fun id => ?_, fun id => ?_, ?_, inv.refusals⟩
  · rw [hrows, hissued]
    exact inv.issued id
  · rw [hissued]
    exact inv.unheard id
  · rw [hrows]
    exact inv.accounts id
  · have hstands := inv.stands
    cases φ with
    | blank => trivial
    | _ => simpa only [Entry.Stands, hrows, hissued] using hstands

/-- The call comes to know of another relay. -/
theorem knows (inv : Ledger told refused g φ) (hφ : φ.IsPaid) (hid : g.has id = true) :
    Ledger told refused g (.present id) where
  issued := inv.issued
  unheard := inv.unheard
  accounts k _ := inv.account hφ k
  stands := hid
  refusals k hk := (inv.refusals k hk).imp_right fun h => by
    rw [h] at hφ
    cases hφ

/-- An id is issued. -/
theorem issues (inv : Ledger told refused g φ) (hφ : φ.IsPaid)
    (hroom : g.sequence.toNat + 1 < 2 ^ 64) :
    Ledger told refused g.nextRelayId.2 (.issued g.nextRelayId.1) := by
  have hnew := Registry.not_hasIssued_nextRelayId hroom
  have hmono : ∀ {id}, g.HasIssued id → g.nextRelayId.2.HasIssued id := by
    intro id h
    refine h.mono (UInt64.le_iff_toNat_le.mpr ?_)
    rw [Registry.toNat_sequence_nextRelayId hroom]
    omega
  refine ⟨fun id hid => hmono (inv.issued id hid),
    fun id hid => inv.unheard id fun h => hid (hmono h), fun id _ => inv.account hφ id,
    ⟨Registry.hasIssued_nextRelayId, ?_, inv.unheard _ hnew⟩,
    fun id hid => (inv.refusals id hid).imp_right ?_⟩
  · exact Bool.eq_false_iff.mpr fun h => hnew (inv.issued _ h)
  · rintro rfl
    cases hφ

/-- There are no resources for the relay. -/
theorem refuses (inv : Ledger told refused g (.issued id)) :
    Ledger told (fun k => refused k ∨ id = k) g (.refused id) where
  issued := inv.issued
  unheard := inv.unheard
  accounts := inv.accounts
  stands := inv.stands
  refusals k hk := by
    rcases hk with hk | rfl
    · exact .inl ((inv.refusals k hk).resolve_right nofun)
    · exact .inr rfl

/-- The relay is stored. -/
theorem stores (inv : Ledger told refused g (.issued id))
    (hrows : ∀ k, g'.has k = (g.has k || decide (k = id))) (hsequence : g'.sequence = g.sequence) :
    Ledger told refused g' (.stored id) := by
  obtain ⟨hissued, habsent, htold⟩ := inv.stands
  have hsame := Registry.hasIssued_congr hsequence
  refine ⟨fun k hk => (hsame k).mpr ?_, fun k hk => inv.unheard k fun h => hk ((hsame k).mpr h),
    fun k hk => ?_, ⟨by simp [hrows], htold⟩, fun k hk => .inl ?_⟩
  · rw [hrows, Bool.or_eq_true, decide_eq_true_eq] at hk
    rcases hk with hk | rfl
    · exact inv.issued k hk
    · exact hissued
  · have hne : k ≠ id := fun heq => hk (congrArg some heq.symm)
    rw [hrows, decide_eq_false hne, Bool.or_false]
    exact inv.accounts k hk
  · exact (inv.refusals k hk).resolve_right nofun

/-- The relay is removed. -/
theorem removes (inv : Ledger told refused g (.present id))
    (hrows : ∀ k, g'.has k = (g.has k && !decide (k = id))) (hsequence : g'.sequence = g.sequence) :
    Ledger told refused g' (.removed id) := by
  have hsame := Registry.hasIssued_congr hsequence
  have haccount := inv.account trivial id
  rw [show g.has id = true from inv.stands] at haccount
  refine ⟨fun k hk => (hsame k).mpr (inv.issued k ?_),
    fun k hk => inv.unheard k fun h => hk ((hsame k).mpr h), fun k hk => ?_,
    ⟨by simp [hrows], haccount⟩, fun k hk => .inl ?_⟩
  · rw [hrows, Bool.and_eq_true] at hk
    exact hk.1
  · have hne : k ≠ id := fun heq => hk (congrArg some heq.symm)
    rw [hrows, decide_eq_false hne, Bool.not_false, Bool.and_true]
    exact inv.account trivial k
  · exact (inv.refusals k hk).resolve_right nofun

/-- An event about a relay is announced that completes its account. -/
theorem tells {kind : EventKind} (inv : Ledger told refused g φ)
    (howed : ∀ k, φ.owed? = some k → k = id)
    (hstands : φ'.Stands g (Function.update told id (told id ++ [kind])))
    (hissued : g.HasIssued id) (haccount : Account (g.has id) (told id ++ [kind]))
    (hrefused : refused id → told id ++ [kind] = [.createFailure]) :
    Ledger (Function.update told id (told id ++ [kind])) refused g φ' where
  issued := inv.issued
  unheard k hk := by
    rw [Function.update_of_ne]
    · exact inv.unheard k hk
    · rintro rfl
      exact hk hissued
  accounts k _ := by
    obtain rfl | hne := eq_or_ne k id
    · rwa [Function.update_self]
    · rw [Function.update_of_ne hne]
      exact inv.accounts k fun h => hne (howed k h)
  stands := hstands
  refusals k hk := by
    obtain rfl | hne := eq_or_ne k id
    · rw [Function.update_self]
      exact .inl (hrefused hk)
    · rw [Function.update_of_ne hne]
      refine .inl ((inv.refusals k hk).resolve_right ?_)
      rintro rfl
      exact hne (howed k rfl)

end Ledger

/-! ## What an action makes of the accounts -/

section
variable {l : List Deed} {g : Registry} {a : Action} {time : Millis} {r : a.Reply} {id k : RelayId}
  {φ φ' : Entry}

/-- An action that announces nothing about a relay leaves what is told. -/
theorem toldAbout_snoc_of_none (h : ∀ e, a.event? = some e → e.relayId = none) :
    toldAbout (l ++ [⟨g, a, time, r⟩]) = toldAbout l := by
  funext id
  rw [toldAbout_append]
  cases he : a.event? with
  | none => simp [toldAbout, eventsOf, he]
  | some e => simp [toldAbout, eventsOf, he, h e he]

/-- An event about a relay is told. -/
theorem toldAbout_snoc_emit {kind : EventKind} {zone : ZoneId} {text : String} {x : Unit} :
    toldAbout (l ++ [⟨g, .emit ⟨kind, zone, some id, text⟩, time, x⟩]) =
      Function.update (toldAbout l) id (toldAbout l id ++ [kind]) := by
  funext k
  rw [toldAbout_append, Function.update_apply]
  split
  · next heq =>
    subst heq
    simp [toldAbout, eventsOf, Action.event?]
  · next hne => simp [toldAbout, eventsOf, Action.event?, Ne.symm hne]

/-- A refusal is one more. -/
theorem refusedIn_snoc_refuses {zone : ZoneId} {spec : LaunchSpec} {e : ProvisionError} :
    RefusedIn (l ++ [⟨g, .provision (.allocate id zone spec), time, .error e⟩]) =
      fun k => RefusedIn l k ∨ id = k := by
  funext k
  simp [RefusedIn, Action.Refuses, or_and_right, exists_or]

/-- An action that is no refusal adds none. -/
theorem refusedIn_snoc_of_not (h : ∀ id, ¬ a.Refuses id r) :
    RefusedIn (l ++ [⟨g, a, time, r⟩]) = RefusedIn l := by
  funext id
  simp [RefusedIn, h id]

/-- The accounts after a deed that tells nothing about a relay. -/
theorem Ledger.untold {g' : Registry} (inv : Ledger (toldAbout l) (RefusedIn l) g' φ)
    (hquiet : ∀ e, a.event? = some e → e.relayId = none) (hrefuses : ∀ id, ¬ a.Refuses id r) :
    Ledger (toldAbout (l ++ [⟨g, a, time, r⟩])) (RefusedIn (l ++ [⟨g, a, time, r⟩])) g' φ := by
  rwa [toldAbout_snoc_of_none hquiet, refusedIn_snoc_of_not hrefuses]

/-- A transaction tells nothing, so it leaves the accounts of the registry that it leaves. -/
theorem Ledger.transacts {g' : Registry} {t : Transaction} {x : StoreResult t.Reply}
    (inv : Ledger (toldAbout l) (RefusedIn l) g' φ) :
    Ledger (toldAbout (l ++ [⟨g, .transact t, time, x⟩]))
      (RefusedIn (l ++ [⟨g, .transact t, time, x⟩])) g' φ :=
  inv.untold (fun _ h => by cases h) fun _ h => by cases h

/-- A silent action announces nothing. -/
theorem Action.IsSilent.event?_eq_none (ha : a.IsSilent) : a.event? = none := by
  cases a with
  | emit => cases ha
  | _ => rfl

/-- A silent action asks for no resources. -/
theorem Action.IsSilent.not_refuses (ha : a.IsSilent) : ¬ a.Refuses id r := by
  intro h
  cases a with
  | provision c =>
    cases c with
    | allocate => cases ha
    | _ => cases h
  | _ => cases h

/-- A silent action writes no row. -/
theorem Action.IsSilent.not_writesRelay (ha : a.IsSilent) : ¬ a.WritesRelay id := by
  intro h
  cases a with
  | transact t =>
    cases t with
    | putRelay | updateRelay | deleteRelay => cases ha
    | _ => cases h
  | _ => cases h

/-- A silent action issues no id. -/
theorem Action.IsSilent.issues_eq_false (ha : a.IsSilent) : a.issues = false := by
  cases a with
  | transact t =>
    cases t with
    | nextRelayId => cases ha
    | _ => rfl
  | _ => rfl

/-- A silent action leaves the relays and the ids that were issued. -/
theorem Ledger.silent (inv : Ledger (toldAbout l) (RefusedIn l) g φ) (ha : a.IsSilent) :
    Ledger (toldAbout (l ++ [⟨g, a, time, r⟩])) (RefusedIn (l ++ [⟨g, a, time, r⟩]))
      (a.registryAfter time g) φ := by
  have hhas : ∀ id, (a.registryAfter time g).has id = g.has id := by
    intro id
    rw [Registry.has, Action.relay?_registryAfter ha.not_writesRelay, Registry.has]
  have hsequence : (a.registryAfter time g).sequence = g.sequence := by
    rw [Action.sequence_registryAfter, ha.issues_eq_false]
    rfl
  exact (inv.congr hhas hsequence).untold (by simp [ha.event?_eq_none]) fun _ => ha.not_refuses

/-- A change of a row leaves the relays and the ids that were issued. -/
theorem Ledger.changes {change : Relay → Relay} {x : StoreResult Registry.Change}
    (inv : Ledger (toldAbout l) (RefusedIn l) g φ) (hg : g.Sound) :
    Ledger (toldAbout (l ++ [⟨g, .transact (.updateRelay id change), time, x⟩]))
      (RefusedIn (l ++ [⟨g, .transact (.updateRelay id change), time, x⟩]))
      (g.updateRelay time id change).2 φ := by
  refine Ledger.transacts ?_
  cases hr : g.relay? id with
  | none => rwa [hg.updateRelay_none hr]
  | some r =>
    rw [hg.updateRelay_some hr]
    refine inv.congr (fun k => ?_) rfl
    rw [Registry.has_withRow]
    obtain rfl | hne := eq_or_ne k id
    · rw [Registry.has_of_relay? hr, Bool.true_or]
    · rw [decide_eq_false hne, Bool.or_false]

/-- An event about a relay completes its account. -/
theorem Ledger.emits {kind : EventKind} {zone : ZoneId} {text : String} {x : Unit}
    (inv : Ledger (toldAbout l) (RefusedIn l) g φ) (howed : ∀ k, φ.owed? = some k → k = id)
    (hstands : φ'.Stands g (Function.update (toldAbout l) id (toldAbout l id ++ [kind])))
    (hissued : g.HasIssued id) (haccount : Account (g.has id) (toldAbout l id ++ [kind]))
    (hrefused : RefusedIn l id → toldAbout l id ++ [kind] = [.createFailure]) :
    Ledger (toldAbout (l ++ [⟨g, .emit ⟨kind, zone, some id, text⟩, time, x⟩]))
      (RefusedIn (l ++ [⟨g, .emit ⟨kind, zone, some id, text⟩, time, x⟩])) g φ' := by
  rw [toldAbout_snoc_emit, refusedIn_snoc_of_not fun _ h => by cases h]
  exact inv.tells howed hstands hissued haccount hrefused

section
variable {kind : EventKind} {zone : ZoneId} {text : String} {x : Unit}

/-- It is announced that a relay was made. -/
theorem Ledger.announces (inv : Ledger (toldAbout l) (RefusedIn l) g (.stored id)) :
    Ledger (toldAbout (l ++ [⟨g, .emit ⟨.created, zone, some id, text⟩, time, x⟩]))
      (RefusedIn (l ++ [⟨g, .emit ⟨.created, zone, some id, text⟩, time, x⟩])) g
      (.present id) := by
  obtain ⟨hhas, htold⟩ := inv.stands
  refine inv.emits (by simp [Entry.owed?]) hhas (inv.issued _ hhas) ?_ fun hrefused => ?_
  · rw [hhas, htold]
    exact .live (List.forall_mem_nil _)
  · exact absurd hrefused (inv.not_refused (by simp [htold]) nofun)

/-- It is announced that there were no resources for a relay. -/
theorem Ledger.regrets (inv : Ledger (toldAbout l) (RefusedIn l) g (.refused id)) :
    Ledger (toldAbout (l ++ [⟨g, .emit ⟨.createFailure, zone, some id, text⟩, time, x⟩]))
      (RefusedIn (l ++ [⟨g, .emit ⟨.createFailure, zone, some id, text⟩, time, x⟩])) g
      .blank := by
  obtain ⟨hissued, hhas, htold⟩ := inv.stands
  refine inv.emits (by simp [Entry.owed?]) trivial hissued ?_ fun _ => by rw [htold]; rfl
  rw [hhas, htold]
  exact .refused

/-- It is announced that a relay was destroyed. -/
theorem Ledger.buries (inv : Ledger (toldAbout l) (RefusedIn l) g (.removed id)) :
    Ledger (toldAbout (l ++ [⟨g, .emit ⟨.destroyed, zone, some id, text⟩, time, x⟩]))
      (RefusedIn (l ++ [⟨g, .emit ⟨.destroyed, zone, some id, text⟩, time, x⟩])) g
      .blank := by
  obtain ⟨hhas, haccount⟩ := inv.stands
  refine inv.emits (by simp [Entry.owed?]) trivial ?_ ?_ fun hrefused => ?_
  · by_contra hnew
    exact haccount.ne_nil (inv.unheard _ hnew)
  · rw [hhas]
    exact haccount.bury
  · exact absurd hrefused (inv.not_refused haccount.ne_refused nofun)

/-- Something else is announced of a relay that is stored. -/
theorem Ledger.news (inv : Ledger (toldAbout l) (RefusedIn l) g (.present id))
    (hkind : kind.IsNews) :
    Ledger (toldAbout (l ++ [⟨g, .emit ⟨kind, zone, some id, text⟩, time, x⟩]))
      (RefusedIn (l ++ [⟨g, .emit ⟨kind, zone, some id, text⟩, time, x⟩])) g
      (.present id) := by
  have hhas : g.has id = true := inv.stands
  have haccount := inv.account trivial id
  rw [hhas] at haccount
  refine inv.emits (by simp [Entry.owed?]) hhas (inv.issued _ hhas) ?_ fun hrefused => ?_
  · rw [hhas]
    exact haccount.tell hkind
  · exact absurd hrefused (inv.not_refused haccount.ne_refused nofun)

end

/-- When nothing is owed the events are a faithful log. -/
theorem Ledger.mirrors (inv : Ledger (toldAbout l) (RefusedIn l) g φ) (hg : g.Sound)
    (hφ : φ.IsPaid) : Mirrors l g := by
  have hrow : ∀ id, (∃ r ∈ g.rows, r.id = id) ↔ g.has id = true := by
    intro id
    rw [Registry.has, Option.isSome_iff_exists]
    refine exists_congr fun r => ?_
    rw [hg.mem_rows]
    constructor
    · rintro ⟨hr, rfl⟩
      exact hr
    · intro hr
      have hid := hg.id_eq hr
      exact ⟨hid ▸ hr, hid⟩
  exact {
    stored := fun id => (hrow id).trans (inv.account hφ id).stored_iff
    created_once := fun id => (inv.account hφ id).count_le_one.1
    destroyed_once := fun id => (inv.account hφ id).count_le_one.2
    within := fun id _ _ _ split hk => (inv.account hφ id).within split hk
    refused := fun id h => (inv.refusals id h).resolve_right fun heq => by
      rw [heq] at hφ
      cases hφ
    last := fun id _ _ split => (inv.account hφ id).eq_nil_of_destroyed split }

/-- A call that pays what it owes gives no stored relay another id. -/
theorem ChronicleStep.renamesNone (h : ChronicleStep φ a r φ') : a.RenamesNone := by
  cases h with
  | rests ha =>
    cases a with
    | transact t =>
      cases t with
      | updateRelay => cases ha
      | _ => trivial
    | _ => trivial
  | changes hid | finds hid => exact hid
  | _ => trivial

/-- A step of a call that pays what it owes. -/
theorem Ledger.step (inv : Ledger (toldAbout l) (RefusedIn l) g φ) (hg : g.Sound)
    (permits : a.Permits time g r) (hs : ChronicleStep φ a r φ')
    (hroom : a.issues = true → g.sequence.toNat + 1 < 2 ^ 64) :
    Ledger (toldAbout (l ++ [⟨g, a, time, r⟩])) (RefusedIn (l ++ [⟨g, a, time, r⟩]))
      (a.registryAfter time g) φ' := by
  cases hs with
  | rests ha => exact inv.silent ha
  | changes => exact inv.changes hg
  | @finds _ k change c _ hφ =>
    obtain ⟨hbefore, -⟩ := Lifecycle.change_eq permits
    exact (inv.knows hφ (Registry.has_of_relay? hbefore)).changes hg
  | @lists _ keep relays row hφ hr =>
    have hread : Except.ok relays = g.listRelays keep := permits
    rw [hg.listRelays, Except.ok.injEq] at hread
    subst hread
    have hrow := hg.mem_rows.mp (List.mem_filter.mp hr).1
    exact (inv.knows hφ (Registry.has_of_relay? hrow)).silent trivial
  | issues hφ =>
    cases permits
    exact (inv.issues hφ (hroom rfl)).transacts
  | allocates => exact inv.untold (fun _ h => by cases h) fun _ h => by cases h
  | refuses =>
    rw [refusedIn_snoc_refuses, toldAbout_snoc_of_none (by simp [Action.event?])]
    exact inv.refuses
  | @stores row =>
    exact (inv.stores (fun k => g.has_withRow row.id k row) rfl).transacts
  | @removes k =>
    exact (inv.removes (fun k' => g.has_withoutRow k k') rfl).transacts
  | announces => exact inv.announces
  | regrets => exact inv.regrets
  | buries => exact inv.buries
  | tells hkind => exact inv.news hkind
  | laments =>
    refine inv.untold (fun e he => ?_) fun _ h => by cases h
    cases he
    rfl

/-- The accounts while a program runs alone that pays what it owes. -/
theorem Alone.ledger {α : Type} {g g' : Registry} {p : Fleet α} {l l₀ : List Deed} {x : α}
    {φ : Entry} {Q : Entry → α → Prop} (h : Alone g p l x g') (hf : chronicle.Follows φ p Q)
    (hg : g.Sound) (inv : Ledger (toldAbout l₀) (RefusedIn l₀) g φ)
    (hroom : g.sequence.toNat + issuedBy l < 2 ^ 64) :
    g'.Sound ∧ ∃ φ', Ledger (toldAbout (l₀ ++ l)) (RefusedIn (l₀ ++ l)) g' φ' ∧ Q φ' x := by
  induction h generalizing l₀ φ with
  | pure =>
    rw [List.append_nil]
    exact ⟨hg, φ, inv, hf⟩
  | @ask g g' a next time r l x permits rest ih =>
    have hexpects : chronicle.Expects a r := by
      cases a with
      | transact t => exact ⟨time, g, hg, permits⟩
      | _ => trivial
    obtain ⟨φ', hs, hf'⟩ := hf r hexpects
    simp only [issuedBy_cons] at hroom
    have hnext := a.toNat_sequence_registryAfter time (g := g) (by omega)
    have hstep := inv.step hg permits hs fun hissues => by
      rw [if_pos hissues] at hroom
      omega
    have hrest := ih hf' (hs.renamesNone.sound hg time) hstep (by omega)
    rwa [List.append_assoc] at hrest

end

/-! ## Operations that are completed one after the other -/

/-- An operation that was completed. -/
structure Episode where
  call : Operation
  deeds : List Deed
  outcome : Outcome

/-- All that was done, in this order. -/
def deedsOf (story : List Episode) : List Deed := story.flatMap (·.deeds)

/-- One more operation. -/
theorem deedsOf_snoc (story : List Episode) (e : Episode) :
    deedsOf (story ++ [e]) = deedsOf story ++ e.deeds := by
  simp [deedsOf]

/-- Operations are completed one after the other. -/
inductive InTurn (g₀ : Registry) : List Episode → Registry → Prop
  | start : InTurn g₀ [] g₀
  | next {story : List Episode} {g g' : Registry} {e : Episode} (earlier : InTurn g₀ story g)
    (alone : Alone g e.call.program e.deeds e.outcome g') : InTurn g₀ (story ++ [e]) g'

/-- The counter goes on by the ids that are issued, as long as there are any left. -/
theorem InTurn.toNat_sequence {g₀ g : Registry} {story : List Episode} (h : InTurn g₀ story g)
    (hroom : g₀.sequence.toNat + issuedBy (deedsOf story) < 2 ^ 64) :
    g.sequence.toNat = g₀.sequence.toNat + issuedBy (deedsOf story) := by
  induction h with
  | start => rfl
  | next earlier alone ih =>
    rw [deedsOf_snoc, issuedBy_append] at hroom ⊢
    have hbefore := ih (by omega)
    rw [alone.toNat_sequence (by omega), hbefore]
    omega

/-- **Events are a log of the registry.** Let operations be completed one after the other on an
empty registry, in any number and order and with any outcomes of the provisioner, as long as it has
ids left. Then after the last of them, and so after each, the ids of the stored relays are those
that were announced as created and not as destroyed. Every id is announced so at most once; a relay
comes up and reboots only in between; of an id for which the provisioner refused resources nothing
is announced but this; and nothing is announced of an id after it was destroyed. -/
theorem InTurn.mirrored {g : Registry} {story : List Episode} (h : InTurn .empty story g)
    (hroom : issuedBy (deedsOf story) < 2 ^ 64) : Mirrors (deedsOf story) g := by
  suffices g.Sound ∧ ∃ φ, Ledger (toldAbout (deedsOf story)) (RefusedIn (deedsOf story)) g φ ∧
      φ.IsPaid by
    obtain ⟨hg, φ, inv, hφ⟩ := this
    exact inv.mirrors hg hφ
  induction h with
  | start =>
    have htold : toldAbout (deedsOf []) = fun _ => [] := rfl
    have hrefused : RefusedIn (deedsOf []) = fun _ => False := by
      funext id
      simp [RefusedIn, deedsOf]
    rw [htold, hrefused]
    exact ⟨Registry.sound_empty, .blank, .start, trivial⟩
  | @next story g g' e earlier alone ih =>
    rw [deedsOf_snoc] at hroom ⊢
    rw [issuedBy_append] at hroom
    obtain ⟨hg, φ, inv, hφ⟩ := ih (by omega)
    have hempty : Registry.empty.sequence.toNat = 0 := rfl
    have hbefore := earlier.toNat_sequence (by omega)
    exact alone.ledger (e.call.pays φ hφ) hg inv (by omega)

/-! ## A relay that comes up after another one was refused -/

/-- The row under an id is changed while a program runs alone. -/
theorem Alone.changeRow {α : Type} {g g' : Registry} {id : RelayId} {r r' : Relay} {time : Millis}
    {change : Relay → Relay} {next : StoreResult Registry.Change → Fleet α} {l : List Deed} {x : α}
    (hchange : { change r with updatedAt := time } = r')
    (rest : Alone (g.withRow id r') (next (.ok ⟨r, r'⟩)) l x g') :
    Alone (g.withRow id r) (.ask (.transact (.updateRelay id change)) next)
      (⟨g.withRow id r, .transact (.updateRelay id change), time, .ok ⟨r, r'⟩⟩ :: l) x g' := by
  subst hchange
  have hrun := g.updateRelay_withRow id r time change
  refine .ask (congrArg Prod.fst hrun).symm ?_
  rwa [Action.registryAfter, Transaction.run, hrun]

/-- Nothing is stored, and so many ids were issued. -/
def issuedRegistry (n : UInt64) : Registry := { Registry.empty with sequence := n }

/-- The second relay. -/
def launchingRelay (s : RelayState) : Relay :=
  { Relay.fresh 0 (Registry.relayId 2) "zone-a" none 0 with state := s }

/-- The registry in which the second relay is in a state. -/
def launchingRegistry (s : RelayState) : Registry :=
  (issuedRegistry 2).withRow (Registry.relayId 2) (launchingRelay s)

/-- There are no resources for the first relay, and the second one is made and started. -/
def launchingStory : List Episode :=
  let first := Registry.relayId 1
  let second := Registry.relayId 2
  let move (source : RelayState) (op : RelayOp) (target : RelayState) : Deed :=
    ⟨launchingRegistry source,
      .transact (.updateRelay second (Lifecycle.moved (fun _ => op) fun _ r => r)), 0,
      .ok ⟨launchingRelay source, launchingRelay target⟩⟩
  [{ call := .create "zone-a" default
     deeds :=
       [⟨.empty, .transact .nextRelayId, 0, .ok first⟩,
         ⟨issuedRegistry 1, .provision (.allocate first "zone-a" default), 0, .error default⟩,
         ⟨issuedRegistry 1, .emit ⟨.createFailure, "zone-a", some first,
           "relay allocation failed: " ++ (default : ProvisionError).message⟩, 0, ()⟩]
     outcome := .relay (.error (.provisioning first default)) },
   { call := .create "zone-a" default
     deeds :=
       [⟨issuedRegistry 1, .transact .nextRelayId, 0, .ok second⟩,
         ⟨issuedRegistry 2, .provision (.allocate second "zone-a" default), 0, .ok ⟨none, 0⟩⟩,
         ⟨issuedRegistry 2, .now, 0, (0 : Millis)⟩,
         ⟨issuedRegistry 2, .transact (.putRelay (launchingRelay .stopped)), 0, .ok ()⟩,
         ⟨launchingRegistry .stopped,
           .emit ⟨.created, "zone-a", some second, "relay created"⟩, 0, ()⟩]
     outcome := .relay (.ok (launchingRelay .stopped)) },
   { call := .start second
     deeds :=
       [move .stopped .start .starting,
         ⟨launchingRegistry .starting, .provision (.start second), 0, .ok ()⟩,
         move .starting .startCompleted .running,
         ⟨launchingRegistry .running, .emit ⟨.up, "zone-a", some second, "relay up"⟩, 0, ()⟩]
     outcome := .relay (.ok (launchingRelay .running)) }]

/-- What is announced of the second relay is that it was made and came up, and of the first one that
there were no resources for it. -/
theorem InTurn.mirrored_launching :
    InTurn .empty launchingStory (launchingRegistry .running) ∧
      issuedBy (deedsOf launchingStory) < 2 ^ 64 ∧
      toldAbout (deedsOf launchingStory) (Registry.relayId 1) = [.createFailure] ∧
      toldAbout (deedsOf launchingStory) (Registry.relayId 2) = [.created, .up] ∧
      Mirrors (deedsOf launchingStory) (launchingRegistry .running) := by
  have refused : InTurn .empty (launchingStory.take 1) (issuedRegistry 1) :=
    .next .start (.ask rfl (.ask trivial (.ask trivial .pure)))
  have made : InTurn .empty (launchingStory.take 2) (launchingRegistry .stopped) :=
    .next refused (.ask rfl (.ask trivial (.ask rfl (.ask rfl (.ask trivial .pure)))))
  have started : InTurn .empty launchingStory (launchingRegistry .running) :=
    .next made (.changeRow rfl (.ask trivial (.changeRow rfl (.ask trivial .pure))))
  have hissued : issuedBy (deedsOf launchingStory) < 2 ^ 64 := by decide
  exact ⟨started, hissued, by decide, by decide, started.mirrored hissued⟩

end RelayFleet
