import RelayFleet.Proofs.Json.Record
import RelayFleet.Toml.Reader

/-!
# Integers have 64 bits

`bounded_of_read?`: no integer of a document that was read reaches `integerLimit`, so that a number
that came from a document can be written into one. The reader checks each integer where it stands in
the text; the rest is that neither the reader nor the tables make up values of their own.
-/

namespace RelayFleet.Toml

/-! ## Values -/

namespace Value

/-- Every integer of the value is below the limit. -/
def Bounded (v : Value) : Prop := v.toJson.Below integerLimit

/-- An integer below the limit is bounded. -/
theorem bounded_integer {n : Int} (h : n < integerLimit) : (integer n).Bounded := by
  unfold Bounded toJson
  split
  · exact .decimal _
  · exact .natural (by omega)

/-- An array of bounded values is bounded. -/
theorem bounded_array {vs : List Value} (h : ∀ v ∈ vs, v.Bounded) : (array vs).Bounded := by
  unfold Bounded
  rw [toJson_array]
  refine .array fun v hv => ?_
  obtain ⟨v, hmem, rfl⟩ := List.mem_map.mp hv
  exact h v hmem

/-- A table of bounded values is bounded. -/
theorem bounded_table {ms : List (String × Value)} (h : ∀ m ∈ ms, m.2.Bounded) :
    (table ms).Bounded := by
  unfold Bounded
  rw [toJson_table]
  refine .object fun m hm => ?_
  obtain ⟨m, hmem, rfl⟩ := List.mem_map.mp hm
  exact h m hmem

end Value

/-! ## Tables -/

/-- The values of some entries are bounded. -/
def EntriesBounded (es : List Entry) : Prop := ∀ e ∈ es, e.value.Bounded

namespace Node

/-- The values of the node are bounded. -/
inductive Bounded : Node → Prop
  | value {v : Value} (h : v.Bounded) : Bounded (.value v)
  | table {kind : TableKind} {entries : Entries} (h : ∀ e ∈ entries, Bounded e.2) :
    Bounded (.table kind entries)
  | tables {items : List Entries} (h : ∀ entries ∈ items, ∀ e ∈ entries, Bounded e.2) :
    Bounded (.tables items)

/-- The nodes of the entries are bounded. -/
def Entries.Bounded (entries : Entries) : Prop := ∀ e ∈ entries, e.2.Bounded

section
variable {entries entries' : Entries} {key : String} {node : Node}

/-- What a bounded node makes is bounded. -/
theorem Bounded.toValue (h : node.Bounded) : node.toValue.Bounded := by
  have htable : ∀ entries : Entries, (∀ e ∈ entries, e.2.toValue.Bounded) →
      (Value.table (entries.map fun e => (e.1, e.2.toValue))).Bounded := by
    intro entries hentries
    refine Value.bounded_table fun m hm => ?_
    obtain ⟨e, he, rfl⟩ := List.mem_map.mp hm
    exact hentries e he
  induction h with
  | value h => exact h
  | @table kind entries _ ih =>
    rw [toValue_table]
    exact htable entries ih
  | @tables items _ ih =>
    rw [toValue_tables]
    refine Value.bounded_array fun v hv => ?_
    obtain ⟨entries, hmem, rfl⟩ := List.mem_map.mp (List.mem_reverse.mp hv)
    exact htable entries (ih entries hmem)

/-- No node is in no table. -/
theorem Entries.bounded_nil : Entries.Bounded [] := fun _ he => absurd he List.not_mem_nil

/-- What stands under a key of bounded entries is bounded. -/
theorem Entries.Bounded.lookup (h : entries.Bounded)
    (hlookup : Node.lookup key entries = some node) : node.Bounded := by
  obtain ⟨e, he, rfl⟩ := Option.map_eq_some_iff.mp hlookup
  exact h e (List.mem_of_find?_eq_some he)

/-- A bounded node may be put under a key. -/
theorem Entries.Bounded.store (h : entries.Bounded) (hnode : node.Bounded) :
    Entries.Bounded (Node.store key node entries) := by
  induction entries with
  | nil =>
    intro e he
    obtain rfl := List.mem_singleton.mp he
    exact hnode
  | cons e entries ih =>
    obtain ⟨he, hentries⟩ := List.forall_mem_cons.mp h
    unfold Node.store
    split
    · exact List.forall_mem_cons.mpr ⟨hnode, hentries⟩
    · exact List.forall_mem_cons.mpr ⟨he, ih hentries⟩

/-- A change of a table that keeps its nodes bounded does so at the end of a way. -/
theorem Entries.Bounded.descend {via : TableKind}
    {change : TableKind → Entries → Option Entries}
    (hchange : ∀ {kind inner inner'}, Entries.Bounded inner → change kind inner = some inner' →
      Entries.Bounded inner') {way : List String} {kind : TableKind} (h : entries.Bounded)
    (hdescend : Node.descend via change way kind entries = some entries') : entries'.Bounded := by
  induction way generalizing kind entries entries' with
  | nil => exact hchange h hdescend
  | cons key way ih =>
    have hstored : ∀ {kind} {inner : Entries} (wrap : Entries → Node), inner.Bounded →
        (∀ last : Entries, last.Bounded → (wrap last).Bounded) →
        (((Node.descend via change way kind inner).map wrap).bind fun node =>
          some (Node.store key node entries)) = some entries' → entries'.Bounded := by
      intro kind inner wrap hinner hwrap heq
      simp only [Option.bind_eq_some_iff, Option.map_eq_some_iff] at heq
      obtain ⟨_, ⟨last, hlast, rfl⟩, heq⟩ := heq
      cases heq
      exact h.store (hwrap last (ih hinner hlast))
    simp only [Node.descend, Option.bind_eq_bind] at hdescend
    split at hdescend
    · exact hstored (Node.table via) bounded_nil (fun _ => .table) hdescend
    · cases hdescend
    · next k inner hlookup =>
      split at hdescend
      · cases hdescend
      · cases h.lookup hlookup with
        | table hinner => exact hstored (Node.table k) hinner (fun _ => .table) hdescend
    · cases hdescend
    · next last before hlookup =>
      cases h.lookup hlookup with
      | tables hitems =>
        obtain ⟨hlast, hbefore⟩ := List.forall_mem_cons.mp hitems
        exact hstored (fun last => .tables (last :: before)) hlast
          (fun _ hlast => .tables (List.forall_mem_cons.mpr ⟨hlast, hbefore⟩)) hdescend

/-- Putting a bounded entry into a table keeps it bounded. -/
theorem Entries.Bounded.insert? {e : Entry} (h : entries.Bounded) (he : e.value.Bounded)
    (hinsert : insert? entries e = some entries') : entries'.Bounded := by
  refine h.descend (fun hinner hchange => ?_) hinsert
  split at hchange
  · cases hchange
  · cases hchange
    exact hinner.store (.value he)

/-- Putting bounded entries into a table keeps it bounded. -/
theorem Entries.Bounded.insertAll? {es : List Entry} (h : entries.Bounded) (hes : EntriesBounded es)
    (hinsert : insertAll? entries es = some entries') : entries'.Bounded := by
  induction es generalizing entries with
  | nil =>
    cases hinsert
    exact h
  | cons e es ih =>
    obtain ⟨he, hes⟩ := List.forall_mem_cons.mp hes
    obtain ⟨next, hnext, hrest⟩ := Option.bind_eq_some_iff.mp hinsert
    exact ih (h.insert? he hnext) hes hrest

/-- Bounded entries may be stored as a table. -/
theorem Entries.Bounded.storeAll? {es : List Entry} {start : Entries} {wrap : Entries → Node}
    (h : entries.Bounded) (hstart : start.Bounded) (hes : EntriesBounded es)
    (hwrap : ∀ made : Entries, made.Bounded → (wrap made).Bounded)
    (hstored : ((Node.insertAll? start es).bind fun made =>
      some (Node.store key (wrap made) entries)) = some entries') : entries'.Bounded := by
  obtain ⟨made, hmade, heq⟩ := Option.bind_eq_some_iff.mp hstored
  cases heq
  exact h.store (hwrap made (hstart.insertAll? hes hmade))

/-- Putting a section with bounded entries into the root keeps it bounded. -/
theorem Entries.Bounded.addSection? {s : Section} (h : entries.Bounded)
    (hs : EntriesBounded s.entries) (hadd : addSection? entries s = some entries') :
    entries'.Bounded := by
  unfold Node.addSection? at hadd
  split at hadd
  · exact h.insertAll? hs hadd
  · refine h.descend (fun hinner hchange => ?_) hadd
    simp only [Option.bind_eq_bind] at hchange
    split at hchange
    · exact hinner.storeAll? bounded_nil hs (fun _ => .table) hchange
    · next entries hlookup =>
      cases hinner.lookup hlookup with
      | table hstart => exact hinner.storeAll? hstart hs (fun _ => .table) hchange
    · cases hchange
  · refine h.descend (fun hinner hchange => ?_) hadd
    simp only [Option.bind_eq_bind] at hchange
    split at hchange
    · exact hinner.storeAll? bounded_nil hs
        (fun _ hmade => .tables (List.forall_mem_singleton.mpr hmade)) hchange
    · next items hlookup =>
      cases hinner.lookup hlookup with
      | tables hitems =>
        exact hinner.storeAll? bounded_nil hs
          (fun _ hmade => .tables (List.forall_mem_cons.mpr ⟨hmade, hitems⟩)) hchange
    · cases hchange

/-- Putting sections with bounded entries into the root keeps it bounded. -/
theorem Entries.Bounded.addSections? {sections : List Section} (h : entries.Bounded)
    (hsections : ∀ s ∈ sections, EntriesBounded s.entries)
    (hadd : sections.foldlM Node.addSection? entries = some entries') : entries'.Bounded := by
  induction sections generalizing entries with
  | nil =>
    cases hadd
    exact h
  | cons s sections ih =>
    obtain ⟨hs, hsections⟩ := List.forall_mem_cons.mp hsections
    obtain ⟨next, hnext, hrest⟩ := Option.bind_eq_some_iff.mp hadd
    exact ih (h.addSection? hs hnext) hsections hrest

/-- The root of a document with bounded entries is bounded. -/
theorem bounded_ofSections? {sections : List Section} (h : ∀ s ∈ sections, EntriesBounded s.entries)
    (hsections : ofSections? sections = some node) : node.Bounded := by
  obtain ⟨root, hroot, rfl⟩ := Option.map_eq_some_iff.mp hsections
  exact .table (Entries.bounded_nil.addSections? h hroot)

/-- The table of bounded entries is bounded. -/
theorem bounded_ofEntries? {es : List Entry} (h : EntriesBounded es)
    (hentries : ofEntries? es = some node) : node.Bounded := by
  obtain ⟨root, hroot, rfl⟩ := Option.map_eq_some_iff.mp hentries
  exact .table (Entries.bounded_nil.insertAll? h hroot)

end

end Node

/-! ## Reading -/

section
variable {cs rest : List Char} {v : Value} {n : Int}

/-- A checked integer is below the limit. -/
theorem lt_of_integerOf? {negative : Bool} {m : Nat} (h : integerOf? negative m = some n) :
    n < integerLimit := by
  unfold integerOf? at h
  split at h <;> split at h <;> cases h <;> unfold integerLimit at * <;> omega

/-- An integer that was read is below the limit. -/
theorem lt_of_integer? (h : integer? cs = some (n, rest)) : n < integerLimit := by
  have hbased : ∀ {base isDigit cs}, integer?.based base isDigit cs = some (n, rest) →
      n < integerLimit := by
    intro base isDigit cs h
    simp only [integer?.based, bind, pure, Option.bind_eq_some_iff, Option.some.injEq,
      Prod.mk.injEq] at h
    obtain ⟨_, -, _, hn, rfl, -⟩ := h
    exact lt_of_integerOf? hn
  unfold integer? at h
  split at h
  · exact hbased h
  · exact hbased h
  · exact hbased h
  · simp only [bind, pure, Option.bind_eq_some_iff, Option.some.injEq, Prod.mk.injEq] at h
    obtain ⟨_, -, _, hn, rfl, -⟩ := h
    exact lt_of_integerOf? hn

/-- A number or a moment that was read is bounded. -/
theorem bounded_of_number? (h : number? cs = some (v, rest)) : v.Bounded := by
  unfold number? at h
  split at h
  · cases h
    exact .object (by simpa using .string _)
  · split at h
    · cases h
      exact .decimal _
    · obtain ⟨⟨n, rest⟩, hn, heq⟩ := Option.map_eq_some_iff.mp h
      cases heq
      exact Value.bounded_integer (lt_of_integer? hn)

/-- A value without parts that was read is bounded. -/
theorem bounded_of_scalar? (h : scalar? cs = some (v, rest)) : v.Bounded := by
  unfold scalar? at h
  split at h
  · obtain ⟨_, -, heq⟩ := Option.map_eq_some_iff.mp h
    cases heq
    exact .string _
  · obtain ⟨_, -, heq⟩ := Option.map_eq_some_iff.mp h
    cases heq
    exact .string _
  · cases h
    exact .bool true
  · cases h
    exact .bool false
  · cases h
    exact .decimal _
  · cases h
    exact .decimal _
  · split at h
    · exact bounded_of_number? h
    · cases h
  · cases h

end

/-- What the reader reads is bounded. -/
def ReadsBounded (value : ValueReader) : Prop :=
  ∀ {cs v rest}, value cs = some (v, rest) → v.Bounded

section
variable {value : ValueReader} {cs rest : List Char} {v : Value}

/-- An array of bounded items is bounded. -/
theorem bounded_of_items? (hvalue : ReadsBounded value) {bound : Nat} {seen : List Value}
    (hseen : ∀ v ∈ seen, v.Bounded) (h : items? value bound seen cs = some (v, rest)) :
    v.Bounded := by
  induction bound generalizing seen cs with
  | zero => cases h
  | succ n ih =>
    simp only [items?, bind, pure] at h
    split at h
    · cases h
      exact Value.bounded_array fun v hv => hseen v (List.mem_reverse.mp hv)
    · obtain ⟨⟨w, next⟩, hw, h⟩ := Option.bind_eq_some_iff.mp h
      have hseen' := List.forall_mem_cons.mpr ⟨hvalue hw, hseen⟩
      dsimp only at h
      split at h
      · exact ih hseen' h
      · cases h
        exact Value.bounded_array fun v hv => hseen' v (List.mem_reverse.mp hv)
      · cases h

/-- An entry of a bounded value is bounded. -/
theorem entry?_bounded (hvalue : ReadsBounded value) {e : Entry}
    (h : entry? value cs = some (e, rest)) : e.value.Bounded := by
  unfold entry? at h
  simp only [bind, pure] at h
  obtain ⟨⟨path, next⟩, -, h⟩ := Option.bind_eq_some_iff.mp h
  dsimp only at h
  split at h
  · obtain ⟨⟨w, next⟩, hw, h⟩ := Option.bind_eq_some_iff.mp h
    cases h
    exact hvalue hw
  · cases h

/-- The entries of an inline table are bounded. -/
theorem bounded_of_inlineEntries? (hvalue : ReadsBounded value) {bound : Nat} {seen es : List Entry}
    (hseen : EntriesBounded seen) (h : inlineEntries? value bound seen cs = some (es, rest)) :
    EntriesBounded es := by
  induction bound generalizing seen cs with
  | zero => cases h
  | succ n ih =>
    simp only [inlineEntries?, bind, pure] at h
    obtain ⟨⟨e, next⟩, he, h⟩ := Option.bind_eq_some_iff.mp h
    have hseen' : EntriesBounded (e :: seen) :=
      List.forall_mem_cons.mpr ⟨entry?_bounded hvalue he, hseen⟩
    dsimp only at h
    split at h
    · exact ih hseen' h
    · cases h
      exact fun e he => hseen' e (List.mem_reverse.mp he)
    · cases h

/-- No entry is not bounded. -/
theorem entriesBounded_nil : EntriesBounded [] := fun _ he => absurd he List.not_mem_nil

/-- A value that was read is bounded. -/
theorem bounded_of_value? (depth : Nat) : ReadsBounded (value? depth) := by
  induction depth with
  | zero => exact fun h => bounded_of_scalar? h
  | succ depth ih =>
    intro cs v rest h
    unfold value? at h
    split at h
    · exact bounded_of_items? ih (fun _ hv => absurd hv List.not_mem_nil) h
    · unfold inlineTable? at h
      split at h
      · cases h
        exact Value.bounded_table fun _ hm => absurd hm List.not_mem_nil
      · simp only [bind, pure, Option.bind_eq_some_iff, Option.some.injEq, Prod.mk.injEq] at h
        obtain ⟨⟨es, next⟩, hes, node, hnode, rfl, -⟩ := h
        exact (Node.bounded_ofEntries? (bounded_of_inlineEntries? ih entriesBounded_nil hes)
          hnode).toValue
    · exact bounded_of_scalar? h

/-- The sections of a text are bounded. -/
theorem bounded_of_sectionsFrom? {bound : Nat} {done sections : List Section} {current : Section}
    (hdone : ∀ s ∈ done, EntriesBounded s.entries) (hcurrent : EntriesBounded current.entries)
    (h : sectionsFrom? bound done current cs = some sections) :
    ∀ s ∈ sections, EntriesBounded s.entries := by
  induction bound generalizing done current cs with
  | zero => cases h
  | succ n ih =>
    have hadded : ∀ s ∈ current.inOrder :: done, EntriesBounded s.entries :=
      List.forall_mem_cons.mpr ⟨fun e he => hcurrent e (List.mem_reverse.mp he), hdone⟩
    simp only [sectionsFrom?, bind] at h
    split at h
    · cases h
      exact fun s hs => hadded s (List.mem_reverse.mp hs)
    · obtain ⟨next, -, h⟩ := Option.bind_eq_some_iff.mp h
      exact ih hdone hcurrent h
    · obtain ⟨⟨header, next⟩, -, h⟩ := Option.bind_eq_some_iff.mp h
      obtain ⟨next, -, h⟩ := Option.bind_eq_some_iff.mp h
      exact ih hadded entriesBounded_nil h
    · obtain ⟨⟨e, next⟩, he, h⟩ := Option.bind_eq_some_iff.mp h
      obtain ⟨next, -, h⟩ := Option.bind_eq_some_iff.mp h
      have hentries : EntriesBounded (e :: current.entries) := List.forall_mem_cons.mpr
        ⟨entry?_bounded (bounded_of_value? nestingLimit) he, hcurrent⟩
      exact ih hdone hentries h

/-- **A document that was read is bounded.** -/
theorem bounded_of_read? (h : read? cs = some v) : v.Bounded := by
  simp only [read?, sections?, bind, pure, Option.bind_eq_some_iff, Option.some.injEq] at h
  obtain ⟨sections, hsections, node, hnode, rfl⟩ := h
  have hbounded := bounded_of_sectionsFrom? (fun _ hs => absurd hs List.not_mem_nil)
    entriesBounded_nil hsections
  exact (Node.bounded_ofSections? hbounded hnode).toValue

end

end RelayFleet.Toml
