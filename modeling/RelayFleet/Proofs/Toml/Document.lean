import RelayFleet.Proofs.Toml.Number

/-!
# Documents are read back

A document as the writer lays it out: entries on lines of their own, each under a key without
quotes, and headers of one part above them. `Lines` says which entries a piece of text is read as,
`Headed` the same for a header and what stands below it, `Document` which sections the rest of a
document is; each is put together from its parts as the text is. No table is met twice in such a
document, so that each section is put behind the ones before it (`Node.addSection?_table`,
`Node.addSections?_newItems`).
-/

namespace RelayFleet.Toml

/-- Whether a key needs no quotes. -/
def isBare (key : String) : Bool := !key.toList.isEmpty && key.toList.all isKeyChar

/-- The entry under a key alone. -/
def Entry.under (key : String) (v : Value) : Entry := ⟨⟨[], key⟩, v⟩

/-- The entries under keys alone. -/
def underEach (ms : List (String × Value)) : List Entry := ms.map fun m => .under m.1 m.2

/-- The section of entries under keys alone. -/
def Section.plain (header : Header) (ms : List (String × Value)) : Section :=
  ⟨header, underEach ms⟩

section
variable {key : String} {c : Char} {cs rest text : List Char} {v : Value}

/-! ## Keys -/

/-- A key that needs no quotes has characters, and no others than those of a key. -/
theorem isBare_iff : isBare key ↔ key.toList ≠ [] ∧ ∀ c ∈ key.toList, isKeyChar c := by
  simp [isBare]

/-- A key begins with a character of a key. -/
theorem exists_cons_of_isBare (h : isBare key) : ∃ c cs, key.toList = c :: cs ∧ isKeyChar c := by
  obtain ⟨hne, hall⟩ := isBare_iff.mp h
  obtain ⟨c, cs, heq⟩ := List.exists_cons_of_ne_nil hne
  exact ⟨c, cs, heq, hall c (heq ▸ List.mem_cons_self)⟩

/-- A text that begins with a character of a key begins with no blank. -/
theorem skipBlanks_keyChar (hc : isKeyChar c) : skipBlanks (c :: cs) = c :: cs := by
  refine List.dropWhile_cons_of_neg ?_
  simp [isBlank, char_ne hc (c := ' ') rfl, char_ne hc (c := '\t') rfl]

/-- Nor does it begin with a line break. -/
theorem skipBlankLines_keyChar (hc : isKeyChar c) : skipBlankLines (c :: cs) = c :: cs := by
  unfold skipBlankLines
  split
  · next h => exact absurd (List.cons.inj h).1 (char_ne hc rfl)
  · next h => exact absurd (List.cons.inj h).1 (char_ne hc rfl)
  · next h => exact absurd (List.cons.inj h).1 (char_ne hc rfl)
  · next h => exact absurd (List.cons.inj h).1 (char_ne hc rfl)
  · rfl

/-- A key is read up to a character that is none of its own. -/
theorem keyPart?_bare (h : isBare key) (hc : isKeyChar c = false) :
    keyPart? (key.toList ++ c :: cs) = some (key, c :: cs) := by
  obtain ⟨hne, hall⟩ := isBare_iff.mp h
  have htake : (key.toList ++ c :: cs).takeWhile isKeyChar = key.toList := by
    rw [List.takeWhile_append_of_pos hall, List.takeWhile_cons_of_neg (by simp [hc]),
      List.append_nil]
  have hdrop : (key.toList ++ c :: cs).dropWhile isKeyChar = c :: cs := by
    rw [List.dropWhile_append_of_pos hall, List.dropWhile_cons_of_neg (by simp [hc])]
  unfold keyPart?
  rw [htake, hdrop]
  split
  · next hnil => exact absurd hnil hne
  · rw [String.ofList_toList]

/-- A key alone is a path. -/
theorem path?_bare (h : isBare key) (hc : isKeyChar c = false)
    (hdot : ∀ t, skipBlanks (c :: cs) ≠ '.' :: t) :
    path? (key.toList ++ c :: cs) = some (⟨[], key⟩, skipBlanks (c :: cs)) := by
  obtain ⟨d, ds, heq, hd⟩ := exists_cons_of_isBare h
  have hskip : skipBlanks (key.toList ++ c :: cs) = key.toList ++ c :: cs := by
    rw [heq]
    exact skipBlanks_keyChar hd
  rw [path?, pathLimit, pathParts?, hskip, keyPart?_bare h hc]
  dsimp only [Option.bind_eq_bind, Option.bind_some]
  split
  · next rest heq => exact absurd heq (hdot rest)
  · rfl

/-! ## Lines -/

/-- A value does not begin with a blank. -/
theorem skipBlanks_of_value? {depth : Nat} {r : Value × List Char} (h : value? depth cs = some r) :
    skipBlanks cs = cs := by
  rcases cs with _ | ⟨c, cs⟩
  · rfl
  · refine List.dropWhile_cons_of_neg fun hc => ?_
    have hblank : c = ' ' ∨ c = '\t' := by simpa [isBlank] using hc
    rcases hblank with rfl | rfl <;>
    · rw [value?_scalar (by decide) (by decide)] at h
      cases h

/-- The text is read as the value behind an equals sign. -/
def Writes (text : List Char) (v : Value) : Prop :=
  ∀ rest, value? nestingLimit (text ++ '\n' :: rest) = some (v, '\n' :: rest)

/-- The entry on a line is read back. -/
theorem entry?_line (hkey : isBare key) (htext : Writes text v) (rest : List Char) :
    entry? (value? nestingLimit) (line key text ++ rest) = some (.under key v, '\n' :: rest) := by
  have hline : line key text ++ rest =
      key.toList ++ ' ' :: '=' :: ' ' :: (text ++ '\n' :: rest) := by
    simp [line]
  have hpath : path? (key.toList ++ ' ' :: '=' :: ' ' :: (text ++ '\n' :: rest)) =
      some (⟨[], key⟩, '=' :: ' ' :: (text ++ '\n' :: rest)) := path?_bare hkey rfl nofun
  have hskip : skipBlanks (' ' :: (text ++ '\n' :: rest)) = text ++ '\n' :: rest :=
    skipBlanks_of_value? (htext rest)
  simp [hline, entry?, hpath, hskip, htext rest, Entry.under]

/-- The text is read as entries, each on a line of its own. -/
structure Lines (cs : List Char) (es : List Entry) : Prop where
  reads : ∀ n done s rest, sectionsFrom? (n + es.length) done s (cs ++ rest) =
    sectionsFrom? n done { s with entries := es.reverse ++ s.entries } rest
  length_le : es.length ≤ cs.length

namespace Lines

/-- No text is read as no entry. -/
theorem nil : Lines [] [] := ⟨fun _ _ _ _ => rfl, Nat.le_refl 0⟩

/-- Two pieces are read one after the other. -/
theorem append {cs ds : List Char} {es fs : List Entry} (h : Lines cs es) (h' : Lines ds fs) :
    Lines (cs ++ ds) (es ++ fs) := by
  refine ⟨fun n done s rest => ?_, ?_⟩
  · rw [List.append_assoc, List.length_append, Nat.add_comm es.length, ← Nat.add_assoc, h.reads,
      h'.reads]
    simp
  · rw [List.length_append, List.length_append]
    exact Nat.add_le_add h.length_le h'.length_le

/-- A line is read as one entry. -/
theorem line (hkey : isBare key) (htext : Writes text v) :
    Lines (line key text) [.under key v] := by
  have hlength : 1 ≤ (Toml.line key text).length := by
    simp only [Toml.line, List.length_append, List.length_singleton]
    omega
  refine ⟨fun n done s rest => ?_, hlength⟩
  have hentry := entry?_line hkey htext rest
  obtain ⟨c, cs, heq, hc⟩ := exists_cons_of_isBare hkey
  have hline : Toml.line key text ++ rest =
      c :: (cs ++ ' ' :: '=' :: ' ' :: (text ++ '\n' :: rest)) := by
    simp [Toml.line, heq]
  rw [hline] at hentry ⊢
  rw [List.length_singleton, sectionsFrom?, skipBlankLines_keyChar hc]
  split
  · next h => cases h
  · next h => exact absurd (List.cons.inj h).1 (char_ne hc rfl)
  · next h => exact absurd (List.cons.inj h).1 (char_ne hc rfl)
  · rw [hentry]
    rfl

end Lines

/-! ## Sections -/

/-- The header of a table is read up to the end of its line. -/
theorem header?_table (hkey : isBare key) :
    header? (key.toList ++ [']', '\n'] ++ rest) = some (.table ⟨[], key⟩, '\n' :: rest) := by
  obtain ⟨c, cs, heq, hc⟩ := exists_cons_of_isBare hkey
  have hpath : path? (key.toList ++ ']' :: '\n' :: rest) =
      some (⟨[], key⟩, ']' :: '\n' :: rest) := path?_bare hkey rfl nofun
  rw [List.append_assoc]
  show header? (key.toList ++ ']' :: '\n' :: rest) = _
  unfold header?
  split
  · next h =>
    rw [heq] at h
    exact absurd (List.cons.inj h).1 (char_ne hc rfl)
  · rw [hpath]
    rfl

/-- The header of an item is read up to the end of its line. -/
theorem header?_item (hkey : isBare key) :
    header? ('[' :: key.toList ++ [']', ']', '\n'] ++ rest) =
      some (.item ⟨[], key⟩, '\n' :: rest) := by
  have hpath : path? (key.toList ++ ']' :: ']' :: '\n' :: rest) =
      some (⟨[], key⟩, ']' :: ']' :: '\n' :: rest) := path?_bare hkey rfl nofun
  rw [List.append_assoc]
  show header? ('[' :: (key.toList ++ ']' :: ']' :: '\n' :: rest)) = _
  rw [header?, hpath]
  rfl

/-- The text is read as a header and entries below it. -/
structure Headed (cs : List Char) (header : Header) (es : List Entry) : Prop where
  reads : ∀ n done s rest, sectionsFrom? (n + es.length + 1) done s (cs ++ rest) =
    sectionsFrom? n (s.inOrder :: done) ⟨header, es.reverse⟩ rest
  length_lt : es.length < cs.length

namespace Headed

variable {header : Header} {es : List Entry}

/-- A header without entries. -/
theorem of_header? (hheader : ∀ rest, header? (text ++ rest) = some (header, '\n' :: rest)) :
    Headed ('[' :: text) header [] := by
  refine ⟨fun n done s rest => ?_, Nat.zero_lt_succ _⟩
  have hskip : skipBlankLines ('[' :: (text ++ rest)) = '[' :: (text ++ rest) := rfl
  rw [List.cons_append]
  simp only [sectionsFrom?, hskip, hheader]
  rfl

/-- The header of a table. -/
theorem table (key : String) (hkey : isBare key) :
    Headed ('[' :: (key.toList ++ [']', '\n'])) (.table ⟨[], key⟩) [] :=
  of_header? fun _ => header?_table hkey

/-- The header of an item. -/
theorem item (key : String) (hkey : isBare key) :
    Headed ('[' :: ('[' :: key.toList ++ [']', ']', '\n'])) (.item ⟨[], key⟩) [] :=
  of_header? fun _ => header?_item hkey

/-- Entries on further lines stand below the same header. -/
theorem append {ds : List Char} {fs : List Entry} (h : Headed cs header es) (h' : Lines ds fs) :
    Headed (cs ++ ds) header (es ++ fs) := by
  refine ⟨fun n done s rest => ?_, ?_⟩
  · rw [List.append_assoc, List.length_append, Nat.add_comm es.length, ← Nat.add_assoc, h.reads,
      h'.reads, List.reverse_append]
  · rw [List.length_append, List.length_append]
    exact Nat.add_lt_add_of_lt_of_le h.length_lt h'.length_le

end Headed

/-- The text is the rest of a document, which has these sections behind the one before it. -/
def Document (cs : List Char) (ss : List Section) : Prop :=
  ∀ bound done s, cs.length < bound →
    sectionsFrom? bound done s cs = some (done.reverse ++ s.inOrder :: ss)

namespace Document

variable {ss : List Section} {es : List Entry} {header : Header}

/-- At the end of the text no section is left. -/
theorem nil : Document [] [] := by
  intro bound done s hbound
  obtain ⟨n, rfl⟩ := Nat.exists_eq_succ_of_ne_zero (Nat.ne_of_gt hbound)
  simp [sectionsFrom?, skipBlankLines]

/-- A line may be left empty. -/
theorem blank (h : Document cs ss) : Document ('\n' :: cs) ss := by
  intro bound done s hbound
  obtain ⟨n, rfl⟩ := Nat.exists_eq_succ_of_ne_zero (Nat.ne_of_gt (Nat.zero_lt_of_lt hbound))
  rw [← h (n + 1) done s (Nat.lt_of_succ_lt hbound)]
  rfl

/-- A header and the entries below it are a section. -/
theorem headed (hsection : Headed text header es) (h : Document cs ss) :
    Document (text ++ cs) (⟨header, es⟩ :: ss) := by
  intro bound done s hbound
  have hlength := hsection.length_lt
  rw [List.length_append] at hbound
  obtain ⟨n, rfl⟩ : ∃ n, bound = n + es.length + 1 := ⟨bound - es.length - 1, by omega⟩
  rw [hsection.reads, h n (s.inOrder :: done) ⟨header, es.reverse⟩ (by omega)]
  simp [Section.inOrder]

/-- A document is read as the lines before its first header and the sections behind them. -/
theorem sections?_eq (hmark : ∀ t, text ++ cs ≠ '\uFEFF' :: t) (hlines : Lines text es)
    (h : Document cs ss) : sections? (text ++ cs) = some (⟨.root, es⟩ :: ss) := by
  have hlength := hlines.length_le
  obtain ⟨n, hn⟩ : ∃ n, (text ++ cs).length + 1 = n + es.length :=
    ⟨(text ++ cs).length + 1 - es.length, by simp only [List.length_append]; omega⟩
  have hrest := h n [] ⟨.root, es.reverse⟩ (by simp only [List.length_append] at hn; omega)
  simp only [sections?]
  rw [hn, hlines.reads, List.append_nil, hrest]
  simp [Section.inOrder]

end Document

end

/-! ## Tables -/

namespace Node

/-- The node of an entry alone. -/
def ofValue (m : String × Value) : String × Node := (m.1, .value m.2)

section
variable {entries : Entries} {key : String} {node : Node}

/-- Under a key that no entry has, nothing stands. -/
theorem lookup_eq_none (h : key ∉ entries.map (·.1)) : lookup key entries = none := by
  rw [lookup, Option.map_eq_none_iff, List.find?_eq_none]
  intro e he heq
  exact h (List.mem_map.mpr ⟨e, he, by simpa using heq⟩)

/-- A node under a new key stands behind the others. -/
theorem store_new (h : key ∉ entries.map (·.1)) :
    store key node entries = entries ++ [(key, node)] := by
  induction entries with
  | nil => rfl
  | cons e entries ih =>
    obtain ⟨hne, hmem⟩ := not_or.mp (mt List.mem_cons.mpr h)
    rw [store, if_neg (Ne.symm hne), ih hmem]
    rfl

/-- A node takes the place of the last one under its key. -/
theorem store_last {old : Node} (h : key ∉ entries.map (·.1)) :
    store key node (entries ++ [(key, old)]) = entries ++ [(key, node)] := by
  induction entries with
  | nil => simp [store]
  | cons e entries ih =>
    obtain ⟨hne, hmem⟩ := not_or.mp (mt List.mem_cons.mpr h)
    rw [List.cons_append, store, if_neg (Ne.symm hne), ih hmem]
    rfl

/-- What stands last, under a key of its own, is found. -/
theorem lookup_last (h : key ∉ entries.map (·.1)) :
    lookup key (entries ++ [(key, node)]) = some node := by
  have hnone : entries.find? (·.1 == key) = none := Option.map_eq_none_iff.mp (lookup_eq_none h)
  rw [lookup, List.find?_append, hnone]
  simp

/-- An entry under a new key is put behind the others. -/
theorem insert?_under {v : Value} (h : key ∉ entries.map (·.1)) :
    insert? entries (.under key v) = some (entries ++ [ofValue (key, v)]) := by
  have hnone := lookup_eq_none h
  simp [insert?, Entry.under, descend, hnone, store_new h, ofValue]

/-- Entries under distinct keys are put into a table one behind the other. -/
theorem insertAll?_under (entries : Entries) {ms : List (String × Value)}
    (hnodup : (entries.map (·.1) ++ ms.map (·.1)).Nodup) :
    insertAll? entries (underEach ms) = some (entries ++ ms.map ofValue) := by
  induction ms generalizing entries with
  | nil => simp [insertAll?, underEach]
  | cons m ms ih =>
    have hnew : m.1 ∉ entries.map (·.1) := by
      intro hmem
      exact (List.nodup_append.mp hnodup).2.2 m.1 hmem m.1 List.mem_cons_self rfl
    have hrest := ih (entries ++ [ofValue m]) (by simpa [ofValue] using hnodup)
    rw [underEach, List.map_cons, List.map_cons, insertAll?, List.foldlM_cons, insert?_under hnew]
    simpa [insertAll?, underEach] using hrest

/-- The entries of a new table are put under its key. -/
theorem addSection?_table {ms : List (String × Value)} (h : key ∉ entries.map (·.1))
    (hnodup : (ms.map (·.1)).Nodup) :
    addSection? entries (.plain (.table ⟨[], key⟩) ms) =
      some (entries ++ [(key, .table .explicit (ms.map ofValue))]) := by
  have hnone := lookup_eq_none h
  have hms := insertAll?_under [] (by simpa using hnodup)
  simp [addSection?, Section.plain, descend, hnone, hms, store_new h]

/-- A further item of an array of tables is put behind the others. -/
theorem addSection?_item {ms : List (String × Value)} {before : List Entries}
    (h : key ∉ entries.map (·.1)) (hnodup : (ms.map (·.1)).Nodup) :
    addSection? (entries ++ [(key, .tables before)]) (.plain (.item ⟨[], key⟩) ms) =
      some (entries ++ [(key, .tables (ms.map ofValue :: before))]) := by
  have hms := insertAll?_under [] (by simpa using hnodup)
  simp [addSection?, Section.plain, descend, lookup_last h, hms, store_last h]

/-- The items of an array of tables are put there in order. -/
theorem addSections?_items {items : List (List (String × Value))} {before : List Entries}
    (h : key ∉ entries.map (·.1)) (hnodup : ∀ ms ∈ items, (ms.map (·.1)).Nodup) :
    (items.map (.plain (.item ⟨[], key⟩))).foldlM addSection? (entries ++ [(key, .tables before)]) =
      some (entries ++ [(key, .tables ((items.map (·.map ofValue)).reverse ++ before))]) := by
  induction items generalizing before with
  | nil => rfl
  | cons ms items ih =>
    obtain ⟨hms, hitems⟩ := List.forall_mem_cons.mp hnodup
    rw [List.map_cons, List.foldlM_cons, addSection?_item h hms]
    simpa using ih hitems

/-- The items of a new array of tables are put under its key, if there are any. -/
theorem addSections?_newItems {items : List (List (String × Value))}
    (h : key ∉ entries.map (·.1)) (hnodup : ∀ ms ∈ items, (ms.map (·.1)).Nodup)
    (hne : items ≠ []) :
    (items.map (.plain (.item ⟨[], key⟩))).foldlM addSection? entries =
      some (entries ++ [(key, .tables (items.map (·.map ofValue)).reverse)]) := by
  obtain ⟨ms, items, rfl⟩ := List.exists_cons_of_ne_nil hne
  obtain ⟨hms, hitems⟩ := List.forall_mem_cons.mp hnodup
  have hnone := lookup_eq_none h
  have hfirst : addSection? entries (.plain (.item ⟨[], key⟩) ms) =
      some (entries ++ [(key, .tables [ms.map ofValue])]) := by
    have hms := insertAll?_under [] (by simpa using hms)
    simp [addSection?, Section.plain, descend, hnone, hms, store_new h]
  rw [List.map_cons, List.foldlM_cons, hfirst]
  simpa using addSections?_items h hitems

/-! ## Values -/

/-- A table of values is made of these values. -/
theorem toValue_table_ofValue (kind : TableKind) (ms : List (String × Value)) :
    (Node.table kind (ms.map ofValue)).toValue = .table ms := by
  simp [toValue_table, ofValue, Function.comp_def]

/-- An array of tables is made in order. -/
theorem toValue_tables_ofValue (items : List (List (String × Value))) :
    (Node.tables (items.map (·.map ofValue)).reverse).toValue = .array (items.map .table) := by
  simp [toValue_tables, ofValue, Function.comp_def]

end

end Node

end RelayFleet.Toml
