import Mathlib.Data.List.Forall2
import RelayFleet.Json.Record

/-!
# Records

A record finds its fields in an object wherever they stand, as long as none stands there twice, and
skips what is not a field (`Record.decoder_extended`); where each member is a field, in order, there
is nothing to skip (`Record.decoder_object`). The other way round, what a record is built from is
part of the value that was decoded (`Record.Gives.of_decoder`).
-/

namespace RelayFleet.Json

/-! ## Records -/

namespace Record

variable {α β : Type}

@[simp] theorem fields_map (f : α → β) (r : Record α) : (f <$> r).fields = r.fields := rfl

@[simp] theorem fields_seq (f : Record (α → β)) (r : Record α) :
    (f <*> r).fields = f.fields ++ r.fields := rfl

@[simp] theorem build_map (f : α → β) (r : Record α) (get : String → Option Value) :
    (f <$> r).build get = f <$> r.build get := rfl

@[simp] theorem build_seq (f : Record (α → β)) (r : Record α) (get : String → Option Value) :
    (f <*> r).build get = (do return (← f.build get) (← r.build get)) := rfl

/-- The member is the one of this field: it has the field's name, and its value passes. -/
def Fits (f : Field) (m : String × Value) : Prop := f.name = m.1 ∧ f.check m.2 = .ok ()

/-- The field of a member is found by its name when no name stands twice. -/
theorem find?_of_fits {fields : List Field} {ms : List (String × Value)}
    (h : List.Forall₂ Fits fields ms) (hnd : (ms.map (·.1)).Nodup) :
    ∀ m ∈ ms, ∃ f, fields.find? (·.name == m.1) = some f ∧ f.check m.2 = .ok () := by
  induction h with
  | nil => simp
  | @cons f m fields ms hfit _ ih =>
    obtain ⟨hm, hnd⟩ := List.nodup_cons.1 hnd
    intro m' hm'
    rcases List.mem_cons.1 hm' with rfl | hm'
    · exact ⟨f, by simp [hfit.1], hfit.2⟩
    · have hne : f.name ≠ m'.1 := fun h => hm (List.mem_map.2 ⟨m', hm', h ▸ hfit.1 ▸ rfl⟩)
      simpa [hne] using ih hnd m' hm'

/-- Members that are fields, none of them twice, pass the check. -/
theorem checkMembers_ok {fields : List Field} : ∀ {ms : List (String × Value)}
    {seen : List String},
    (∀ m ∈ ms, ∃ f, fields.find? (·.name == m.1) = some f ∧ f.check m.2 = .ok ()) →
    (ms.map (·.1)).Nodup → (∀ m ∈ ms, m.1 ∉ seen) → checkMembers fields seen ms = .ok ()
  | [], _, _, _, _ => rfl
  | (key, v) :: ms, seen, hf, hnd, hs => by
    obtain ⟨f, hfind, hcheck⟩ := hf (key, v) List.mem_cons_self
    obtain ⟨hkey, hnd⟩ := List.nodup_cons.1 hnd
    have hseen : seen.contains key = false := by
      simpa using hs (key, v) List.mem_cons_self
    have hrest : ∀ m ∈ ms, m.1 ∉ key :: seen := fun m hm => by
      have hne : m.1 ≠ key := fun h => hkey (List.mem_map.2 ⟨m, hm, h⟩)
      simpa [hne] using hs m (List.mem_cons_of_mem _ hm)
    simp only [checkMembers, hfind, hseen, hcheck]
    exact checkMembers_ok (fun m hm => hf m (List.mem_cons_of_mem _ hm)) hnd hrest

/-- An object with one member for each field, in order, decodes to what is built from them. -/
theorem decoder_object {r : Record α} {ms : List (String × Value)} {a : α}
    (hf : List.Forall₂ Fits r.fields ms) (hnd : (ms.map (·.1)).Nodup)
    (hb : r.build (lookup ms) = .ok a) : r.decoder (.object ms) = .ok a := by
  have hcheck : checkMembers r.fields [] ms = .ok () :=
    checkMembers_ok (find?_of_fits hf hnd) hnd (by simp)
  simp only [decoder, hcheck]
  exact hb

end Record

/-! ## Records in a larger object -/

namespace Record

/-- The members name each of the fields once at most, and every member has a name. -/
structure Extends (names : List String) (ms : List (String × Value)) : Prop where
  once : ((ms.map (·.1)).filter (names.contains ·)).Nodup
  named : ∀ m ∈ ms, ∀ v, m.2 ≠ .unnamed v

/-- A member for an optional value: it is there, or, for no value, it is missing or `null`. -/
def ShowsOption (o member : Option Value) : Prop := member = o ∨ o = none ∧ member = some .null

section
variable {α : Type} {names : List String} {ms : List (String × Value)}

/-- The rest of the members name the fields as rarely. -/
theorem Extends.tail {m : String × Value} (h : Extends names (m :: ms)) : Extends names ms := by
  refine ⟨?_, fun m' hm' => h.named m' (List.mem_cons_of_mem m hm')⟩
  have honce := h.once
  rw [List.map_cons, List.filter_cons] at honce
  split at honce
  · exact (List.nodup_cons.mp honce).2
  · exact honce

/-- A member that names a field does not stand among the others. -/
theorem Extends.not_mem {m : String × Value} (h : Extends names (m :: ms)) (hm : m.1 ∈ names) :
    ∀ m' ∈ ms, m'.1 ≠ m.1 := by
  intro m' hm' heq
  have honce := h.once
  rw [List.map_cons, List.filter_cons, if_pos (List.contains_iff_mem.mpr hm)] at honce
  refine (List.nodup_cons.mp honce).1 (List.mem_filter.mpr ⟨?_, List.contains_iff_mem.mpr hm⟩)
  exact heq ▸ List.mem_map_of_mem hm'

/-- A member that names a field is the one that is looked up. -/
theorem Extends.lookup_eq (h : Extends names ms) {m : String × Value} (hmem : m ∈ ms)
    (hm : m.1 ∈ names) : lookup ms m.1 = some m.2 := by
  induction ms with
  | nil => cases hmem
  | cons m' ms ih =>
    unfold lookup
    rcases List.mem_cons.mp hmem with rfl | hmem
    · simp
    · have hne : m'.1 ≠ m.1 := by
        intro heq
        exact h.not_mem (heq ▸ hm) m hmem heq.symm
      rw [List.find?_cons_of_neg (by simpa using hne)]
      exact ih h.tail hmem

/-- What is looked up is the value of a member. -/
theorem mem_of_lookup {key : String} {v : Value} (h : lookup ms key = some v) :
    (key, v) ∈ ms := by
  obtain ⟨m, hm, rfl⟩ := Option.map_eq_some_iff.mp h
  have hkey : m.1 = key := by simpa using List.find?_some hm
  exact hkey ▸ List.mem_of_find?_eq_some hm

/-- The first of some members is readable, or it has no name, and the others are readable. -/
theorem membersIntact_cons {m : String × Value} (h : Value.membersIntact (m :: ms)) :
    (m.2.intact ∨ ∃ v, m.2 = .unnamed v) ∧ Value.membersIntact ms := by
  obtain ⟨key, v⟩ := m
  cases v with
  | unnamed v => exact ⟨.inr ⟨v, rfl⟩, (Bool.and_eq_true_iff.mp h).2⟩
  | _ => exact (Bool.and_eq_true_iff.mp h).imp_left .inl

/-- Readable members that have a name have a readable value. -/
theorem intact_of_mem (hms : Value.membersIntact ms) {m : String × Value} (hm : m ∈ ms)
    (hnamed : ∀ v, m.2 ≠ .unnamed v) : m.2.intact := by
  induction ms with
  | nil => cases hm
  | cons m' ms ih =>
    obtain ⟨hfirst, hrest⟩ := membersIntact_cons hms
    rcases List.mem_cons.mp hm with rfl | hm
    · exact hfirst.resolve_right fun ⟨v, hv⟩ => hnamed v hv
    · exact ih hrest hm

/-- Members that are fields pass the check where their values do, and others where they are
readable. -/
theorem checkMembers_extended {fields : List Field} {seen : List String}
    (ext : Extends (fields.map (·.name)) ms) (hintact : ∀ m ∈ ms, m.2.intact)
    (hchecks : ∀ f ∈ fields, ∀ m ∈ ms, m.1 = f.name → f.check m.2 = .ok ())
    (hseen : ∀ m ∈ ms, m.1 ∈ fields.map (·.name) → m.1 ∉ seen) :
    checkMembers fields seen ms = .ok () := by
  induction ms generalizing seen with
  | nil => rfl
  | cons m ms ih =>
    obtain ⟨key, v⟩ := m
    obtain ⟨hv, hintact⟩ := List.forall_mem_cons.mp hintact
    have hrest : ∀ f ∈ fields, ∀ m ∈ ms, m.1 = f.name → f.check m.2 = .ok () :=
      fun f hf m hm => hchecks f hf m (List.mem_cons_of_mem _ hm)
    unfold checkMembers
    split
    · rw [if_pos hv]
      exact ih ext.tail hintact hrest fun m hm => hseen m (List.mem_cons_of_mem _ hm)
    · next f hfind =>
      have hname : f.name = key := by simpa using List.find?_some hfind
      have hf := List.mem_of_find?_eq_some hfind
      have hkey : key ∈ fields.map (·.name) := hname ▸ List.mem_map_of_mem hf
      have hnew : key ∉ seen := hseen (key, v) List.mem_cons_self hkey
      rw [if_neg (by simpa using hnew), hchecks f hf (key, v) List.mem_cons_self hname.symm]
      refine ih ext.tail hintact hrest fun m hm hfield => ?_
      rw [List.mem_cons, not_or]
      exact ⟨ext.not_mem hkey m hm, hseen m (List.mem_cons_of_mem _ hm) hfield⟩

/-- A record finds its fields in an object: their values pass the check, and it is built from
them. -/
structure Finds (r : Record α) (get : String → Option Value) (a : α) : Prop where
  checks : ∀ f ∈ r.fields, ∀ v, get f.name = some v → f.check v = .ok ()
  build_eq : r.build get = .ok a

namespace Finds

variable {β : Type} {get : String → Option Value} {a : α}

/-- A field is found where the member of its name decodes, or what stands for a missing one. -/
theorem field {name : String} {d : Decoder α} {trailing : Bool} {absent : Except Fault α}
    (h : ∀ v, get name = some v → d v = .ok a) (habsent : get name = none → absent = .ok a) :
    Finds (field name d trailing absent) get a := by
  refine ⟨fun f hf v hv => ?_, ?_⟩
  · obtain rfl := List.mem_singleton.mp hf
    show (fun _ => ()) <$> d v = _
    rw [h v hv]
    rfl
  · cases hget : get name with
    | none => simp only [Record.field, hget, habsent hget]
    | some v => simp only [Record.field, hget, h v hget]

/-- Something is made of what is built. -/
theorem map {r : Record α} (f : α → β) (h : Finds r get a) : Finds (f <$> r) get (f a) := by
  refine ⟨h.checks, ?_⟩
  rw [build_map, h.build_eq]
  rfl

/-- Two records are found one after the other. -/
theorem seq {f : Record (α → β)} {g : α → β} {r : Record α} (hf : Finds f get g)
    (h : Finds r get a) : Finds (f <*> r) get (g a) := by
  refine ⟨fun x hx => (List.mem_append.mp hx).elim (hf.checks x) (h.checks x), ?_⟩
  rw [build_seq, hf.build_eq, h.build_eq]
  rfl

end Finds

/-- An object in which a record finds its fields decodes to what is built from them. -/
theorem decoder_extended {r : Record α} {a : α} (ext : Extends (r.fields.map (·.name)) ms)
    (hintact : (Value.object ms).intact) (finds : Finds r (lookup ms) a) :
    r.decoder (.object ms) = .ok a := by
  have hcheck : checkMembers r.fields [] ms = .ok () := by
    refine checkMembers_extended ext (fun m hm => intact_of_mem hintact hm (ext.named m hm)) ?_
      fun _ _ _ => List.not_mem_nil
    intro f hf m hm heq
    exact finds.checks f hf m.2 (heq ▸ ext.lookup_eq hm (heq ▸ List.mem_map_of_mem hf))
  simp only [decoder, hcheck]
  exact finds.build_eq

end

end Record

/-- What shows an optional value decodes to it. -/
theorem Decoder.optional_shown {α : Type} {d : Decoder α} {f : α → Value}
    (hf : ∀ a, d.optional (f a) = .ok (some a)) {x : Option α} {member : Option Value}
    (h : Record.ShowsOption (x.map f) member) :
    (∀ v, member = some v → d.optional v = .ok x) ∧ (member = none → x = none) := by
  rcases h with rfl | ⟨hx, rfl⟩
  · cases x with
    | none => exact ⟨nofun, fun _ => rfl⟩
    | some a =>
      refine ⟨?_, nofun⟩
      rintro _ ⟨⟩
      exact hf a
  · rw [Option.map_eq_none_iff] at hx
    subst hx
    refine ⟨?_, nofun⟩
    rintro _ ⟨⟩
    rfl

/-! ## What a record is built from -/

/-- Every natural number of the tree is below the limit. -/
inductive Value.Below (limit : Nat) : Value → Prop
  | null : Below limit .null
  | bool (b : Bool) : Below limit (.bool b)
  | natural {n : Nat} (h : n < limit) : Below limit (.natural n)
  | decimal (literal : String) : Below limit (.decimal literal)
  | string (s : String) : Below limit (.string s)
  | unpaired : Below limit .unpaired
  | array {vs : List Value} (h : ∀ v ∈ vs, Below limit v) : Below limit (.array vs)
  | object {ms : List (String × Value)} (h : ∀ m ∈ ms, Below limit m.2) : Below limit (.object ms)
  | unnamed {v : Value} (h : Below limit v) : Below limit (.unnamed v)
  | unreadable : Below limit .unreadable

namespace Record

/-- From values with the property `P` the record builds something with the property `Q`. -/
def Gives {α : Type} (P : Value → Prop) (r : Record α) (Q : α → Prop) : Prop :=
  ∀ get a, (∀ key v, get key = some v → P v) → r.build get = .ok a → Q a

namespace Gives

variable {α β : Type} {P : Value → Prop} {Q R : α → Prop} {S : β → Prop}

/-- A field gives what its decoder does, or what stands for a missing member. -/
theorem field {name : String} {d : Decoder α} {trailing : Bool} {absent : Except Fault α}
    (hd : ∀ v a, P v → d v = .ok a → Q a) (habsent : ∀ a, absent = .ok a → Q a) :
    Gives P (field name d trailing absent) Q := by
  intro get a hP hbuild
  simp only [Record.field] at hbuild
  split at hbuild
  · next v hget => exact hd v a (hP name v hget) hbuild
  · exact habsent a hbuild

/-- Something is made of what is built. -/
theorem map {r : Record α} {f : α → β} (h : Gives P r R) (hS : ∀ a, R a → S (f a)) :
    Gives P (f <$> r) S := by
  intro get b hP hbuild
  rw [build_map] at hbuild
  cases ha : r.build get with
  | error e =>
    rw [ha] at hbuild
    cases hbuild
  | ok a =>
    rw [ha] at hbuild
    cases hbuild
    exact hS a (h get a hP ha)

/-- Two records are built one after the other. -/
theorem seq {f : Record (α → β)} {r : Record α} (hf : Gives P f fun g => ∀ a, R a → S (g a))
    (h : Gives P r R) : Gives P (f <*> r) S := by
  intro get b hP hbuild
  rw [build_seq] at hbuild
  cases hg : f.build get with
  | error e =>
    rw [hg] at hbuild
    cases hbuild
  | ok g =>
    cases ha : r.build get with
    | error e =>
      rw [hg, ha] at hbuild
      cases hbuild
    | ok a =>
      rw [hg, ha] at hbuild
      cases hbuild
      exact hf get g hP hg a (h get a hP ha)

/-- A record is built from the items of an array, or from the values of the members of an object. -/
theorem of_decoder {r : Record α} {limit : Nat} {v : Value} {a : α}
    (h : Gives (Value.Below limit) r Q) (hv : v.Below limit) (hd : r.decoder v = .ok a) : Q a := by
  have hbuilt : ∀ {check : Except Fault Unit} {get : String → Option Value},
      (do check; r.build get) = .ok a → r.build get = .ok a := by
    intro check get heq
    cases check with
    | error e => cases heq
    | ok _ => exact heq
  cases hv with
  | @object ms hms =>
    exact h _ a (fun key v hget => hms (key, v) (mem_of_lookup hget)) (hbuilt hd)
  | array hvs =>
    exact h _ a (fun key v hget => hvs v (List.of_mem_zip (mem_of_lookup hget)).2) (hbuilt hd)
  | _ => cases hd

end Gives

end Record

/-! ## Fields -/

namespace Decoder

@[simp] theorem string_string (s : String) : string (.string s) = .ok s := rfl

@[simp] theorem bool_bool (b : Bool) : bool (.bool b) = .ok b := rfl

/-- A number of sixteen bits is read back. -/
@[simp] theorem uint16_natural (n : UInt16) : uint16 (.natural n.toNat) = .ok n := by
  simp [uint16, natural, n.toNat_lt, UInt16.size]

/-- A number of thirty-two bits is read back. -/
@[simp] theorem uint32_natural (n : UInt32) : uint32 (.natural n.toNat) = .ok n := by
  simp [uint32, natural, UInt32.size, n.toNat_lt]

/-- A number of sixty-four bits is read back. -/
@[simp] theorem uint64_natural (n : UInt64) : uint64 (.natural n.toNat) = .ok n := by
  simp [uint64, natural, UInt64.size, n.toNat_lt]

/-- A number of sixty-four bits was read from this number. -/
theorem eq_natural_of_uint64 {v : Value} {n : UInt64} (h : uint64 v = .ok n) :
    v = .natural n.toNat := by
  cases v with
  | natural m =>
    by_cases hm : m < UInt64.size
    · simp only [uint64, natural, if_pos hm] at h
      cases h
      rw [UInt64.toNat_ofNat_of_lt' hm]
    · simp only [uint64, natural, if_neg hm] at h
      cases h
  | _ => cases h

/-- An optional string is read back. -/
@[simp] theorem optional_ofString? (s : Option String) :
    string.optional (.ofString? s) = .ok s := by
  cases s <;> rfl

/-- An optional number of sixty-four bits is read back. -/
@[simp] theorem optional_ofNatural? (n : Option UInt64) :
    uint64.optional (.ofNatural? (n.map UInt64.toNat)) = .ok n := by
  cases n with
  | none => rfl
  | some n =>
    show some <$> uint64 (.natural n.toNat) = _
    simp

/-- The items of an array are read back one by one. -/
theorem list_map {α β : Type} {d : Decoder β} {encode : α → Value} {f : α → β}
    (h : ∀ a, d (encode a) = .ok (f a)) (as : List α) :
    list d (.array (as.map encode)) = .ok (as.map f) := by
  show items d (as.map encode) = _
  induction as with
  | nil => rfl
  | cons a as ih =>
    rw [List.map_cons, items, h, ih]
    rfl

end Decoder

end RelayFleet.Json
