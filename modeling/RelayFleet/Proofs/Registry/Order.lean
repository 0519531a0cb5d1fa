import RelayFleet.Proofs.Registry.Ids

/-!
# The order of ids

The keys of the registry are in the order of their texts, and an id is made from its number by
padding this to six digits. Equally long ids are therefore in the order of their numbers
(`Text.digits_lt_iff`). A longer id may come before a shorter one, because the first digits decide:
a later id overtakes an earlier one in the order of the texts exactly where its first digits are a
smaller number (`Registry.Overtakes`, `Registry.relayId_lt_iff`). Below a million none does.
-/

namespace RelayFleet

/-! ## The order of digits -/

namespace Text

/-- The codes of digits. -/
theorem isDigit_bounds {c : Char} (h : c.isDigit) : 48 ≤ c.toNat ∧ c.toNat ≤ 57 := by
  simpa [Char.isDigit, UInt32.le_iff_toNat_le] using h

/-- The first digit counts as often as the others can say. -/
theorem ofDigitChars_cons_zero (c : Char) (cs : List Char) :
    Nat.ofDigitChars 10 (c :: cs) 0 =
      10 ^ cs.length * (c.toNat - 48) + Nat.ofDigitChars 10 cs 0 := by
  rw [Nat.ofDigitChars_cons, Nat.ofDigitChars_eq_ofDigitChars_zero, Nat.mul_zero, Nat.zero_add]
  rfl

/-- Digits stand for a number that is smaller than the power of their count. -/
theorem ofDigitChars_lt {cs : List Char} (h : ∀ c ∈ cs, c.isDigit) :
    Nat.ofDigitChars 10 cs 0 < 10 ^ cs.length := by
  induction cs with
  | nil => decide
  | cons c cs ih =>
    obtain ⟨hc, hcs⟩ := List.forall_mem_cons.mp h
    have hfirst := Nat.mul_le_mul_left (10 ^ cs.length)
      (show c.toNat - 48 ≤ 9 by have := isDigit_bounds hc; omega)
    have hrest := ih hcs
    rw [ofDigitChars_cons_zero, List.length_cons, Nat.pow_succ]
    omega

/-- Equally many digits are in the order of the numbers that they stand for. -/
theorem digits_lt_iff {cs ds : List Char} (hlen : cs.length = ds.length)
    (hcs : ∀ c ∈ cs, c.isDigit) (hds : ∀ d ∈ ds, d.isDigit) :
    cs < ds ↔ Nat.ofDigitChars 10 cs 0 < Nat.ofDigitChars 10 ds 0 := by
  induction cs generalizing ds with
  | nil =>
    obtain rfl := List.length_eq_zero_iff.mp hlen.symm
    simp
  | cons c cs ih =>
    cases ds with
    | nil => cases hlen
    | cons d ds =>
      obtain ⟨hc, hcs⟩ := List.forall_mem_cons.mp hcs
      obtain ⟨hd, hds⟩ := List.forall_mem_cons.mp hds
      have hlen : cs.length = ds.length := Nat.succ.inj hlen
      have hsmall := ofDigitChars_lt hcs
      have hsmall' := ofDigitChars_lt hds
      have hbounds := isDigit_bounds hc
      have hbounds' := isDigit_bounds hd
      rw [List.cons_lt_cons_iff, ih hlen hcs hds, ofDigitChars_cons_zero, ofDigitChars_cons_zero]
      rw [← hlen] at hsmall' ⊢
      -- a greater first digit outweighs the others
      have hgreater : ∀ {a b : Nat}, a < b →
          10 ^ cs.length * a + 10 ^ cs.length ≤ 10 ^ cs.length * b :=
        fun h => Nat.mul_le_mul_left (10 ^ cs.length) h
      have hiff : c < d ↔ c.toNat < d.toNat := Iff.rfl
      rw [hiff]
      rcases Nat.lt_trichotomy c.toNat d.toNat with hlt | heq | hgt
      · have := hgreater (show c.toNat - 48 < d.toNat - 48 by omega)
        exact ⟨fun _ => by omega, fun _ => .inl hlt⟩
      · obtain rfl : c = d := Char.ext (UInt32.toNat_inj.mp heq)
        simp
      · have := hgreater (show d.toNat - 48 < c.toNat - 48 by omega)
        refine ⟨fun h => ?_, fun h => by omega⟩
        rcases h with hlt | ⟨rfl, -⟩
        · exact absurd hlt (Nat.lt_asymm hgt)
        · exact absurd hgt (Nat.lt_irrefl _)

/-- A text comes before a longer one if it comes before its beginning or is its beginning. -/
theorem lt_append_iff {cs ds es : List Char} (hlen : cs.length = ds.length) :
    cs < ds ++ es ↔ cs < ds ∨ cs = ds ∧ es ≠ [] := by
  induction cs generalizing ds with
  | nil =>
    obtain rfl := List.length_eq_zero_iff.mp hlen.symm
    cases es <;> simp
  | cons c cs ih =>
    cases ds with
    | nil => cases hlen
    | cons d ds =>
      rw [List.cons_append, List.cons_lt_cons_iff, List.cons_lt_cons_iff, ih (Nat.succ.inj hlen),
        List.cons.injEq]
      tauto

end Text

/-! ## The order of ids -/

namespace Registry

variable {m n : UInt64}

/-- How many digits the id with a number has. -/
def idWidth (n : UInt64) : Nat := max 6 (Nat.toDigits 10 n.toNat).length

/-- The id of a number comes before that of an earlier one, because it is longer and its first
digits are a smaller number. -/
def Overtakes (n m : UInt64) : Prop :=
  m < n ∧ n.toNat / 10 ^ (idWidth n - idWidth m) < m.toNat

/-- The digits of an id. -/
def idDigits (n : UInt64) : List Char := (padded 6 n.toNat).toList

/-- The digits of an id are digits. -/
theorem isDigit_of_mem_idDigits {c : Char} (hc : c ∈ idDigits n) : c.isDigit := by
  rw [idDigits, padded, String.toList_ofList, List.mem_append] at hc
  rcases hc with hc | hc
  · rw [List.eq_of_mem_replicate hc]
    rfl
  · exact Nat.isDigit_of_mem_toDigits (by decide) (by decide) hc

/-- An id has so many digits. -/
theorem length_idDigits (n : UInt64) : (idDigits n).length = idWidth n := by
  rw [idDigits, padded, String.toList_ofList, List.length_append, List.length_replicate, idWidth]
  omega

/-- Later ids are not shorter. -/
theorem idWidth_mono (h : m < n) : idWidth m ≤ idWidth n := by
  have hlt : m.toNat < n.toNat := h
  have hdigits : (Nat.toDigits 10 m.toNat).length ≤ (Nat.toDigits 10 n.toNat).length := by
    have hpos : 0 < (Nat.toDigits 10 n.toNat).length := Nat.length_toDigits_pos
    rw [Nat.length_toDigits_le_iff (by decide) hpos]
    exact Nat.lt_trans hlt ((Nat.length_toDigits_le_iff (by decide) hpos).mp (Nat.le_refl _))
  unfold idWidth
  omega

/-- Ids are in the order of their digits. -/
theorem relayId_lt_iff_idDigits : relayId m < relayId n ↔ idDigits m < idDigits n := by
  have hprefix : "relay-".toList = ['r', 'e', 'l', 'a', 'y', '-'] := rfl
  rw [relayId, relayId, String.lt_iff, String.toList_append, String.toList_append,
    hprefix]
  simp [idDigits]

/-- Ids are in the order of their numbers, except where one overtakes another. -/
theorem relayId_lt_iff (h : m < n) : relayId m < relayId n ↔ ¬ Overtakes n m := by
  have hdigits : ∀ {k : UInt64} {c}, c ∈ idDigits k → c.isDigit := isDigit_of_mem_idDigits
  have hvalue : ∀ k : UInt64, Nat.ofDigitChars 10 (idDigits k) 0 = k.toNat :=
    fun k => ofDigitChars_padded 6 k.toNat
  have hwidth := idWidth_mono h
  let first := (idDigits n).take (idWidth m)
  let rest := (idDigits n).drop (idWidth m)
  have hsplit : idDigits n = first ++ rest := (List.take_append_drop ..).symm
  have hlen : (idDigits m).length = first.length := by
    rw [length_idDigits, List.length_take, length_idDigits]
    omega
  have hrest : rest.length = idWidth n - idWidth m := by
    rw [List.length_drop, length_idDigits]
  have hfirst : ∀ c ∈ first, c.isDigit := fun c hc => hdigits (List.mem_of_mem_take hc)
  have hquotient : n.toNat / 10 ^ (idWidth n - idWidth m) = Nat.ofDigitChars 10 first 0 := by
    have hsmall := Text.ofDigitChars_lt fun c hc => hdigits (List.mem_of_mem_drop (l := idDigits n)
      (i := idWidth m) hc)
    rw [← hvalue n, hsplit, Nat.ofDigitChars_append, Nat.ofDigitChars_eq_ofDigitChars_zero, ← hrest]
    rw [Nat.mul_add_div (Nat.pow_pos (by decide)), Nat.div_eq_of_lt hsmall, Nat.add_zero]
  rw [relayId_lt_iff_idDigits, hsplit, Text.lt_append_iff hlen,
    Text.digits_lt_iff hlen (fun c => hdigits) hfirst, Overtakes, hquotient, hvalue]
  have hsame : idDigits m = first ∧ rest ≠ [] ↔ m.toNat = Nat.ofDigitChars 10 first 0 := by
    constructor
    · rintro ⟨heq, -⟩
      rw [← heq, hvalue]
    · intro heq
      refine ⟨List.le_antisymm ?_ ?_, fun hnil => ?_⟩
      · rw [← List.not_lt, Text.digits_lt_iff hlen.symm hfirst fun c => hdigits, hvalue]
        omega
      · rw [← List.not_lt, Text.digits_lt_iff hlen (fun c => hdigits) hfirst, hvalue]
        omega
      · rw [hnil, List.append_nil] at hsplit
        rw [← hsplit, hvalue] at heq
        exact absurd (UInt64.toNat_inj.mp heq) (UInt64.ne_of_lt h)
  rw [hsame]
  refine ⟨?_, fun hnot => ?_⟩
  · rintro hle ⟨-, hlt⟩
    omega
  · have hle : ¬ Nat.ofDigitChars 10 first 0 < m.toNat := fun hlt => hnot ⟨h, hlt⟩
    omega

/-- No number below a million has an id that overtakes another one. -/
theorem Overtakes.million_le (h : Overtakes n m) : 1000000 ≤ n.toNat := by
  obtain ⟨hmn, hlt⟩ := h
  by_contra hsmall
  have hmn : m.toNat < n.toNat := hmn
  have hwidth : ∀ k : UInt64, k.toNat < 10 ^ 6 → idWidth k = 6 := fun k hk => by
    have := (Nat.length_toDigits_le_iff (b := 10) (by decide) (by decide)).mpr hk
    unfold idWidth
    omega
  rw [hwidth n (by omega), hwidth m (by omega), Nat.sub_self, Nat.pow_zero, Nat.div_one] at hlt
  omega

/-- The millionth id overtakes the one before. -/
theorem overtakes_million : Overtakes 1000000 999999 := by
  unfold Overtakes
  decide +kernel

end Registry

end RelayFleet
