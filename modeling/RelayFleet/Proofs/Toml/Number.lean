import RelayFleet.Proofs.Toml.Quoted
import RelayFleet.Toml.Reader

/-!
# Values are read back

What the writer puts behind an equals sign is read as the value it stands for, up to the end of the
line: `value?_toDigits`, `value?_boolean`, `value?_stringText` and `value?_empty`. A number is tried
as a moment and as a float first, but digits up to the end of a line are neither.
-/

namespace RelayFleet.Toml

section
variable {ds rest : List Char}

/-! ## Digits are no moment -/

/-- A number of fixed length is taken from the digits and leaves digits. -/
theorem fixed?_digits (hds : ∀ c ∈ ds, c.isDigit) {count n : Nat} {after : List Char}
    (h : fixed? count (ds ++ '\n' :: rest) = some (n, after)) :
    ∃ ds', (∀ c ∈ ds', c.isDigit) ∧ after = ds' ++ '\n' :: rest := by
  simp only [fixed?] at h
  split at h
  · next hall =>
    cases h
    have hle : count ≤ ds.length := by
      refine Nat.le_of_not_lt fun hlt => ?_
      have hline : '\n' ∈ (ds ++ '\n' :: rest).take count := by
        rw [List.take_append]
        refine List.mem_append_right _ ?_
        obtain ⟨k, hk⟩ := Nat.exists_eq_succ_of_ne_zero (n := count - ds.length) (by omega)
        rw [hk]
        exact List.mem_cons_self
      have hdigit := List.all_eq_true.mp hall.2 '\n' hline
      cases hdigit
    refine ⟨ds.drop count, fun c hc => hds c (List.mem_of_mem_drop hc), ?_⟩
    rw [List.drop_append_of_le_length hle]
  · cases h

/-- No mark stands behind digits but the end of the line. -/
theorem expect?_digits (hds : ∀ c ∈ ds, c.isDigit) {c : Char} (hc : c.isDigit = false)
    (hline : c ≠ '\n') : expect? c (ds ++ '\n' :: rest) = none := by
  rcases ds with _ | ⟨d, ds⟩
  · exact if_neg hline.symm
  · refine if_neg ?_
    rintro rfl
    rw [hds d List.mem_cons_self] at hc
    cases hc

/-- Digits are no moment. -/
theorem moment?_digits (hds : ∀ c ∈ ds, c.isDigit) (rest : List Char) :
    moment? (ds ++ '\n' :: rest) = none := by
  have hdate : afterDate? (ds ++ '\n' :: rest) = none := by
    unfold afterDate?
    rcases hfixed : fixed? 4 (ds ++ '\n' :: rest) with _ | ⟨year, after⟩
    · rfl
    · obtain ⟨ds', hds', rfl⟩ := fixed?_digits hds hfixed
      simp [expect?_digits hds' (c := '-') rfl (by decide)]
  have htime : afterTime? (ds ++ '\n' :: rest) = none := by
    unfold afterTime? twoDigits?
    rcases hfixed : fixed? 2 (ds ++ '\n' :: rest) with _ | ⟨hour, after⟩
    · rfl
    · obtain ⟨ds', hds', rfl⟩ := fixed?_digits hds hfixed
      by_cases hhour : hour ≤ 23
      · simp [hhour, expect?_digits hds' (c := ':') rfl (by decide)]
      · simp [hhour]
  simp [moment?, afterMoment?, hdate, htime]

/-! ## Natural numbers -/

/-- Digits are read up to the end of the line. -/
theorem digitRun_digits (hds : ∀ c ∈ ds, c.isDigit) :
    digitRun Char.isDigit (ds ++ '\n' :: rest) = (ds, '\n' :: rest) := by
  induction ds with
  | nil => rfl
  | cons d ds ih =>
    have hd := hds d List.mem_cons_self
    rw [List.cons_append, digitRun, if_pos hd, ih fun c hc => hds c (List.mem_cons_of_mem d hc)]
    rintro c cs rfl
    cases hd

/-- The number that decimal digits spell. -/
theorem digitsValue_toDigits (n : Nat) : digitsValue 10 (Nat.toDigits 10 n) = n := by
  have hdigits : ∀ ds : List Char, (∀ c ∈ ds, c.isDigit) → ∀ n,
      ds.foldl (fun n d => n * 10 + (Json.hexValue? d).getD 0) n = Nat.ofDigitChars 10 ds n := by
    intro ds hds n
    induction ds generalizing n with
    | nil => rfl
    | cons d ds ih =>
      obtain ⟨hd, hds⟩ := List.forall_mem_cons.mp hds
      have hvalue : n * 10 + (Json.hexValue? d).getD 0 = 10 * n + (d.toNat - '0'.toNat) := by
        rw [Json.hexValue?, if_pos hd, Option.getD_some, Nat.mul_comm]
      rw [List.foldl_cons, hvalue, ih hds]
      rfl
  have hall := hdigits (Nat.toDigits 10 n)
    (fun _ hc => Nat.isDigit_of_mem_toDigits (by decide) (by decide) hc) 0
  exact hall.trans (Nat.ofDigitChars_toDigits (by decide) (by decide))

/-- A character of a kind is none of another kind. -/
theorem char_ne {kind : Char → Bool} {d c : Char} (hd : kind d) (hc : kind c = false) : d ≠ c := by
  rintro rfl
  rw [hd] at hc
  cases hc

/-- A digit is no sign. -/
theorem sign_digit {d : Char} (hd : d.isDigit) (cs : List Char) :
    sign (d :: cs) = ([], d :: cs) := by
  unfold sign
  split
  · next heq => exact absurd (List.cons.inj heq).1 (char_ne hd rfl)
  · next heq => exact absurd (List.cons.inj heq).1 (char_ne hd rfl)
  · rfl

/-- A positive number does not begin with a zero. -/
theorem toDigits_pos {n : Nat} (hn : 0 < n) : ∃ d ds, Nat.toDigits 10 n = d :: ds ∧ d ≠ '0' := by
  induction n using Nat.strongRecOn with
  | _ n ih =>
    by_cases hlt : n < 10
    · have hd : ∀ m < 10, 0 < m → m.digitChar ≠ '0' := by decide
      exact ⟨_, [], Nat.toDigits_of_lt_base hlt, hd n hlt hn⟩
    · obtain ⟨d, ds, heq, hd⟩ := ih (n / 10) (by omega) (by omega)
      refine ⟨d, ds ++ [(n % 10).digitChar], ?_, hd⟩
      rw [Nat.toDigits_of_base_le (by decide) (by omega), heq]
      rfl

/-- Every character of a number is a digit. -/
theorem isDigit_toDigits (n : Nat) : ∀ c ∈ Nat.toDigits 10 n, c.isDigit :=
  fun _ hc => Nat.isDigit_of_mem_toDigits (by decide) (by decide) hc

/-- A natural number is read up to the end of the line. -/
theorem wholePart?_toDigits (n : Nat) (rest : List Char) :
    wholePart? (Nat.toDigits 10 n ++ '\n' :: rest) = some (Nat.toDigits 10 n, '\n' :: rest) := by
  rcases Nat.eq_zero_or_pos n with rfl | hn
  · rfl
  · obtain ⟨d, ds, heq, hzero⟩ := toDigits_pos hn
    obtain ⟨hd, hds⟩ := List.forall_mem_cons.mp (heq ▸ isDigit_toDigits n)
    have hdigits : digits? Char.isDigit (d :: (ds ++ '\n' :: rest)) =
        some (d :: ds, '\n' :: rest) := by
      rw [digits?, if_pos hd, digitRun_digits hds]
    simp only [heq, List.cons_append, wholePart?, sign_digit hd]
    split
    · next h => exact absurd (List.cons.inj h).1 hzero
    · simp [hdigits]

/-- Digits up to the end of the line are no float. -/
theorem float?_toDigits (n : Nat) (rest : List Char) :
    float? (Nat.toDigits 10 n ++ '\n' :: rest) = none := by
  obtain ⟨d, ds, heq⟩ := List.exists_cons_of_ne_nil (Nat.toDigits_ne_nil (n := n) (b := 10))
  have hd : d.isDigit := isDigit_toDigits n d (heq ▸ List.mem_cons_self)
  have hsign : (sign (Nat.toDigits 10 n ++ '\n' :: rest)).2 = d :: (ds ++ '\n' :: rest) := by
    rw [heq, List.cons_append, sign_digit hd]
  unfold float?
  rw [hsign]
  split
  · next h => exact absurd (List.cons.inj h).1 (char_ne hd rfl)
  · next h => exact absurd (List.cons.inj h).1 (char_ne hd rfl)
  · rw [wholePart?_toDigits]
    rfl

/-- A natural number of 63 bits is read back. -/
theorem integer?_toDigits {n : Nat} (hn : n < integerLimit) (rest : List Char) :
    integer? (Nat.toDigits 10 n ++ '\n' :: rest) = some ((n : Int), '\n' :: rest) := by
  rcases Nat.eq_zero_or_pos n with rfl | hpos
  · rfl
  · obtain ⟨d, ds, heq, hzero⟩ := toDigits_pos hpos
    have hd : d.isDigit := isDigit_toDigits n d (heq ▸ List.mem_cons_self)
    have hwhole := wholePart?_toDigits n rest
    have hvalue := digitsValue_toDigits n
    have hminus : d ≠ '-' := char_ne hd rfl
    rw [heq] at hwhole hvalue ⊢
    rw [List.cons_append] at hwhole ⊢
    unfold integer?
    split
    · next h => exact absurd (List.cons.inj h).1 hzero
    · next h => exact absurd (List.cons.inj h).1 hzero
    · next h => exact absurd (List.cons.inj h).1 hzero
    · simp [hwhole, sign_digit hd, hvalue, hminus, integerOf?, hn]

/-! ## Values -/

/-- What begins with no bracket and no brace is read as a value without parts. -/
theorem value?_scalar {c : Char} (hbracket : c ≠ '[') (hbrace : c ≠ '\x7b') (depth : Nat)
    (cs : List Char) : value? depth (c :: cs) = scalar? (c :: cs) := by
  cases depth with
  | zero => rfl
  | succ depth =>
    unfold value?
    split
    · next h => exact absurd (List.cons.inj h).1 hbracket
    · next h => exact absurd (List.cons.inj h).1 hbrace
    · rfl

/-- A digit begins a number. -/
theorem scalar?_digit {d : Char} (hd : d.isDigit) (cs : List Char) :
    scalar? (d :: cs) = number? (d :: cs) := by
  unfold scalar?
  split
  · next h => exact absurd (List.cons.inj h).1 (char_ne hd rfl)
  · next h => exact absurd (List.cons.inj h).1 (char_ne hd rfl)
  · next h => exact absurd (List.cons.inj h).1 (char_ne hd rfl)
  · next h => exact absurd (List.cons.inj h).1 (char_ne hd rfl)
  · next h => exact absurd (List.cons.inj h).1 (char_ne hd rfl)
  · next h => exact absurd (List.cons.inj h).1 (char_ne hd rfl)
  · next h =>
    cases h
    rw [if_pos (.inl hd)]
  · next h => cases h

/-- A number is read back. -/
theorem value?_toDigits {n : Nat} (hn : n < integerLimit) (depth : Nat) :
    value? depth (Nat.toDigits 10 n ++ '\n' :: rest) = some (.integer n, '\n' :: rest) := by
  have hmoment := moment?_digits (isDigit_toDigits n) rest
  have hfloat := float?_toDigits n rest
  have hinteger := integer?_toDigits hn rest
  obtain ⟨d, ds, heq⟩ := List.exists_cons_of_ne_nil (Nat.toDigits_ne_nil (n := n) (b := 10))
  have hd : d.isDigit := isDigit_toDigits n d (heq ▸ List.mem_cons_self)
  have hnumber : number? (d :: (ds ++ '\n' :: rest)) = some (.integer n, '\n' :: rest) := by
    rw [← List.cons_append, ← heq, number?, hmoment, hfloat, hinteger]
    rfl
  have hnotBracket : d ≠ '[' := char_ne hd rfl
  have hnotBrace : d ≠ '\x7b' := char_ne hd rfl
  rw [heq, List.cons_append, value?_scalar hnotBracket hnotBrace, scalar?_digit hd, hnumber]

/-- `true` and `false` are read back. -/
theorem value?_boolean (b : Bool) (depth : Nat) :
    value? depth ((if b then ['t', 'r', 'u', 'e'] else ['f', 'a', 'l', 's', 'e']) ++ '\n' :: rest) =
      some (.boolean b, '\n' :: rest) := by
  cases b <;> cases depth <;> rfl

/-- A string is read back. -/
theorem value?_stringText (s : String) (depth : Nat) :
    value? depth (stringText s ++ '\n' :: rest) = some (.string s, '\n' :: rest) := by
  have hstring := string?_stringText s rest
  have hquote : (∃ cs, stringText s = '"' :: cs) ∨ ∃ cs, stringText s = '\'' :: cs := by
    simp only [stringText]
    split_ifs
    · exact .inl ⟨_, rfl⟩
    · exact .inr ⟨_, rfl⟩
    · exact .inl ⟨_, rfl⟩
    · exact .inr ⟨_, rfl⟩
    · exact .inl ⟨_, rfl⟩
    · exact .inl ⟨_, rfl⟩
  rcases hquote with ⟨cs, heq⟩ | ⟨cs, heq⟩ <;>
  · rw [heq, List.cons_append] at hstring ⊢
    rw [value?_scalar (by decide) (by decide), scalar?, hstring]
    rfl

/-- An empty array is read back. -/
theorem value?_empty (depth : Nat) :
    value? (depth + 1) ('[' :: ']' :: rest) = some (.array [], rest) := rfl

end

end RelayFleet.Toml
