import RelayFleet.Proofs.Json.RoundTrip

/-!
# All texts of a value

`Presents` is the grammar of JSON, with the value that a text stands for: there may be blanks
between any two tokens, the characters of a string may be written in any of the ways there are, and
a number may have a fraction and an exponent. `read_padded`: every such text is read as its value
and as a whole document. A string may also have an escape for half of a surrogate pair; it is then
no text, but it may still stand wherever a value is skipped.
-/

namespace RelayFleet.Json

open Reader Builder RelayFleet.Json.Mode

/-! ## Strings -/

/-- One of the ways in which a character, or half of one, is written inside quotes. -/
inductive Piece where
  | char (c : Char)
  /-- A backslash and a letter. -/
  | short (e : Char)
  /-- The four digits of a `u` escape. -/
  | code (d₁ d₂ d₃ d₄ : Char)
deriving DecidableEq

namespace Piece

/-- The characters of a piece. -/
def text : Piece → List Char
  | char c => [c]
  | short e => ['\\', e]
  | code d₁ d₂ d₃ d₄ => ['\\', 'u', d₁, d₂, d₃, d₄]

/-- Whether the piece may stand inside quotes. -/
def valid : Piece → Bool
  | char c => c != '"' && c != '\\' && 0x20 ≤ c.toNat
  | short e => (shortEscape? e).isSome
  | code d₁ d₂ d₃ d₄ => [d₁, d₂, d₃, d₄].all fun d => (hexValue? d).isSome

end Piece

/-- The number that hexadecimal digits stand for. -/
def hexNumber (ds : List Char) : Nat := ds.foldl (fun n d => n * 16 + (hexValue? d).getD 0) 0

/-- The text that pieces stand for. Two escapes that are a surrogate pair stand for one character;
where half of a pair stands alone there is no text. -/
def spelled : List Piece → Option (List Char)
  | [] => some []
  | .char c :: ps => (spelled ps).map (c :: ·)
  | .short e :: ps => (spelled ps).map ((shortEscape? e).getD e :: ·)
  | .code d₁ d₂ d₃ d₄ :: ps =>
    if isHighSurrogate (hexNumber [d₁, d₂, d₃, d₄]) then
      match ps with
      | .code e₁ e₂ e₃ e₄ :: ps =>
        if isLowSurrogate (hexNumber [e₁, e₂, e₃, e₄]) then
          (spelled ps).map
            (pairedChar (hexNumber [d₁, d₂, d₃, d₄]) (hexNumber [e₁, e₂, e₃, e₄]) :: ·)
        else none
      | _ => none
    else if isLowSurrogate (hexNumber [d₁, d₂, d₃, d₄]) then none
    else (spelled ps).map (Char.ofNat (hexNumber [d₁, d₂, d₃, d₄]) :: ·)

/-- Pieces in quotes. -/
def quote (ps : List Piece) : List Char := '"' :: ps.flatMap Piece.text ++ ['"']

/-- The value of a string. -/
def stringValue : Option (List Char) → Value
  | some s => .string (String.ofList s)
  | none => .unpaired

/-- The scanner is inside a string, with these characters behind it, last first. -/
inductive Inside : Option (List Char) → Mode → Prop
  | string {seen : Option (List Char)} : Inside seen (.string seen)
  | afterHigh {seen : Option (List Char)} {high : Nat} : Inside none (.afterHigh seen high)

section
variable {b : Builder} {seen : Option (List Char)}

/-- The quote at the end of a string. -/
theorem Inside.step_quote {m : Mode} (h : Inside seen m) :
    (Reader.mk m b).step '"' =
      ⟨.between, b.step (.scalar (stringValue (seen.map List.reverse)))⟩ := by
  cases h with
  | string => cases seen <;> rfl
  | afterHigh => rfl

/-- The four digits of an escape. -/
theorem scan_hex {high : Option Nat} {d₁ d₂ d₃ d₄ : Char}
    (h : (Piece.code d₁ d₂ d₃ d₄).valid) :
    (Reader.mk (.hex seen high 0 0) b).scan [d₁, d₂, d₃, d₄] =
      ⟨afterCode seen high (hexNumber [d₁, d₂, d₃, d₄]), b⟩ := by
  simp only [Piece.valid, List.all_cons, List.all_nil, Bool.and_true, Bool.and_eq_true,
    Option.isSome_iff_exists] at h
  obtain ⟨⟨n₁, h₁⟩, ⟨n₂, h₂⟩, ⟨n₃, h₃⟩, ⟨n₄, h₄⟩⟩ := h
  simp [Reader.step, Mode.step, hexNumber, h₁, h₂, h₃, h₄]

/-- A piece after the first half of a pair that does not complete it. -/
theorem scan_unpaired {high : Nat} {p : Piece} (hp : p.valid)
    (hnot : ∀ d₁ d₂ d₃ d₄, p = .code d₁ d₂ d₃ d₄ →
      isLowSurrogate (hexNumber [d₁, d₂, d₃, d₄]) = false) :
    (Reader.mk (.afterHigh seen high) b).scan p.text = ⟨.string none, b⟩ := by
  cases p with
  | char c =>
    simp only [Piece.valid, Bool.and_eq_true, bne_iff_ne, decide_eq_true_eq] at hp
    have hlow : ¬ c.toNat < 0x20 := by omega
    simp [Piece.text, Reader.step, Mode.step, stringStep, hp.1.1, hp.1.2, hlow]
  | short e =>
    obtain ⟨c, hc⟩ := Option.isSome_iff_exists.mp hp
    have hne : e ≠ 'u' := by
      rintro rfl
      cases hc
    simp [Piece.text, Reader.step, Mode.step, escapedStep, hne, hc]
  | code d₁ d₂ d₃ d₄ =>
    show ((Reader.mk (.hex seen (some high) 0 0) b).scan [d₁, d₂, d₃, d₄]) = _
    rw [scan_hex hp, afterCode, hnot d₁ d₂ d₃ d₄ rfl]
    rfl

/-- A character in one piece. -/
theorem scan_char {c : Char} (h : (Piece.char c).valid) :
    (Reader.mk (.string seen) b).scan (Piece.char c).text =
      ⟨.string (seen.map (c :: ·)), b⟩ := by
  simp only [Piece.valid, Bool.and_eq_true, bne_iff_ne, decide_eq_true_eq] at h
  have hlow : ¬ c.toNat < 0x20 := by omega
  simp [Piece.text, Reader.step, Mode.step, stringStep, h.1.1, h.1.2, hlow]

/-- A character behind a backslash. -/
theorem scan_short {e : Char} (h : (Piece.short e).valid) :
    (Reader.mk (.string seen) b).scan (Piece.short e).text =
      ⟨.string (seen.map ((shortEscape? e).getD e :: ·)), b⟩ := by
  obtain ⟨c, hc⟩ := Option.isSome_iff_exists.mp h
  have hne : e ≠ 'u' := by
    rintro rfl
    cases hc
  simp [Piece.text, Reader.step, Mode.step, stringStep, escapedStep, hne, hc]

/-- A code of a character, or of half of one. -/
theorem scan_code {d₁ d₂ d₃ d₄ : Char} (h : (Piece.code d₁ d₂ d₃ d₄).valid) :
    (Reader.mk (.string seen) b).scan (Piece.code d₁ d₂ d₃ d₄).text =
      ⟨afterCode seen none (hexNumber [d₁, d₂, d₃, d₄]), b⟩ :=
  scan_hex h

/-- The code of the second half of a pair behind the first one. -/
theorem scan_paired {high : Nat} {d₁ d₂ d₃ d₄ : Char} (h : (Piece.code d₁ d₂ d₃ d₄).valid)
    (hlow : isLowSurrogate (hexNumber [d₁, d₂, d₃, d₄])) :
    (Reader.mk (.afterHigh seen high) b).scan (Piece.code d₁ d₂ d₃ d₄).text =
      ⟨.string (seen.map (pairedChar high (hexNumber [d₁, d₂, d₃, d₄]) :: ·)), b⟩ := by
  show ((Reader.mk (.hex seen (some high) 0 0) b).scan [d₁, d₂, d₃, d₄]) = _
  rw [scan_hex h, afterCode, if_pos hlow]

/-- A string that is no text stays none, whatever follows. -/
theorem scan_lost (ps : List Piece) (hps : ∀ p ∈ ps, p.valid) {m : Mode}
    (hm : m = .string none ∨ ∃ high, m = .afterHigh none high) :
    ∃ m', (Reader.mk m b).scan (ps.flatMap Piece.text) = ⟨m', b⟩ ∧ Inside none m' := by
  induction ps generalizing m with
  | nil =>
    refine ⟨m, rfl, ?_⟩
    rcases hm with rfl | ⟨high, rfl⟩
    · exact .string
    · exact .afterHigh
  | cons p ps ih =>
    obtain ⟨hp, hps⟩ := List.forall_mem_cons.mp hps
    have hnext : ∃ m', (Reader.mk m b).scan p.text = ⟨m', b⟩ ∧
        (m' = .string none ∨ ∃ high, m' = .afterHigh none high) := by
      rcases hm with rfl | ⟨high, rfl⟩
      · cases p with
        | char c => exact ⟨_, scan_char hp, .inl rfl⟩
        | short e => exact ⟨_, scan_short hp, .inl rfl⟩
        | code d₁ d₂ d₃ d₄ =>
          refine ⟨_, scan_code hp, ?_⟩
          simp only [afterCode, Option.map_none, ite_self]
          split
          · exact .inr ⟨_, rfl⟩
          · exact .inl rfl
      · by_cases hlow : ∃ d₁ d₂ d₃ d₄, p = .code d₁ d₂ d₃ d₄ ∧
            isLowSurrogate (hexNumber [d₁, d₂, d₃, d₄]) = true
        · obtain ⟨d₁, d₂, d₃, d₄, rfl, hlow⟩ := hlow
          exact ⟨_, scan_paired hp hlow, .inl rfl⟩
        · refine ⟨_, scan_unpaired hp fun d₁ d₂ d₃ d₄ heq => ?_, .inl rfl⟩
          exact Bool.eq_false_iff.mpr fun h => hlow ⟨d₁, d₂, d₃, d₄, heq, h⟩
    obtain ⟨m', hscan, hm'⟩ := hnext
    obtain ⟨m'', hrest, inside⟩ := ih hps hm'
    exact ⟨m'', by rw [List.flatMap_cons, scan_append, hscan, hrest], inside⟩

/-- The characters behind some that were read, last first. -/
def behind (seen s : Option (List Char)) : Option (List Char) :=
  seen.bind fun cs => s.map fun ds => ds.reverse ++ cs

@[simp] theorem behind_none : behind seen none = none := by
  cases seen <;> rfl

theorem behind_map (c : Char) (s : Option (List Char)) :
    behind (seen.map (c :: ·)) s = behind seen (s.map (c :: ·)) := by
  cases seen <;> cases s <;> simp [behind]

/-- The characters of a string are read, however they are written. -/
theorem scan_pieces (ps : List Piece) (hps : ∀ p ∈ ps, p.valid) :
    ∃ m, (Reader.mk (.string seen) b).scan (ps.flatMap Piece.text) = ⟨m, b⟩ ∧
      Inside (behind seen (spelled ps)) m := by
  fun_induction spelled ps generalizing seen with
  | case1 =>
    refine ⟨_, rfl, ?_⟩
    cases seen <;> exact .string
  | case2 c ps ih =>
    obtain ⟨hp, hps⟩ := List.forall_mem_cons.mp hps
    rw [List.flatMap_cons, scan_append, scan_char hp, ← behind_map]
    exact ih hps
  | case3 e ps ih =>
    obtain ⟨hp, hps⟩ := List.forall_mem_cons.mp hps
    rw [List.flatMap_cons, scan_append, scan_short hp, ← behind_map]
    exact ih hps
  | case4 d₁ d₂ d₃ d₄ hhigh e₁ e₂ e₃ e₄ ps hlow ih =>
    obtain ⟨hp, hps⟩ := List.forall_mem_cons.mp hps
    obtain ⟨hp', hps⟩ := List.forall_mem_cons.mp hps
    rw [List.flatMap_cons, scan_append, scan_code hp, afterCode, if_pos hhigh, List.flatMap_cons,
      scan_append, scan_paired hp' hlow, ← behind_map]
    exact ih hps
  | case5 d₁ d₂ d₃ d₄ hhigh e₁ e₂ e₃ e₄ ps hlow =>
    obtain ⟨hp, hps⟩ := List.forall_mem_cons.mp hps
    obtain ⟨hp', hps⟩ := List.forall_mem_cons.mp hps
    rw [List.flatMap_cons, scan_append, scan_code hp, afterCode, if_pos hhigh, List.flatMap_cons,
      scan_append, scan_unpaired hp' ?_, behind_none]
    · exact scan_lost ps hps (.inl rfl)
    · rintro _ _ _ _ ⟨⟩
      exact Bool.eq_false_iff.mpr hlow
  | case6 d₁ d₂ d₃ d₄ ps hhigh hnot =>
    obtain ⟨hp, hps⟩ := List.forall_mem_cons.mp hps
    rw [List.flatMap_cons, scan_append, scan_code hp, afterCode, if_pos hhigh, behind_none]
    cases ps with
    | nil => exact ⟨_, rfl, .afterHigh⟩
    | cons p ps =>
      obtain ⟨hp', hps⟩ := List.forall_mem_cons.mp hps
      rw [List.flatMap_cons, scan_append, scan_unpaired hp' ?_]
      · exact scan_lost ps hps (.inl rfl)
      · rintro e₁ e₂ e₃ e₄ rfl
        exact (hnot e₁ e₂ e₃ e₄ ps rfl).elim
  | case7 d₁ d₂ d₃ d₄ ps hhigh hlow =>
    obtain ⟨hp, hps⟩ := List.forall_mem_cons.mp hps
    rw [List.flatMap_cons, scan_append, scan_code hp, afterCode, if_neg hhigh, if_pos hlow,
      behind_none]
    exact scan_lost ps hps (.inl rfl)
  | case8 d₁ d₂ d₃ d₄ ps hhigh hlow ih =>
    obtain ⟨hp, hps⟩ := List.forall_mem_cons.mp hps
    rw [List.flatMap_cons, scan_append, scan_code hp, afterCode, if_neg hhigh, if_neg hlow,
      ← behind_map]
    exact ih hps

/-- A string is read as one token, however it is written. -/
theorem scan_quote {ps : List Piece} (hps : ∀ p ∈ ps, p.valid) :
    (Reader.mk .between b).scan (quote ps) =
      ⟨.between, b.step (.scalar (stringValue (spelled ps)))⟩ := by
  have hopen : (Reader.mk .between b).step '"' = ⟨.string (some []), b⟩ := rfl
  have hpieces : ∃ m, (Reader.mk (.string (some [])) b).scan (ps.flatMap Piece.text) = ⟨m, b⟩ ∧
      Inside (behind (some []) (spelled ps)) m := scan_pieces ps hps
  obtain ⟨m, hm, inside⟩ := hpieces
  rw [quote, List.cons_append, scan_cons, hopen, scan_append, hm, scan_cons, inside.step_quote]
  cases spelled ps <;> simp [behind]

end

/-! ## Numbers -/

/-- Decimal digits, one at least. -/
def IsDigits (ds : List Char) : Prop := ds ≠ [] ∧ ∀ d ∈ ds, d.isDigit

/-- The part of a number before its point: digits that do not begin with a zero, or a single one. -/
def IsWhole (ds : List Char) : Prop := ds = ['0'] ∨ IsDigits ds ∧ ds.head? ≠ some '0'

/-- The fraction of a number, if it has one. -/
def IsFraction (cs : List Char) : Prop := cs = [] ∨ ∃ ds, cs = '.' :: ds ∧ IsDigits ds

/-- The exponent of a number, if it has one. -/
def IsExponent (cs : List Char) : Prop :=
  cs = [] ∨ ∃ e sign ds, cs = e :: (sign ++ ds) ∧ (e = 'e' ∨ e = 'E') ∧
    (sign = [] ∨ sign = ['+'] ∨ sign = ['-']) ∧ IsDigits ds

/-- A number. -/
inductive IsNumber : List Char → Prop
  | mk {sign whole fraction exponent : List Char} (hsign : sign = [] ∨ sign = ['-'])
    (hwhole : IsWhole whole) (hfraction : IsFraction fraction) (hexponent : IsExponent exponent) :
    IsNumber (sign ++ (whole ++ (fraction ++ exponent)))

section
variable {b : Builder} {seen cs ds : List Char} {p q : NumberPart}

/-- Digits that continue a number. -/
theorem scan_digits (hds : IsDigits ds) (hp : ∀ d : Char, d.isDigit → p.next d = some q)
    (hq : ∀ d : Char, d.isDigit → q.next d = some q) :
    (Reader.mk (.number p seen) b).scan ds = ⟨.number q (ds.reverse ++ seen), b⟩ := by
  obtain ⟨hne, hds⟩ := hds
  induction ds generalizing p seen with
  | nil => exact absurd rfl hne
  | cons d ds ih =>
    obtain ⟨hd, hds⟩ := List.forall_mem_cons.mp hds
    have hstep : (Reader.mk (.number p seen) b).step d = ⟨.number q (d :: seen), b⟩ := by
      simp [Reader.step, Mode.step, hp d hd]
    rw [scan_cons, hstep]
    cases ds with
    | nil => rfl
    | cons d' ds =>
      rw [ih hq (List.cons_ne_nil d' ds) hds]
      simp

/-- The first digit of a number, where no sign stands before it. -/
theorem step_digit {d : Char} (hd : d.isDigit) : (Reader.mk .between b).step d =
    ⟨.number (if d = '0' then .zero else .whole) [d], b⟩ := by
  have hrange : 48 ≤ d.toNat ∧ d.toNat ≤ 57 := by
    simpa [Char.isDigit, UInt32.le_iff_toNat_le] using hd
  obtain ⟨hlow, hhigh⟩ := hrange
  have hof : d = Char.ofNat d.toNat := (Char.ofNat_toNat d).symm
  rw [hof]
  generalize d.toNat = n at hlow hhigh
  interval_cases n <;> rfl

/-- The digits before the point. -/
theorem scan_whole {r : Reader} (hr : ∀ d : Char, d.isDigit →
      r.step d = ⟨.number (if d = '0' then .zero else .whole) (d :: seen), b⟩) (h : IsWhole ds) :
    ∃ p, r.scan ds = ⟨.number p (ds.reverse ++ seen), b⟩ ∧ (p = .zero ∨ p = .whole) := by
  rcases h with rfl | ⟨⟨hne, hds⟩, hfirst⟩
  · exact ⟨.zero, hr '0' rfl, .inl rfl⟩
  · refine ⟨.whole, ?_, .inr rfl⟩
    cases ds with
    | nil => exact absurd rfl hne
    | cons d ds =>
      obtain ⟨hd, hds⟩ := List.forall_mem_cons.mp hds
      have hzero : d ≠ '0' := fun h => hfirst (congrArg some h)
      rw [scan_cons, hr d hd, if_neg hzero]
      cases ds with
      | nil => rfl
      | cons d' ds =>
        rw [scan_digits (q := .whole) ⟨List.cons_ne_nil d' ds, hds⟩]
        · simp
        · exact fun d hd => if_pos hd
        · exact fun d hd => if_pos hd

/-- The fraction. -/
theorem scan_fraction (h : IsFraction cs) (hp : p = .zero ∨ p = .whole) :
    ∃ q, (Reader.mk (.number p seen) b).scan cs = ⟨.number q (cs.reverse ++ seen), b⟩ ∧
      (q = .zero ∨ q = .whole ∨ q = .fraction) := by
  rcases h with rfl | ⟨ds, rfl, hds⟩
  · exact ⟨p, rfl, hp.imp_right .inl⟩
  · have hpoint : (Reader.mk (.number p seen) b).step '.' = ⟨.number .point ('.' :: seen), b⟩ := by
      rcases hp with rfl | rfl <;> rfl
    refine ⟨.fraction, ?_, .inr (.inr rfl)⟩
    rw [scan_cons, hpoint, scan_digits (q := .fraction) hds]
    · simp
    · exact fun d hd => if_pos hd
    · exact fun d hd => if_pos hd

/-- The exponent. -/
theorem scan_exponent (h : IsExponent cs) (hp : p = .zero ∨ p = .whole ∨ p = .fraction) :
    ∃ q, (Reader.mk (.number p seen) b).scan cs = ⟨.number q (cs.reverse ++ seen), b⟩ ∧
      q.complete := by
  rcases h with rfl | ⟨e, sign, ds, rfl, he, hsign, hds⟩
  · exact ⟨p, rfl, by rcases hp with rfl | rfl | rfl <;> rfl⟩
  · have hmark : (Reader.mk (.number p seen) b).step e =
        ⟨.number .exponentMark (e :: seen), b⟩ := by
      rcases he with rfl | rfl <;> rcases hp with rfl | rfl | rfl <;> rfl
    have hsigned : ∃ p', (Reader.mk (.number .exponentMark (e :: seen)) b).scan sign =
        ⟨.number p' (sign.reverse ++ e :: seen), b⟩ ∧
        ∀ d : Char, d.isDigit → p'.next d = some .exponent := by
      rcases hsign with rfl | rfl | rfl
      · exact ⟨.exponentMark, rfl, fun d hd => if_pos hd⟩
      · exact ⟨.exponentSign, rfl, fun d hd => if_pos hd⟩
      · exact ⟨.exponentSign, rfl, fun d hd => if_pos hd⟩
    obtain ⟨p', hscan, hp'⟩ := hsigned
    refine ⟨.exponent, ?_, rfl⟩
    rw [scan_cons, hmark, scan_append, hscan, scan_digits hds hp' fun d hd => if_pos hd]
    simp

/-- A number is read as its value. -/
theorem scan_number (h : IsNumber cs) :
    Settled ((Reader.mk .between b).scan cs) (b.step (.scalar (numberValue cs))) := by
  obtain @⟨sign, whole, fraction, exponent, hsign, hwhole, hfraction, hexponent⟩ := h
  have hbegin : ∃ p, (Reader.mk .between b).scan (sign ++ whole) =
      ⟨.number p (whole.reverse ++ sign.reverse), b⟩ ∧ (p = .zero ∨ p = .whole) := by
    rcases hsign with rfl | rfl
    · exact scan_whole (fun d hd => step_digit hd) hwhole
    · have hminus : ∀ d : Char, d.isDigit → (Reader.mk (.number .minus ['-']) b).step d =
          ⟨.number (if d = '0' then .zero else .whole) [d, '-'], b⟩ := by
        intro d hd
        by_cases hzero : d = '0'
        · simp [Reader.step, Mode.step, NumberPart.next, hzero]
        · simp [Reader.step, Mode.step, NumberPart.next, hzero, hd]
      exact scan_whole hminus hwhole
  obtain ⟨p, hp, hpart⟩ := hbegin
  obtain ⟨p', hp', hpart'⟩ := scan_fraction (b := b) hfraction hpart
  obtain ⟨p'', hp'', hcomplete⟩ := scan_exponent (b := b) hexponent hpart'
  have hsettled : Settled ⟨.number p''
      (exponent.reverse ++ (fraction.reverse ++ (whole.reverse ++ sign.reverse))), b⟩ _ :=
    settled_number hcomplete
  rw [← List.append_assoc sign, scan_append, hp, scan_append, hp', hp'']
  simpa using hsettled

end

/-! ## Values -/

/-- Blanks between two tokens. -/
def Blanks (ws : List Char) : Prop := ∀ c ∈ ws, IsBlank c

/-- A key with its colon. -/
inductive PresentsKey : Option String → List Char → Prop
  | mk {ws ws' : List Char} {ps : List Piece} (before : Blanks ws) (pieces : ∀ p ∈ ps, p.valid)
    (after : Blanks ws') :
    PresentsKey ((spelled ps).map String.ofList) (ws ++ (quote ps ++ (ws' ++ [':'])))

mutual

/-- The characters are a text of the value, without blanks around it. -/
inductive Presents : Value → List Char → Prop
  | null : Presents .null ['n', 'u', 'l', 'l']
  | true : Presents (.bool true) ['t', 'r', 'u', 'e']
  | false : Presents (.bool false) ['f', 'a', 'l', 's', 'e']
  | number {cs : List Char} (h : IsNumber cs) : Presents (numberValue cs) cs
  | string {ps : List Piece} (h : ∀ p ∈ ps, p.valid) :
    Presents (stringValue (spelled ps)) (quote ps)
  | arrayEmpty {ws : List Char} (h : Blanks ws) : Presents (.array []) ('[' :: (ws ++ [']']))
  | array {vs : List Value} {cs : List Char} (h : PresentsItems vs cs) :
    Presents (.array vs) ('[' :: cs)
  | objectEmpty {ws : List Char} (h : Blanks ws) :
    Presents (.object []) ('\x7b' :: (ws ++ ['\x7d']))
  | object {ms : List (String × Value)} {cs : List Char} (h : PresentsMembers ms cs) :
    Presents (.object ms) ('\x7b' :: cs)

/-- The characters are a text of the value, with blanks around it. -/
inductive PresentsPadded : Value → List Char → Prop
  | mk {v : Value} {ws cs ws' : List Char} (before : Blanks ws) (h : Presents v cs)
    (after : Blanks ws') : PresentsPadded v (ws ++ (cs ++ ws'))

/-- The characters are a text of the items, up to the closing bracket. -/
inductive PresentsItems : List Value → List Char → Prop
  | last {v : Value} {cs : List Char} (h : PresentsPadded v cs) : PresentsItems [v] (cs ++ [']'])
  | cons {v : Value} {vs : List Value} {cs ds : List Char} (h : PresentsPadded v cs)
    (rest : PresentsItems vs ds) : PresentsItems (v :: vs) (cs ++ ',' :: ds)

/-- The characters are a text of the members, up to the closing brace. -/
inductive PresentsMembers : List (String × Value) → List Char → Prop
  | last {key : Option String} {v : Value} {ks cs : List Char} (hkey : PresentsKey key ks)
    (h : PresentsPadded v cs) : PresentsMembers [member key v] (ks ++ (cs ++ ['\x7d']))
  | cons {key : Option String} {v : Value} {ms : List (String × Value)} {ks cs ds : List Char}
    (hkey : PresentsKey key ks) (h : PresentsPadded v cs) (rest : PresentsMembers ms ds) :
    PresentsMembers (member key v :: ms) (ks ++ (cs ++ ',' :: ds))

end

section
variable {b : Builder} {stack : List Frame} {r : Reader} {ws : List Char}

/-- Blanks between two tokens are skipped. -/
theorem scan_blanks (h : Blanks ws) : (Reader.mk .between b).scan ws = ⟨.between, b⟩ := by
  induction ws with
  | nil => rfl
  | cons c ws ih =>
    obtain ⟨hc, hws⟩ := List.forall_mem_cons.mp h
    rw [scan_cons, show (Reader.mk .between b).step c = ⟨.between, b⟩ by
      rcases hc with rfl | rfl | rfl | rfl <;> rfl]
    exact ih hws

/-- A reader that has read a value stays settled over blanks. -/
theorem Settled.scan_blanks (h : Settled r b) (hws : Blanks ws) : Settled (r.scan ws) b := by
  cases ws with
  | nil => exact h
  | cons c ws =>
    have hc := hws c List.mem_cons_self
    rw [h.scan_cons (.inr (.inr (.inr hc))), ← Reader.scan_cons, Json.scan_blanks hws]
    exact settled_between b

/-- The builder takes the token of a key as one that expects a key would. -/
def Builder.ExpectsKey (b : Builder) (read : List (String × Value)) (stack : List Frame) : Prop :=
  ∀ ps, b.step (.scalar (stringValue (spelled ps))) =
    .nextColon read ((spelled ps).map String.ofList) stack

/-- A builder that expects a key does. -/
theorem expectsKey_nextKey (read : List (String × Value)) (stack : List Frame) :
    (Builder.nextKey read stack).ExpectsKey read stack := by
  intro ps
  cases spelled ps <;> rfl

/-- So does one behind an opening brace. -/
theorem expectsKey_firstKey (stack : List Frame) :
    (Builder.firstKey stack).ExpectsKey [] stack := by
  intro ps
  cases spelled ps <;> rfl

/-- A key is read with its colon. -/
theorem scan_presentsKey {read : List (String × Value)} {key : Option String} {ks : List Char}
    (h : PresentsKey key ks) (hb : b.ExpectsKey read stack) :
    (Reader.mk .between b).scan ks = ⟨.between, .nextValue (.members read key :: stack)⟩ := by
  obtain ⟨before, pieces, after⟩ := h
  rw [scan_append, scan_blanks before, scan_append, scan_quote pieces, scan_append,
    scan_blanks after, hb]
  rfl

end

mutual

/-- A text of a value is read as this value wherever a value is expected. -/
theorem scan_presents : ∀ {v : Value} {cs : List Char} {b : Builder} {stack : List Frame},
    Presents v cs → b.Expects stack →
    Settled ((Reader.mk .between b).scan cs) (.put v stack)
  | _, _, b, stack, .null, hb => hb.1 .null ▸ settled_between _
  | _, _, b, stack, .true, hb => hb.1 (.bool true) ▸ settled_between _
  | _, _, b, stack, .false, hb => hb.1 (.bool false) ▸ settled_between _
  | _, _, b, stack, .number h, hb => hb.1 _ ▸ scan_number h
  | _, _, b, stack, .string h, hb => by
    rw [scan_quote h, hb.1]
    exact settled_between _
  | _, _, b, stack, .arrayEmpty h, hb => by
    have hopen : (Reader.mk .between b).step '[' = ⟨.between, b.step .arrayOpen⟩ := rfl
    rw [scan_cons, hopen, hb.2.1, scan_append, scan_blanks h]
    exact settled_between _
  | _, _, b, stack, .array h, hb => by
    have hopen : (Reader.mk .between b).step '[' = ⟨.between, b.step .arrayOpen⟩ := rfl
    rw [scan_cons, hopen, hb.2.1]
    exact scan_presentsItems h (expects_firstItem stack)
  | _, _, b, stack, .objectEmpty h, hb => by
    have hopen : (Reader.mk .between b).step '\x7b' = ⟨.between, b.step .objectOpen⟩ := rfl
    rw [scan_cons, hopen, hb.2.2, scan_append, scan_blanks h]
    exact settled_between _
  | _, _, b, stack, .object h, hb => by
    have hopen : (Reader.mk .between b).step '\x7b' = ⟨.between, b.step .objectOpen⟩ := rfl
    rw [scan_cons, hopen, hb.2.2]
    exact scan_presentsMembers h (expectsKey_firstKey stack)

/-- So it is with blanks around it. -/
theorem scan_presentsPadded : ∀ {v : Value} {cs : List Char} {b : Builder} {stack : List Frame},
    PresentsPadded v cs → b.Expects stack →
    Settled ((Reader.mk .between b).scan cs) (.put v stack)
  | _, _, b, stack, .mk before h after, hb => by
    rw [scan_append, scan_blanks before, scan_append]
    exact (scan_presents h hb).scan_blanks after

/-- The items of an array are read up to its end. -/
theorem scan_presentsItems : ∀ {vs : List Value} {cs : List Char} {b : Builder}
    {read : List Value} {stack : List Frame}, PresentsItems vs cs →
    b.Expects (.items read :: stack) →
    Settled ((Reader.mk .between b).scan cs) (.put (.array (read.reverse ++ vs)) stack)
  | _, _, b, read, stack, @PresentsItems.last v _ h, hb => by
    have hclose : (Reader.mk .between (.afterItem (v :: read) stack)).step ']' =
        ⟨.between, .put (.array (v :: read).reverse) stack⟩ := rfl
    rw [scan_append, (scan_presentsPadded h hb).scan_cons (.inr (.inl rfl)), Builder.put, hclose,
      List.reverse_cons]
    exact settled_between _
  | _, _, b, read, stack, @PresentsItems.cons v _ _ _ h rest, hb => by
    have hcomma : (Reader.mk .between (.afterItem (v :: read) stack)).step ',' =
        ⟨.between, .nextValue (.items (v :: read) :: stack)⟩ := rfl
    rw [scan_append, (scan_presentsPadded h hb).scan_cons (.inl rfl), Builder.put, hcomma]
    have hrest := scan_presentsItems rest (expects_nextValue (.items (v :: read) :: stack))
    rwa [List.reverse_cons, List.append_assoc] at hrest

/-- The members of an object are read up to its end. -/
theorem scan_presentsMembers : ∀ {ms : List (String × Value)} {cs : List Char} {b : Builder}
    {read : List (String × Value)} {stack : List Frame}, PresentsMembers ms cs →
    b.ExpectsKey read stack →
    Settled ((Reader.mk .between b).scan cs) (.put (.object (read.reverse ++ ms)) stack)
  | _, _, b, read, stack, @PresentsMembers.last key v _ _ hkey h, hb => by
    have hclose : (Reader.mk .between (.afterMember (member key v :: read) stack)).step '\x7d' =
        ⟨.between, .put (.object (member key v :: read).reverse) stack⟩ := rfl
    rw [scan_append, scan_presentsKey hkey hb, scan_append,
      (scan_presentsPadded h (expects_nextValue _)).scan_cons (.inr (.inr (.inl rfl))), Builder.put,
      hclose, List.reverse_cons]
    exact settled_between _
  | _, _, b, read, stack, @PresentsMembers.cons key v _ _ _ _ hkey h rest, hb => by
    have hcomma : (Reader.mk .between (.afterMember (member key v :: read) stack)).step ',' =
        ⟨.between, .nextKey (member key v :: read) stack⟩ := rfl
    rw [scan_append, scan_presentsKey hkey hb, scan_append,
      (scan_presentsPadded h (expects_nextValue _)).scan_cons (.inl rfl), Builder.put, hcomma]
    have hrest := scan_presentsMembers rest (expectsKey_nextKey (member key v :: read) stack)
    rwa [List.reverse_cons, List.append_assoc] at hrest

end

/-- **Every text of a value is read.** Whatever the blanks and however its strings are written, a
text of a value is read as this value and nothing else. -/
theorem read_padded {v : Value} {cs : List Char} (h : PresentsPadded v cs) :
    read cs = ⟨v, true⟩ := by
  have hfinish := (scan_presentsPadded h (expects_nextValue [])).finish
  have hscan : cs.foldl Reader.step Reader.start =
      (Reader.mk .between (.nextValue [])).scan cs := rfl
  unfold read
  rw [hscan, hfinish]
  rfl

/-! ## Nothing unreadable -/

/-- A member is readable if its value is. -/
theorem Value.membersIntact_member {key : Option String} {v : Value} (h : v.intact)
    (ms : List (String × Value)) :
    Value.membersIntact (member key v :: ms) = Value.membersIntact ms := by
  cases key with
  | none => simp [member, Value.membersIntact, h]
  | some key =>
    cases v with
    | unnamed => cases h
    | _ => simp [member, Value.membersIntact, h]

mutual

/-- What has a text is readable. -/
theorem Presents.intact : ∀ {v : Value} {cs : List Char}, Presents v cs → v.intact
  | _, _, .null => rfl
  | _, _, .true => rfl
  | _, _, .false => rfl
  | _, cs, .number _ => by
    unfold numberValue
    split <;> rfl
  | _, _, @Presents.string ps _ => by
    cases spelled ps <;> rfl
  | _, _, .arrayEmpty _ => rfl
  | _, _, .array h => h.intact
  | _, _, .objectEmpty _ => rfl
  | _, _, .object h => h.intact

/-- So it is with blanks around it. -/
theorem PresentsPadded.intact : ∀ {v : Value} {cs : List Char}, PresentsPadded v cs → v.intact
  | _, _, .mk _ h _ => h.intact

/-- The items of an array are readable. -/
theorem PresentsItems.intact : ∀ {vs : List Value} {cs : List Char}, PresentsItems vs cs →
    Value.itemsIntact vs
  | _, _, .last h => by simp [Value.itemsIntact, h.intact]
  | _, _, .cons h rest => by simp [Value.itemsIntact, h.intact, rest.intact]

/-- The members of an object are readable. -/
theorem PresentsMembers.intact : ∀ {ms : List (String × Value)} {cs : List Char},
    PresentsMembers ms cs → Value.membersIntact ms
  | _, _, .last _ h => Value.membersIntact_member h.intact []
  | _, _, .cons _ h rest => (Value.membersIntact_member h.intact _).trans rest.intact

end

end RelayFleet.Json
