import Mathlib.Tactic.IntervalCases
import RelayFleet.Json.Record

/-!
# What is written is read back

`read_text`: the compact text of a plain value is read as this value and as a whole document. The
reader takes one character at a time, so the proof follows the text: `Reader.scan` reads a piece of
it, and each lemma says in which state a piece leaves the reader. A number is complete only when
the character after it comes; `Settled` is the state of a reader for which this makes no difference.
-/

namespace RelayFleet.Json

/-! ## Plain values -/

mutual

/-- The value can be written: it has no number with a sign, a fraction or an exponent, whose literal
could be any text, and no leaf that only a reader makes. -/
def Value.Plain : Value → Prop
  | .null | .bool _ | .natural _ | .string _ => True
  | .decimal _ | .unpaired | .unnamed _ | .unreadable => False
  | .array vs => ItemsPlain vs
  | .object ms => MembersPlain ms

/-- `Value.Plain` for every item. -/
def ItemsPlain : List Value → Prop
  | [] => True
  | v :: vs => v.Plain ∧ ItemsPlain vs

/-- `Value.Plain` for the value of every member. -/
def MembersPlain : List (String × Value) → Prop
  | [] => True
  | (_, v) :: ms => v.Plain ∧ MembersPlain ms

end

@[simp] theorem Value.plain_string (s : String) : (Value.string s).Plain := trivial
@[simp] theorem Value.plain_bool (b : Bool) : (Value.bool b).Plain := trivial
@[simp] theorem Value.plain_natural (n : Nat) : (Value.natural n).Plain := trivial
@[simp] theorem Value.plain_null : Value.null.Plain := trivial

/-- An optional string is plain. -/
@[simp] theorem Value.plain_ofString? (s : Option String) : (Value.ofString? s).Plain := by
  cases s <;> trivial

/-- An optional number is plain. -/
@[simp] theorem Value.plain_ofNatural? (n : Option Nat) : (Value.ofNatural? n).Plain := by
  cases n <;> trivial

/-- An object is plain when the values of its members are. -/
theorem Value.plain_object {ms : List (String × Value)} (h : ∀ m ∈ ms, m.2.Plain) :
    (Value.object ms).Plain := by
  show MembersPlain ms
  induction ms with
  | nil => trivial
  | cons m ms ih =>
    exact ⟨h m List.mem_cons_self, ih fun m' hm => h m' (List.mem_cons_of_mem _ hm)⟩

/-- An array is plain when its items are. -/
theorem Value.plain_array {vs : List Value} (h : ∀ v ∈ vs, v.Plain) : (Value.array vs).Plain := by
  show ItemsPlain vs
  induction vs with
  | nil => trivial
  | cons v vs ih => exact ⟨h v List.mem_cons_self, ih fun v' hv => h v' (List.mem_cons_of_mem _ hv)⟩

/-! ## Reading a piece of text -/

namespace Reader

/-- Reads a piece of text. -/
def scan (r : Reader) (cs : List Char) : Reader := cs.foldl step r

@[simp] theorem scan_nil (r : Reader) : r.scan [] = r := rfl

@[simp] theorem scan_cons (r : Reader) (c : Char) (cs : List Char) :
    r.scan (c :: cs) = (r.step c).scan cs := rfl

@[simp] theorem scan_append (r : Reader) (cs ds : List Char) :
    r.scan (cs ++ ds) = (r.scan cs).scan ds := List.foldl_append

end Reader

open Reader RelayFleet.Json.Mode

variable {b : Builder} {stack : List Frame} {seen : List Char}

/-! ## Strings -/

/-- The hexadecimal digit of a number is read as the number. -/
theorem hexValue?_hexDigit : ∀ n < 16, hexValue? (hexDigit n) = some n := by decide

/-- Below the blank no character is the half of a surrogate pair. -/
theorem afterCode_control (c : Char) (h : c.toNat < 0x20) :
    afterCode (some seen) none c.toNat = .string (some (c :: seen)) := by
  have h1 : isHighSurrogate c.toNat = false := by simp [isHighSurrogate]; omega
  have h2 : isLowSurrogate c.toNat = false := by simp [isLowSurrogate]; omega
  simp [afterCode, h1, h2, Char.ofNat_toNat]

/-- A control character that is escaped by its number is read back. -/
theorem scan_control (c : Char) (h : c.toNat < 0x20) :
    (Reader.mk (.string (some seen)) b).scan
      ['\\', 'u', '0', '0', hexDigit (c.toNat / 16), hexDigit (c.toNat % 16)] =
    ⟨.string (some (c :: seen)), b⟩ := by
  have h1 := hexValue?_hexDigit (c.toNat / 16) (by omega)
  have h2 := hexValue?_hexDigit (c.toNat % 16) (by omega)
  have hc : c.toNat / 16 * 16 + c.toNat % 16 = c.toNat := by omega
  have h0 : hexValue? '0' = some 0 := by decide
  simp [Reader.step, Mode.step, stringStep, escapedStep, h0, h1, h2, hc, afterCode_control c h]

/-- A character in quotes is read back, however it is escaped. -/
theorem scan_escape (c : Char) :
    (Reader.mk (.string (some seen)) b).scan (escape c) = ⟨.string (some (c :: seen)), b⟩ := by
  unfold escape
  split; · subst_vars; rfl
  split; · subst_vars; rfl
  split; · subst_vars; rfl
  split; · subst_vars; rfl
  split; · subst_vars; rfl
  split; · subst_vars; rfl
  split; · subst_vars; rfl
  split
  · next h => exact scan_control c h
  · next h1 h2 _ _ _ _ _ h8 => simp [Reader.step, Mode.step, stringStep, h1, h2, h8]

/-- The characters of a string are read one after the other. -/
theorem scan_flatMap_escape (cs : List Char) :
    (Reader.mk (.string (some seen)) b).scan (cs.flatMap escape) =
      ⟨.string (some (cs.reverse ++ seen)), b⟩ := by
  induction cs generalizing seen with
  | nil => rfl
  | cons c cs ih => simp [scan_escape, ih]

/-- A string in quotes is read as one token. -/
theorem scan_quoted (s : String) :
    (Reader.mk .between b).scan (quoted s) = ⟨.between, b.step (.scalar (.string s))⟩ := by
  have hopen : (Reader.mk .between b).step '"' = ⟨.string (some []), b⟩ := rfl
  have hclose (r : List Char) : (Reader.mk (.string (some r)) b).step '"' =
      ⟨.between, b.step (.scalar (.string (String.ofList r.reverse)))⟩ := rfl
  simp [quoted, hopen, scan_flatMap_escape, hclose]

/-! ## Numbers -/

/-- The blanks that may stand between two tokens. -/
def IsBlank (c : Char) : Prop := c = ' ' ∨ c = '\t' ∨ c = '\n' ∨ c = '\r'

/-- The characters that may follow a value. -/
def IsMark (c : Char) : Prop := c = ',' ∨ c = ']' ∨ c = '\x7d' ∨ IsBlank c

/-- The reader has read a value and stands as if its builder were `b`, though the value's last token
may still be open. -/
structure Settled (r : Reader) (b : Builder) : Prop where
  step_mark : ∀ c, IsMark c → r.step c = (Reader.mk .between b).step c
  finish : r.finish = b

/-- Between two tokens nothing is open. -/
theorem settled_between (b : Builder) : Settled ⟨.between, b⟩ b := ⟨fun _ _ => rfl, rfl⟩

/-- After a mark a settled reader goes on like one between two tokens. -/
theorem Settled.scan_cons {r : Reader} (h : Settled r b) {c : Char} (hc : IsMark c)
    (cs : List Char) : r.scan (c :: cs) = ((Reader.mk .between b).step c).scan cs := by
  rw [Reader.scan_cons, h.step_mark c hc]

/-- The digits of a number that does not begin with a zero. -/
theorem scan_toDigits_pos {n : Nat} (hn : 0 < n) :
    (Reader.mk .between b).scan (Nat.toDigits 10 n) =
      ⟨.number .whole (Nat.toDigits 10 n).reverse, b⟩ := by
  induction n using Nat.strongRecOn with
  | _ n ih =>
    by_cases hlt : n < 10
    · rw [Nat.toDigits_of_lt_base hlt]
      interval_cases n <;> rfl
    · have hdigit : (n % 10).digitChar.isDigit = true := by
        rw [Nat.isDigit_digitChar]; simp; omega
      rw [Nat.toDigits_of_base_le (by decide) (by omega), scan_append,
        ih (n / 10) (by omega) (by omega)]
      simp [Reader.step, Mode.step, NumberPart.next, hdigit]

/-- A mark continues no number. -/
theorem NumberPart.next_of_isMark (part : NumberPart) {c : Char} (h : IsMark c) :
    part.next c = none ∧ c.isDigit = false := by
  rcases h with rfl | rfl | rfl | rfl | rfl | rfl | rfl <;> cases part <;> exact ⟨rfl, rfl⟩

/-- A number is settled once its characters are read. -/
theorem settled_number {part : NumberPart} (hc : part.complete) :
    Settled ⟨.number part seen, b⟩ (b.step (.scalar (numberValue seen.reverse))) := by
  refine ⟨fun c hm => ?_, ?_⟩
  · obtain ⟨hnext, hdigit⟩ := part.next_of_isMark hm
    simp [Reader.step, Mode.step, hnext, hc, hdigit]
  · simp [Reader.finish, Mode.finish, hc]

/-- Every character of a decimal number is a digit. -/
theorem all_isDigit_toDigits (n : Nat) : (Nat.toDigits 10 n).all Char.isDigit := by
  rw [List.all_eq_true]
  exact fun _ hc => Nat.isDigit_of_mem_toDigits (by decide) (by decide) hc

/-- A natural number is the value of its digits. -/
theorem numberValue_toDigits (n : Nat) : numberValue (Nat.toDigits 10 n) = .natural n := by
  have hback : Nat.ofDigitChars 10 (Nat.toDigits 10 n) 0 = n :=
    Nat.ofDigitChars_toDigits (by decide) (by decide)
  rw [numberValue, if_pos (all_isDigit_toDigits n), hback]

/-- A natural number is read back. -/
theorem scan_natural (n : Nat) :
    Settled ((Reader.mk .between b).scan (Nat.toDigits 10 n)) (b.step (.scalar (.natural n))) := by
  rcases Nat.eq_zero_or_pos n with rfl | hn
  · exact settled_number rfl
  · have hsettled : Settled ⟨.number .whole (Nat.toDigits 10 n).reverse, b⟩ _ := settled_number rfl
    rwa [List.reverse_reverse, numberValue_toDigits, ← scan_toDigits_pos hn] at hsettled

/-! ## Values -/

/-- The builder takes the first token of a value as one that expects a value would. -/
def Builder.Expects (b : Builder) (stack : List Frame) : Prop :=
  (∀ v, b.step (.scalar v) = .put v stack) ∧ b.step .arrayOpen = .firstItem stack ∧
    b.step .objectOpen = .firstKey stack

/-- A builder that expects a value does. -/
theorem expects_nextValue (stack : List Frame) : (Builder.nextValue stack).Expects stack :=
  ⟨fun _ => rfl, rfl, rfl⟩

/-- So does one behind an opening bracket, whose value is the first item. -/
theorem expects_firstItem (stack : List Frame) :
    (Builder.firstItem stack).Expects (.items [] :: stack) := ⟨fun _ => rfl, rfl, rfl⟩

/-- A key and the colon behind it, from a builder that takes a string for a key. -/
theorem scan_key {read : List (String × Value)} {k : String} (cs : List Char)
    (hk : b.step (.scalar (.string k)) = .nextColon read (some k) stack) :
    (Reader.mk .between b).scan (quoted k ++ ':' :: cs) =
      (Reader.mk .between (.nextValue (.members read (some k) :: stack))).scan cs := by
  rw [scan_append, scan_quoted, hk]
  rfl

mutual

/-- A plain value is read back wherever a value is expected. -/
theorem scan_text : ∀ {v : Value} {b : Builder} {stack : List Frame}, v.Plain → b.Expects stack →
    Settled ((Reader.mk .between b).scan v.text) (.put v stack)
  | .null, b, stack, _, hb => hb.1 .null ▸ settled_between _
  | .bool true, b, stack, _, hb => hb.1 (.bool true) ▸ settled_between _
  | .bool false, b, stack, _, hb => hb.1 (.bool false) ▸ settled_between _
  | .natural n, b, stack, _, hb => hb.1 (.natural n) ▸ scan_natural n
  | .string s, b, stack, _, hb => by
    rw [Value.text, scan_quoted, hb.1]
    exact settled_between _
  | .array [], b, stack, _, hb => by
    have hopen : (Reader.mk .between b).step '[' = ⟨.between, b.step .arrayOpen⟩ := rfl
    rw [Value.text, Reader.scan_cons, hopen, hb.2.1]
    exact settled_between _
  | .array (v :: vs), b, stack, h, hb => by
    have hopen : (Reader.mk .between b).step '[' = ⟨.between, b.step .arrayOpen⟩ := rfl
    rw [Value.text, List.cons_append, Reader.scan_cons, hopen, hb.2.1, scan_append]
    exact scan_itemsText h.2 (scan_text h.1 (expects_firstItem stack))
  | .object [], b, stack, _, hb => by
    have hopen : (Reader.mk .between b).step '\x7b' = ⟨.between, b.step .objectOpen⟩ := rfl
    rw [Value.text, Reader.scan_cons, hopen, hb.2.2]
    exact settled_between _
  | .object ((k, v) :: ms), b, stack, h, hb => by
    have hopen : (Reader.mk .between b).step '\x7b' = ⟨.between, b.step .objectOpen⟩ := rfl
    simp only [Value.text, List.cons_append, List.append_assoc, Reader.scan_cons]
    rw [hopen, hb.2.2, scan_key _ rfl, scan_append]
    exact scan_membersText h.2 (scan_text h.1 (expects_nextValue (.members [] (some k) :: stack)))

/-- The rest of an array is read back behind an item. -/
theorem scan_itemsText : ∀ {vs : List Value} {r : Reader} {read : List Value}
    {stack : List Frame}, ItemsPlain vs → Settled r (.afterItem read stack) →
    Settled (r.scan (Value.itemsText vs)) (.put (.array (read.reverse ++ vs)) stack)
  | [], r, read, stack, _, hr => by
    rw [Value.itemsText, hr.scan_cons (.inr (.inl rfl)), List.append_nil]
    exact settled_between _
  | v :: vs, r, read, stack, h, hr => by
    have hcomma : (Reader.mk .between (.afterItem read stack)).step ',' =
      ⟨.between, .nextValue (.items read :: stack)⟩ := rfl
    rw [Value.itemsText, List.cons_append, hr.scan_cons (.inl rfl), hcomma, scan_append]
    have := scan_itemsText h.2 (scan_text h.1 (expects_nextValue (.items read :: stack)))
    simpa using this

/-- The rest of an object is read back behind a member. -/
theorem scan_membersText : ∀ {ms : List (String × Value)} {r : Reader}
    {read : List (String × Value)} {stack : List Frame}, MembersPlain ms →
    Settled r (.afterMember read stack) →
    Settled (r.scan (Value.membersText ms)) (.put (.object (read.reverse ++ ms)) stack)
  | [], r, read, stack, _, hr => by
    rw [Value.membersText, hr.scan_cons (.inr (.inr (.inl rfl))), List.append_nil]
    exact settled_between _
  | (k, v) :: ms, r, read, stack, h, hr => by
    have hcomma : (Reader.mk .between (.afterMember read stack)).step ',' =
      ⟨.between, .nextKey read stack⟩ := rfl
    simp only [Value.membersText, List.cons_append, List.append_assoc]
    rw [hr.scan_cons (.inl rfl), hcomma, scan_key _ rfl, scan_append]
    have := scan_membersText h.2
      (scan_text h.1 (expects_nextValue (.members read (some k) :: stack)))
    simpa using this

end

/-- The compact text of a plain value is read as this value and nothing else. -/
theorem read_text {v : Value} (h : v.Plain) : read v.text = ⟨v, true⟩ := by
  have := (scan_text h (expects_nextValue [])).finish
  unfold read
  rw [show v.text.foldl Reader.step Reader.start = (Reader.mk .between (.nextValue [])).scan v.text
    from rfl, this]
  rfl

/-- A decoder that accepts a plain value accepts its text. -/
theorem Decoder.run?_render {α : Type} {d : Decoder α} {v : Value} {a : α} (hv : v.Plain)
    (hd : d v = .ok a) : d.run? v.render = some a := by
  simp [Decoder.run?, Decoder.run, Value.render, read_text hv, hd, Except.toOption]

end RelayFleet.Json
