import Mathlib.Tactic.SplitIfs
import RelayFleet.Toml.Printer

/-!
# Strings are read back

`string?_stringText`: whichever of the forms the writer picks for a string, the reader finds the
string and stops at the end of the line. The forms without escapes need what the writer has checked
before it picked them. On several lines the quotes of the string stand beside those that close it,
so the reader must tell three to five quotes in a row from fewer; the writer never leaves more than
two of its own together.
-/

namespace RelayFleet.Toml

/-! ## Characters -/

section
variable {c : Char}

/-- Where no control character stands, tabs and line feeds aside, every character is one of text or
a line feed. -/
theorem isTextChar_of_not_isControl (h : isControl c = false) (hn : c ≠ '\n') :
    isTextChar c := by
  simp only [isControl, Bool.or_eq_false_iff, Bool.and_eq_false_iff, decide_eq_false_iff_not,
    bne_eq_false_iff_eq] at h
  by_cases htab : c = '\t'
  · simp [isTextChar, htab]
  · have hlow : 0x20 ≤ c.toNat := by
      rcases h.1 with (hlow | rfl) | rfl
      · omega
      · exact absurd rfl htab
      · exact absurd rfl hn
    simp [isTextChar, hlow, h.2]

/-- The code of a control character is read back. -/
theorem codeChar?_control (h : isControl c) :
    codeChar? ['0', '0', upperHexDigit (c.toNat / 16), upperHexDigit (c.toNat % 16)] = some c := by
  have hall : ∀ n < 0x80, n < 0x20 ∨ n = 0x7F →
      codeChar? ['0', '0', upperHexDigit (n / 16), upperHexDigit (n % 16)] =
        some (Char.ofNat n) := by decide
  simp only [isControl, Bool.or_eq_true, Bool.and_eq_true, decide_eq_true_eq] at h
  have hcode := hall c.toNat (by omega) (h.imp_left fun h => h.1.1)
  rwa [Char.ofNat_toNat] at hcode

end

/-! ## Strings on one line -/

section
variable {c : Char} {seen rest : List Char}

/-- A character is read back, however it stands in a basic string. -/
theorem basic_basicEscape (c : Char) (seen rest : List Char) :
    basic seen (basicEscape c ++ rest) = basic (c :: seen) rest := by
  unfold basicEscape
  split_ifs with hquote hline
  · subst hquote
    rfl
  · subst hline
    rfl
  · unfold escape?
    split_ifs with h1 h2 h3 h4 h5 hcontrol
    · subst h1
      rfl
    · subst h2
      rfl
    · subst h3
      rfl
    · subst h4
      rfl
    · subst h5
      rfl
    · show basic seen ('\\' :: 'u' :: '0' :: '0' :: _ :: _ :: rest) = _
      rw [basic, codeChar?_control hcontrol]
      rfl
    · have htext := isTextChar_of_not_isControl (by simpa using hcontrol) hline
      show basic seen (c :: rest) = _
      rw [basic, if_pos (by simp [isBasicChar, htext, hquote, h1])]
      all_goals intros; contradiction

/-- The characters of a basic string are read back. -/
theorem basic_flatMap_basicEscape (cs seen rest : List Char) :
    basic seen (cs.flatMap basicEscape ++ '"' :: rest) = some (cs.reverse ++ seen, rest) := by
  induction cs generalizing seen with
  | nil => rfl
  | cons c cs ih =>
    rw [List.flatMap_cons, List.append_assoc, basic_basicEscape, ih, List.reverse_cons,
      List.append_assoc]
    rfl

/-- The characters of a literal string are read back. -/
theorem literal_append (cs seen rest : List Char) (h : ∀ c ∈ cs, isLiteralChar c) :
    literal seen (cs ++ '\'' :: rest) = some (cs.reverse ++ seen, rest) := by
  induction cs generalizing seen with
  | nil => rfl
  | cons c cs ih =>
    obtain ⟨hc, hcs⟩ := List.forall_mem_cons.mp h
    have hquote : c ≠ '\'' := by
      rintro rfl
      cases hc
    rw [List.cons_append, literal, if_pos hc, ih (c :: seen) hcs, List.reverse_cons,
      List.append_assoc]
    · rfl
    · exact hquote

end

/-! ## Strings on several lines -/

section
variable {c : Char} {cs seen rest : List Char} {n : Nat}

/-- A character that is no double quote is read back, however it stands in a basic string on several
lines. -/
theorem multilineBasic_escape (hquote : c ≠ '"') :
    multilineBasic (n + 1) seen ((escape? c).getD [c] ++ rest) =
      multilineBasic n (c :: seen) rest := by
  unfold escape?
  split_ifs with h1 h2 h3 h4 h5 hcontrol
  · subst h1
    rfl
  · subst h2
    rfl
  · subst h3
    rfl
  · subst h4
    rfl
  · subst h5
    rfl
  · show multilineBasic (n + 1) seen ('\\' :: 'u' :: '0' :: '0' :: _ :: _ :: rest) = _
    rw [multilineBasic, codeChar?_control hcontrol]
    rfl
  · show multilineBasic (n + 1) seen (c :: rest) = _
    by_cases hline : c = '\n'
    · subst hline
      rfl
    · have htext := isTextChar_of_not_isControl (by simpa using hcontrol) hline
      rw [multilineBasic, if_pos (by simp [isBasicChar, htext, hquote, h1])]
      all_goals intros; contradiction

/-- A double quote that two others do not follow is one of the string. -/
theorem multilineBasic_quote (h : ∀ t, cs ≠ '"' :: '"' :: t) :
    multilineBasic (n + 1) seen ('"' :: cs) = multilineBasic n ('"' :: seen) cs := by
  rw [multilineBasic]
  all_goals exact fun _ heq => h _ heq

/-- What stands for a character that is no double quote does not begin with one. -/
theorem head?_escape (hquote : c ≠ '"') : ((escape? c).getD [c] ++ rest).head? ≠ some '"' := by
  unfold escape?
  split_ifs <;> simp [hquote]

/-- The writer leaves two double quotes together at most. -/
theorem head?_multilineText {quotes : Nat} (h : quotes = 2 ∨ c ≠ '"') :
    (multilineText quotes (c :: cs) ++ rest).head? ≠ some '"' := by
  unfold multilineText
  split_ifs with hquote hquotes
  · simp
  · exact absurd hquote (h.resolve_left hquotes)
  · rw [List.append_assoc]
    exact head?_escape hquote

/-- Three double quotes close a basic string on several lines; up to two that stand before them
belong to the string. -/
theorem multilineBasic_close {k : Nat} (hk : k ≤ 2) (hrest : rest.head? ≠ some '"') :
    multilineBasic (n + 1) seen (List.replicate k '"' ++ '"' :: '"' :: '"' :: rest) =
      some (List.replicate k '"' ++ seen, rest) := by
  have hne : ∀ t, rest ≠ '"' :: t := by
    rintro t rfl
    exact hrest rfl
  match k with
  | 0 =>
    show multilineBasic (n + 1) seen ('"' :: '"' :: '"' :: rest) = some (seen, rest)
    rw [multilineBasic]
    all_goals simp [hne]
  | 1 =>
    show multilineBasic (n + 1) seen ('"' :: '"' :: '"' :: '"' :: rest) = some ('"' :: seen, rest)
    rw [multilineBasic]
    exact hne
  | 2 => rfl

/-- Behind a double quote that stands for itself, two others follow only where the string ends. -/
theorem multilineText_ne_two {quotes : Nat} {d : Char} {ds : List Char}
    (h : quotes = 1 ∨ d ≠ '"' ∨ quotes = 0 ∧ ds ≠ []) :
    ∀ t, multilineText (quotes + 1) (d :: ds) ++ rest ≠ '"' :: '"' :: t := by
  intro t heq
  have hsplit : (quotes + 1 = 2 ∨ d ≠ '"') ∨ quotes = 0 ∧ d = '"' ∧ ds ≠ [] := by grind
  rcases hsplit with hfirst | ⟨rfl, rfl, hds⟩
  · have hhead : (multilineText (quotes + 1) (d :: ds) ++ rest).head? ≠ some '"' :=
      head?_multilineText hfirst
    rw [heq] at hhead
    exact hhead rfl
  · obtain ⟨e, es, rfl⟩ := List.exists_cons_of_ne_nil hds
    have hhead : (multilineText 2 (e :: es) ++ rest).head? ≠ some '"' :=
      head?_multilineText (.inl rfl)
    have htail : multilineText 2 (e :: es) ++ rest = '"' :: t := (List.cons.inj heq).2
    rw [htail] at hhead
    exact hhead rfl

/-- The characters of a basic string on several lines are read back, with up to two double quotes
beside those that close it. -/
theorem multilineBasic_multilineText (cs seen rest : List Char) {quotes n : Nat}
    (hn : cs.length < n) (hquotes : quotes ≤ 2) (hrest : rest.head? ≠ some '"') :
    multilineBasic n seen (multilineText quotes cs ++ '"' :: '"' :: '"' :: rest) =
      some (cs.reverse ++ seen, rest) := by
  induction cs generalizing seen quotes n with
  | nil =>
    obtain ⟨n, rfl⟩ := Nat.exists_eq_succ_of_ne_zero (Nat.ne_of_gt hn)
    exact multilineBasic_close (k := 0) (Nat.zero_le 2) hrest
  | cons c cs ih =>
    obtain ⟨n, rfl⟩ := Nat.exists_eq_succ_of_ne_zero (Nat.ne_of_gt (Nat.zero_lt_of_lt hn))
    rw [List.length_cons, Nat.succ_lt_succ_iff] at hn
    rw [List.reverse_cons, List.append_assoc, List.singleton_append]
    by_cases hc : c = '"'
    · subst hc
      by_cases htwo : quotes = 2
      · subst htwo
        exact ih ('"' :: seen) hn (Nat.zero_le 2)
      · have hstep : multilineText quotes ('"' :: cs) = '"' :: multilineText (quotes + 1) cs := by
          rw [multilineText, if_pos rfl, if_neg htwo]
        rw [hstep, List.cons_append]
        have hplain : ∀ d ds, cs = d :: ds → (quotes = 1 ∨ d ≠ '"' ∨ quotes = 0 ∧ ds ≠ []) →
            multilineBasic (n + 1) seen ('"' :: (multilineText (quotes + 1) cs ++
              '"' :: '"' :: '"' :: rest)) = some (cs.reverse ++ '"' :: seen, rest) := by
          rintro d ds rfl h
          rw [multilineBasic_quote (multilineText_ne_two h)]
          exact ih ('"' :: seen) hn (by omega)
        match cs, quotes with
        | [], _ => exact multilineBasic_close (k := 1) (by decide) hrest
        | d :: ds, 1 => exact hplain d ds rfl (.inl rfl)
        | d :: e :: es, 0 => exact hplain d (e :: es) rfl (.inr (.inr ⟨rfl, nofun⟩))
        | [d], 0 =>
          by_cases hd : d = '"'
          · subst hd
            exact multilineBasic_close (k := 2) (by decide) hrest
          · exact hplain d [] rfl (.inr (.inl hd))
        | _ :: _, q + 2 => omega
    · have hstep : multilineText quotes (c :: cs) = (escape? c).getD [c] ++ multilineText 0 cs := by
        rw [multilineText, if_neg hc]
      rw [hstep, List.append_assoc, multilineBasic_escape hc]
      exact ih (c :: seen) hn (Nat.zero_le 2)

/-- The text between three double quotes is no shorter than the string. -/
theorem length_le_multilineText (quotes : Nat) : cs.length ≤ (multilineText quotes cs).length := by
  induction cs generalizing quotes with
  | nil => exact Nat.zero_le _
  | cons c cs ih =>
    have hescape : 1 ≤ ((escape? c).getD [c]).length := by
      unfold escape?
      split_ifs <;> simp
    unfold multilineText
    split_ifs
    · have := ih 0
      simp only [List.length_cons]
      omega
    · have := ih (quotes + 1)
      simp only [List.length_cons]
      omega
    · have := ih 0
      simp only [List.length_cons, List.length_append]
      omega

/-- A count that was not reached is not reached from a lower one. -/
theorem hasRun_of_succ {run k : Nat} (hk : k + 1 < run) (h : hasRun run c (k + 1) cs = false) :
    hasRun run c k cs = false := by
  induction cs generalizing k with
  | nil => rfl
  | cons d cs ih =>
    unfold hasRun at h ⊢
    split at h
    · next hd =>
      obtain ⟨hne, hcs⟩ := Bool.or_eq_false_iff.mp h
      have hne : k + 2 ≠ run := by simpa using hne
      rw [if_pos hd, ih (by omega) hcs]
      simp [Nat.ne_of_lt hk]
    · next hd =>
      rwa [if_neg hd]

/-- Where three of a character do not stand in a row, they do not behind the first character
either. -/
theorem hasRun_tail {d : Char} (h : hasRun 3 c 0 (d :: cs) = false) : hasRun 3 c 0 cs = false := by
  unfold hasRun at h
  split at h
  · exact hasRun_of_succ (by decide) (Bool.or_eq_false_iff.mp h).2
  · exact h

/-- Three single quotes close a literal string on several lines; up to two that stand before them
belong to the string. -/
theorem multilineLiteral_close {k : Nat} (hk : k ≤ 2) (hrest : rest.head? ≠ some '\'') :
    multilineLiteral seen (List.replicate k '\'' ++ '\'' :: '\'' :: '\'' :: rest) =
      some (List.replicate k '\'' ++ seen, rest) := by
  have hne : ∀ t, rest ≠ '\'' :: t := by
    rintro t rfl
    exact hrest rfl
  match k with
  | 0 =>
    show multilineLiteral seen ('\'' :: '\'' :: '\'' :: rest) = some (seen, rest)
    rw [multilineLiteral]
    all_goals simp [hne]
  | 1 =>
    show multilineLiteral seen ('\'' :: '\'' :: '\'' :: '\'' :: rest) = some ('\'' :: seen, rest)
    rw [multilineLiteral]
    exact hne
  | 2 => rfl

/-- A single quote that two others do not follow is one of the string. -/
theorem multilineLiteral_quote (h : ∀ t, cs ≠ '\'' :: '\'' :: t) :
    multilineLiteral seen ('\'' :: cs) = multilineLiteral ('\'' :: seen) cs := by
  rw [multilineLiteral]
  all_goals exact fun _ heq => h _ heq

/-- A character that is no single quote is read as it stands in a literal string on several
lines. -/
theorem multilineLiteral_char (hc : isControl c = false) (hquote : c ≠ '\'') :
    multilineLiteral seen (c :: cs) = multilineLiteral (c :: seen) cs := by
  by_cases hline : c = '\n'
  · subst hline
    rfl
  · have htext := isTextChar_of_not_isControl hc hline
    have hreturn : c ≠ '\r' := by
      rintro rfl
      cases hc
    rw [multilineLiteral, if_pos (by simp [isLiteralChar, htext, hquote])]
    all_goals intros; contradiction

/-- The characters of a literal string on several lines are read back, with up to two single quotes
before those that close it. -/
theorem multilineLiteral_append (cs seen rest : List Char) (hcs : ∀ c ∈ cs, isControl c = false)
    (hrun : hasRun 3 '\'' 0 cs = false) (hrest : rest.head? ≠ some '\'') :
    multilineLiteral seen (cs ++ '\'' :: '\'' :: '\'' :: rest) =
      some (cs.reverse ++ seen, rest) := by
  induction cs generalizing seen with
  | nil => exact multilineLiteral_close (k := 0) (Nat.zero_le 2) hrest
  | cons c cs ih =>
    have ih := ih (c :: seen) (fun d hd => hcs d (List.mem_cons_of_mem c hd)) (hasRun_tail hrun)
    rw [List.reverse_cons, List.append_assoc, List.singleton_append, List.cons_append]
    by_cases hc : c = '\''
    · subst hc
      have hplain : (∀ t, cs ++ '\'' :: '\'' :: '\'' :: rest ≠ '\'' :: '\'' :: t) →
          multilineLiteral seen ('\'' :: (cs ++ '\'' :: '\'' :: '\'' :: rest)) =
            some (cs.reverse ++ '\'' :: seen, rest) := by
        intro h
        rw [multilineLiteral_quote h, ih]
      rcases cs with _ | ⟨d, ds⟩
      · exact multilineLiteral_close (k := 1) (by decide) hrest
      · by_cases hd : d = '\''
        · subst hd
          rcases ds with _ | ⟨e, es⟩
          · exact multilineLiteral_close (k := 2) (by decide) hrest
          · refine hplain fun t heq => ?_
            obtain rfl : e = '\'' := (List.cons.inj (List.cons.inj heq).2).1
            cases hrun
        · exact hplain fun t heq => hd (List.cons.inj heq).1
    · rw [multilineLiteral_char (hcs c List.mem_cons_self) hc, ih]

end

/-! ## The form that the writer picks -/

section
variable {cs rest : List Char}

/-- A quote that two others do not follow opens a string on one line. -/
theorem string?_inline {q : Char} (h : ∀ t, cs ≠ q :: q :: t) :
    string? (q :: cs) = inlineString? (q :: cs) := by
  unfold string?
  split
  · next heq =>
    cases heq
    exact absurd rfl (h _)
  · next heq =>
    cases heq
    exact absurd rfl (h _)
  · rfl

/-- A text that begins with neither half of a line break begins with none. -/
theorem lineBreak?_cons {c : Char} (hline : c ≠ '\n') (hreturn : c ≠ '\r') :
    lineBreak? (c :: cs) = none := by
  unfold lineBreak?
  split
  · next heq => exact absurd (List.cons.inj heq).1 hline
  · next heq => exact absurd (List.cons.inj heq).1 hreturn
  · rfl

/-- What stands for a character that is no line feed begins with no line break. -/
theorem lineBreak?_escape {c : Char} (hline : c ≠ '\n') :
    lineBreak? ((escape? c).getD [c] ++ cs) = none := by
  unfold escape?
  split_ifs with _ _ _ _ hreturn
  · rfl
  · rfl
  · rfl
  · rfl
  · rfl
  · rfl
  · exact lineBreak?_cons hline hreturn

/-- The line feed that the writer leaves behind three opening quotes is no part of the string, and
where it leaves none the string does not begin with one. -/
theorem lineBreak?_opening {text : List Char} (h : '\n' ∉ cs → lineBreak? text = none) :
    (lineBreak? (opening cs ++ text)).getD (opening cs ++ text) = text := by
  unfold opening
  split
  · rfl
  · next hline =>
    rw [List.nil_append, h (by simpa using hline)]
    rfl

/-- A string between double quotes, on one line, is read back. -/
theorem string?_basic (cs rest : List Char) :
    string? ('"' :: cs.flatMap basicEscape ++ '"' :: '\n' :: rest) =
      some (String.ofList cs, '\n' :: rest) := by
  rw [List.cons_append, string?_inline, inlineString?, basic_flatMap_basicEscape]
  · simp [scanned]
  · intro t heq
    rcases cs with _ | ⟨c, cs⟩
    · cases heq
    · rw [List.flatMap_cons, List.append_assoc] at heq
      unfold basicEscape at heq
      split at heq
      · cases heq
      · next hquote =>
        split at heq
        · cases heq
        · exact head?_escape hquote (congrArg List.head? heq)

/-- A string between single quotes, on one line, is read back. -/
theorem string?_literal (rest : List Char) (h : ∀ c ∈ cs, isLiteralChar c) :
    string? ('\'' :: cs ++ '\'' :: '\n' :: rest) = some (String.ofList cs, '\n' :: rest) := by
  rw [List.cons_append, string?_inline, inlineString?, literal_append cs [] ('\n' :: rest) h]
  · simp [scanned]
  · intro t heq
    rcases cs with _ | ⟨c, cs⟩
    · cases heq
    · obtain rfl : c = '\'' := (List.cons.inj heq).1
      cases h '\'' List.mem_cons_self

/-- A string between three double quotes is read back. -/
theorem string?_multilineBasic (cs rest : List Char) :
    string? ('"' :: '"' :: '"' :: (opening cs ++ multilineText 0 cs ++
      '"' :: '"' :: '"' :: '\n' :: rest)) = some (String.ofList cs, '\n' :: rest) := by
  have hopening : '\n' ∉ cs →
      lineBreak? (multilineText 0 cs ++ '"' :: '"' :: '"' :: '\n' :: rest) = none := by
    intro hline
    rcases cs with _ | ⟨c, cs⟩
    · rfl
    · have hc : c ≠ '\n' := by
        rintro rfl
        exact hline List.mem_cons_self
      unfold multilineText
      split
      · rfl
      · rw [List.append_assoc]
        exact lineBreak?_escape hc
  have hlength : cs.length ≤ (multilineText 0 cs).length := length_le_multilineText 0
  rw [List.append_assoc, string?, lineBreak?_opening hopening,
    multilineBasic_multilineText cs [] ('\n' :: rest) _ (Nat.zero_le 2) (by simp)]
  · simp [scanned]
  · simp only [List.length_append]
    omega

/-- A string between three single quotes is read back. -/
theorem string?_multilineLiteral (rest : List Char) (hcs : ∀ c ∈ cs, isControl c = false)
    (hrun : hasRun 3 '\'' 0 cs = false) :
    string? ('\'' :: '\'' :: '\'' :: (opening cs ++ cs ++
      '\'' :: '\'' :: '\'' :: '\n' :: rest)) = some (String.ofList cs, '\n' :: rest) := by
  have hopening : '\n' ∉ cs →
      lineBreak? (cs ++ '\'' :: '\'' :: '\'' :: '\n' :: rest) = none := by
    intro hline
    rcases cs with _ | ⟨c, cs⟩
    · rfl
    · refine lineBreak?_cons ?_ ?_
      · rintro rfl
        exact hline List.mem_cons_self
      · rintro rfl
        cases hcs '\r' List.mem_cons_self
  rw [List.append_assoc, string?, lineBreak?_opening hopening,
    multilineLiteral_append cs [] ('\n' :: rest) hcs hrun (by simp)]
  simp [scanned]

/-- **Strings are read back**, whichever form the writer picks. -/
theorem string?_stringText (s : String) (rest : List Char) :
    string? (stringText s ++ '\n' :: rest) = some (s, '\n' :: rest) := by
  have hbasic := string?_basic s.toList rest
  have hlines := string?_multilineBasic s.toList rest
  rw [String.ofList_toList] at hbasic hlines
  simp only [stringText]
  split_ifs with h1 h2 h3 h4 h5
  · simpa using hbasic
  · simp only [Bool.and_eq_true, Bool.not_eq_true', List.any_eq_false, List.contains_eq_mem,
      decide_eq_false_iff_not, Bool.not_eq_true] at h2
    obtain ⟨⟨hcontrol, hquote⟩, hline⟩ := h2
    have hliteral : ∀ c ∈ s.toList, isLiteralChar c := by
      intro c hc
      have htext := isTextChar_of_not_isControl (hcontrol c hc) (fun h => hline (h ▸ hc))
      have hne : c ≠ '\'' := fun h => hquote (h ▸ hc)
      simp [isLiteralChar, htext, hne]
    simpa using string?_literal rest hliteral
  · simpa using hlines
  · simp only [Bool.and_eq_true, Bool.not_eq_true', List.any_eq_false, Bool.not_eq_true] at h4
    simpa using string?_multilineLiteral rest h4.1 h4.2
  · simpa using hlines
  · simpa using hbasic

end

end RelayFleet.Toml
