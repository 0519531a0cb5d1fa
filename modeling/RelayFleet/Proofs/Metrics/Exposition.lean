import Mathlib.Data.List.Nodup
import Mathlib.Data.List.TakeDrop

/-!
# The text exposition format

A text in this format is made of lines, each with a line feed at its end. Empty lines and comments
say nothing, but a comment that begins with `HELP` or `TYPE` tells about a metric; every other line
is a sample. The lines of a metric stand together, and what is told about it comes first. In the
value of a label a backslash, a double quote and a line feed are escaped.

The reader knows what counters and gauges need: the value of a sample is a natural number without a
time, and histograms and summaries, whose samples go by other names than the metric, are not read.
-/

namespace RelayFleet.Exposition

/-- A sample of a metric. -/
structure Sample where
  labels : List (String × String)
  value : Nat
deriving Repr, DecidableEq

/-- A metric, as far as a text tells about it. -/
structure Family where
  name : String
  help : Option String
  kind : Option String
  samples : List Sample
deriving Repr, DecidableEq

/-- What a line says. -/
inductive Line where
  | nothing
  | help (name text : String)
  | kind (name kind : String)
  | sample (name : String) (sample : Sample)
deriving Repr, DecidableEq

/-! ## Words and labels -/

/-- A blank between words. -/
def isBlank (c : Char) : Bool := c = ' ' || c = '\t'

/-- The text without the blanks at its start. -/
def skipBlanks (cs : List Char) : List Char := cs.dropWhile isBlank

/-- The next word and the text after it. -/
def word (cs : List Char) : List Char × List Char := (skipBlanks cs).span (!isBlank ·)

/-- The text after a mark. -/
def expect? (mark : Char) : List Char → Option (List Char)
  | [] => none
  | c :: rest => if c = mark then some rest else none

/-- A character of the name of a label. -/
def isLabelChar (c : Char) : Bool := c.isAlphanum || c = '_'

/-- A character of the name of a metric. -/
def isNameChar (c : Char) : Bool := isLabelChar c || c = ':'

/-- Whether these are characters of a name, which does not begin with a digit. -/
def isName (isChar : Char → Bool) : List Char → Bool
  | [] => false
  | c :: cs => !c.isDigit && (c :: cs).all isChar

/-- The name at the start of a text, and the text after it. -/
def name? (isChar : Char → Bool) (cs : List Char) : Option (String × List Char) :=
  let (name, rest) := cs.span isChar
  if isName isChar name then some (String.ofList name, rest) else none

/-- The value of a label after its opening quote, and the text after its closing quote. -/
def labelValue? : List Char → Option (List Char × List Char)
  | [] => none
  | '"' :: rest => some ([], rest)
  | '\n' :: _ => none
  | '\\' :: '\\' :: rest => (labelValue? rest).map fun (v, rest) => ('\\' :: v, rest)
  | '\\' :: '"' :: rest => (labelValue? rest).map fun (v, rest) => ('"' :: v, rest)
  | '\\' :: 'n' :: rest => (labelValue? rest).map fun (v, rest) => ('\n' :: v, rest)
  | '\\' :: _ => none
  | c :: rest => (labelValue? rest).map fun (v, rest) => (c :: v, rest)

/-- A label, and the text after it. -/
def label? (cs : List Char) : Option ((String × String) × List Char) := do
  let (name, cs) ← name? isLabelChar (skipBlanks cs)
  let cs ← expect? '=' (skipBlanks cs)
  let cs ← expect? '"' (skipBlanks cs)
  let (value, cs) ← labelValue? cs
  return ((name, String.ofList value), skipBlanks cs)

/-- The labels after an opening brace, and the text after the closing brace. There may be a comma
after the last of them. The length of the text bounds the recursion. -/
def labels? (bound : Nat) (cs : List Char) : Option (List (String × String) × List Char) :=
  match bound with
  | 0 => none
  | n + 1 =>
    match expect? '}' (skipBlanks cs) with
    | some rest => some ([], rest)
    | none => do
      let (label, cs) ← label? cs
      match expect? ',' cs with
      | some cs => do
        let (labels, cs) ← labels? n cs
        return (label :: labels, cs)
      | none => return ([label], ← expect? '}' cs)

/-! ## Lines -/

/-- The number that a line ends with. -/
def natural? (cs : List Char) : Option Nat :=
  let (digits, rest) := (skipBlanks cs).span Char.isDigit
  if digits ≠ [] ∧ rest.all isBlank then some (Nat.ofDigitChars 10 digits 0) else none

/-- A sample: the name of its metric, its labels if it has any, and its value. No two labels have
one name. -/
def sample? (cs : List Char) : Option Line := do
  let (name, cs) ← name? isNameChar cs
  let (labels, cs) ← match expect? '{' (skipBlanks cs) with
    | some rest => labels? rest.length rest
    | none => some ([], cs)
  let value ← natural? cs
  if (labels.map Prod.fst).Nodup then return .sample name ⟨labels, value⟩ else none

/-- The text of a help, in which backslashes and line feeds are escaped. -/
def helpText? : List Char → Option (List Char)
  | [] => some []
  | '\\' :: '\\' :: rest => (helpText? rest).map ('\\' :: ·)
  | '\\' :: 'n' :: rest => (helpText? rest).map ('\n' :: ·)
  | '\\' :: _ => none
  | c :: rest => (helpText? rest).map (c :: ·)

/-- The kinds of metrics that are read. -/
def kinds : List String := ["counter", "gauge", "untyped"]

/-- A comment, after its mark. -/
def comment? (cs : List Char) : Option Line :=
  let (keyword, cs) := word cs
  let (name, cs) := word cs
  if keyword = "HELP".toList then
    if isName isNameChar name then
      (helpText? (skipBlanks cs)).map fun text => .help (String.ofList name) (String.ofList text)
    else none
  else if keyword = "TYPE".toList then
    let (kind, cs) := word cs
    if isName isNameChar name ∧ String.ofList kind ∈ kinds ∧ cs.all isBlank then
      some (.kind (String.ofList name) (String.ofList kind))
    else none
  else some .nothing

/-- What a line says. -/
def line? (cs : List Char) : Option Line :=
  match skipBlanks cs with
  | [] => some .nothing
  | '#' :: rest => comment? rest
  | cs => sample? cs

/-- The lines of a text, given the characters of the first that were seen, last first. -/
def lines? (seen : List Char) : List Char → Option (List (List Char))
  | [] => if seen = [] then some [] else none
  | c :: rest =>
    if c = '\n' then (lines? [] rest).map (seen.reverse :: ·) else lines? (c :: seen) rest

/-! ## Metrics -/

/-- The metric that a line is about. -/
def Line.name? : Line → Option String
  | .nothing => none
  | .help name _ | .kind name _ | .sample name _ => some name

/-- A metric with a line more. -/
def Family.add? (f : Family) : Line → Option Family
  | .nothing => some f
  | .help _ text =>
    if f.help = none ∧ f.samples = [] then some { f with help := some text } else none
  | .kind _ kind =>
    if f.kind = none ∧ f.samples = [] then some { f with kind := some kind } else none
  | .sample _ s => some { f with samples := f.samples ++ [s] }

/-- The metric to which a line with a name belongs, and the metrics before it, the last first. -/
def latest (name : String) : List Family → Family × List Family
  | [] => (⟨name, none, none, []⟩, [])
  | f :: fs => if f.name = name then (f, fs) else (⟨name, none, none, []⟩, f :: fs)

/-- The metrics with a line more, the last metric first. No metric goes on after another. -/
def add? (fs : List Family) (l : Line) : Option (List Family) :=
  match l.name? with
  | none => some fs
  | some name =>
    let (f, before) := latest name fs
    if name ∈ before.map Family.name then none else (f.add? l).map (· :: before)

/-- The metrics with the lines of a text more, the last metric first. -/
def readOn? (fs : List Family) (cs : List Char) : Option (List Family) := do
  (← lines? [] cs).foldlM (fun fs l => do add? fs (← line? l)) fs

/-- The metrics that a text tells about. -/
def read? (text : String) : Option (List Family) := (readOn? [] text.toList).map List.reverse

/-! ## Escapes -/

/-- A character as it stands in the value of a label. -/
def escape (c : Char) : List Char :=
  if c = '\\' then ['\\', '\\']
  else if c = '"' then ['\\', '"']
  else if c = '\n' then ['\\', 'n']
  else [c]

/-- Whether a text is the same with and without escapes. -/
def IsPlain (s : String) : Prop := ∀ c ∈ s.toList, c ≠ '\\' ∧ c ≠ '"' ∧ c ≠ '\n'

instance (s : String) : Decidable (IsPlain s) := List.decidableBAll _ _

section
variable {c : Char} {cs rest v : List Char}

theorem escape_of_plain (h : c ≠ '\\' ∧ c ≠ '"' ∧ c ≠ '\n') : escape c = [c] := by
  rw [escape, if_neg h.1, if_neg h.2.1, if_neg h.2.2]

/-- A plain text needs no escapes. -/
theorem flatMap_escape {s : String} (h : IsPlain s) : s.toList.flatMap escape = s.toList := by
  rw [List.flatMap_def, List.map_congr_left fun c hc => escape_of_plain (h c hc),
    ← List.flatMap_def, List.flatMap_singleton']

/-- A character that needs no escape stands for itself. -/
theorem labelValue?_cons (h : c ≠ '\\' ∧ c ≠ '"' ∧ c ≠ '\n') :
    labelValue? (c :: rest) = (labelValue? rest).map fun (v, rest) => (c :: v, rest) := by
  rw [labelValue?]
  all_goals
    intros
    simp_all

/-- A character is read back. -/
theorem labelValue?_escape (c : Char) (rest : List Char) :
    labelValue? (escape c ++ rest) = (labelValue? rest).map fun (v, rest) => (c :: v, rest) := by
  unfold escape
  split
  · next h => rw [h]; rfl
  · next hslash =>
    split
    · next h => rw [h]; rfl
    · next hquote =>
      split
      · next h => rw [h]; rfl
      · next hline => exact labelValue?_cons ⟨hslash, hquote, hline⟩

/-- The value of a label is read back. -/
theorem labelValue?_flatMap_escape (v rest : List Char) :
    labelValue? (v.flatMap escape ++ '"' :: rest) = some (v, rest) := by
  induction v with
  | nil => rfl
  | cons c v ih =>
    rw [List.flatMap_cons, List.append_assoc, labelValue?_escape, ih, Option.map_some]

/-- What is read as a value is the value with escapes. -/
theorem eq_of_labelValue? (h : labelValue? cs = some (v, rest)) :
    cs = v.flatMap escape ++ '"' :: rest := by
  induction cs using labelValue?.induct generalizing v with
  | case1 => cases h
  | case2 rest' =>
    cases h
    rfl
  | case3 => cases h
  | case4 rest' ih | case5 rest' ih | case6 rest' ih =>
    rw [labelValue?, Option.map_eq_some_iff] at h
    obtain ⟨⟨v', _⟩, hv, heq⟩ := h
    cases heq
    rw [ih hv]
    rfl
  | case7 cs' hslash hquote hn =>
    rw [labelValue?] at h
    · cases h
    all_goals assumption
  | case8 c rest' hquote hline _ _ _ hslash ih =>
    have hc : c ≠ '\\' ∧ c ≠ '"' ∧ c ≠ '\n' := ⟨hslash, hquote, hline⟩
    rw [labelValue?_cons hc, Option.map_eq_some_iff] at h
    obtain ⟨⟨v', _⟩, hv, heq⟩ := h
    cases heq
    rw [ih hv, List.flatMap_cons, escape_of_plain hc]
    rfl

/-- With escapes there are more backslashes than there are without. -/
theorem replicate_append_ne (n : Nat) (v rest rest' : List Char) :
    List.replicate (n + 1) '\\' ++ (v.flatMap escape ++ '"' :: rest) ≠ v ++ '"' :: rest' := by
  induction v generalizing n with
  | nil => exact fun h => absurd (List.cons.inj h).1 (by decide)
  | cons c v ih =>
    rw [List.replicate_succ]
    intro h
    obtain ⟨rfl, htail⟩ := List.cons.inj h
    refine ih (n + 1) (Eq.trans ?_ htail)
    rw [List.replicate_succ', List.replicate_succ', List.flatMap_cons]
    simp only [List.append_assoc]
    rfl

/-- A value that comes before the same closing quote with and without escapes needs none. -/
theorem plain_of_append_eq (h : v.flatMap escape ++ '"' :: rest = v ++ '"' :: cs) :
    ∀ c ∈ v, c ≠ '\\' ∧ c ≠ '"' ∧ c ≠ '\n' := by
  induction v with
  | nil => exact List.forall_mem_nil _
  | cons c v ih =>
    rw [List.flatMap_cons, List.append_assoc, List.cons_append] at h
    by_cases hc : c ≠ '\\' ∧ c ≠ '"' ∧ c ≠ '\n'
    · rw [escape_of_plain hc] at h
      exact List.forall_mem_cons.mpr ⟨hc, ih (List.cons.inj h).2⟩
    · -- the escape begins with a backslash, so this is one, and there is another behind it
      have hslash : c = '\\' := by
        unfold escape at h
        split at h
        · assumption
        · split at h
          · exact (List.cons.inj h).1.symm
          · split at h
            · exact (List.cons.inj h).1.symm
            · simp_all
      subst hslash
      exact absurd (List.cons.inj h).2 (replicate_append_ne 0 v rest cs)

end

/-! ## What is written is read -/

section
variable {isChar : Char → Bool} {c : Char} {w name key v help kind cs rest : List Char}

theorem skipBlanks_cons (hc : isBlank c = false) : skipBlanks (c :: cs) = c :: cs :=
  List.dropWhile_cons_of_neg (by rw [hc]; exact Bool.false_ne_true)

/-- What is of one kind is split off from what begins with another. -/
theorem span_append {p : Char → Bool} (hw : ∀ c ∈ w, p c) (hrest : ∀ c ∈ rest.head?, p c = false) :
    (w ++ rest).span p = (w, rest) := by
  have htake : rest.takeWhile p = [] ∧ rest.dropWhile p = rest := by
    cases rest with
    | nil => exact ⟨rfl, rfl⟩
    | cons c rest =>
      have hc : ¬ p c := by rw [hrest c rfl]; exact Bool.false_ne_true
      exact ⟨List.takeWhile_cons_of_neg hc, List.dropWhile_cons_of_neg hc⟩
  rw [List.span_eq_takeWhile_dropWhile, List.takeWhile_append_of_pos hw,
    List.dropWhile_append_of_pos hw, htake.1, htake.2, List.append_nil]

/-- A name has characters of its own and no others. -/
theorem all_of_isName (h : isName isChar name) : ∀ c ∈ name, isChar c := by
  cases name with
  | nil => exact List.forall_mem_nil _
  | cons c cs =>
    simp only [isName, Bool.and_eq_true] at h
    exact List.all_eq_true.mp h.2

/-- A name begins with a character of its own. -/
theorem exists_cons_of_isName (h : isName isChar name) : ∃ c cs, name = c :: cs ∧ isChar c := by
  cases name with
  | nil => cases h
  | cons c cs => exact ⟨c, cs, rfl, all_of_isName h c List.mem_cons_self⟩

/-- A name is read up to a character that is none of its own. -/
theorem name?_append (h : isName isChar name) (hc : isChar c = false) :
    name? isChar (name ++ c :: rest) = some (String.ofList name, c :: rest) := by
  rw [name?, span_append (all_of_isName h) (by rintro _ ⟨⟩; exact hc)]
  exact if_pos h

theorem isNameChar_of_isLabelChar (h : isLabelChar c) : isNameChar c := by
  rw [isNameChar, h, Bool.true_or]

/-- No character of a name is a blank or another mark. -/
theorem ne_of_isNameChar {mark : Char} (h : isNameChar c) (hmark : isNameChar mark = false) :
    c ≠ mark := by
  rintro rfl
  rw [h] at hmark
  cases hmark

theorem isBlank_of_isNameChar (h : isNameChar c) : isBlank c = false := by
  rw [isBlank, Bool.or_eq_false_iff, decide_eq_false_iff_not, decide_eq_false_iff_not]
  exact ⟨ne_of_isNameChar h rfl, ne_of_isNameChar h rfl⟩

theorem not_isBlank_of_isNameChar (h : isNameChar c) : !isBlank c := by
  rw [isBlank_of_isNameChar h]
  rfl

/-- A word is read up to the next blank or to the end. -/
theorem word_append (hne : w ≠ []) (hw : ∀ c ∈ w, !isBlank c)
    (hrest : ∀ c ∈ rest.head?, isBlank c) : word (' ' :: (w ++ rest)) = (w, rest) := by
  obtain ⟨c, cs, rfl⟩ := List.exists_cons_of_ne_nil hne
  have hskip : skipBlanks (' ' :: (c :: cs ++ rest)) = c :: cs ++ rest :=
    skipBlanks_cons (by simpa using hw c List.mem_cons_self)
  rw [word, hskip]
  refine span_append hw fun d hd => ?_
  rw [hrest d hd]
  rfl

/-- A name is a word. -/
theorem word_name (h : isName isNameChar name) (hrest : ∀ c ∈ rest.head?, isBlank c) :
    word (' ' :: (name ++ rest)) = (name, rest) := by
  refine word_append ?_ (fun c hc => not_isBlank_of_isNameChar (all_of_isName h c hc)) hrest
  rintro rfl
  cases h

/-- Behind the name of a label and the opening quote stands its value. -/
theorem label?_append (hkey : isName isLabelChar key) (cs : List Char) :
    label? (key ++ '=' :: '"' :: cs) = (labelValue? cs).map fun (v, rest) =>
      ((String.ofList key, String.ofList v), skipBlanks rest) := by
  obtain ⟨c, ks, heq, hc⟩ := exists_cons_of_isName hkey
  have hskip : skipBlanks (key ++ '=' :: '"' :: cs) = key ++ '=' :: '"' :: cs := by
    rw [heq]
    exact skipBlanks_cons (isBlank_of_isNameChar (isNameChar_of_isLabelChar hc))
  rw [label?, hskip, name?_append hkey rfl]
  change (labelValue? cs).bind _ = _
  cases labelValue? cs <;> rfl

/-- What begins with the name of a label is no end of the labels. -/
theorem labels?_append (hkey : isName isLabelChar key) (n : Nat) (cs : List Char) :
    labels? (n + 1) (key ++ '=' :: '"' :: cs) = (labelValue? cs).bind fun (v, rest) =>
      match expect? ',' (skipBlanks rest) with
      | some rest => (labels? n rest).map fun (labels, rest) =>
        ((String.ofList key, String.ofList v) :: labels, rest)
      | none => (expect? '}' (skipBlanks rest)).map fun rest =>
        ([(String.ofList key, String.ofList v)], rest) := by
  obtain ⟨c, ks, heq, hc⟩ := exists_cons_of_isName hkey
  have hname : isNameChar c := isNameChar_of_isLabelChar hc
  have hskip : skipBlanks (key ++ '=' :: '"' :: cs) = key ++ '=' :: '"' :: cs := by
    rw [heq]
    exact skipBlanks_cons (isBlank_of_isNameChar hname)
  have hexpect : expect? '}' (key ++ '=' :: '"' :: cs) = none := by
    rw [heq]
    exact if_neg (ne_of_isNameChar hname rfl)
  rw [labels?, hskip, hexpect]
  dsimp only
  rw [label?_append hkey]
  cases labelValue? cs with
  | none => rfl
  | some p =>
    dsimp only [Option.map_some, Option.bind_eq_bind, Option.bind_some]
    cases expect? ',' (skipBlanks p.2) with
    | none => cases expect? '}' (skipBlanks p.2) <;> rfl
    | some rest =>
      dsimp only
      cases labels? n rest <;> rfl

/-- What begins with the name of a metric is a sample. -/
theorem line?_append (hname : isName isNameChar name) (rest : List Char) :
    line? (name ++ rest) = sample? (name ++ rest) := by
  obtain ⟨c, cs, rfl, hc⟩ := exists_cons_of_isName hname
  have hskip : skipBlanks (c :: cs ++ rest) = c :: cs ++ rest :=
    skipBlanks_cons (isBlank_of_isNameChar hc)
  rw [line?, hskip]
  split
  · next h => cases h
  · next h => exact absurd (List.cons.inj h).1 (ne_of_isNameChar hc rfl)
  · rfl

/-- Behind the name of a metric and an opening brace stand labels and a value. -/
theorem sample?_append (hname : isName isNameChar name) (rest : List Char) :
    sample? (name ++ '{' :: rest) = (labels? rest.length rest).bind fun (labels, rest) =>
      (natural? rest).bind fun value =>
        if (labels.map Prod.fst).Nodup then some (.sample (String.ofList name) ⟨labels, value⟩)
        else none := by
  rw [sample?, name?_append hname rfl]
  rfl

/-- The number that a line ends with is read back. -/
theorem natural?_toDigits (n : Nat) : natural? (' ' :: Nat.toDigits 10 n) = some n := by
  have hdigits : ∀ c ∈ Nat.toDigits 10 n, c.isDigit :=
    fun c hc => Nat.isDigit_of_mem_toDigits (by decide) (by decide) hc
  have hspan : (Nat.toDigits 10 n).span Char.isDigit = (Nat.toDigits 10 n, []) := by
    have h : (Nat.toDigits 10 n ++ []).span Char.isDigit = (Nat.toDigits 10 n, []) :=
      span_append hdigits nofun
    rwa [List.append_nil] at h
  have hskip : skipBlanks (' ' :: Nat.toDigits 10 n) = Nat.toDigits 10 n := by
    obtain ⟨d, ds, heq⟩ := List.exists_cons_of_ne_nil (Nat.toDigits_ne_nil (n := n) (b := 10))
    have hd : d.isDigit := hdigits d (heq ▸ List.mem_cons_self)
    have hname : isNameChar d := by simp [isNameChar, isLabelChar, Char.isAlphanum, hd]
    have hblank : skipBlanks (d :: ds) = d :: ds := skipBlanks_cons (isBlank_of_isNameChar hname)
    rw [heq]
    exact hblank
  rw [natural?, hskip, hspan]
  refine (if_pos ⟨Nat.toDigits_ne_nil, rfl⟩).trans (congrArg some ?_)
  exact Nat.ofDigitChars_toDigits (by decide) (by decide)

/-- The line of a sample with one label. -/
def sampleChars (name key value : List Char) (n : Nat) : List Char :=
  name ++ '{' :: (key ++ '=' :: '"' :: (value ++ '"' :: '}' :: ' ' :: Nat.toDigits 10 n))

/-- A sample with one label is read back if the value of the label has its escapes. -/
theorem line?_sampleChars (hname : isName isNameChar name) (hkey : isName isLabelChar key)
    (v : List Char) (n : Nat) : line? (sampleChars name key (v.flatMap escape) n) =
      some (.sample (String.ofList name) ⟨[(String.ofList key, String.ofList v)], n⟩) := by
  rw [sampleChars, line?_append hname, sample?_append hname, List.length_append, List.length_cons,
    ← Nat.add_assoc, labels?_append hkey, labelValue?_flatMap_escape]
  change (natural? (' ' :: Nat.toDigits 10 n)).bind _ = _
  rw [natural?_toDigits, Option.bind_some]
  exact if_pos (List.nodup_singleton _)

/-- What is read behind the opening quote of the first label is its value. -/
theorem exists_labelValue? {l : Line} (hname : isName isNameChar name)
    (hkey : isName isLabelChar key)
    (h : line? (name ++ '{' :: (key ++ '=' :: '"' :: cs)) = some l) :
    ∃ v rest labels n, labelValue? cs = some (v, rest) ∧
      l = .sample (String.ofList name) ⟨(String.ofList key, String.ofList v) :: labels, n⟩ := by
  rw [line?_append hname, sample?_append hname, List.length_append, List.length_cons,
    ← Nat.add_assoc, labels?_append hkey] at h
  simp only [Option.bind_eq_some_iff] at h
  obtain ⟨⟨labels, rest⟩, ⟨⟨v, rest'⟩, hv, hlabels⟩, n, -, hl⟩ := h
  have hfirst : ∃ labels', labels = (String.ofList key, String.ofList v) :: labels' := by
    dsimp only at hlabels
    split at hlabels
    · obtain ⟨⟨labels', _⟩, -, heq⟩ := Option.map_eq_some_iff.mp hlabels
      cases heq
      exact ⟨labels', rfl⟩
    · obtain ⟨_, -, heq⟩ := Option.map_eq_some_iff.mp hlabels
      cases heq
      exact ⟨[], rfl⟩
  obtain ⟨labels', rfl⟩ := hfirst
  dsimp only at hl
  split at hl <;> cases hl
  exact ⟨v, rest', labels', n, hv, rfl⟩

/-- A help without backslashes is read as it is. -/
theorem helpText?_eq_some (h : '\\' ∉ help) : helpText? help = some help := by
  induction help with
  | nil => rfl
  | cons c help ih =>
    rw [helpText?, ih (List.not_mem_of_not_mem_cons h), Option.map_some]
    all_goals
      intros
      exact h (by simp_all)

/-- A help is read back. -/
theorem line?_help (hname : isName isNameChar name) (hhelp : '\\' ∉ help)
    (hskip : skipBlanks help = help) : line? ("# HELP ".toList ++ (name ++ ' ' :: help)) =
      some (.help (String.ofList name) (String.ofList help)) := by
  have hword : word (" HELP ".toList ++ (name ++ ' ' :: help)) =
      ("HELP".toList, ' ' :: (name ++ ' ' :: help)) :=
    word_append (w := "HELP".toList) (by decide) (List.all_eq_true.mp (by decide))
      (by rintro _ ⟨⟩; rfl)
  change comment? (" HELP ".toList ++ (name ++ ' ' :: help)) = _
  have hskip' : skipBlanks (' ' :: help) = help := hskip
  rw [comment?, hword]
  dsimp only
  rw [word_name hname (by rintro _ ⟨⟩; rfl), if_pos rfl, if_pos hname, hskip',
    helpText?_eq_some hhelp]
  rfl

/-- A kind is read back. -/
theorem line?_kind (hname : isName isNameChar name) (hkind : String.ofList kind ∈ kinds) :
    line? ("# TYPE ".toList ++ (name ++ ' ' :: kind)) =
      some (.kind (String.ofList name) (String.ofList kind)) := by
  have hword : word (" TYPE ".toList ++ (name ++ ' ' :: kind)) =
      ("TYPE".toList, ' ' :: (name ++ ' ' :: kind)) :=
    word_append (w := "TYPE".toList) (by decide) (List.all_eq_true.mp (by decide))
      (by rintro _ ⟨⟩; rfl)
  have hlast : word (' ' :: kind) = (kind, []) := by
    have hall : ∀ k ∈ kinds, k.toList ≠ [] ∧ k.toList.all (!isBlank ·) := by decide
    have h := hall _ hkind
    rw [String.toList_ofList] at h
    have hword : word (' ' :: (kind ++ [])) = (kind, []) :=
      word_append h.1 (List.all_eq_true.mp h.2) nofun
    rwa [List.append_nil] at hword
  change comment? (" TYPE ".toList ++ (name ++ ' ' :: kind)) = _
  rw [comment?, hword]
  dsimp only
  rw [word_name hname (by rintro _ ⟨⟩; rfl), if_neg (by decide), if_pos rfl, hlast]
  exact if_pos ⟨hname, hkind, rfl⟩

end

/-! ## One line after the other -/

section
variable {fs fs' : List Family} {l cs rest seen : List Char}

/-- A line ends at its line feed. -/
theorem lines?_append (hl : '\n' ∉ l) (seen rest : List Char) :
    lines? seen (l ++ '\n' :: rest) = (lines? [] rest).map ((seen.reverse ++ l) :: ·) := by
  induction l generalizing seen with
  | nil => rw [List.nil_append, lines?, if_pos rfl, List.append_nil]
  | cons c l ih =>
    rw [List.cons_append, lines?, if_neg (List.ne_of_not_mem_cons hl).symm,
      ih (List.not_mem_of_not_mem_cons hl), List.reverse_cons, List.append_assoc]
    rfl

/-- Without a line feed at its end a text is no text. -/
theorem lines?_of_not_mem (hcs : '\n' ∉ cs) (hne : seen ≠ [] ∨ cs ≠ []) :
    lines? seen cs = none := by
  induction cs generalizing seen with
  | nil => rw [lines?, if_neg (hne.resolve_right (· rfl))]
  | cons c cs ih =>
    rw [lines?, if_neg (List.ne_of_not_mem_cons hcs).symm,
      ih (List.not_mem_of_not_mem_cons hcs) (.inl (List.cons_ne_nil _ _))]

/-- A text is read line by line. -/
theorem readOn?_append (hl : '\n' ∉ l) (fs : List Family) (rest : List Char) :
    readOn? fs (l ++ '\n' :: rest) =
      ((line? l).bind (add? fs)).bind fun fs => readOn? fs rest := by
  simp only [readOn?, lines?_append hl]
  cases lines? [] rest with
  | none => cases (line? l).bind (add? fs) <;> rfl
  | some ls => rfl

/-- A text that is read begins with a line that is read. -/
theorem exists_line (h : readOn? fs cs = some fs') (hne : cs ≠ []) :
    ∃ l rest fs'', '\n' ∉ l ∧ cs = l ++ '\n' :: rest ∧ (line? l).bind (add? fs) = some fs'' ∧
      readOn? fs'' rest = some fs' := by
  by_cases hline : '\n' ∈ cs
  · obtain ⟨l, rest, rfl, hl⟩ := List.eq_append_cons_of_mem hline
    rw [readOn?_append hl, Option.bind_eq_some_iff] at h
    obtain ⟨fs'', hadd, hrest⟩ := h
    exact ⟨l, rest, fs'', hl, rfl, hadd, hrest⟩
  · rw [readOn?, lines?_of_not_mem hline (.inr hne)] at h
    cases h

end

/-! ## One metric after the other -/

section
variable {f f' : Family} {fs fs' : List Family} {l : Line} {name : String} {cs : List Char}

/-- A metric that nothing was told about is begun. -/
theorem latest_of_not_mem (h : name ∉ fs.map Family.name) :
    latest name fs = (⟨name, none, none, []⟩, fs) := by
  cases fs with
  | nil => rfl
  | cons f fs =>
    refine if_neg ?_
    rintro rfl
    exact h List.mem_cons_self

/-- A help begins a metric. -/
theorem add?_help (h : name ∉ fs.map Family.name) (text : String) :
    add? fs (.help name text) = some (⟨name, some text, none, []⟩ :: fs) := by
  simp only [add?, Line.name?, latest_of_not_mem h, if_neg h]
  rfl

/-- A line about the last metric is put to it. -/
theorem add?_cons (hl : l.name? = some f.name) (h : f.name ∉ fs.map Family.name) :
    add? (f :: fs) l = (f.add? l).map (· :: fs) := by
  simp only [add?, hl, latest, if_true, if_neg h]

/-- A metric keeps its samples. -/
theorem Family.grows (h : f.add? l = some f') : f'.name = f.name ∧ f.samples <+: f'.samples := by
  cases l with
  | nothing =>
    cases h
    exact ⟨rfl, List.prefix_refl _⟩
  | help _ text | kind _ kind =>
    rw [add?, Option.ite_none_right_eq_some] at h
    obtain ⟨-, heq⟩ := h
    cases heq
    exact ⟨rfl, List.prefix_refl _⟩
  | sample _ s =>
    cases h
    exact ⟨rfl, List.prefix_append ..⟩

/-- All metrics keep their samples. -/
theorem grows_add? (h : add? fs l = some fs') (hf : f ∈ fs) :
    ∃ f' ∈ fs', f'.name = f.name ∧ f.samples <+: f'.samples := by
  have hlatest (name : String) : f = (latest name fs).1 ∨ f ∈ (latest name fs).2 := by
    cases fs with
    | nil => cases hf
    | cons g fs =>
      rw [latest]
      split
      · exact List.mem_cons.mp hf
      · exact .inr hf
  rw [add?] at h
  split at h
  · cases h
    exact ⟨f, hf, rfl, List.prefix_refl _⟩
  · next name _ =>
    rw [Option.ite_none_left_eq_some, Option.map_eq_some_iff] at h
    obtain ⟨-, f', hadd, rfl⟩ := h
    rcases hlatest name with rfl | hbefore
    · exact ⟨f', List.mem_cons_self, Family.grows hadd⟩
    · exact ⟨f, List.mem_cons_of_mem _ hbefore, rfl, List.prefix_refl _⟩

/-- All metrics keep their samples while a text is read. -/
theorem grows_readOn? (h : readOn? fs cs = some fs') (hf : f ∈ fs) :
    ∃ f' ∈ fs', f'.name = f.name ∧ f.samples <+: f'.samples := by
  rw [readOn?, Option.bind_eq_bind, Option.bind_eq_some_iff] at h
  obtain ⟨ls, -, h⟩ := h
  induction ls generalizing fs f with
  | nil =>
    cases h
    exact ⟨f, hf, rfl, List.prefix_refl _⟩
  | cons l ls ih =>
    rw [List.foldlM_cons, Option.bind_eq_bind, Option.bind_eq_some_iff] at h
    obtain ⟨fs₁, hadd, hrest⟩ := h
    obtain ⟨l', -, hadd⟩ := Option.bind_eq_some_iff.mp hadd
    obtain ⟨f₁, hf₁, hname₁, hsamples₁⟩ := grows_add? hadd hf
    obtain ⟨f₂, hf₂, hname₂, hsamples₂⟩ := ih hf₁ hrest
    exact ⟨f₂, hf₂, hname₂.trans hname₁, hsamples₁.trans hsamples₂⟩

end

end RelayFleet.Exposition
