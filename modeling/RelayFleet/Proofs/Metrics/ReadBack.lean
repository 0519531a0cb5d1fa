import RelayFleet.Metrics
import RelayFleet.Proofs.Metrics.Exposition

/-!
# Which metrics are read back

A zone stands in the text of the metrics under its id, and the id stands there as it is, without
escapes. So a reader of the format finds what was put into the text if no id needs an escape, and
only then (`readsBack_iff`).
-/

namespace RelayFleet.Metrics

open Exposition

/-- What a reader is to find of a metric of the zones. -/
def zoneFamily (name help : String) (value : ZoneCapacity → Nat) (zones : List ZoneCapacity) :
    Family :=
  ⟨name, some help, some "gauge", zones.map fun z => ⟨[("zone", z.zoneId)], value z⟩⟩

/-- What a reader is to find: four samples of each zone, the zones in the given order, a sample of
each mode, of which one is one, and a sample of each outcome. -/
def report (zones : List ZoneCapacity) (mode : Mode) (counters : AssignCounters) : List Family :=
  [zoneFamily "relaygrid_zone_running_relays" "Relays in the Running state."
      (·.runningCount.toNat) zones,
    zoneFamily "relaygrid_zone_active_sessions" "Sessions reported by running relays."
      (·.activeSessions.toNat) zones,
    zoneFamily "relaygrid_zone_transitional_relays" "Relays starting or stopping."
      (·.transitionalCount.toNat) zones,
    zoneFamily "relaygrid_zone_stopped_relays" "Relays in the stopped pool."
      (·.stoppedCount.toNat) zones,
    ⟨"relaygrid_management_state", some "Current management mode (1 = active).", some "gauge",
      Mode.all.map fun m => ⟨[("state", m.word)], if mode = m then 1 else 0⟩⟩,
    ⟨"relaygrid_assign_total", some "Relay assignment requests by outcome.", some "counter",
      AssignOutcome.all.map fun o => ⟨[("outcome", o.word)], (counters.count o).toNat⟩⟩]

/-- What of a zone stands in the text: all but the count of its relays. -/
def shown (z : ZoneCapacity) : ZoneCapacity := { z with totalCount := 0 }

/-! ## The text of a metric -/

/-- What a reader is to find of a sample. -/
def Metric.sample (m : Metric) (s : Sample) : Exposition.Sample :=
  ⟨[(m.labelName, s.label)], s.value⟩

/-- What a reader has found of a metric when it has found these samples of it. -/
def Metric.found (m : Metric) (samples : List Exposition.Sample) : Family :=
  ⟨m.name, some m.help, some m.kind, samples⟩

/-- What a reader is to find of a metric. -/
def Metric.family (m : Metric) : Family := m.found (m.samples.map m.sample)

/-- A metric about which can be told what is to be told. -/
structure Metric.Tellable (m : Metric) : Prop where
  name : isName isNameChar m.name.toList
  label : isName isLabelChar m.labelName.toList
  backslash : '\\' ∉ m.help.toList
  line : '\n' ∉ m.help.toList
  blank : skipBlanks m.help.toList = m.help.toList
  kind : m.kind ∈ kinds

section
variable {m : Metric} {s : Sample} {fs fs' : List Family} {rest cs : List Char}

theorem toList_sampleLine (m : Metric) (s : Sample) : (sampleLine m s).toList =
    sampleChars m.name.toList m.labelName.toList s.label.toList s.value ++ ['\n'] := by
  simp [sampleLine, sampleChars]

theorem toList_metricText (m : Metric) : (metricText m).toList =
    ("# HELP ".toList ++ (m.name.toList ++ ' ' :: m.help.toList)) ++ '\n' ::
    (("# TYPE ".toList ++ (m.name.toList ++ ' ' :: m.kind.toList)) ++ '\n' ::
      (m.samples.flatMap fun s => (sampleLine m s).toList)) := by
  delta metricText
  simp [List.flatMap_map]

/-- No name goes on to another line. -/
theorem line_notMem_of_isName {isChar : Char → Bool} {name : List Char} (h : isName isChar name)
    (hline : isChar '\n' = false) : '\n' ∉ name := by
  intro hmem
  rw [all_of_isName h _ hmem] at hline
  cases hline

/-- The line of a sample goes on to no other if its label does not. -/
theorem line_notMem_sampleChars (hm : m.Tellable) {value : List Char} (hvalue : '\n' ∉ value)
    (n : Nat) : '\n' ∉ sampleChars m.name.toList m.labelName.toList value n := by
  have hname := line_notMem_of_isName hm.name rfl
  have hlabel := line_notMem_of_isName hm.label rfl
  have hdigits : '\n' ∉ Nat.toDigits 10 n := fun hmem =>
    absurd (Nat.isDigit_of_mem_toDigits (by decide) (by decide) hmem) (by decide)
  simp [sampleChars, hname, hlabel, hvalue, hdigits]

/-- A sample is put to those of its metric that were found before. -/
theorem add?_sample (hfs : m.name ∉ fs.map Family.name) (done : List Exposition.Sample)
    (s : Exposition.Sample) :
    add? (m.found done :: fs) (.sample m.name s) = some (m.found (done ++ [s]) :: fs) :=
  add?_cons rfl hfs

/-- A sample whose label needs no escapes is read back. -/
theorem readOn?_sampleLine (hm : m.Tellable) (hs : IsPlain s.label)
    (hfs : m.name ∉ fs.map Family.name) (done : List Exposition.Sample) (rest : List Char) :
    readOn? (m.found done :: fs) ((sampleLine m s).toList ++ rest) =
      readOn? (m.found (done ++ [m.sample s]) :: fs) rest := by
  have hread := line?_sampleChars hm.name hm.label s.label.toList s.value
  rw [flatMap_escape hs] at hread
  have hline := line_notMem_sampleChars hm (fun hmem => (hs _ hmem).2.2 rfl) s.value
  rw [toList_sampleLine, List.append_assoc, List.singleton_append, readOn?_append hline, hread]
  simp only [String.ofList_toList, Option.bind_some, add?_sample hfs]
  rfl

/-- Samples whose labels need no escapes are read back. -/
theorem readOn?_samples (hm : m.Tellable) {samples : List Sample}
    (hs : ∀ s ∈ samples, IsPlain s.label) (hfs : m.name ∉ fs.map Family.name)
    (done : List Exposition.Sample) (rest : List Char) :
    readOn? (m.found done :: fs) ((samples.flatMap fun s => (sampleLine m s).toList) ++ rest) =
      readOn? (m.found (done ++ samples.map m.sample) :: fs) rest := by
  induction samples generalizing done with
  | nil => rw [List.flatMap_nil, List.map_nil, List.append_nil, List.nil_append]
  | cons s samples ih =>
    obtain ⟨hs, hsamples⟩ := List.forall_mem_cons.mp hs
    rw [List.flatMap_cons, List.append_assoc, readOn?_sampleLine hm hs hfs, ih hsamples,
      List.map_cons, List.append_assoc, List.singleton_append]

/-- What is told about a metric is read back before its samples. -/
theorem readOn?_metricText (hm : m.Tellable) (hfs : m.name ∉ fs.map Family.name)
    (rest : List Char) : readOn? fs ((metricText m).toList ++ rest) =
      readOn? (m.found [] :: fs)
        ((m.samples.flatMap fun s => (sampleLine m s).toList) ++ rest) := by
  have hname := line_notMem_of_isName hm.name rfl
  have hhelp : '\n' ∉ "# HELP ".toList ++ (m.name.toList ++ ' ' :: m.help.toList) := by
    simp [hname, hm.line]
  have hkind : '\n' ∉ "# TYPE ".toList ++ (m.name.toList ++ ' ' :: m.kind.toList) := by
    have hkinds : ∀ k ∈ kinds, '\n' ∉ k.toList := by decide
    simp [hname, hkinds _ hm.kind]
  rw [toList_metricText, List.append_assoc, List.cons_append, readOn?_append hhelp,
    line?_help hm.name hm.backslash hm.blank]
  simp only [String.ofList_toList, Option.bind_some, add?_help hfs]
  rw [List.append_assoc, List.cons_append, readOn?_append hkind,
    line?_kind hm.name (by rw [String.ofList_toList]; exact hm.kind)]
  simp only [String.ofList_toList, Option.bind_some]
  rw [add?_cons rfl hfs]
  rfl

/-- Metrics whose labels need no escapes are read back. -/
theorem readOn?_metrics {ms : List Metric} (hms : ∀ m ∈ ms, m.Tellable)
    (hplain : ∀ m ∈ ms, ∀ s ∈ m.samples, IsPlain s.label)
    (hnames : (ms.map Metric.name).Nodup)
    (hfs : ∀ m ∈ ms, m.name ∉ fs.map Family.name) :
    readOn? fs (ms.flatMap fun m => (metricText m).toList) =
      some ((ms.map Metric.family).reverse ++ fs) := by
  induction ms generalizing fs with
  | nil => rfl
  | cons m ms ih =>
    obtain ⟨hm, hms⟩ := List.forall_mem_cons.mp hms
    obtain ⟨hs, hplain⟩ := List.forall_mem_cons.mp hplain
    obtain ⟨hother, hnames⟩ := List.nodup_cons.mp hnames
    obtain ⟨hm', hms'⟩ := List.forall_mem_cons.mp hfs
    have hlater : ∀ m' ∈ ms, m'.name ∉ (m.family :: fs).map Family.name := by
      intro m' hmem
      rw [List.map_cons, List.mem_cons, not_or]
      refine ⟨fun heq => hother ?_, hms' m' hmem⟩
      exact List.mem_map.mpr ⟨m', hmem, heq⟩
    rw [List.flatMap_cons, readOn?_metricText hm hm', readOn?_samples hm hs hm', List.nil_append,
      ← Metric.family, ih hms hplain hnames hlater, List.map_cons, List.reverse_cons,
      List.append_assoc, List.singleton_append]

/-- What stands on a line before its end stands there still when the text is split into lines. -/
theorem exists_append_of_line {front text l : List Char} (hfront : '\n' ∉ front)
    (heq : front ++ text = l ++ '\n' :: cs) : ∃ l', l = front ++ l' ∧ text = l' ++ '\n' :: cs := by
  rcases List.append_eq_append_iff.mp heq with hl | ⟨l', rfl, htext⟩
  · exact hl
  · cases l' with
    | nil => exact ⟨[], by simp, htext.symm⟩
    | cons c l' =>
      obtain ⟨rfl, -⟩ := List.cons.inj htext
      exact absurd (List.mem_append_right l List.mem_cons_self) hfront

/-- What is read on the line of a sample is a sample of its metric with its label, and if the value
of the label is the right one then it needs no escapes. -/
theorem exists_sample_of_line (hm : m.Tellable) {l : List Char} {line : Line}
    (heq : (sampleLine m s).toList ++ rest = l ++ '\n' :: cs) (hl : line? l = some line) :
    ∃ v labels n, line = .sample m.name ⟨(m.labelName, v) :: labels, n⟩ ∧
      (v = s.label → IsPlain s.label) := by
  have hfront : '\n' ∉ m.name.toList ++ '{' :: (m.labelName.toList ++ ['=', '"']) := by
    have hname := line_notMem_of_isName hm.name rfl
    have hlabel := line_notMem_of_isName hm.label rfl
    simp [hname, hlabel]
  have hbehind : m.name.toList ++ '{' :: (m.labelName.toList ++ ['=', '"']) ++
      (s.label.toList ++ '"' :: '}' :: ' ' :: (Nat.toDigits 10 s.value ++ '\n' :: rest)) =
        l ++ '\n' :: cs := by
    rw [← heq, toList_sampleLine]
    simp [sampleChars]
  obtain ⟨l', rfl, htext⟩ := exists_append_of_line hfront hbehind
  have hshape : m.name.toList ++ '{' :: (m.labelName.toList ++ ['=', '"']) ++ l' =
      m.name.toList ++ '{' :: (m.labelName.toList ++ '=' :: '"' :: l') := by simp
  rw [hshape] at hl
  obtain ⟨v, rest', labels, n, hv, rfl⟩ := exists_labelValue? hm.name hm.label hl
  simp only [String.ofList_toList]
  refine ⟨String.ofList v, labels, n, rfl, fun hlabel => ?_⟩
  rw [← hlabel, String.toList_ofList, eq_of_labelValue? hv, List.append_assoc] at htext
  rw [IsPlain, ← hlabel, String.toList_ofList]
  exact plain_of_append_eq htext.symm

/-- If samples are read back then their labels need no escapes. -/
theorem plain_of_readOn? (hm : m.Tellable) {samples : List Sample}
    (hfs : m.name ∉ fs.map Family.name) {done : List Exposition.Sample}
    (hread : readOn? (m.found done :: fs)
      ((samples.flatMap fun s => (sampleLine m s).toList) ++ rest) = some fs')
    (hfound : ∀ f ∈ fs', f.name = m.name → f.samples = done ++ samples.map m.sample) :
    ∀ s ∈ samples, IsPlain s.label := by
  induction samples generalizing done with
  | nil => exact List.forall_mem_nil _
  | cons s samples ih =>
    rw [List.flatMap_cons, List.append_assoc] at hread
    have hplain : IsPlain s.label := by
      obtain ⟨l, rest', fs₁, -, heq, hadd, hrest⟩ :=
        exists_line hread (by rw [toList_sampleLine]; simp)
      obtain ⟨line, hl, hadd⟩ := Option.bind_eq_some_iff.mp hadd
      obtain ⟨v, labels, n, rfl, hv⟩ := exists_sample_of_line hm heq hl
      rw [add?_sample hfs] at hadd
      cases hadd
      -- the sample that was found stays where it is, and the right one is to be found there
      obtain ⟨f, hf, hname, hsamples⟩ := grows_readOn? hrest List.mem_cons_self
      rw [hfound f hf hname, Metric.found, List.prefix_append_right_inj, List.map_cons,
        List.cons_prefix_cons] at hsamples
      have hlabels := congrArg Exposition.Sample.labels hsamples.1
      exact hv (Prod.mk.inj (List.cons.inj hlabels).1).2
    rw [readOn?_sampleLine hm hplain hfs] at hread
    refine List.forall_mem_cons.mpr ⟨hplain, ih hread fun f hf hname => ?_⟩
    rw [hfound f hf hname, List.map_cons, List.append_assoc, List.singleton_append]

end

/-! ## The text of all metrics -/

section
variable (zones : List ZoneCapacity) (mode : Mode) (counters : AssignCounters)

theorem tellable_metrics : ∀ m ∈ metrics zones mode counters, m.Tellable := by
  have hsamples {name help kind labelName : String}
      (h : Metric.Tellable ⟨name, help, kind, labelName, []⟩) (samples : List Sample) :
      Metric.Tellable ⟨name, help, kind, labelName, samples⟩ :=
    ⟨h.name, h.label, h.backslash, h.line, h.blank, h.kind⟩
  simp only [metrics, List.forall_mem_cons, zoneMetric, modeMetric, assignMetric]
  refine ⟨hsamples ?_ _, hsamples ?_ _, hsamples ?_ _, hsamples ?_ _, hsamples ?_ _, hsamples ?_ _,
    List.forall_mem_nil _⟩ <;>
    exact ⟨by decide, by decide, by decide, by decide, by decide, by decide⟩

theorem nodup_names : ((metrics zones mode counters).map Metric.name).Nodup := by
  change List.Nodup ["relaygrid_zone_running_relays", "relaygrid_zone_active_sessions",
    "relaygrid_zone_transitional_relays", "relaygrid_zone_stopped_relays",
    "relaygrid_management_state", "relaygrid_assign_total"]
  decide

/-- What a reader is to find of the metrics. -/
theorem map_family_metrics :
    (metrics zones mode counters).map Metric.family = report zones mode counters := by
  simp [metrics, report, zoneMetric, zoneFamily, modeMetric, assignMetric, Metric.family,
    Metric.found, Metric.sample, Function.comp_def]

theorem toList_text : (text zones mode counters).toList =
    (metrics zones mode counters).flatMap fun m => (metricText m).toList := by
  rw [text, String.toList_join, List.flatMap_map]

/-- The labels of the modes and of the outcomes need no escapes. -/
theorem plain_metrics {zones : List ZoneCapacity} (h : ∀ z ∈ zones, IsPlain z.zoneId) :
    ∀ m ∈ metrics zones mode counters, ∀ s ∈ m.samples, IsPlain s.label := by
  have hzone (name help : String) (value : ZoneCapacity → Nat) :
      ∀ s ∈ (zoneMetric name help value zones).samples, IsPlain s.label :=
    List.forall_mem_map.mpr h
  have hmode : ∀ s ∈ (modeMetric mode).samples, IsPlain s.label :=
    List.forall_mem_map.mpr (show ∀ m ∈ Mode.all, IsPlain m.word by decide)
  have hassign : ∀ s ∈ (assignMetric counters).samples, IsPlain s.label :=
    List.forall_mem_map.mpr (show ∀ o ∈ AssignOutcome.all, IsPlain o.word by decide)
  simp only [metrics, List.forall_mem_cons]
  exact ⟨hzone _ _ _, hzone _ _ _, hzone _ _ _, hzone _ _ _, hmode, hassign,
    List.forall_mem_nil _⟩

/-- The text of metrics whose zones need no escapes is read back. -/
theorem read?_text {zones : List ZoneCapacity} (h : ∀ z ∈ zones, IsPlain z.zoneId) :
    read? (text zones mode counters) = some (report zones mode counters) := by
  rw [read?, toList_text, readOn?_metrics (tellable_metrics zones mode counters)
    (plain_metrics mode counters h) (nodup_names zones mode counters) fun _ _ => List.not_mem_nil,
    List.append_nil, Option.map_some, List.reverse_reverse, map_family_metrics]

/-- If the text of metrics is read back then its zones need no escapes. -/
theorem plain_of_read? {zones : List ZoneCapacity} {mode : Mode} {counters : AssignCounters}
    (h : read? (text zones mode counters) = some (report zones mode counters)) :
    ∀ z ∈ zones, IsPlain z.zoneId := by
  obtain ⟨fs, hread, hfs⟩ := Option.map_eq_some_iff.mp h
  have hm := tellable_metrics zones mode counters _ List.mem_cons_self
  rw [toList_text, metrics, List.flatMap_cons,
    readOn?_metricText hm List.not_mem_nil] at hread
  have hplain := plain_of_readOn? hm List.not_mem_nil hread fun f hf hname => ?_
  · exact fun z hz => hplain _ (List.mem_map_of_mem hz)
  -- the first metric is the only one of its name
  have hmem : f ∈ (metrics zones mode counters).map Metric.family := by
    rw [map_family_metrics, ← hfs]
    exact List.mem_reverse.mpr hf
  obtain ⟨m, hm', rfl⟩ := List.mem_map.mp hmem
  obtain rfl := List.inj_on_of_nodup_map (nodup_names zones mode counters) hm' List.mem_cons_self
    hname
  rfl

/-- What stands of a zone in the text can be told from its samples. -/
theorem shown_eq {z z' : ZoneCapacity} (hid : z.zoneId = z'.zoneId)
    (hrunning : z.runningCount.toNat = z'.runningCount.toNat)
    (hsessions : z.activeSessions.toNat = z'.activeSessions.toNat)
    (htransitional : z.transitionalCount.toNat = z'.transitionalCount.toNat)
    (hstopped : z.stoppedCount.toNat = z'.stoppedCount.toNat) : shown z = shown z' := by
  rw [shown, shown, hid, UInt32.toNat_inj.mp hrunning, UInt64.toNat_inj.mp hsessions,
    UInt32.toNat_inj.mp htransitional, UInt32.toNat_inj.mp hstopped]

/-- What stands in the text of metrics can be told from what is read. -/
theorem eq_of_report_eq {zones zones' : List ZoneCapacity} {mode mode' : Mode}
    {counters counters' : AssignCounters}
    (h : report zones mode counters = report zones' mode' counters') :
    zones.map shown = zones'.map shown ∧ mode = mode' ∧ counters.count = counters'.count := by
  simp only [report, zoneFamily, List.cons.injEq, Family.mk.injEq, true_and, and_true] at h
  obtain ⟨hrunning, hsessions, htransitional, hstopped, hmodes, hcounts⟩ := h
  refine ⟨?_, ?_, funext fun o => ?_⟩
  · clear hmodes hcounts
    induction zones generalizing zones' with
    | nil =>
      rw [List.map_nil, eq_comm, List.map_eq_nil_iff] at hrunning
      rw [hrunning]
    | cons z zones ih =>
      cases zones' with
      | nil => cases hrunning
      | cons z' zones' =>
        simp only [List.map_cons, List.cons.injEq, Exposition.Sample.mk.injEq, Prod.mk.injEq,
          true_and, and_true] at hrunning hsessions htransitional hstopped ⊢
        exact ⟨shown_eq hrunning.1.1 hrunning.1.2 hsessions.1.2 htransitional.1.2 hstopped.1.2,
          ih hrunning.2 hsessions.2 htransitional.2 hstopped.2⟩
  · have hmode : (⟨_, if mode = mode then 1 else 0⟩ : Exposition.Sample) =
        ⟨_, if mode' = mode then 1 else 0⟩ :=
      List.map_inj_left.mp hmodes mode (by cases mode <;> decide)
    by_contra hne
    rw [if_pos rfl, if_neg (Ne.symm hne)] at hmode
    cases hmode
  · have hcount : (⟨_, (counters.count o).toNat⟩ : Exposition.Sample) =
        ⟨_, (counters'.count o).toNat⟩ :=
      List.map_inj_left.mp hcounts o (by cases o <;> decide)
    exact UInt64.toNat_inj.mp (congrArg Exposition.Sample.value hcount)

/-- A reader finds in the text of metrics what was put into it exactly if no id of a zone needs an
escape. Texts of different metrics differ then. -/
theorem readsBack_iff (zones : List ZoneCapacity) (mode : Mode) (counters : AssignCounters) :
    (read? (text zones mode counters) = some (report zones mode counters) ↔
      ∀ z ∈ zones, IsPlain z.zoneId) ∧
    ∀ zones' mode' counters', (∀ z ∈ zones, IsPlain z.zoneId) → (∀ z ∈ zones', IsPlain z.zoneId) →
      text zones mode counters = text zones' mode' counters' →
      zones.map shown = zones'.map shown ∧ mode = mode' ∧ counters.count = counters'.count := by
  refine ⟨⟨plain_of_read?, read?_text mode counters⟩, fun zones' mode' counters' h h' heq => ?_⟩
  have hread := read?_text mode counters h
  rw [heq, read?_text mode' counters' h', Option.some_inj] at hread
  exact eq_of_report_eq hread.symm

end

/-- Two zones whose ids need no escapes. -/
def plainZones (total : UInt32) : List ZoneCapacity :=
  [⟨"eu-west", 2, 40, 1, 0, total⟩, ⟨"café #1", 0, 0, 0, 2, total⟩]

/-- The text of two zones is read back. Their totals are not in it: with another total they give the
same text, and what is shown of them is the same. -/
theorem readsBack_iff_plainZones :
    read? (text (plainZones 3) .manual .zero) = some (report (plainZones 3) .manual .zero) ∧
      text (plainZones 3) .manual .zero = text (plainZones 4) .manual .zero ∧
      (plainZones 3).map shown = (plainZones 4).map shown := by
  have hplain : ∀ z ∈ plainZones 3, IsPlain z.zoneId := by decide
  have hplain' : ∀ z ∈ plainZones 4, IsPlain z.zoneId := by decide
  have htext : text (plainZones 3) .manual .zero = text (plainZones 4) .manual .zero := rfl
  obtain ⟨hreads, hsame⟩ := readsBack_iff (plainZones 3) .manual .zero
  exact ⟨hreads.mpr hplain, htext, (hsame _ _ _ hplain hplain' htext).1⟩

/-- A zone whose id holds a double quote, which ends the label too soon. -/
theorem not_always_readsBack : ¬ ∀ zones mode counters,
    read? (text zones mode counters) = some (report zones mode counters) := by
  intro h
  have hplain := plain_of_read? (h [⟨"rack \"1\"", 1, 5, 0, 0, 1⟩] .auto .zero)
  exact absurd hplain (by decide)

end RelayFleet.Metrics
