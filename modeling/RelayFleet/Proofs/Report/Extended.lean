import RelayFleet.Proofs.Json.Presentation
import RelayFleet.Proofs.Registry.Codec

/-!
# Reports may be extended

A relay may write its report as it likes, and add to it whatever it likes: `StatusReport.Shown` says
which objects show a report, and every text of such an object is parsed to the report
(`StatusReport.parse_shown`). A record finds its fields in an object wherever they stand, as long as
none stands there twice, and skips what is not a field (`Record.decoder_extended`).
-/

namespace RelayFleet

open Json Json.Record

/-- The object with these members shows the connection. -/
structure Connection.Shown (c : Connection) (ms : List (String × Value)) : Prop where
  fields : Extends ["tag", "clientAddress", "createdAt", "lastUsedAt"] ms
  tag : lookup ms "tag" = some (.string c.tag)
  clientAddress : ShowsOption (c.clientAddress.map .string) (lookup ms "clientAddress")
  createdAt : ShowsOption (c.createdAt.map fun t => .natural t.toNat) (lookup ms "createdAt")
  lastUsedAt : ShowsOption (c.lastUsedAt.map fun t => .natural t.toNat) (lookup ms "lastUsedAt")

/-- The object with these members shows the report. -/
structure StatusReport.Shown (r : StatusReport) (ms : List (String × Value)) : Prop where
  fields : Extends ["version", "activeConnections", "expiredTags"] ms
  version : lookup ms "version" = some (.natural r.version.toNat) ∨
    lookup ms "version" = none ∧ r.version = 1
  activeConnections : ∃ vs, lookup ms "activeConnections" = some (.array vs) ∧
    List.Forall₂ (fun c v => ∃ ms, v = .object ms ∧ Connection.Shown c ms) r.activeConnections vs
  expiredTags : lookup ms "expiredTags" = some (.array (r.expiredTags.map .string)) ∨
    lookup ms "expiredTags" = none ∧ r.expiredTags = []

section
variable {ms : List (String × Value)}

/-- An object that shows a connection decodes to it. -/
theorem Connection.decoder_shown {c : Connection} (shown : c.Shown ms)
    (hintact : (Value.object ms).intact) : Connection.decoder (.object ms) = .ok c := by
  have haddress := Decoder.optional_shown (d := Decoder.string) (fun _ => rfl) shown.clientAddress
  have hnumber : ∀ n : UInt64, Decoder.uint64.optional (.natural n.toNat) = .ok (some n) := by
    intro n
    show some <$> Decoder.uint64 (.natural n.toNat) = _
    rw [Decoder.uint64_natural]
    rfl
  have hcreated := Decoder.optional_shown hnumber shown.createdAt
  have hused := Decoder.optional_shown hnumber shown.lastUsedAt
  have htag : ∀ v, lookup ms "tag" = some v → Decoder.string v = .ok c.tag := by
    intro v hv
    rw [shown.tag] at hv
    cases hv
    rfl
  have hmissing : ∀ {α : Type} {x : Option α} {o : Option Value}, (o = none → x = none) →
      o = none → (.ok none : Except Fault (Option α)) = .ok x :=
    fun h ho => congrArg _ (h ho).symm
  have hrequired : lookup ms "tag" ≠ none := by simp [shown.tag]
  exact decoder_extended shown.fields hintact
    (((((Finds.field htag fun h => absurd h hrequired).map Connection.mk).seq
      (.field haddress.1 (hmissing haddress.2))).seq
      (.field hcreated.1 (hmissing hcreated.2))).seq
      (.field hused.1 (hmissing hused.2)))

/-- Objects that show connections decode to them. -/
theorem Connection.items_shown {cs : List Connection} {vs : List Value}
    (shown : List.Forall₂ (fun c v => ∃ ms, v = .object ms ∧ Connection.Shown c ms) cs vs)
    (hintact : Value.itemsIntact vs) : Decoder.items Connection.decoder vs = .ok cs := by
  induction shown with
  | nil => rfl
  | @cons c v cs vs hfirst _ ih =>
    obtain ⟨hv, hvs⟩ := Bool.and_eq_true_iff.mp hintact
    obtain ⟨ms, rfl, hc⟩ := hfirst
    rw [Decoder.items, Connection.decoder_shown hc hv, ih hvs]
    rfl

namespace StatusReport

/-- An object that shows a report decodes to it. -/
theorem decoder_shown {r : StatusReport} (shown : r.Shown ms)
    (hintact : (Value.object ms).intact) : StatusReport.decoder (.object ms) = .ok r := by
  obtain ⟨vs, hlookup, hconnections⟩ := shown.activeConnections
  have hvs : (Value.array vs).intact :=
    intact_of_mem hintact (mem_of_lookup hlookup) (shown.fields.named _ (mem_of_lookup hlookup))
  have htags := Decoder.list_map Decoder.string_string r.expiredTags
  rw [List.map_id'] at htags
  refine decoder_extended shown.fields hintact
    ((((Finds.field ?_ ?_).map StatusReport.mk).seq (.field ?_ ?_)).seq (.field ?_ ?_))
  · intro v hv
    rcases shown.version with hversion | ⟨hversion, -⟩
    · rw [hversion] at hv
      cases hv
      exact Decoder.uint32_natural r.version
    · rw [hversion] at hv
      cases hv
  · intro hnone
    rcases shown.version with hversion | ⟨-, hone⟩
    · rw [hversion] at hnone
      cases hnone
    · exact congrArg _ hone.symm
  · intro v hv
    rw [hlookup] at hv
    cases hv
    exact Connection.items_shown hconnections hvs
  · intro hnone
    rw [hlookup] at hnone
    cases hnone
  · intro v hv
    rcases shown.expiredTags with hexpired | ⟨hexpired, -⟩
    · rw [hexpired] at hv
      cases hv
      exact htags
    · rw [hexpired] at hv
      cases hv
  · intro hnone
    rcases shown.expiredTags with hexpired | ⟨-, hempty⟩
    · rw [hexpired] at hnone
      cases hnone
    · exact congrArg _ hempty.symm

/-- A report that was accepted is of the version that is understood. -/
theorem version_of_parse {r : StatusReport} {text : String} (h : parse text = .ok r) :
    r.version = 1 := by
  unfold parse at h
  split at h
  · cases h
  · split at h
    · cases h
    · next hversion =>
      cases h
      obtain ⟨hzero, hmax⟩ := not_or.mp hversion
      have hle : r.version.toNat ≤ 1 := UInt32.le_iff_toNat_le.mp (UInt32.not_lt.mp hmax)
      have hne : r.version.toNat ≠ 0 := fun heq => hzero (UInt32.toNat_inj.mp heq)
      refine UInt32.toNat_inj.mp ?_
      rw [UInt32.toNat_one]
      omega

/-- **Reports may be extended.** Whatever a relay adds to its report, in whatever order, with
whatever blanks and in whatever way it writes the strings, the report is read as it is; and what is
accepted at all is of the version that is understood, and is the same when it is written out and
read again. -/
theorem parse_shown :
    (∀ (r : StatusReport) (ms : List (String × Value)) (text : String), r.version = 1 →
      r.Shown ms → PresentsPadded (.object ms) text.toList → parse text = .ok r) ∧
    ∀ (text : String) (r : StatusReport), parse text = .ok r →
      r.version = 1 ∧ parse r.encode.render = .ok r := by
  refine ⟨fun r ms text hversion shown presents => ?_, fun text r h => ?_⟩
  · have hdecodes := decoder_shown shown presents.intact
    have hrun : StatusReport.decoder.run? text = some r := by
      rw [Decoder.run?, Decoder.run, read_padded presents, Decoder.decode_whole, hdecodes]
      rfl
    rw [parse, hrun]
    simp [hversion, reportVersion]
  · have hversion := version_of_parse h
    exact ⟨hversion, parse_encode hversion⟩

/-- A report with a note that is no text, without a version, with a name that is written with an
escape and with an option that is `null`. -/
theorem parse_shown_note :
    parse ("\x7b\"note\": [1e3,\"\\ud800\"], \"activeConnections\":" ++
      "[\x7b\"t\\u0061g\":\"w\",\"createdAt\":null\x7d]\x7d") =
      .ok ⟨1, [⟨"w", none, none, none⟩], []⟩ := by
  have hempty : Blanks [] := List.forall_mem_nil _
  have hblank : Blanks [' '] := by simp [Blanks, IsBlank]
  have pad : ∀ {v : Value} {cs : List Char}, Presents v cs → PresentsPadded v (cs ++ []) :=
    fun h => .mk hempty h hempty
  have string : ∀ ps : List Piece, (∀ p ∈ ps, p.valid) →
      Presents (stringValue (spelled ps)) (quote ps) := fun _ => .string
  have key : ∀ {ws : List Char}, Blanks ws → ∀ ps : List Piece, (∀ p ∈ ps, p.valid) →
      PresentsKey ((spelled ps).map String.ofList) (ws ++ (quote ps ++ [':'])) :=
    fun hws _ hps => .mk hws hps hempty
  have hwhole : IsWhole ['1'] := .inr (by simp [IsDigits])
  have hexponent : IsExponent ['e', '3'] :=
    .inr ⟨'e', [], ['3'], rfl, .inl rfl, .inl rfl, by simp [IsDigits]⟩
  have hnumber : IsNumber ['1', 'e', '3'] := .mk (.inl rfl) hwhole (.inl rfl) hexponent
  have hhalf : Presents .unpaired (quote [.code 'd' '8' '0' '0']) :=
    string [.code 'd' '8' '0' '0'] (by decide)
  have htag : Presents (.string "w") (quote [.char 'w']) := string [.char 'w'] (by decide)
  have note : PresentsPadded (.array [.decimal "1e3", .unpaired]) " [1e3,\"\\ud800\"]".toList :=
    .mk hblank (.array (.cons (pad (.number hnumber)) (.last (pad hhalf)))) hempty
  have connection : Presents (.object [("tag", .string "w"), ("createdAt", .null)])
      "\x7b\"t\\u0061g\":\"w\",\"createdAt\":null\x7d".toList :=
    .object (.cons (key hempty [.char 't', .code '0' '0' '6' '1', .char 'g'] (by decide))
      (pad htag) (.last (key hempty ("createdAt".toList.map .char) (by decide)) (pad .null)))
  have report := pad (.object (.cons (key hempty ("note".toList.map .char) (by decide)) note
    (.last (key hblank ("activeConnections".toList.map .char) (by decide))
      (pad (.array (.last (pad connection)))))))
  have hshown : Connection.Shown ⟨"w", none, none, none⟩
      [("tag", .string "w"), ("createdAt", .null)] :=
    ⟨⟨by decide, by simp⟩, rfl, .inl rfl, .inr ⟨rfl, rfl⟩, .inl rfl⟩
  have shown : StatusReport.Shown ⟨1, [⟨"w", none, none, none⟩], []⟩
      [("note", .array [.decimal "1e3", .unpaired]), ("activeConnections",
        .array [.object [("tag", .string "w"), ("createdAt", .null)]])] :=
    ⟨⟨by decide, by simp⟩, .inr ⟨rfl, rfl⟩, ⟨_, rfl, .cons ⟨_, rfl, hshown⟩ .nil⟩, .inr ⟨rfl, rfl⟩⟩
  exact parse_shown.1 _ _ _ rfl shown report

end StatusReport

end

end RelayFleet
