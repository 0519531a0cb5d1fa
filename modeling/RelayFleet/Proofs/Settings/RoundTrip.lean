import RelayFleet.Proofs.Toml.Bounded
import RelayFleet.Proofs.Toml.Document
import RelayFleet.Settings.Toml

/-!
# Settings are read back

`Settings.parse_print`: settings that were loaded are sound (`Settings.Sound`), can be written to a
file, and are loaded from this file as they are. What is written is a document of which the reader
finds the entries (`Settings.read?_toToml`), and the entries decode to the settings
(`Settings.decoder_entries`); validation finds nothing to refuse or to change any more
(`Settings.Sound.validate`).
-/

namespace RelayFleet

open Json Json.Decoder Json.Record

/-! ## Entries -/

/-- The entries of the section of the fleet. -/
def FleetSettings.entries (s : FleetSettings) : List (String × Toml.Value) :=
  [("capacity_per_instance", .integer s.capacityPerInstance.toNat),
    ("standby_threshold", .integer s.standbyThreshold.toNat),
    ("scan_interval_ms", .integer s.scanIntervalMs.toNat),
    ("initial_scan_delay_ms", .integer s.initialScanDelayMs.toNat),
    ("allocation_lock_timeout_secs", .integer s.allocationLockTimeoutSecs.toNat),
    ("session_sticky_timeout_ms", .integer s.sessionStickyTimeoutMs.toNat),
    ("launch_max_per_zone", .integer s.launchMaxPerZone.toNat),
    ("allocation_policy", .string s.allocationPolicy.name),
    ("relay_template", .string s.relayTemplate),
    ("relay_offering", .string s.relayOffering)]

/-- The entry of an optional string, if there is one. -/
def optionalEntry (key : String) (s : Option String) : List (String × Toml.Value) :=
  s.toList.map fun s => (key, .string s)

/-- The entries of the section of the endpoints. -/
def EndpointSettings.entries (s : EndpointSettings) : List (String × Toml.Value) :=
  [("tls_enabled", .boolean s.tlsEnabled)] ++ optionalEntry "url_domain" s.urlDomain ++
    [("console_port", .integer s.consolePort.toNat)] ++
    optionalEntry "static_public_address" s.staticPublicAddress ++
    [("static_port", .integer s.staticPort.toNat)]

/-- The entries of the section of a zone. -/
def ZoneSettings.entries (z : ZoneSettings) : List (String × Toml.Value) :=
  [("id", .string z.id), ("enabled", .boolean z.enabled),
    ("relay_required", .boolean z.relayRequired), ("hosts_up", .integer z.hostsUp.toNat),
    ("boot_image_ready", .boolean z.bootImageReady),
    ("primary_storage_ready", .boolean z.primaryStorageReady)]

/-- The entries before the first header: an empty list of zones. -/
def Settings.rootEntries (s : Settings) : List (String × Toml.Value) :=
  if s.zones.isEmpty then [("zones", .array [])] else []

/-- The entries of the document. -/
def Settings.entries (s : Settings) : List (String × Toml.Value) :=
  s.rootEntries ++ [("fleet", .table s.fleet.entries), ("endpoint", .table s.endpoint.entries)] ++
    if s.zones.isEmpty then [] else [("zones", .array (s.zones.map fun z => .table z.entries))]

/-- No entry of the fleet stands twice. -/
theorem FleetSettings.nodup_entries (s : FleetSettings) : (s.entries.map (·.1)).Nodup := by
  simp [entries]

/-- No entry of the endpoints stands twice. -/
theorem EndpointSettings.nodup_entries (s : EndpointSettings) : (s.entries.map (·.1)).Nodup := by
  obtain ⟨tls, domain, consolePort, address, staticPort⟩ := s
  cases domain <;> cases address <;> simp [entries, optionalEntry]

/-- No entry of a zone stands twice. -/
theorem ZoneSettings.nodup_entries (z : ZoneSettings) : (z.entries.map (·.1)).Nodup := by
  simp [entries]

/-! ## The entries decode to the settings -/

/-- A policy is read back. -/
@[simp] theorem PolicyKind.decoder_encode (empty : Value → Bool) (p : PolicyKind) :
    PolicyKind.decoder empty p.encode = .ok p := by
  cases p <;> rfl

/-- The settings of the fleet are read back. -/
theorem FleetSettings.decoder_entries (empty : Value → Bool) (s : FleetSettings) :
    FleetSettings.decoder empty (Toml.Value.table s.entries).toJson = .ok s := by
  have hpolicy : PolicyKind.decoder empty (.string s.allocationPolicy.name) =
      .ok s.allocationPolicy := PolicyKind.decoder_encode empty _
  rw [Toml.Value.toJson_table]
  refine decoder_object ?_ (by simp [entries]) ?_
  · simp [entries, record, defaulted, Record.field, Fits, hpolicy]
  · simp [entries, record, defaulted, Record.field, lookup, hpolicy]
    rfl

/-- The settings of the endpoints are read back, whatever they leave out. -/
theorem EndpointSettings.decoder_entries (s : EndpointSettings) :
    EndpointSettings.decoder (Toml.Value.table s.entries).toJson = .ok s := by
  obtain ⟨tls, domain, consolePort, address, staticPort⟩ := s
  rw [Toml.Value.toJson_table]
  -- which members there are depends on what is given
  cases domain <;> cases address <;>
    simp [decoder, entries, optionalEntry, record, defaulted, Record.field, Record.decoder,
      checkMembers, lookup, Decoder.optional] <;> rfl

/-- The settings of a zone are read back. -/
theorem ZoneSettings.decoder_entries (z : ZoneSettings) :
    ZoneSettings.decoder (Toml.Value.table z.entries).toJson = .ok z := by
  rw [Toml.Value.toJson_table]
  refine decoder_object ?_ (by simp [entries]) ?_
  · simp [entries, record, required, defaulted, Record.field, Fits]
  · simp [entries, record, required, defaulted, Record.field, lookup]
    rfl

/-- The zones are read back. -/
theorem ZoneSettings.list_entries (zones : List ZoneSettings) :
    list ZoneSettings.decoder (Toml.Value.array (zones.map fun z => .table z.entries)).toJson =
      .ok zones := by
  have hzones := list_map ZoneSettings.decoder_entries zones
  rw [List.map_id'] at hzones
  rw [Toml.Value.toJson_array, List.map_map]
  exact hzones

/-- The settings are read back. -/
theorem Settings.decoder_entries (empty : Value → Bool) (s : Settings) :
    Settings.decoder empty (Toml.Value.table s.entries).toJson = .ok s := by
  obtain ⟨fleet, endpoint, zones⟩ := s
  have hfleet := fleet.decoder_entries empty
  have hendpoint := endpoint.decoder_entries
  have hzones := ZoneSettings.list_entries zones
  rw [Toml.Value.toJson_table]
  by_cases hempty : zones = []
  · subst hempty
    simp [entries, rootEntries, decoder, record, defaulted, Record.field, Record.decoder,
      checkMembers, lookup, Toml.Value.toJson_array, hfleet, hendpoint, Decoder.list, Decoder.items]
    rfl
  · have hentries : entries ⟨fleet, endpoint, zones⟩ = [("fleet", .table fleet.entries),
        ("endpoint", .table endpoint.entries),
        ("zones", .array (zones.map fun z => .table z.entries))] := by
      simp [entries, rootEntries, hempty]
    rw [hentries]
    refine decoder_object ?_ (by simp) ?_
    · simp [record, defaulted, Record.field, Fits, hfleet, hendpoint, hzones]
    · simp [record, defaulted, Record.field, lookup, hfleet, hendpoint, hzones]
      rfl

/-! ## What is written is read as the entries -/

namespace Settings

open Toml

/-- A number of the settings is read back. -/
theorem lines_natural (key : String) (hkey : isBare key) {n : Nat} (hn : n < integerLimit) :
    Lines (naturalLine key n) [.under key (.integer n)] :=
  .line hkey fun _ => value?_toDigits hn nestingLimit

/-- A number of thirty-two bits is read back, since TOML can hold it. -/
theorem lines_uint32 (key : String) (hkey : isBare key) (n : UInt32) :
    Lines (naturalLine key n.toNat) [.under key (.integer n.toNat)] :=
  lines_natural key hkey (Nat.lt_trans n.toNat_lt (by decide))

/-- A number of sixteen bits is read back, since TOML can hold it. -/
theorem lines_uint16 (key : String) (hkey : isBare key) (n : UInt16) :
    Lines (naturalLine key n.toNat) [.under key (.integer n.toNat)] :=
  lines_natural key hkey (Nat.lt_trans n.toNat_lt (by decide))

/-- A switch of the settings is read back. -/
theorem lines_boolean (key : String) (hkey : isBare key) (b : Bool) :
    Lines (booleanLine key b) [.under key (.boolean b)] :=
  .line hkey fun _ => value?_boolean b nestingLimit

/-- A string of the settings is read back. -/
theorem lines_string (key : String) (hkey : isBare key) (s : String) :
    Lines (stringLine key s) [.under key (.string s)] :=
  .line hkey fun _ => value?_stringText s nestingLimit

/-- An optional string of the settings is read back. -/
theorem lines_optional (key : String) (hkey : isBare key) (s : Option String) :
    Lines (optionalLine key s) (underEach (optionalEntry key s)) := by
  cases s with
  | none => exact .nil
  | some s => exact lines_string key hkey s

/-- TOML can hold the numbers of sixty-four bits. -/
structure FleetFits (s : FleetSettings) : Prop where
  scanInterval : s.scanIntervalMs.toNat < integerLimit
  initialScanDelay : s.initialScanDelayMs.toNat < integerLimit
  allocationLockTimeout : s.allocationLockTimeoutSecs.toNat < integerLimit
  sessionStickyTimeout : s.sessionStickyTimeoutMs.toNat < integerLimit

/-- Settings can be written when TOML can hold their numbers. -/
theorem fitsToml_iff {s : Settings} : s.fitsToml ↔ FleetFits s.fleet := by
  simp only [fitsToml, List.all_cons, List.all_nil, Bool.and_true, Bool.and_eq_true,
    decide_eq_true_eq]
  exact ⟨fun ⟨h1, h2, h3, h4⟩ => ⟨h1, h2, h3, h4⟩, fun ⟨h1, h2, h3, h4⟩ => ⟨h1, h2, h3, h4⟩⟩

/-- The section of the fleet is read back, if TOML can hold its numbers. -/
theorem headed_fleet {s : Settings} (hs : s.fitsToml) :
    Headed (fleetText s.fleet) (.table ⟨[], "fleet"⟩)
      (underEach s.fleet.entries) := by
  obtain ⟨hscan, hdelay, hlock, hsticky⟩ := fitsToml_iff.mp hs
  have hread := Headed.table "fleet" (by decide)
    |>.append (lines_uint32 "capacity_per_instance" (by decide) s.fleet.capacityPerInstance)
    |>.append (lines_uint32 "standby_threshold" (by decide) s.fleet.standbyThreshold)
    |>.append (lines_natural "scan_interval_ms" (by decide) hscan)
    |>.append (lines_natural "initial_scan_delay_ms" (by decide) hdelay)
    |>.append (lines_natural "allocation_lock_timeout_secs" (by decide) hlock)
    |>.append (lines_natural "session_sticky_timeout_ms" (by decide) hsticky)
    |>.append (lines_uint32 "launch_max_per_zone" (by decide) s.fleet.launchMaxPerZone)
    |>.append (lines_string "allocation_policy" (by decide) s.fleet.allocationPolicy.name)
    |>.append (lines_string "relay_template" (by decide) s.fleet.relayTemplate)
    |>.append (lines_string "relay_offering" (by decide) s.fleet.relayOffering)
  exact hread

/-- The section of the endpoints is read back. -/
theorem headed_endpoint (s : EndpointSettings) :
    Headed (endpointText s) (.table ⟨[], "endpoint"⟩) (underEach s.entries) := by
  have hread := Headed.table "endpoint" (by decide)
    |>.append (lines_boolean "tls_enabled" (by decide) s.tlsEnabled)
    |>.append (lines_optional "url_domain" (by decide) s.urlDomain)
    |>.append (lines_uint16 "console_port" (by decide) s.consolePort)
    |>.append (lines_optional "static_public_address" (by decide) s.staticPublicAddress)
    |>.append (lines_uint16 "static_port" (by decide) s.staticPort)
  simp only [underEach, EndpointSettings.entries, List.map_append]
  exact hread

/-- The section of a zone is read back. -/
theorem headed_zone (z : ZoneSettings) :
    Headed (zoneText z) (.item ⟨[], "zones"⟩) (underEach z.entries) := by
  have hread := Headed.item "zones" (by decide)
    |>.append (lines_string "id" (by decide) z.id)
    |>.append (lines_boolean "enabled" (by decide) z.enabled)
    |>.append (lines_boolean "relay_required" (by decide) z.relayRequired)
    |>.append (lines_uint32 "hosts_up" (by decide) z.hostsUp)
    |>.append (lines_boolean "boot_image_ready" (by decide) z.bootImageReady)
    |>.append (lines_boolean "primary_storage_ready" (by decide) z.primaryStorageReady)
  exact hread

/-- The sections of the zones are read back. -/
theorem document_zones (zones : List ZoneSettings) :
    Document (zones.flatMap fun z => '\n' :: zoneText z)
      (zones.map fun z => .plain (.item ⟨[], "zones"⟩) z.entries) := by
  induction zones with
  | nil => exact .nil
  | cons z zones ih => exact (Document.headed (headed_zone z) ih).blank

/-- The sections of the settings. -/
def sections (s : Settings) : List Section :=
  .plain .root s.rootEntries ::
    .plain (.table ⟨[], "fleet"⟩) s.fleet.entries ::
    .plain (.table ⟨[], "endpoint"⟩) s.endpoint.entries ::
    s.zones.map fun z => .plain (.item ⟨[], "zones"⟩) z.entries

/-- The text of the settings is read as their sections. -/
theorem sections?_toToml {s : Settings} (hs : s.fitsToml) :
    sections? s.toToml = some s.sections := by
  have hsections := Document.headed (headed_fleet hs)
    (Document.headed (headed_endpoint s.endpoint) (document_zones s.zones)).blank
  have htext : s.toToml = (if s.zones.isEmpty then "zones = []\n\n".toList else []) ++
      (fleetText s.fleet ++ '\n' :: (endpointText s.endpoint ++
        s.zones.flatMap fun z => '\n' :: zoneText z)) := by
    simp only [toToml, List.append_assoc]
    rfl
  rw [htext]
  unfold sections rootEntries
  split
  · have hzones : Lines (line "zones" ['[', ']']) [.under "zones" (.array [])] :=
      .line (by decide) fun _ => value?_empty _
    have hline : "zones = []\n\n".toList = line "zones" ['[', ']'] ++ ['\n'] := rfl
    rw [hline, List.append_assoc]
    refine Document.sections?_eq (fun t heq => ?_) hzones hsections.blank
    have hhead : some 'z' = some '\uFEFF' := congrArg List.head? heq
    cases hhead
  · refine Document.sections?_eq (fun t heq => ?_) .nil hsections
    have hhead : some '[' = some '\uFEFF' := congrArg List.head? heq
    cases hhead

/-- The table that the sections before those of the zones make. -/
def settledEntries (s : Settings) : Node.Entries :=
  s.rootEntries.map Node.ofValue ++
    [("fleet", .table .explicit (s.fleet.entries.map Node.ofValue))] ++
    [("endpoint", .table .explicit (s.endpoint.entries.map Node.ofValue))]

/-- The sections before those of the zones are put into the root. -/
theorem addSections?_settled (s : Settings) (rest : List Section) :
    (.plain .root s.rootEntries ::
      .plain (.table ⟨[], "fleet"⟩) s.fleet.entries ::
      .plain (.table ⟨[], "endpoint"⟩) s.endpoint.entries ::
      rest).foldlM Node.addSection? [] = rest.foldlM Node.addSection? s.settledEntries := by
  have hroot : Node.addSection? [] (.plain .root s.rootEntries) =
      some (s.rootEntries.map Node.ofValue) := by
    refine Node.insertAll?_under [] ?_
    unfold rootEntries
    split <;> simp
  have hnew : ∀ key ≠ "zones", key ∉ (s.rootEntries.map Node.ofValue).map (·.1) := by
    intro key hkey
    unfold rootEntries
    split <;> simp [Node.ofValue, hkey]
  have hnewer : "endpoint" ∉ (s.rootEntries.map Node.ofValue ++
      [("fleet", Node.table .explicit (s.fleet.entries.map Node.ofValue))]).map (·.1) := by
    rw [List.map_append, List.mem_append, not_or]
    exact ⟨hnew "endpoint" (by decide), by simp⟩
  have hfleet := Node.addSection?_table (hnew "fleet" (by decide)) s.fleet.nodup_entries
  have hendpoint := Node.addSection?_table hnewer s.endpoint.nodup_entries
  simp only [List.foldlM_cons, hroot, hfleet, hendpoint, Option.bind_eq_bind, Option.bind_some]
  rfl

/-- The sections of the settings make the table of their entries. -/
theorem ofSections?_sections (s : Settings) : ∃ root, Node.ofSections? s.sections = some root ∧
    root.toValue = .table s.entries := by
  have hsettled := s.addSections?_settled
    (s.zones.map fun z => .plain (.item ⟨[], "zones"⟩) z.entries)
  have hfleet := Node.toValue_table_ofValue .explicit s.fleet.entries
  have hendpoint := Node.toValue_table_ofValue .explicit s.endpoint.entries
  by_cases hzones : s.zones = []
  · rw [hzones, List.map_nil, List.foldlM_nil] at hsettled
    have hsections : Node.ofSections? s.sections = some (.table .explicit s.settledEntries) := by
      rw [Node.ofSections?, sections, hzones, List.map_nil, hsettled]
      rfl
    refine ⟨_, hsections, ?_⟩
    rw [Node.toValue_table]
    simp [settledEntries, entries, rootEntries, hzones, hfleet, hendpoint, Node.ofValue]
  · have hroot : s.rootEntries = [] := by simp [rootEntries, hzones]
    have hnew : "zones" ∉ s.settledEntries.map (·.1) := by simp [settledEntries, hroot]
    have hnodup : ∀ ms ∈ s.zones.map ZoneSettings.entries, (ms.map (·.1)).Nodup := by
      intro ms hms
      obtain ⟨z, -, rfl⟩ := List.mem_map.mp hms
      exact z.nodup_entries
    have hitems := Node.addSections?_newItems hnew hnodup (by simpa using hzones)
    have htables := Node.toValue_tables_ofValue (s.zones.map ZoneSettings.entries)
    rw [List.map_map, List.map_map] at hitems htables
    refine ⟨_, congrArg (Option.map (Node.table .explicit)) (hsettled.trans hitems), ?_⟩
    rw [Node.toValue_table]
    simp [settledEntries, entries, hzones, hroot, hfleet, hendpoint, htables]

/-- What is written is read as the entries of the settings. -/
theorem read?_toToml {s : Settings} (hs : s.fitsToml) :
    read? s.toToml = some (.table s.entries) := by
  obtain ⟨root, hroot, hvalue⟩ := ofSections?_sections s
  simp [read?, sections?_toToml hs, hroot, hvalue]

/-! ## What was read can be written -/

/-- A number of sixty-four bits that came from a document is below the limit of TOML. -/
theorem gives_uint64 (name : String) {n : UInt64} (hn : n.toNat < integerLimit) :
    Gives (Json.Value.Below integerLimit) (defaulted name uint64 n)
      fun a => a.toNat < integerLimit := by
  refine Gives.field (fun v a hv hd => ?_) fun a ha => ?_
  · rw [eq_natural_of_uint64 hd] at hv
    cases hv with
    | natural h => exact h
  · cases ha
    exact hn

/-- Whatever a field is, something holds of it. -/
theorem gives_any {α : Type} (name : String) (d : Decoder α) (a : α) :
    Gives (Json.Value.Below integerLimit) (defaulted name d a) fun _ => True :=
  .field (fun _ _ _ _ => trivial) fun _ _ => trivial

/-- Settings of the fleet that came from a document can be written into one. -/
theorem gives_fleetFits (empty : Json.Value → Bool) :
    Gives (Json.Value.Below integerLimit) (FleetSettings.record empty) FleetFits := by
  refine (((((((((Gives.map (gives_any _ _ _) ?_).seq (gives_any _ _ _)).seq
    (gives_uint64 _ (by decide))).seq (gives_uint64 _ (by decide))).seq
    (gives_uint64 _ (by decide))).seq (gives_uint64 _ (by decide))).seq
    (gives_any _ _ _)).seq (gives_any _ _ _)).seq (gives_any _ _ _)).seq (gives_any _ _ _)
  intro _ _ _ _ scan hscan delay hdelay lock hlock sticky hsticky _ _ _ _ _ _ _ _
  exact ⟨hscan, hdelay, hlock, hsticky⟩

/-- Settings that came from a document can be written into one. -/
theorem gives_fitsToml (empty : Json.Value → Bool) :
    Gives (Json.Value.Below integerLimit) (Settings.record empty) fun s => s.fitsToml := by
  have hfleet : Gives (Json.Value.Below integerLimit)
      (defaulted "fleet" (FleetSettings.decoder empty) FleetSettings.default) FleetFits := by
    refine .field (fun v s hv hd => (gives_fleetFits empty).of_decoder hv hd) fun s hs => ?_
    cases hs
    exact ⟨by decide, by decide, by decide, by decide⟩
  refine ((hfleet.map ?_).seq (gives_any _ _ _)).seq (gives_any _ _ _)
  intro fleet hfits _ _ _ _
  exact fitsToml_iff.mpr hfits

/-- Settings that were read can be written. -/
theorem fitsToml_of_ofToml? {text : List Char} {s : Settings} (h : ofToml? text = some s) :
    s.fitsToml := by
  simp only [ofToml?, bind, Option.bind_eq_some_iff] at h
  obtain ⟨v, hread, hdecode⟩ := h
  cases hdecoded : Settings.decoder isEmptyTable v.toJson with
  | error e =>
    rw [hdecoded] at hdecode
    cases hdecode
  | ok s' =>
    rw [hdecoded] at hdecode
    cases hdecode
    exact (gives_fitsToml isEmptyTable).of_decoder (bounded_of_read? hread) hdecoded

/-- Settings that can be written are read from what is written. -/
theorem ofToml?_toToml {s : Settings} (hs : s.fitsToml) : ofToml? s.toToml = some s := by
  simp [ofToml?, read?_toToml hs, decoder_entries, Except.toOption]

end Settings

/-! ## Validation -/

namespace Settings

/-- Settings that can work: relays have room, the scan makes pauses, every zone stands once, and TLS
is on only where a domain is given that is not blank. -/
structure Sound (s : Settings) : Prop where
  capacity : 0 < s.fleet.capacityPerInstance
  scanInterval : 0 < s.fleet.scanIntervalMs
  zones : (s.zones.map (·.id)).Nodup
  domain : s.endpoint.tlsEnabled → ∃ d, s.endpoint.urlDomain = some d ∧ Text.isBlank d = false

/-- No name is repeated when none stands twice or among those before. -/
theorem firstRepeated?_eq_none {seen ids : List ZoneId} :
    firstRepeated? seen ids = none ↔ ids.Nodup ∧ ∀ id ∈ ids, id ∉ seen := by
  induction ids generalizing seen with
  | nil => simp [firstRepeated?]
  | cons id ids ih =>
    unfold firstRepeated?
    split
    · next hid => simp [List.contains_iff_mem.mp hid]
    · next hid =>
      have hid : id ∉ seen := fun h => hid (List.contains_iff_mem.mpr h)
      rw [ih, List.nodup_cons, List.forall_mem_cons]
      grind

/-- A domain counts where it is not blank. -/
theorem hasDomain_iff {s : EndpointSettings} :
    s.hasDomain ↔ ∃ d, s.urlDomain = some d ∧ Text.isBlank d = false := by
  unfold EndpointSettings.hasDomain
  split
  · next d hd => simp [hd]
  · next hd => simp [hd]

/-- What validation lets pass is sound, and nothing but TLS has changed. -/
theorem validate_ok {s c : Settings} (h : s.validate = .ok c) :
    c.Sound ∧ c.fleet = s.fleet ∧ c.zones = s.zones := by
  unfold Settings.validate at h
  split at h
  · cases h
  · next hcapacity =>
    split at h
    · cases h
    · next hscan =>
      split at h
      · cases h
      · next hzones =>
        cases h
        refine ⟨⟨UInt32.pos_iff_ne_zero.mpr hcapacity, UInt64.pos_iff_ne_zero.mpr hscan,
          (firstRepeated?_eq_none.mp hzones).1, fun htls => ?_⟩, rfl, rfl⟩
        exact hasDomain_iff.mp (Bool.and_eq_true_iff.mp htls).2

/-- Validation lets sound settings pass as they are. -/
theorem Sound.validate {c : Settings} (h : c.Sound) : c.validate = .ok c := by
  have hcapacity : c.fleet.capacityPerInstance ≠ 0 :=
    UInt32.pos_iff_ne_zero.mp h.capacity
  have hscan : c.fleet.scanIntervalMs ≠ 0 := UInt64.pos_iff_ne_zero.mp h.scanInterval
  have hzones := firstRepeated?_eq_none.mpr ⟨h.zones, fun _ _ => List.not_mem_nil⟩
  have htls : (c.endpoint.tlsEnabled && c.endpoint.hasDomain) = c.endpoint.tlsEnabled := by
    cases htls : c.endpoint.tlsEnabled with
    | false => rfl
    | true => exact hasDomain_iff.mpr (h.domain htls)
  rw [Settings.validate, if_neg hcapacity, if_neg hscan, hzones, htls]

/-- Sound settings that can be written are loaded from what is written. -/
theorem Sound.parse_of_print? {c : Settings} (h : c.Sound) {printed : String}
    (hprint : c.print? = some printed) : parse printed = .ok c := by
  unfold print? at hprint
  split at hprint
  · next hfits =>
    cases hprint
    simp [parse, ofToml?_toToml hfits, h.validate]
  · cases hprint

/-- **Settings are read back.** Settings that were loaded are sound and pass validation as they are,
and they can be written to a text from which they are loaded again. -/
theorem parse_print {text : String} {c : Settings} (h : parse text = .ok c) :
    c.Sound ∧ c.validate = .ok c ∧
      ∃ printed, c.print? = some printed ∧ parse printed = .ok c := by
  unfold parse at h
  split at h
  · cases h
  · next s hs =>
    split at h
    · cases h
    · next c' hvalidate =>
      cases h
      obtain ⟨hsound, hfleet, -⟩ := validate_ok hvalidate
      have hfits : c.fitsToml := by
        rw [fitsToml_iff, hfleet]
        exact fitsToml_iff.mp (fitsToml_of_ofToml? hs)
      have hprint : c.print? = some (String.ofList c.toToml) := if_pos hfits
      exact ⟨hsound, hsound.validate, _, hprint, hsound.parse_of_print? hprint⟩

/-- A zone whose name holds a double quote, and TLS without a domain, which is switched off. -/
theorem parse_print_zone :
    ∃ c, parse "endpoint.tls_enabled = true\n[[zones]]\nid = 'a\"b'" = .ok c ∧
      c.zones.map (·.id) = ["a\"b"] ∧ c.endpoint.tlsEnabled = false ∧
      ∃ printed, c.print? = some printed ∧ parse printed = .ok c := by
  have hsections : Toml.sections? "endpoint.tls_enabled = true\n[[zones]]\nid = 'a\"b'".toList =
      some [⟨.root, [⟨⟨["endpoint"], "tls_enabled"⟩, .boolean true⟩]⟩,
        ⟨.item ⟨[], "zones"⟩, [⟨⟨[], "id"⟩, .string "a\"b"⟩]⟩] := rfl
  have hnode : Toml.Node.ofSections? [⟨.root, [⟨⟨["endpoint"], "tls_enabled"⟩, .boolean true⟩]⟩,
      ⟨.item ⟨[], "zones"⟩, [⟨⟨[], "id"⟩, .string "a\"b"⟩]⟩] = some (.table .explicit
        [("endpoint", .table .dotted [("tls_enabled", .value (.boolean true))]),
          ("zones", .tables [[("id", .value (.string "a\"b"))]])]) := rfl
  have hdecoded : Settings.decoder isEmptyTable (Toml.Node.table .explicit
        [("endpoint", .table .dotted [("tls_enabled", .value (.boolean true))]),
          ("zones", .tables [[("id", .value (.string "a\"b"))]])]).toValue.toJson =
      .ok ⟨.default, { EndpointSettings.default with tlsEnabled := true },
        [⟨"a\"b", true, true, 1, true, true⟩]⟩ := rfl
  have hparse : parse "endpoint.tls_enabled = true\n[[zones]]\nid = 'a\"b'" =
      .ok ⟨.default, .default, [⟨"a\"b", true, true, 1, true, true⟩]⟩ := by
    simp only [parse, ofToml?, Toml.read?, hsections, hnode, hdecoded, bind, pure, Option.bind_some,
      Except.toOption]
    rfl
  exact ⟨_, hparse, rfl, rfl, (parse_print hparse).2.2⟩

end Settings

end RelayFleet
