import RelayFleet.Proofs.Json.Record
import RelayFleet.Proofs.Json.RoundTrip
import RelayFleet.Registry.Basic
import RelayFleet.StatusReport

/-!
# Rows are read back

`decodeRow_encode`: the text under which the registry keeps a relay is decoded to this relay;
`Registry.getMode_putMode`: so is the mode. A record is written with one member for each field, so
its decoder meets every member as a field (`Record.decoder_object`) and builds the record from their
values. The connections of a status report are an exception: they leave out what they do not know,
which is what a missing member stands for (`StatusReport.parse_encode`).
-/

namespace RelayFleet

open Json

/-- A state is read back. -/
@[simp] theorem RelayState.decoder_encode (s : RelayState) :
    RelayState.decoder s.encode = .ok s := by
  cases s <;> rfl

/-- An optional state is read back. -/
@[simp] theorem RelayState.optional_encode (s : Option RelayState) :
    RelayState.decoder.optional ((s.map RelayState.encode).getD .null) = .ok s := by
  rcases s with _ | s
  · rfl
  · cases s <;> rfl

/-- A relay is read back. -/
theorem Relay.decoder_encode (r : Relay) : Relay.decoder r.encode = .ok r := by
  refine Record.decoder_object ?_ (by simp) ?_
  · simp [Relay.record, Record.required, Record.nullable, Record.field, Record.Fits]
  · simp [Relay.record, Record.required, Record.nullable, Record.field, Record.lookup]
    rfl

/-- The JSON of a relay can be written. -/
theorem Relay.plain_encode (r : Relay) : r.encode.Plain := by
  refine Value.plain_object ?_
  cases r.preMigrationState <;> simp [RelayState.encode]

/-- The text of a relay is decoded to this relay. -/
theorem decodeRow_encode (r : Relay) :
    decodeRow Relay.decoder r.encode.render = .ok r := by
  rw [decodeRow, Decoder.run?_render r.plain_encode r.decoder_encode]

/-- A binding is read back. -/
theorem Binding.decoder_encode (b : Binding) : Binding.decoder b.encode = .ok b := by
  refine Record.decoder_object ?_ (by simp) ?_
  · simp [Binding.record, Record.required, Record.nullable, Record.field, Record.Fits]
  · simp [Binding.record, Record.required, Record.nullable, Record.field, Record.lookup]
    rfl

/-- The JSON of a binding can be written. -/
theorem Binding.plain_encode (b : Binding) : b.encode.Plain :=
  Value.plain_object (by simp)

/-- The text of a binding is decoded to this binding. -/
theorem Binding.decodeRow_encode (b : Binding) :
    decodeRow Binding.decoder b.encode.render = .ok b := by
  rw [decodeRow, Decoder.run?_render b.plain_encode b.decoder_encode]

/-- The binding that was stored is read back. -/
@[simp] theorem Registry.getBinding_putBinding (g : Registry) (b : Binding) :
    (g.putBinding b).getBinding b.workloadId = .ok (some b) := by
  rw [getBinding, putBinding, Table.get?_insert, if_pos rfl]
  simp [b.decodeRow_encode]

/-- A mode is read back. -/
@[simp] theorem Mode.decoder_encode (m : Mode) : Mode.decoder m.encode = .ok m := by
  cases m <;> rfl

/-- A mode record is read back. -/
theorem ModeRecord.decoder_encode (r : ModeRecord) : ModeRecord.decoder r.encode = .ok r := by
  refine Record.decoder_object ?_ (by simp) ?_
  · simp [ModeRecord.record, Record.required, Record.field, Record.Fits]
  · simp [ModeRecord.record, Record.required, Record.field, Record.lookup]
    rfl

/-- The JSON of a mode record can be written. -/
theorem ModeRecord.plain_encode (r : ModeRecord) : r.encode.Plain := by
  refine Value.plain_object ?_
  simp [Mode.encode]

/-- The text of a mode record is decoded to this record. -/
theorem ModeRecord.decodeRow_encode (r : ModeRecord) :
    decodeRow ModeRecord.decoder r.encode.render = .ok r := by
  rw [decodeRow, Decoder.run?_render r.plain_encode r.decoder_encode]

/-- The mode that was stored is read back. -/
@[simp] theorem Registry.getMode_putMode (g : Registry) (r : ModeRecord) :
    (g.putMode r).getMode = .ok r :=
  r.decodeRow_encode

/-- The later of two modes that were stored is the one that counts. -/
theorem Registry.putMode_putMode (g : Registry) (r r' : ModeRecord) :
    (g.putMode r).putMode r' = g.putMode r' :=
  rfl

/-! ## Status reports -/

/-- A connection is read back, whatever it leaves out. -/
theorem Connection.decoder_encode (c : Connection) : Connection.decoder c.encode = .ok c := by
  obtain ⟨tag, address, created, used⟩ := c
  -- which members there are depends on what is known
  cases address <;> cases created <;> cases used <;>
    simp [Connection.decoder, Connection.encode, Connection.record, Connection.optionalMember,
      Record.required, Record.defaulted, Record.field, Record.decoder, Record.checkMembers,
      Record.lookup, Decoder.optional] <;> rfl

/-- The JSON of a connection can be written. -/
theorem Connection.plain_encode (c : Connection) : c.encode.Plain := by
  obtain ⟨tag, address, created, used⟩ := c
  refine Value.plain_object ?_
  cases address <;> cases created <;> cases used <;> simp [Connection.optionalMember]

namespace StatusReport

/-- The connections of a report are read back. -/
theorem list_connections (cs : List Connection) :
    Decoder.list Connection.decoder (.array (cs.map Connection.encode)) = .ok cs := by
  rw [Decoder.list_map Connection.decoder_encode, List.map_id']

/-- The JSON of the connections of a report can be written. -/
theorem plain_connections (cs : List Connection) :
    (Value.array (cs.map Connection.encode)).Plain := by
  refine Value.plain_array fun v hv => ?_
  obtain ⟨c, -, rfl⟩ := List.mem_map.mp hv
  exact c.plain_encode

/-- A report is read back, whatever its version. -/
theorem decoder_encode (r : StatusReport) : StatusReport.decoder r.encode = .ok r := by
  have htags := Decoder.list_map Decoder.string_string r.expiredTags
  rw [List.map_id'] at htags
  refine Record.decoder_object ?_ (by simp) ?_
  · simp [StatusReport.record, Record.required, Record.defaulted, Record.field, Record.Fits,
      list_connections, htags]
  · simp [StatusReport.record, Record.required, Record.defaulted, Record.field, Record.lookup,
      list_connections, htags]
    rfl

/-- The JSON of a report can be written. -/
theorem plain_encode (r : StatusReport) : r.encode.Plain := by
  have htags : (Value.array (r.expiredTags.map .string)).Plain := by
    refine Value.plain_array fun v hv => ?_
    obtain ⟨w, -, rfl⟩ := List.mem_map.mp hv
    exact Value.plain_string w
  refine Value.plain_object ?_
  simp [plain_connections, htags]

/-- A report of a version that is understood is read back from its text. -/
theorem parse_encode {r : StatusReport} (h : r.version = 1) :
    parse r.encode.render = .ok r := by
  rw [parse, Decoder.run?_render r.plain_encode r.decoder_encode]
  simp [h, reportVersion]

/-- A report that lists connections and nothing else is one of the first version in which no session
has expired. -/
theorem parse_connections (cs : List Connection) :
    parse (Value.object [("activeConnections", .array (cs.map Connection.encode))]).render =
      .ok ⟨1, cs, []⟩ := by
  have hdecodes : StatusReport.decoder
      (.object [("activeConnections", .array (cs.map Connection.encode))]) = .ok ⟨1, cs, []⟩ := by
    simp [StatusReport.decoder, StatusReport.record, Record.required, Record.defaulted,
      Record.field, Record.decoder, Record.checkMembers, Record.lookup, list_connections]
    rfl
  rw [parse, Decoder.run?_render (Value.plain_object (by simp [plain_connections])) hdecodes]
  rfl

end StatusReport

end RelayFleet
