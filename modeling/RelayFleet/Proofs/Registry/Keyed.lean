import RelayFleet.Proofs.Registry.Rows

/-!
# Registries with rows that cannot be read

Rows that do not decode make the reads fail that meet them. What is said here of reads and changes
holds beside such rows: a relay that is there is read and changed, a change of anything else fails
and leaves the registry, and what a listing answers with is there. `Registry.Keyed` asks of the
relays that do decode that they stand under their own ids.
-/

namespace RelayFleet.Registry

variable {g : Registry} {id : RelayId} {r : Relay}

/-- Every relay whose row decodes stands under its own id. -/
def Keyed (g : Registry) : Prop := ∀ id r, g.relay? id = some r → r.id = id

/-- The relays of a sound registry stand under their ids. -/
theorem Sound.keyed (h : g.Sound) : g.Keyed := fun _ _ => h.id_eq

/-- A row that is written under the id of its relay is under it. -/
theorem Keyed.withRow (hg : g.Keyed) (hid : r.id = id) : (g.withRow id r).Keyed := by
  intro k r' hr'
  rw [relay?_withRow] at hr'
  split at hr'
  · next heq =>
    cases hr'
    exact hid.trans heq.symm
  · exact hg k r' hr'

/-- Reading a row answers with the relay that is there. -/
theorem getRelay_eq_some_iff : g.getRelay id = .ok (some r) ↔ g.relay? id = some r := by
  unfold getRelay relay? decodeRow
  cases g.relays.get? id with
  | none => simp
  | some text =>
    show (some <$> _ = _) ↔ Relay.decoder.run? text = some r
    cases Relay.decoder.run? text with
    | none => simp
    | some r' => simp [Functor.map, Except.map]

/-- A relay that is there is changed, and the change answers with both rows. -/
theorem updateRelay_some (hr : g.relay? id = some r) (now : Millis) (change : Relay → Relay) :
    g.updateRelay now id change =
      (.ok ⟨r, { change r with updatedAt := now }⟩,
        g.withRow id { change r with updatedAt := now }) := by
  simp only [updateRelay, requireRelay, getRelay_eq_some_iff.mpr hr]
  rfl

/-- A row that was put down is changed. -/
theorem updateRelay_withRow (g : Registry) (id : RelayId) (r : Relay) (now : Millis)
    (change : Relay → Relay) :
    (g.withRow id r).updateRelay now id change =
      (.ok ⟨r, { change r with updatedAt := now }⟩,
        g.withRow id { change r with updatedAt := now }) := by
  rw [updateRelay_some (relay?_withRow_self ..), withRow_withRow]

/-- Where there is no relay that can be read nothing is changed. -/
theorem updateRelay_none (hr : g.relay? id = none) (now : Millis) (change : Relay → Relay) :
    ∃ e, (e = .undecodable ∨ e = .relayNotFound id) ∧
      g.updateRelay now id change = (.error e, g) := by
  unfold relay? at hr
  cases htext : g.relays.get? id with
  | none => exact ⟨_, .inr rfl, by simp only [updateRelay, requireRelay, getRelay, htext]; rfl⟩
  | some text =>
    rw [htext, Option.bind_some] at hr
    refine ⟨_, .inl rfl, ?_⟩
    simp only [updateRelay, requireRelay, getRelay, htext, decodeRow, hr]
    rfl

/-- A listing answers with relays that are there and satisfy its condition. -/
theorem of_mem_listRelays {keep : Relay → Bool} {relays : List Relay}
    (h : g.listRelays keep = .ok relays) (hr : r ∈ relays) :
    keep r ∧ ∃ id, g.relay? id = some r := by
  have hfrom : ∀ (texts : List String) (found : List Relay),
      texts.mapM (decodeRow Relay.decoder) = .ok found →
      ∀ r ∈ found, ∃ text ∈ texts, Relay.decoder.run? text = some r := by
    intro texts
    induction texts with
    | nil =>
      rintro found ⟨⟩ r hr
      cases hr
    | cons text texts ih =>
      intro found hfound r hr
      rw [List.mapM_cons] at hfound
      cases hdec : decodeRow Relay.decoder text with
      | error e =>
        rw [hdec] at hfound
        cases hfound
      | ok first =>
        cases hrest : texts.mapM (decodeRow Relay.decoder) with
        | error e =>
          rw [hdec, hrest] at hfound
          cases hfound
        | ok others =>
          rw [hdec, hrest] at hfound
          cases hfound
          rcases List.mem_cons.mp hr with rfl | hr
          · exact ⟨text, List.mem_cons_self, run?_of_decodeRow hdec⟩
          · obtain ⟨text', htext', hrun⟩ := ih others hrest r hr
            exact ⟨text', List.mem_cons_of_mem _ htext', hrun⟩
  unfold listRelays at h
  cases hfound : g.relays.values.mapM (decodeRow Relay.decoder) with
  | error e =>
    rw [hfound] at h
    cases h
  | ok found =>
    rw [hfound] at h
    cases h
    obtain ⟨hmem, hkeep⟩ := List.mem_filter.mp hr
    obtain ⟨text, htext, hrun⟩ := hfrom _ found hfound r hmem
    obtain ⟨id, hid⟩ := Table.mem_values_iff.mp htext
    exact ⟨hkeep, id, by rw [relay?, hid]; exact hrun⟩

/-- One relay, whose row cannot be read. -/
def unreadable : Registry :=
  { empty with relays := empty.relays.insert (relayId 1) "" }

/-- There is no relay that can be read. -/
theorem relay?_unreadable (id : RelayId) : unreadable.relay? id = none := by
  have hrow : unreadable.relays.get? id = _ := Table.get?_insert ..
  rw [relay?, hrow]
  split
  · exact show Relay.decoder.run? "" = none by decide +kernel
  · rfl

/-- What cannot be read is not under a wrong id. -/
theorem keyed_unreadable : unreadable.Keyed := by
  intro id r hr
  rw [relay?_unreadable] at hr
  cases hr

end RelayFleet.Registry
