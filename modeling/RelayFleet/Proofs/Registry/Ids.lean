import RelayFleet.Proofs.Registry.Rows

/-!
# Ids that were issued

Different numbers give different ids (`relayId_injective`), so the id that a registry issues next is
none of those that it has issued, as long as its counter is not at the end of its range.
-/

namespace RelayFleet

namespace Registry

/-- A number is read back from its digits, whatever zeros stand before them. -/
theorem ofDigitChars_padded (width n : Nat) :
    Nat.ofDigitChars 10 (padded width n).toList 0 = n := by
  rw [padded, String.toList_ofList, Nat.ofDigitChars_append, Nat.ofDigitChars_replicate_zero,
    Nat.mul_zero]
  exact Nat.ofDigitChars_toDigits (by decide) (by decide)

/-- Different numbers have different ids. -/
theorem relayId_injective : Function.Injective relayId := by
  intro m n h
  have hpadded : padded 6 m.toNat = padded 6 n.toNat := String.append_right_inj _ |>.mp h
  have hnat := congrArg (fun s => Nat.ofDigitChars 10 s.toList 0) hpadded
  simp only [ofDigitChars_padded] at hnat
  exact UInt64.toNat_inj.mp hnat

variable {g g' : Registry} {id : RelayId}

/-- The registry has issued the id. -/
def HasIssued (g : Registry) (id : RelayId) : Prop := ∃ n, n ≤ g.sequence ∧ id = relayId n

/-- Every relay has an id that was issued. -/
def Issued (g : Registry) : Prop := ∀ id, g.relay? id ≠ none → g.HasIssued id

/-- What was issued stays issued. -/
theorem HasIssued.mono (h : g.HasIssued id) (hle : g.sequence ≤ g'.sequence) : g'.HasIssued id := by
  obtain ⟨n, hn, rfl⟩ := h
  exact ⟨n, UInt64.le_trans hn hle, rfl⟩

/-- The counter goes on by one. -/
theorem toNat_sequence_nextRelayId (hroom : g.sequence.toNat + 1 < 2 ^ 64) :
    g.nextRelayId.2.sequence.toNat = g.sequence.toNat + 1 := by
  simp only [nextRelayId, UInt64.toNat_add]
  exact Nat.mod_eq_of_lt hroom

/-- The next id is issued then. -/
theorem hasIssued_nextRelayId : g.nextRelayId.2.HasIssued g.nextRelayId.1 :=
  ⟨g.sequence + 1, UInt64.le_refl _, rfl⟩

/-- The next id has not been issued before. -/
theorem not_hasIssued_nextRelayId (hroom : g.sequence.toNat + 1 < 2 ^ 64) :
    ¬ g.HasIssued g.nextRelayId.1 := by
  rintro ⟨n, hn, hid⟩
  have hsucc := toNat_sequence_nextRelayId hroom
  rw [show n = g.nextRelayId.2.sequence from (relayId_injective hid).symm,
    UInt64.le_iff_toNat_le] at hn
  omega

end Registry

end RelayFleet
