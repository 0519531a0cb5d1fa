import Mathlib.Data.List.Basic
import RelayFleet.Proofs.Toml.Number

/-!
# IPv4 addresses as texts

The text of an address is its four bytes as decimal numbers with points between them. It is read
strictly (`Ipv4.parse?`): there are four numbers, none of them has a zero before its other digits,
and none is greater than a byte. Of the texts that are numbers with points between them exactly
those are read that have four numbers, each of them a byte (`Ipv4.parse?_dotted`).
-/

namespace RelayFleet

/-- An address: four bytes. -/
structure Ipv4 where
  first : UInt8
  second : UInt8
  third : UInt8
  fourth : UInt8
deriving Repr, DecidableEq

namespace Ipv4

/-- The address as a number of 32 bits. -/
def toNat (a : Ipv4) : Nat :=
  ((a.first.toNat * 256 + a.second.toNat) * 256 + a.third.toNat) * 256 + a.fourth.toNat

/-- The address has its first bits in common with another one, so many of them. -/
def InNetwork (a base : Ipv4) (bits : Nat) : Prop :=
  a.toNat >>> (32 - bits) = base.toNat >>> (32 - bits)

/-- A byte from its decimal number. -/
def byte? (cs : List Char) : Option UInt8 :=
  if cs ≠ [] ∧ cs.all Char.isDigit ∧ (cs.head? = some '0' → cs = ['0']) then
    let n := Nat.ofDigitChars 10 cs 0
    if n < 256 then some (.ofNat n) else none
  else none

/-- An address from its bytes. -/
def ofBytes? : List UInt8 → Option Ipv4
  | [a, b, c, d] => some ⟨a, b, c, d⟩
  | _ => none

/-- An address from its text. -/
def parse? (text : String) : Option Ipv4 := do
  ofBytes? (← (text.toList.splitOn '.').mapM byte?)

/-- Numbers with points between them. -/
def dotted (ns : List Nat) : String := .ofList (['.'].intercalate (ns.map (Nat.toDigits 10)))

/-- A decimal number is read as a byte if it is not too great. -/
theorem byte?_toDigits (n : Nat) :
    byte? (Nat.toDigits 10 n) = if n < 256 then some (.ofNat n) else none := by
  have hdigits : (Nat.toDigits 10 n).all Char.isDigit :=
    List.all_eq_true.mpr (Toml.isDigit_toDigits n)
  have hzero : (Nat.toDigits 10 n).head? = some '0' → Nat.toDigits 10 n = ['0'] := by
    intro hhead
    rcases Nat.eq_zero_or_pos n with rfl | hpos
    · exact Nat.toDigits_zero 10
    · obtain ⟨d, ds, heq, hd⟩ := Toml.toDigits_pos hpos
      rw [heq] at hhead
      exact absurd (Option.some.inj hhead) hd
  rw [byte?, if_pos ⟨Nat.toDigits_ne_nil, hdigits, hzero⟩, Nat.ofDigitChars_ten_toDigits]

/-- Numbers with points between them are read one by one, and are an address if they are four. -/
theorem parse?_dotted {ns : List Nat} (hns : ns ≠ []) :
    parse? (dotted ns) = (ns.mapM fun n => if n < 256 then some (UInt8.ofNat n) else none).bind
      ofBytes? := by
  have hpoint : ∀ cs ∈ ns.map (Nat.toDigits 10), '.' ∉ cs := by
    intro cs hcs hmem
    obtain ⟨n, -, rfl⟩ := List.mem_map.mp hcs
    exact absurd (Toml.isDigit_toDigits n _ hmem) (by decide)
  have hsplit : (dotted ns).toList.splitOn '.' = ns.map (Nat.toDigits 10) := by
    rw [dotted, String.toList_ofList]
    exact List.splitOn_intercalate '.' hpoint (by simpa using hns)
  rw [parse?, hsplit, List.mapM_map]
  simp only [Function.comp_def, byte?_toDigits]
  rfl

end Ipv4

end RelayFleet
