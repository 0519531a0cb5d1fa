import Mathlib.Data.List.Nodup
import RelayFleet.Proofs.Provisioner.Ipv4
import RelayFleet.Provisioner.Local

/-!
# Which addresses are local

The local provisioner numbers the relays that it allocates and makes the address of a relay from its
number, in the network `10.240.0.0/16`. The number has 32 bits, of which the network has room for
16; nothing gives a number back, and an allocation whose address is omitted uses one up as well. So
the allocations up to the 65535th give different addresses of the network, whatever else happens
(`areLocal_of_length_lt`), and the next one gives a text that is no address (`not_always_local`). In
general the addresses are right exactly if the numbers of the allocations that gave one fit into 16
bits and no two of them are the same in 32 (`areLocal_given_iff`).
-/

namespace RelayFleet

/-- The texts are those of addresses in the network of the local relays, and no address is there
twice. -/
structure AreLocal (texts : List String) : Prop where
  inNetwork : ∀ t ∈ texts, ∃ a, Ipv4.parse? t = some a ∧ a.InNetwork ⟨10, 240, 0, 0⟩ 16
  distinct : (texts.map Ipv4.parse?).Nodup

namespace LocalProvisioner

/-! ## What happens to a provisioner -/

/-- What can happen to a local provisioner. -/
inductive Step where
  | call (c : ProvisionCall)
  /-- The first half of a start; others may come before the second. -/
  | beginStart
  | finishStart
  /-- So many of the next starts are to fail. -/
  | failStarts (n : UInt32)
  | failAllocations (on : Bool)
  | omitAddress (on : Bool)
deriving Repr, DecidableEq

/-- The provisioner after a step. -/
def after (p : LocalProvisioner) : Step → LocalProvisioner
  | .call c => (p.answer c).2
  | .beginStart => p.beginStart
  | .finishStart => p.finishStart.2
  | .failStarts n => { p with startFailures := n }
  | .failAllocations on => { p with failAllocations := on }
  | .omitAddress on => { p with omitAddress := on }

/-- What a step gives if it is an allocation and succeeds. -/
def gives? (p : LocalProvisioner) : Step → Option Allocated
  | .call (.allocate id zone spec) => (p.answer (.allocate id zone spec)).1.toOption
  | _ => none

/-- What the allocations that succeed give, in their order. -/
def given (p : LocalProvisioner) : List Step → List Allocated
  | [] => []
  | s :: steps => (p.gives? s).toList ++ (p.after s).given steps

/-- The addresses that were handed out. -/
def addresses (given : List Allocated) : List String := given.filterMap (·.publicAddress)

/-- The numbers, counted from one and in 32 bits, of the allocations that gave an address. -/
def numbers (given : List Allocated) : List UInt32 :=
  ((given.zipIdx 1).filter (·.1.publicAddress.isSome)).map fun e => .ofNat e.2

variable {p : LocalProvisioner} {steps : List Step}

/-- The end of a start leaves the number of the last relay. -/
theorem hosts_finishStart (p : LocalProvisioner) : p.finishStart.2.hosts = p.hosts := by
  unfold finishStart
  split <;> rfl

/-- A step that gives nothing leaves the number; an allocation takes the next number and makes the
address from it, if there is to be one. -/
theorem step_cases (p : LocalProvisioner) (s : Step) :
    (p.gives? s = none ∧ (p.after s).hosts = p.hosts) ∨
      ∃ a, p.gives? s = some a ∧ (p.after s).hosts = p.hosts + 1 ∧
        ∀ t ∈ a.publicAddress, t = address (p.hosts + 1) := by
  cases s with
  | call c =>
    cases c with
    | allocate id zone spec =>
      by_cases hfail : p.failAllocations
      · exact .inl (by simp [gives?, after, answer, allocate, hfail, Except.toOption])
      · refine .inr ⟨⟨if p.omitAddress then none else some (address (p.hosts + 1)), p.port⟩, ?_⟩
        simp +contextual [gives?, after, answer, allocate, hfail, Except.toOption]
    | start id => exact .inl ⟨rfl, p.beginStart.hosts_finishStart⟩
    | stop | destroy | reboot => exact .inl ⟨rfl, rfl⟩
  | finishStart => exact .inl ⟨rfl, p.hosts_finishStart⟩
  | beginStart | failStarts | failAllocations | omitAddress => exact .inl ⟨rfl, rfl⟩

/-- The addresses are made from the numbers of the allocations that gave them. -/
theorem addresses_given (p : LocalProvisioner) (steps : List Step) {n : Nat}
    (hn : p.hosts = .ofNat n) : addresses (p.given steps) =
      (((p.given steps).zipIdx (n + 1)).filter (·.1.publicAddress.isSome)).map fun e =>
        address (.ofNat e.2) := by
  induction steps generalizing p n with
  | nil => rfl
  | cons s steps ih =>
    rw [given]
    rcases p.step_cases s with ⟨hnone, hhosts⟩ | ⟨a, hsome, hhosts, haddress⟩
    · rw [hnone]
      exact ih (p.after s) (hhosts.trans hn)
    · have hnext : p.hosts + 1 = .ofNat (n + 1) := by rw [hn, UInt32.ofNat_add]; rfl
      have hrest := ih (p.after s) (hhosts.trans hnext)
      rw [hsome, Option.toList_some, List.singleton_append, List.zipIdx_cons]
      cases ha : a.publicAddress with
      | none => simpa [addresses, ha] using hrest
      | some t =>
        rw [ha] at haddress
        have ht : t = address (.ofNat (n + 1)) := hnext ▸ haddress t rfl
        simpa [addresses, ha, ht] using hrest

/-! ## Which numbers make an address -/

/-- A number is two of the four numbers of an address. -/
theorem address_eq_dotted (host : UInt32) :
    address host = Ipv4.dotted [10, 240, host.toNat / 256, host.toNat % 256] := by
  have hten : Nat.toDigits 10 10 = ['1', '0'] := by decide
  have hnetwork : Nat.toDigits 10 240 = ['2', '4', '0'] := by decide
  apply String.toList_injective
  simp [address, Ipv4.dotted, List.intercalate, hten, hnetwork]

/-- A number makes an address if it fits into two bytes. -/
theorem parse?_address (host : UInt32) : Ipv4.parse? (address host) =
    if host.toNat < 65536 then
      some ⟨10, 240, .ofNat (host.toNat / 256), .ofNat (host.toNat % 256)⟩
    else none := by
  rw [address_eq_dotted, Ipv4.parse?_dotted (List.cons_ne_nil _ _)]
  have hlow : host.toNat % 256 < 256 := Nat.mod_lt _ (by decide)
  by_cases hhigh : host.toNat / 256 < 256
  · rw [if_pos (by omega)]
    simp [hlow, hhigh, Ipv4.ofBytes?]
  · rw [if_neg (by omega)]
    simp [hhigh]

/-- The number after the last one of two bytes. -/
example : address 65536 = "10.240.256.0" := by decide

/-- Different numbers make different addresses, where they make one. -/
theorem eq_of_parse?_eq {host host' : UInt32} (hlt : host.toNat < 65536)
    (hlt' : host'.toNat < 65536)
    (h : Ipv4.parse? (address host) = Ipv4.parse? (address host')) : host = host' := by
  rw [parse?_address, parse?_address, if_pos hlt, if_pos hlt', Option.some.injEq,
    Ipv4.mk.injEq] at h
  obtain ⟨-, -, hhigh, hlow⟩ := h
  have hhigh := congrArg UInt8.toNat hhigh
  have hlow := congrArg UInt8.toNat hlow
  simp only [UInt8.toNat_ofNat'] at hhigh hlow
  exact UInt32.toNat_inj.mp (by omega)

/-- An address that begins with these two bytes is in the network. -/
theorem inNetwork_local (c d : UInt8) : Ipv4.InNetwork ⟨10, 240, c, d⟩ ⟨10, 240, 0, 0⟩ 16 := by
  have hc : c.toNat < 256 := c.toNat_lt
  have hd : d.toNat < 256 := d.toNat_lt
  simp only [Ipv4.InNetwork, Ipv4.toNat, Nat.shiftRight_eq_div_pow, UInt8.reduceToNat]
  omega

/-- Numbers make addresses of the network, no two of them the same, exactly if they fit into two
bytes and no two of them are the same. -/
theorem areLocal_map_iff (hosts : List UInt32) :
    AreLocal (hosts.map address) ↔ hosts.Nodup ∧ ∀ host ∈ hosts, host < 65536 := by
  constructor
  · intro h
    have hdistinct := h.distinct
    rw [List.map_map] at hdistinct
    refine ⟨hdistinct.of_map, fun host hhost => ?_⟩
    obtain ⟨a, ha, -⟩ := h.inNetwork _ (List.mem_map_of_mem hhost)
    rw [parse?_address, Option.ite_none_right_eq_some] at ha
    exact UInt32.lt_iff_toNat_lt.mpr ha.1
  · rintro ⟨hnodup, hsmall⟩
    refine ⟨List.forall_mem_map.mpr fun host hhost => ?_, ?_⟩
    · exact ⟨_, (parse?_address host).trans (if_pos (hsmall host hhost)), inNetwork_local _ _⟩
    · rw [List.map_map]
      exact hnodup.map_on fun host hhost host' hhost' =>
        eq_of_parse?_eq (hsmall host hhost) (hsmall host' hhost')

/-! ## Which addresses are handed out -/

/-- From the beginning the addresses are made from the numbers of their allocations. -/
theorem addresses_fresh (port : UInt16) (steps : List Step) :
    addresses ((fresh port).given steps) = (numbers ((fresh port).given steps)).map address := by
  rw [addresses_given (fresh port) steps rfl, numbers, List.map_map]
  rfl

/-- **The addresses are right as long as the numbers are.** Whatever happens to a provisioner that
has no past, the texts that it hands out are those of addresses in the network of the local relays,
and no address is handed out twice, exactly if the numbers of the allocations that gave one differ
from each other in 32 bits and fit into 16. -/
theorem areLocal_given_iff (port : UInt16) (steps : List Step) :
    AreLocal (addresses ((fresh port).given steps)) ↔
      (numbers ((fresh port).given steps)).Nodup ∧
        ∀ n ∈ numbers ((fresh port).given steps), n < 65536 := by
  rw [addresses_fresh, areLocal_map_iff]

/-- Three relays, one of them without an address. -/
example : addresses ((fresh 8080).given
    [.call (.allocate "r1" "z" ⟨"t", "o", false⟩), .omitAddress true,
      .call (.allocate "r2" "z" ⟨"t", "o", false⟩), .omitAddress false, .call (.destroy "r1"),
      .call (.allocate "r3" "z" ⟨"t", "o", false⟩)]) = ["10.240.0.1", "10.240.0.3"] := by
  decide

/-- As long as no more relays are allocated than there are numbers of two bytes but zero, the
addresses are right. -/
theorem areLocal_of_length_lt (port : UInt16) (steps : List Step)
    (h : ((fresh port).given steps).length < 65536) :
    AreLocal (addresses ((fresh port).given steps)) := by
  rw [addresses_fresh, areLocal_map_iff]
  generalize (fresh port).given steps = given at h
  have hsmall : ∀ e ∈ (given.zipIdx 1).filter (·.1.publicAddress.isSome), e.2 < 65536 := by
    intro e he
    have hlt := List.snd_lt_add_of_mem_zipIdx (List.mem_of_mem_filter he)
    omega
  have hvalue : ∀ {n : Nat}, n < 65536 → (UInt32.ofNat n).toNat = n := fun hn =>
    UInt32.toNat_ofNat_of_lt (Nat.lt_trans hn (by decide))
  have hnodup : (((given.zipIdx 1).filter (·.1.publicAddress.isSome)).map Prod.snd).Nodup := by
    refine List.Nodup.sublist (List.filter_sublist.map Prod.snd) ?_
    rw [List.zipIdx_map_snd]
    exact List.nodup_range'
  constructor
  · refine hnodup.of_map.map_on fun e he e' he' heq => ?_
    have hsnd : e.2 = e'.2 := by
      have := congrArg UInt32.toNat heq
      rwa [hvalue (hsmall e he), hvalue (hsmall e' he')] at this
    exact List.inj_on_of_nodup_map hnodup he he' hsnd
  · refine List.forall_mem_map.mpr fun e he => ?_
    rw [UInt32.lt_iff_toNat_lt, hvalue (hsmall e he)]
    exact hsmall e he

/-- Where nothing fails and no address is omitted each allocation hands out the next address. -/
theorem mem_addresses_replicate (id : RelayId) (zone : ZoneId) (spec : LaunchSpec) (n : Nat)
    {p : LocalProvisioner} (hfail : p.failAllocations = false) (homit : p.omitAddress = false) :
    address (p.hosts + .ofNat (n + 1)) ∈
      addresses (p.given (.replicate (n + 1) (.call (.allocate id zone spec)))) := by
  induction n generalizing p with
  | zero =>
    have hgiven : p.given (.replicate 1 (.call (.allocate id zone spec))) =
        [⟨some (address (p.hosts + 1)), p.port⟩] := by
      simp [given, gives?, answer, allocate, hfail, homit, Except.toOption]
    rw [hgiven]
    exact List.mem_cons_self
  | succ n ih =>
    have hafter : p.after (.call (.allocate id zone spec)) =
        { p with allocations := p.allocations + 1, hosts := p.hosts + 1 } := by
      simp [after, answer, allocate, hfail]
    have hrest := ih (p := p.after (.call (.allocate id zone spec)))
      (by rw [hafter]; exact hfail) (by rw [hafter]; exact homit)
    have hhost : p.hosts + .ofNat (n + 1 + 1) =
        (p.after (.call (.allocate id zone spec))).hosts + .ofNat (n + 1) := by
      rw [hafter, UInt32.ofNat_add (n + 1) 1, UInt32.add_comm (.ofNat (n + 1)), UInt32.add_assoc]
      rfl
    rw [hhost, List.replicate_succ, given, addresses, List.filterMap_append]
    exact List.mem_append_right _ hrest

/-- The relay after the last address gets a text that is no address: its third number does not fit
into a byte. -/
theorem not_always_local :
    ¬ ∀ port steps, AreLocal (addresses ((fresh port).given steps)) := by
  intro h
  have hmem := mem_addresses_replicate "r" "z" ⟨"t", "o", false⟩ 65535 (p := fresh 8080) rfl rfl
  obtain ⟨a, ha, -⟩ := (h _ _).inNetwork _ hmem
  rw [parse?_address, if_neg (by decide)] at ha
  cases ha

end LocalProvisioner

end RelayFleet
