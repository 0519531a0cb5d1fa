import RelayFleet.Provisioner.Call

/-!
# The local provisioner

A provisioner without machines behind it. It hands out addresses that begin with `10.240`, counts
its calls, and can be told to fail. A start has two halves, the call and what comes after the time
that booting takes.
-/

namespace RelayFleet

/-- The local provisioner. -/
structure LocalProvisioner where
  port : UInt16
  /-- How many addresses were numbered so far. -/
  hosts : UInt32
  /-- How many of the next starts fail. -/
  startFailures : UInt32
  failAllocations : Bool
  /-- Whether new relays get no address. -/
  omitAddress : Bool
  allocations : UInt32
  starts : UInt32
  stops : UInt32
  destroys : UInt32
  reboots : UInt32
deriving Repr, DecidableEq, Inhabited

namespace LocalProvisioner

/-- A provisioner without a past, whose relays listen on a port. -/
def fresh (port : UInt16) : LocalProvisioner := ⟨port, 0, 0, false, false, 0, 0, 0, 0, 0⟩

/-- The address of a host by its number. -/
def address (host : UInt32) : String :=
  "10.240." ++ toString (host.toNat / 256) ++ "." ++ toString (host.toNat % 256)

/-- Hands out a network identity. -/
def allocate (p : LocalProvisioner) : Except ProvisionError Allocated × LocalProvisioner :=
  if p.failAllocations then (.error ⟨.allocate, "no capacity left in zone"⟩, p)
  else
    let host := p.hosts + 1
    (.ok ⟨if p.omitAddress then none else some (address host), p.port⟩,
      { p with allocations := p.allocations + 1, hosts := host })

/-- The first half of a start. -/
def beginStart (p : LocalProvisioner) : LocalProvisioner := { p with starts := p.starts + 1 }

/-- The second half of a start. -/
def finishStart (p : LocalProvisioner) : Except ProvisionError Unit × LocalProvisioner :=
  if p.startFailures = 0 then (.ok (), p)
  else
    (.error ⟨.start, "relay agent never reported in"⟩,
      { p with startFailures := p.startFailures - 1 })

/-- A call as a whole, booting taking no time. -/
def answer (p : LocalProvisioner) : (c : ProvisionCall) → c.Reply × LocalProvisioner
  | .allocate _ _ _ => p.allocate
  | .start _ => p.beginStart.finishStart
  | .stop _ => (.ok (), { p with stops := p.stops + 1 })
  | .destroy _ => (.ok (), { p with destroys := p.destroys + 1 })
  | .reboot _ => (.ok (), { p with reboots := p.reboots + 1 })

/-- How many calls there were of each kind. -/
def counts (p : LocalProvisioner) : List UInt32 :=
  [p.allocations, p.starts, p.stops, p.destroys, p.reboots]

end LocalProvisioner

end RelayFleet
