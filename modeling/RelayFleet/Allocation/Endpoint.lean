import RelayFleet.Allocation.Error
import RelayFleet.Settings.Basic

/-!
# Endpoints

Where a client connects to for a session on its relay.
-/

namespace RelayFleet

open Json Json.Decoder Json.Record

/-- Where a client connects to. -/
structure RelayEndpoint where
  relayId : RelayId
  host : String
  port : UInt16
  /-- The port on which the relay listens for remote displays. -/
  consolePort : UInt16
  tls : Bool
  urlDomain : Option String
deriving Repr, DecidableEq, Inhabited

namespace RelayEndpoint

/-- The endpoint of a relay, which must have a public address even where a fixed one stands in front
of it. -/
def ofRelay (r : Relay) (s : EndpointSettings) : Except AllocError RelayEndpoint :=
  match r.publicAddress with
  | none => .error (.noPublicAddress r.id)
  | some address =>
    let (host, port) := match s.staticPublicAddress with
      | some fixed => (fixed, s.staticPort)
      | none => (address, if s.tlsEnabled then 443 else 80)
    .ok {
      relayId := r.id
      host := host
      port := port
      consolePort := s.consolePort
      tls := s.tlsEnabled
      urlDomain := s.urlDomain }

/-- An endpoint in JSON. -/
def encode (e : RelayEndpoint) : Value :=
  .object [
    ("relay_id", .string e.relayId),
    ("host", .string e.host),
    ("port", .natural e.port.toNat),
    ("console_port", .natural e.consolePort.toNat),
    ("tls", .bool e.tls),
    ("url_domain", .ofString? e.urlDomain)]

/-- The fields of an endpoint in JSON. -/
def record : Record RelayEndpoint :=
  RelayEndpoint.mk <$> required "relay_id" string <*> required "host" string
    <*> required "port" uint16 <*> required "console_port" uint16 <*> required "tls" bool
    <*> nullable "url_domain" string

/-- An endpoint from JSON. -/
def decoder : Decoder RelayEndpoint := record.decoder

end RelayEndpoint

end RelayFleet
