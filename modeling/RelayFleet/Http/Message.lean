import RelayFleet.Http.MediaType
import RelayFleet.Json.Bytes

/-!
# Requests and responses
-/

namespace RelayFleet.Http

/-- A request. -/
structure Request where
  method : String
  target : String
  contentType : Option String
  body : ByteArray

/-- Why a request was turned away before anything was done. -/
inductive Rejection where
  /-- A name in the path is no text. -/
  | pathEncoding
  /-- The body is not said to be JSON. -/
  | mediaType
  /-- The body is too long. -/
  | bodyLength
  /-- The body is no JSON. -/
  | malformedBody
  /-- The body is JSON, but not what is asked for. -/
  | mismatchedBody
  /-- The body is no text. -/
  | bodyEncoding
deriving Repr, DecidableEq, Inhabited

/-- Why a body is turned away that cannot be decoded. -/
def Rejection.ofFault : Json.Fault → Rejection
  | .malformed => malformedBody
  | .mismatch => mismatchedBody

/-- The status of a rejection. -/
def Rejection.status : Rejection → Nat
  | pathEncoding => 400
  | mediaType => 415
  | bodyLength => 413
  | malformedBody => 400
  | mismatchedBody => 422
  | bodyEncoding => 400

/-- The body of a response. -/
inductive Body where
  | empty
  | json (v : Json.Value)
  | metrics (text : String)
  | rejection (r : Rejection)
deriving Repr, Inhabited

/-- A response. -/
structure Response where
  status : Nat
  contentType : Option String
  body : Body
deriving Repr, Inhabited

namespace Response

/-- A response without a body. -/
def bare (status : Nat) : Response := ⟨status, none, .empty⟩

/-- A response in JSON. -/
def ofJson (status : Nat) (v : Json.Value) : Response := ⟨status, some "application/json", .json v⟩

/-- The response to a request that was turned away. -/
def rejected (r : Rejection) : Response :=
  ⟨r.status, some "text/plain; charset=utf-8", .rejection r⟩

/-- A response with metrics. -/
def ofMetrics (text : String) : Response :=
  ⟨200, some "text/plain; version=0.0.4; charset=utf-8", .metrics text⟩

/-- The response without its body. -/
def withoutBody (r : Response) : Response := { r with body := .empty }

end Response

/-- How many bytes a body may have: two megabytes. -/
def bodyLimit : Nat := 2 * 1024 * 1024

/-- The bytes of a body, unless they are too many. -/
def Request.bytes (r : Request) : Except Rejection ByteArray :=
  if r.body.size ≤ bodyLimit then .ok r.body else .error .bodyLength

/-- Decodes a JSON body. -/
def Request.decodeJson {α : Type} (r : Request) (d : Json.Decoder α) : Except Rejection α :=
  if !(r.contentType.any isJson) then .error .mediaType
  else do (d.runBytes (← r.bytes)).mapError .ofFault

/-- The text of a body. -/
def Request.text (r : Request) : Except Rejection String := do
  match String.fromUTF8? (← r.bytes) with
  | some text => return text
  | none => throw .bodyEncoding

end RelayFleet.Http
