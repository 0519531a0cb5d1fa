import RelayFleet.Json.Decoder

/-!
# The states of a relay

A relay is a worker that terminates remote-display sessions. Only a running relay takes new
sessions; `starting` and `stopping` are the transitional states, `destroyed` is the final one.
-/

namespace RelayFleet

/-- The lifecycle state of a relay. -/
inductive RelayState where
  | stopped
  | starting
  | running
  | stopping
  /-- The agent is lost: the relay is being fenced before a forced restart. -/
  | ha
  | migrating
  | destroyed
deriving Repr, DecidableEq, Inhabited

namespace RelayState

/-- Every state, in its usual order. -/
def all : List RelayState :=
  [stopped, starting, running, stopping, ha, migrating, destroyed]

/-- The word for a state, in texts and in records. -/
def word : RelayState → String
  | stopped => "stopped"
  | starting => "starting"
  | running => "running"
  | stopping => "stopping"
  | ha => "ha"
  | migrating => "migrating"
  | destroyed => "destroyed"

instance : ToString RelayState := ⟨word⟩

/-- Only running relays take new sessions. -/
def isAssignable (s : RelayState) : Bool := s = running

/-- Starting or stopping. -/
def isTransitional (s : RelayState) : Bool := s = starting ∨ s = stopping

/-- No operation leaves this state. -/
def isTerminal (s : RelayState) : Bool := s = destroyed

/-- A state in JSON. -/
def encode (s : RelayState) : Json.Value := .string s.word

/-- A state from JSON. -/
def decoder : Json.Decoder RelayState :=
  Json.Decoder.word (all.map fun s => (s.word, s)) Json.Decoder.isNull

end RelayState

end RelayFleet
