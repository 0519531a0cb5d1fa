import RelayFleet.Event.Basic

/-!
# The event bus

Events go to everyone who has subscribed. The bus keeps the last events only, as many as it has room
for: a subscriber who falls behind is told how many it has missed, and goes on with the oldest event
that is still there. Nobody who sends ever waits.
-/

namespace RelayFleet

/-- The event bus. -/
structure EventBus where
  capacity : Nat
  /-- How many events were sent. -/
  sent : Nat
  /-- The last events, newest first. -/
  recent : List Event
  /-- For each subscriber, how many events it has behind it. -/
  subscribers : List Nat
deriving Repr, Inhabited

/-- What a subscriber receives. -/
inductive Delivery where
  | event (e : Event)
  /-- There is nothing new. -/
  | nothing
  /-- So many events were lost. -/
  | lagged (missed : Nat)
deriving Repr, Inhabited

namespace EventBus

/-- A bus without events. -/
def ofCapacity (capacity : Nat) : EventBus := ⟨capacity, 0, [], []⟩

/-- The bus with one subscriber more, who sees the events from now on, and its number. -/
def subscribe (b : EventBus) : Nat × EventBus :=
  (b.subscribers.length, { b with subscribers := b.subscribers ++ [b.sent] })

/-- Sends an event. -/
def emit (b : EventBus) (e : Event) : EventBus :=
  { b with sent := b.sent + 1, recent := (e :: b.recent).take b.capacity }

/-- What a subscriber receives who has `seen` events behind it, and how many it has then. -/
def delivery (b : EventBus) (seen : Nat) : Delivery × Nat :=
  let oldest := b.sent - b.recent.length
  if seen < oldest then (.lagged (oldest - seen), oldest)
  else if b.sent ≤ seen then (.nothing, seen)
  else match b.recent[b.sent - 1 - seen]? with
    | some e => (.event e, seen + 1)
    | none => (.nothing, seen)

/-- The next delivery to a subscriber; there is nothing for one who never subscribed. -/
def receive (b : EventBus) (subscriber : Nat) : Delivery × EventBus :=
  match b.subscribers[subscriber]? with
  | none => (.nothing, b)
  | some seen =>
    let (d, seen) := b.delivery seen
    (d, { b with subscribers := b.subscribers.set subscriber seen })

end EventBus

end RelayFleet
