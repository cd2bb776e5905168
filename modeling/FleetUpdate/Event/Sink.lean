import FleetUpdate.Event.Basic

/-!
# Where events go

Events are handed to one sink, which may keep them, drop them, write them to the log, or pass them
to subscribers through a channel of bounded capacity.  A subscriber receives what is published after
it subscribed; one that is too slow loses the oldest events and learns how many.
-/

namespace FleetUpdate

/-- A channel to subscribers, who are known by their position in `readers`; there stands how many
events each has seen pass, received or lost. -/
structure Channel where
  capacity : Nat
  /-- How many events were passed on. -/
  sent : Nat
  /-- The latest of them, oldest first, at most `capacity`. -/
  kept : List Event
  readers : List Nat
  deriving DecidableEq

namespace Channel

/-- A channel for at least `n` events; the capacity is a power of two. -/
def ofCapacity (n : Nat) : Channel := ⟨(max 1 n).nextPowerOfTwo, 0, [], []⟩

/-- Passes an event on; without subscribers it is dropped. -/
def send (c : Channel) (e : Event) : Channel :=
  if c.readers.isEmpty then c
  else
    let kept := c.kept ++ [e]
    { c with sent := c.sent + 1, kept := kept.drop (kept.length - c.capacity) }

/-- Adds a subscriber; its number is the count of those before. -/
def subscribe (c : Channel) : Nat × Channel :=
  (c.readers.length, { c with readers := c.readers ++ [c.sent] })

/-- What a subscriber receives: how many events it has lost, and those it can still have. -/
def drain (c : Channel) (reader : Nat) : Nat × List Event × Channel :=
  let seen := c.readers.getD reader c.sent
  let oldest := c.sent - c.kept.length
  (oldest - seen, c.kept.drop (seen - oldest),
    { c with readers := c.readers.set reader c.sent })

end Channel

/-- Where events go. -/
inductive Sink where
  | memory (published : List Event)
  | silent
  | log
  | channel (c : Channel)

namespace Sink

/-- Takes an event. -/
def take : Sink → Event → Sink
  | memory es, e => memory (es ++ [e])
  | silent, _ => silent
  | log, _ => log
  | channel c, e => channel (c.send e)

/-- Takes events in order. -/
def takeAll (s : Sink) (es : List Event) : Sink := es.foldl take s

/-- The events that are kept. -/
def published : Sink → List Event
  | memory es => es
  | _ => []

/-- The kept events with a type of this name. -/
def publishedOf (s : Sink) (typeName : String) : List Event :=
  s.published.filter fun e => e.typeName == typeName

/-- Forgets the kept events. -/
def clear : Sink → Sink
  | memory _ => memory []
  | s => s

end Sink

end FleetUpdate
