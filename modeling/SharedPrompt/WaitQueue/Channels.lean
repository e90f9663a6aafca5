import SharedPrompt.WaitQueue.Op

/-!
# Waiting through one-shot channels

A queue that hands its items over through one-shot channels. A getter that finds no item makes a
channel and keeps the receiving end; the queue keeps the sending ends in the order of arrival, also
of getters that are gone by now. What is sent to such a getter comes back, and the next sending end
is tried.
-/

namespace SharedPrompt

/-- The receiving end of a channel, as a getter holds it until it finishes or is dropped. -/
structure Receiver (ω α : Type) where
  getter : ω
  channel : Nat
  item : Option α := none
  /-- The getter's waker has been called since it was polled last. -/
  called : Bool := false
  deriving Repr, DecidableEq

/-- A queue with the receiving ends of its getters. A channel whose receiving end is not there is
closed. -/
structure ChannelQueue (ω α : Type) where
  items : List α := []
  /-- The channels of the sending ends, oldest first. -/
  senders : List Nat := []
  receivers : List (Receiver ω α) := []
  /-- The channel that is made next. -/
  next : Nat := 0
  deriving Repr, DecidableEq, Inhabited

namespace Receiver

variable {ω α : Type}

def receive (r : Receiver ω α) (a : α) : Receiver ω α := { r with item := some a, called := true }

end Receiver

namespace ChannelQueue

variable {ω α : Type}

def isOpen (q : ChannelQueue ω α) (c : Nat) : Bool := q.receivers.any fun r => r.channel = c

/-- Sends the item through the channel, unless it is closed. -/
def send? (q : ChannelQueue ω α) (c : Nat) (a : α) : Option (ChannelQueue ω α) :=
  if q.isOpen c then
    some { q with receivers := q.receivers.map fun r => if r.channel = c then r.receive a else r }
  else none

/-- Sends the item to the first of the sending ends that takes it, or stores it. -/
def deliver (q : ChannelQueue ω α) (a : α) : List Nat → ChannelQueue ω α
  | [] => { q with items := q.items ++ [a], senders := [] }
  | c :: rest =>
    match q.send? c a with
    | some q => { q with senders := rest }
    | none => deliver q a rest

def put (q : ChannelQueue ω α) (a : α) : ChannelQueue ω α := q.deliver a q.senders

/-- Makes a channel for a getter that has to wait. -/
def enroll (q : ChannelQueue ω α) (w : ω) : ChannelQueue ω α :=
  { q with
    senders := q.senders ++ [q.next]
    receivers := q.receivers ++ [{ getter := w, channel := q.next }]
    next := q.next + 1 }

variable [DecidableEq ω]

def receiver? (q : ChannelQueue ω α) (w : ω) : Option (Receiver ω α) :=
  q.receivers.find? fun r => r.getter = w

def isUnfinished (q : ChannelQueue ω α) (w : ω) : Bool := (q.receiver? w).isSome

/-- Drops the receiving end that a getter holds. -/
def close (q : ChannelQueue ω α) (w : ω) : ChannelQueue ω α :=
  { q with receivers := q.receivers.filter fun r => r.getter ≠ w }

/-- The getter polls its channel and finds nothing. -/
def listen (q : ChannelQueue ω α) (w : ω) : ChannelQueue ω α :=
  { q with
    receivers := q.receivers.map fun r => if r.getter = w then { r with called := false } else r }

def perform (q : ChannelQueue ω α) : QueueOp ω α → QueueAnswer α × ChannelQueue ω α
  | .put a => (.done, q.put a)
  | .take =>
    match q.items with
    | a :: rest => (.taken (some a), { q with items := rest })
    | [] => (.taken none, q)
  | .get w =>
    match q.items with
    | a :: rest => (.got a, { q with items := rest })
    | [] => (.pending, q.enroll w)
  | .poll w =>
    match q.receiver? w with
    | none => (.gone, q)
    | some r =>
      match r.item with
      | some a => (.got a, q.close w)
      | none => (.pending, q.listen w)
  | .drop w =>
    match q.receiver? w with
    | none => (.dropped false, q)
    | some r => (.dropped true, r.item.elim (q.close w) (q.close w).put)

def performAll (q : ChannelQueue ω α) :
    List (QueueOp ω α) → List (QueueAnswer α) × ChannelQueue ω α
  | [] => ([], q)
  | op :: rest =>
    let r := q.perform op
    let rs := performAll r.2 rest
    (r.1 :: rs.1, rs.2)

end ChannelQueue

end SharedPrompt
