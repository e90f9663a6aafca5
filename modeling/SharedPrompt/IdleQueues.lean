import SharedPrompt.Host.State

/-!
# Queues for idle moments

Any number of queues share the idle moments of one engine. A queue lives as long as it has handles,
or an idle moment is inside of it. The engine tells its subscribers of an idle moment one after the
other, as they were when the moment began. When it ends all subscriptions, it tells those that it
had in the same way, and each that lives subscribes again.
-/

namespace SharedPrompt

structure IdleQueue where
  handles : Nat := 1
  pending : Option Parked := none
  deriving Inhabited

namespace IdleQueue

/-- A handle can only be copied from another. -/
def clone (q : IdleQueue) : IdleQueue :=
  if 0 < q.handles then { q with handles := q.handles + 1 } else q

def drop (q : IdleQueue) : IdleQueue := { q with handles := q.handles - 1 }

/-- Leaves a request, which takes a handle and an empty slot. -/
def park (q : IdleQueue) (request : Parked) : IdleQueue :=
  if 0 < q.handles && q.pending.isNone then { q with pending := some request } else q

def withdraw (q : IdleQueue) (id : Nat) : IdleQueue :=
  { q with pending := q.pending.filter (·.id ≠ id) }

/-- An idle moment takes the request unless a key waits to be read. -/
def serve (q : IdleQueue) (keyAvailable : Bool) : IdleQueue :=
  if keyAvailable then q else { q with pending := none }

end IdleQueue

/-- An idle moment has subscribers still to tell, and may be inside of a queue. -/
structure IdleMoment where
  rest : List Nat
  inside : Option Nat := none
  deriving Repr, DecidableEq, Inhabited

/-- Queues, idle moments and teardowns are named by their places. -/
structure IdleQueues where
  subscriptions : Subscriptions := {}
  /-- The engine takes no subscriptions. -/
  refuses : Bool := false
  queues : List IdleQueue := []
  moments : List IdleMoment := []
  /-- For each teardown, the subscribers that it has still to tell. -/
  teardowns : List (List Nat) := []
  deriving Inhabited

inductive IdleEvent where
  /-- A new queue is made with one handle. -/
  | create
  | clone (queue : Nat)
  | drop (queue : Nat)
  | park (queue : Nat) (request : Parked)
  | withdraw (queue : Nat) (id : Nat)
  /-- The engine begins an idle moment. -/
  | idle
  /-- An idle moment goes on to the next subscriber. -/
  | offer (moment : Nat) (keyAvailable : Bool)
  /-- An idle moment is done with the queue that it is inside of. -/
  | leave (moment : Nat)
  /-- The engine begins to end all subscriptions. -/
  | teardown
  /-- A teardown goes on to the next subscriber. -/
  | renew (teardown : Nat)
  | refuse (on : Bool)
  deriving Inhabited

/-- An idle moment offers a queue to run the request that waits in it. -/
structure IdleOffer where
  moment : Nat
  queue : Nat
  request : Option Parked
  deriving Inhabited

namespace IdleQueues

def lives (s : IdleQueues) (q : Nat) : Bool :=
  s.queues[q]?.any (0 < ·.handles) || s.moments.any (·.inside = some q)

def pending? (s : IdleQueues) (q : Nat) : Option Parked := s.queues[q]?.bind (·.pending)

def change (s : IdleQueues) (q : Nat) (f : IdleQueue → IdleQueue) : IdleQueues :=
  { s with queues := s.queues.modify q f }

/-- The subscriber that an idle moment tells next, and the others after it. -/
def next? (s : IdleQueues) (moment : Nat) : Option (Nat × List Nat) :=
  match s.moments[moment]? with
  | some ⟨q :: rest, none⟩ => some (q, rest)
  | _ => none

/-- A queue that cannot be subscribed is not made. -/
def create (s : IdleQueues) : IdleQueues :=
  if s.refuses then s
  else
    { s with
      queues := s.queues ++ [{}]
      subscriptions := s.subscriptions.subscribe s.queues.length }

/-- Goes into the next subscriber if it lives, and else past it. -/
def offer (s : IdleQueues) (moment : Nat) (keyAvailable : Bool) : IdleQueues :=
  match s.next? moment with
  | none => s
  | some (q, rest) =>
    if s.lives q then
      { s.change q (·.serve keyAvailable) with moments := s.moments.set moment ⟨rest, some q⟩ }
    else { s with moments := s.moments.set moment ⟨rest, none⟩ }

def leave (s : IdleQueues) (moment : Nat) : IdleQueues :=
  { s with moments := s.moments.modify moment ({ · with inside := none }) }

def renew (s : IdleQueues) (teardown : Nat) : IdleQueues :=
  match s.teardowns[teardown]? with
  | some (q :: rest) =>
    let told := { s with teardowns := s.teardowns.set teardown rest }
    if s.lives q && !s.refuses then
      { told with subscriptions := s.subscriptions.subscribe q }
    else told
  | _ => s

def apply (s : IdleQueues) : IdleEvent → IdleQueues
  | .create => s.create
  | .clone q => s.change q .clone
  | .drop q => s.change q .drop
  | .park q request => s.change q (·.park request)
  | .withdraw q id => s.change q (·.withdraw id)
  | .idle => { s with moments := s.moments ++ [⟨s.subscriptions.subscribers, none⟩] }
  | .offer moment keyAvailable => s.offer moment keyAvailable
  | .leave moment => s.leave moment
  | .teardown =>
    { s with subscriptions := {}, teardowns := s.teardowns ++ [s.subscriptions.subscribers] }
  | .renew teardown => s.renew teardown
  | .refuse on => { s with refuses := on }

def run (s : IdleQueues) (events : List IdleEvent) : IdleQueues := events.foldl apply s

/-- What an event offers to a queue. -/
def offer? (s : IdleQueues) : IdleEvent → Option IdleOffer
  | .offer moment _ =>
    (s.next? moment).bind fun (q, _) =>
      if s.lives q then some ⟨moment, q, s.pending? q⟩ else none
  | _ => none

/-- The offers of a run, in order. -/
def offers (s : IdleQueues) : List IdleEvent → List IdleOffer
  | [] => []
  | e :: later => (s.offer? e).toList ++ (s.apply e).offers later

end IdleQueues

end SharedPrompt
