import SharedPrompt.WaitQueue

/-!
# Gates with one ticket

Whoever takes the ticket has sole use of what the gate guards until the ticket comes back.
Waiters are served in the order of their arrival.
-/

namespace SharedPrompt

structure TicketGate (ω : Type) where
  name : String
  tickets : WaitQueue ω Unit
  deriving Repr, DecidableEq, Inhabited

namespace TicketGate

variable {ω : Type}

/-- A gate with its ticket in place. -/
def new (name : String) : TicketGate ω := ⟨name, WaitQueue.empty.put ()⟩

/-- The ticket is not in place. -/
def isLeased (g : TicketGate ω) : Bool := g.tickets.items.isEmpty

def next? (g : TicketGate ω) : Option ω := g.tickets.next?

/-- Takes the ticket if it is in place. -/
def take? (g : TicketGate ω) : Option (TicketGate ω) :=
  g.tickets.take?.map fun r => { g with tickets := r.2 }

/-- Takes the ticket or joins the line; the answer tells whether it was taken. -/
def join (g : TicketGate ω) (w : ω) : Bool × TicketGate ω :=
  let r := g.tickets.join w
  (r.1.isSome, { g with tickets := r.2 })

/-- Gives the ticket back. -/
def release (g : TicketGate ω) : TicketGate ω := { g with tickets := g.tickets.put () }

variable [DecidableEq ω]

/-- Collects the ticket that was handed over while waiting. -/
def collect? (g : TicketGate ω) (w : ω) : Option (TicketGate ω) :=
  (g.tickets.collect? w).map fun r => { g with tickets := r.2 }

/-- Leaves the line; a ticket already handed over goes on to the next waiter. -/
def leave (g : TicketGate ω) (w : ω) : TicketGate ω := { g with tickets := g.tickets.leave w }

def heir? (g : TicketGate ω) (w : ω) : Option ω := g.tickets.heir? w

end TicketGate

end SharedPrompt
