import SharedPrompt.TicketGate

/-!
# A gate under explicit polls

The ticket of a gate is held either bare, and then its holder may lose it, or by a lease, which
gives it back when it ends. The books say who holds what.
-/

namespace SharedPrompt

inductive Hold where
  | bare
  | lease
  deriving Repr, DecidableEq, Inhabited

/-- A gate with the calls that have not finished and the holders of its ticket. -/
structure TicketBook where
  gate : TicketGate String
  calls : List (String × Hold) := []
  holders : List (String × Hold) := []
  deriving Repr, DecidableEq, Inhabited

inductive GateOp where
  /-- Begins to take the ticket, and polls once. -/
  | acquire (id : String) (hold : Hold)
  /-- Takes the ticket if it is in place. -/
  | tryAcquire (id : String) (hold : Hold)
  | poll (id : String)
  | drop (id : String)
  /-- Gives a bare ticket back, or ends a lease. -/
  | giveBack (id : String) (hold : Hold)
  /-- Loses a bare ticket. -/
  | forget (id : String)
  deriving Repr, DecidableEq, Inhabited

inductive GateAnswer where
  | got (hold : Hold)
  | pending
  | gone
  | taken (ok : Bool)
  | existed (b : Bool)
  deriving Repr, DecidableEq, Inhabited

namespace TicketBook

def new (name : String) : TicketBook := { gate := .new name }

/-- The calls that have been handed the ticket and not been polled since. -/
def woken (b : TicketBook) : List String := b.gate.tickets.handed.map (·.1)

def holds (b : TicketBook) (id : String) (hold : Hold) : Bool := b.holders.contains (id, hold)

def perform (b : TicketBook) : GateOp → GateAnswer × TicketBook
  | .acquire id hold =>
    match b.gate.join id with
    | (true, gate) => (.got hold, { b with gate, holders := (id, hold) :: b.holders })
    | (false, gate) => (.pending, { b with gate, calls := (id, hold) :: b.calls })
  | .tryAcquire id hold =>
    match b.gate.take? with
    | some gate => (.taken true, { b with gate, holders := (id, hold) :: b.holders })
    | none => (.taken false, b)
  | .poll id =>
    match b.calls.lookup id with
    | none => (.gone, b)
    | some hold =>
      match b.gate.collect? id with
      | some gate =>
        (.got hold, { gate, calls := b.calls.erase (id, hold), holders := (id, hold) :: b.holders })
      | none => (.pending, b)
  | .drop id =>
    match b.calls.lookup id with
    | none => (.existed false, b)
    | some hold => (.existed true, { b with gate := b.gate.leave id, calls := b.calls.erase (id, hold) })
  | .giveBack id hold =>
    if b.holds id hold then
      (.existed true, { b with gate := b.gate.release, holders := b.holders.erase (id, hold) })
    else (.existed false, b)
  | .forget id =>
    if b.holds id .bare then (.existed true, { b with holders := b.holders.erase (id, .bare) })
    else (.existed false, b)

/-- The answers to a list of operations, and the books after them. -/
def performAll (b : TicketBook) : List GateOp → List GateAnswer × TicketBook
  | [] => ([], b)
  | op :: rest =>
    let r := b.perform op
    let rs := performAll r.2 rest
    (r.1 :: rs.1, rs.2)

end TicketBook

end SharedPrompt
