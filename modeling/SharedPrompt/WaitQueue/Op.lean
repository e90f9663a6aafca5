import SharedPrompt.WaitQueue

/-!
# A queue under explicit polls

The operations on a queue whose callers poll for themselves. A getter begins with its first poll
and is finished by the poll that gives it an item; until then it may be dropped.
-/

namespace SharedPrompt

inductive QueueOp (ω α : Type) where
  | put (item : α)
  /-- Takes a stored item without waiting. -/
  | take
  | get (getter : ω)
  | poll (getter : ω)
  | drop (getter : ω)
  deriving Repr, DecidableEq

inductive QueueAnswer (α : Type) where
  | done
  | taken (item : Option α)
  | got (item : α)
  | pending
  /-- No such getter, or it has finished. -/
  | gone
  | dropped (existed : Bool)
  deriving Repr, DecidableEq

namespace WaitQueue

variable {ω α : Type} [DecidableEq ω]

/-- The getters that have been handed an item and not been polled since. -/
def woken (q : WaitQueue ω α) : List ω := q.handed.map (·.1)

/-- The getter has begun and has not finished. -/
def isUnfinished (q : WaitQueue ω α) (w : ω) : Bool := q.waiting.contains w || q.woken.contains w

def perform (q : WaitQueue ω α) : QueueOp ω α → QueueAnswer α × WaitQueue ω α
  | .put a => (.done, q.put a)
  | .take =>
    match q.take? with
    | some (a, q) => (.taken (some a), q)
    | none => (.taken none, q)
  | .get w =>
    match q.join w with
    | (some a, q) => (.got a, q)
    | (none, q) => (.pending, q)
  | .poll w =>
    match q.collect? w with
    | some (a, q) => (.got a, q)
    | none => (if q.isUnfinished w then .pending else .gone, q)
  | .drop w => (.dropped (q.isUnfinished w), q.leave w)

/-- The answers to a list of operations, and the queue after them. -/
def performAll (q : WaitQueue ω α) : List (QueueOp ω α) → List (QueueAnswer α) × WaitQueue ω α
  | [] => ([], q)
  | op :: rest =>
    let r := q.perform op
    let rs := performAll r.2 rest
    (r.1 :: rs.1, rs.2)

end WaitQueue

end SharedPrompt
