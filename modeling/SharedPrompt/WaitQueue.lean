/-!
# First-come queues

A queue of items with waiters. An item goes to the waiter that has waited longest, and is stored
only when nobody waits. An item that has been handed to a waiter stays in the queue's books until
the waiter collects it; a waiter that leaves first gives it back through `put`.
-/

namespace SharedPrompt

/-- Items of type `α` for waiters named by `ω`, all lists oldest first. -/
structure WaitQueue (ω α : Type) where
  items : List α := []
  waiting : List ω := []
  handed : List (ω × α) := []
  deriving Repr, DecidableEq, Inhabited

namespace WaitQueue

variable {ω α : Type}

def empty : WaitQueue ω α := {}

/-- The waiter that the next item goes to. -/
def next? (q : WaitQueue ω α) : Option ω := q.waiting.head?

/-- Hands the item to the longest waiter, or stores it. -/
def put (q : WaitQueue ω α) (a : α) : WaitQueue ω α :=
  match q.waiting with
  | [] => { q with items := q.items ++ [a] }
  | w :: rest => { q with waiting := rest, handed := q.handed ++ [(w, a)] }

/-- Takes the oldest stored item, without waiting. -/
def take? (q : WaitQueue ω α) : Option (α × WaitQueue ω α) :=
  match q.items with
  | [] => none
  | a :: rest => some (a, { q with items := rest })

/-- Takes the oldest stored item, or joins the end of the line. -/
def join (q : WaitQueue ω α) (w : ω) : Option α × WaitQueue ω α :=
  match q.take? with
  | some (a, q) => (some a, q)
  | none => (none, { q with waiting := q.waiting ++ [w] })

variable [DecidableEq ω]

/-- The item handed to a waiter and not yet collected. -/
def handed? (q : WaitQueue ω α) (w : ω) : Option α := q.handed.lookup w

/-- Collects the item handed to a waiter. -/
def collect? (q : WaitQueue ω α) (w : ω) : Option (α × WaitQueue ω α) :=
  (q.handed? w).map fun a => (a, { q with handed := q.handed.eraseP (·.1 = w) })

/-- Takes a waiter out of the line. What it had been handed is put back. -/
def leave (q : WaitQueue ω α) (w : ω) : WaitQueue ω α :=
  match q.collect? w with
  | some (a, q) => q.put a
  | none => { q with waiting := q.waiting.erase w }

/-- The waiter that gets an item when `w` leaves. -/
def heir? (q : WaitQueue ω α) (w : ω) : Option ω :=
  if (q.handed? w).isSome then q.next? else none

end WaitQueue

end SharedPrompt
