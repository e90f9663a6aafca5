import SharedPrompt.Worker.Crew

/-!
# Letting workers come to rest

The workers take their turns until none of them can go on. What they have left to do tells how many
turns that takes at most: a turn takes away from the deeds, or else from the actions of a command
that a deed has begun.
-/

namespace SharedPrompt

/-! ## What is left to do -/

mutual

/-- What a deed counts. A unit that is handed over counts its message or its frame, and the wait for
its answer. -/
def Deed.load : Deed → Nat
  | .submit _ list => loads list + 4
  | .invoke _ | .script .. | .set .. | .place | .onWorker _ | .thread | .barrier _ | .panic _
  | .dropOwner => 2

def Deed.loads : List Deed → Nat
  | [] => 0
  | d :: rest => d.load + loads rest

end

/-- What the elements of a list count together. -/
def tally {α : Type} (f : α → Nat) : List α → Nat
  | [] => 0
  | a :: rest => f a + tally f rest

/-- A deed that has been begun counts until its entry is made. -/
def Doing.load : Doing → Nat
  | deeds => 0
  | command _ _ | awaiting _ => 1

def Frame.load (f : Frame) : Nat := Deed.loads f.rest + f.doing.load + 1

def Running.load (run : Running) : Nat := run.frame.load + tally Frame.load run.below

def Message.load : Message → Nat
  | work _ _ list => Deed.loads list + 2
  | shutdown => 1

def Phase.load : Phase → Nat
  | working => 2
  | leaving => 1
  | ended => 0

/-- An owner has a message to leave. -/
def Owner.load : Owner → Nat
  | gone => 0
  | outside | within _ => 1

def Worker.load (w : Worker) : Nat :=
  (w.running.elim 0 Running.load) + tally Message.load w.inbox + w.phase.load + w.owner.load

/-- The actions that a command has left. -/
def Doing.actions : Doing → Nat
  | command inv _ => inv.rest.length
  | deeds | awaiting _ => 0

def Worker.actions (w : Worker) : Nat := w.running.elim 0 (·.frame.doing.actions)

namespace Crew

/-- A count over the workers of a crew. -/
def count (c : Crew) (f : Worker → Nat) : Nat :=
  tally (fun w => (c.worker? w.name).elim 0 f) c.workers

/-! ## Turns -/

/-- The first worker that can go on has a turn. -/
def next? (c : Crew) : Option Crew := c.workers.findSome? fun w => c.step w.name

/-- So many turns, or as many as there are. -/
def proceed (c : Crew) : Nat → Crew
  | 0 => c
  | n + 1 => c.next?.elim c (·.proceed n)

/-- Turns in rounds. A round is long enough for the commands that have begun, and the turn after
their last action. -/
def rounds (c : Crew) : Nat → Crew
  | 0 => c
  | n + 1 => (c.proceed (c.count Worker.actions + 1)).rounds n

/-- How many rounds are enough for a crew. -/
def patience (c : Crew) : Nat := c.count Worker.load + 1

/-- Lets every worker go on until it ends or has to wait. -/
def settle (c : Crew) (patience : Crew → Nat) : Crew := c.rounds (patience c)

/-- Has a worker do a unit, and waits for its answer. -/
def call (c : Crew) (worker : String) (list : Work) : WorkResult × Crew :=
  let (ticket, c) := c.submit worker none list
  let c := c.settle patience
  ((c.answer? ticket).getD (.error .replyDropped), c)

end Crew

end SharedPrompt
