import SharedPrompt.Host.State

/-!
# Elementary changes of a host

Each change touches one part of the host and wakes the tasks that were waiting for it.
-/

namespace SharedPrompt

/-- What one step of a call comes to: nothing until something else changes, a later state of the
call, or its answer. -/
inductive Poll (σ α : Type) where
  | blocked
  | next (state : σ)
  | done (answer : α)
  deriving Inhabited

namespace Poll

variable {σ τ α β : Type}

def map (f : σ → τ) (g : α → β) : Poll σ α → Poll τ β
  | blocked => blocked
  | next s => next (f s)
  | done a => done (g a)

/-- Goes on with `f` after the answer. -/
def andThen (f : σ → τ) (g : α → τ) : Poll σ α → Poll τ β
  | blocked => blocked
  | next s => next (f s)
  | done a => next (g a)

end Poll

namespace Host

/-! ## Waking -/

/-- Queues a task to be polled, unless it is queued already. -/
def wake (h : Host) (task : Nat) : Host :=
  if h.ready.contains task then h else { h with ready := h.ready ++ [task] }

def wakeAll (h : Host) (tasks : List Nat) : Host := tasks.foldl wake h

def wakeWaiter (h : Host) (w : Option Waiter) : Host :=
  match w with
  | some w => h.wake w.task
  | none => h

/-- A place in line for a task; no two are equal. -/
def drawTurn (h : Host) (task : Nat) : Waiter × Host :=
  (⟨task, h.nextTurn⟩, { h with nextTurn := h.nextTurn + 1 })

/-! ## Tokens -/

def newToken (h : Host) : Nat × Host :=
  let r := h.tokens.new
  (r.1, { h with tokens := r.2 })

def deriveToken (h : Host) (id : Nat) : Nat × Host :=
  let r := h.tokens.derive id
  (r.1, { h with tokens := r.2 })

def awaitToken (h : Host) (id task : Nat) : Host := { h with tokens := h.tokens.await id task }

def forgetToken (h : Host) (id task : Nat) : Host := { h with tokens := h.tokens.forget id task }

def fireToken (h : Host) (id : Nat) : Host :=
  let r := h.tokens.fire id
  { h with tokens := r.1 }.wakeAll r.2

/-! ## Gates of the prompts -/

def joinGate (h : Host) (g : Nat) (w : Waiter) : Bool × Host :=
  let r := (h.stack.gate g).join w
  (r.1, { h with stack := h.stack.modifyGate g fun _ => r.2 })

def collectGate? (h : Host) (g : Nat) (w : Waiter) : Option Host :=
  ((h.stack.gate g).collect? w).map fun gate => { h with stack := h.stack.modifyGate g fun _ => gate }

def releaseGate (h : Host) (g : Nat) : Host :=
  { h with stack := h.stack.modifyGate g TicketGate.release }.wakeWaiter (h.stack.gate g).next?

def leaveGate (h : Host) (g : Nat) (w : Waiter) : Host :=
  { h with stack := h.stack.modifyGate g (·.leave w) }.wakeWaiter ((h.stack.gate g).heir? w)

/-- Gives back all tickets of a permit. -/
def releasePermit (h : Host) (p : Permit) : Host := p.gates.foldl releaseGate h

/-! ## The turn of the idle slot and the gate of the line reader -/

def releaseTurn (h : Host) : Host :=
  { h with slot := { h.slot with turn := h.slot.turn.release } }.wakeWaiter h.slot.turn.next?

def leaveTurn (h : Host) (w : Waiter) : Host :=
  { h with slot := { h.slot with turn := h.slot.turn.leave w } }.wakeWaiter (h.slot.turn.heir? w)

def releaseReader (h : Host) : Host :=
  { h with reader := { h.reader with gate := h.reader.gate.release } }.wakeWaiter h.reader.gate.next?

def leaveReader (h : Host) (w : Waiter) : Host :=
  { h with reader := { h.reader with gate := h.reader.gate.leave w } }.wakeWaiter (h.reader.gate.heir? w)

/-! ## Replies, records and notices -/

def newReply (h : Host) (task : Nat) : Nat × Host :=
  (h.replies.length, { h with replies := h.replies ++ [.open_ task] })

/-- Answers a request; the task that waits is woken, and with nobody waiting nothing happens. -/
def sendReply (h : Host) (reply : Nat) (r : RunResult) : Host :=
  match h.replies[reply]? with
  | some (.open_ task) => { h with replies := h.replies.set reply (.sent r) }.wake task
  | _ => h

def closeReply (h : Host) (reply : Nat) : Host := { h with replies := h.replies.set reply .closed }

def newSink (h : Host) : Nat × Host := (h.nextSink, { h with nextSink := h.nextSink + 1 })

def recordsOf (h : Host) (sink : Nat) : List String :=
  (h.records.filter (·.1 = sink)).map (·.2)

def notice (h : Host) (n : Notice) : Host := { h with trace := h.trace.notice n }

/-! ## Pipelines and prompts -/

def createPipeline (h : Host) (mode : PipelineMode) : Except EngineFault Nat × Host :=
  let r := h.engine.create h.trace mode
  (r.1, { h with engine := r.2.1, trace := r.2.2 })

def isLocked (h : Host) (pipeline : Nat) : Bool := h.locked.contains pipeline

def lockPipeline (h : Host) (pipeline : Nat) : Host := { h with locked := pipeline :: h.locked }

def unlockPipeline (h : Host) (pipeline : Nat) : Host := { h with locked := h.locked.erase pipeline }

/-- The prompt on top is leased, or its pipeline is locked or reports itself running. -/
def mainBusy (h : Host) : Bool :=
  h.stack.isLeased h.stack.top.gate || h.isLocked h.stack.top.pipeline ||
    h.engine.running.contains h.stack.top.pipeline

def lineBusy (h : Host) : Bool := h.stack.lineBusy

def spawnThread (h : Host) (stack : List Activation) : Host :=
  { h with threads := h.threads ++ [⟨h.nextThread, stack⟩], nextThread := h.nextThread + 1 }

def Task.usesPrompts : Task → Bool
  | .key _ => false
  | _ => true

def serving : Activation → Bool
  | .serve _ => true
  | _ => false

/-- Something still uses the prompts: their owner, a task, or a thread that serves an idle
moment. -/
def alive (h : Host) : Bool :=
  h.owned || h.tasks.any (fun t => Task.usesPrompts t.2) ||
    h.threads.any fun t => t.stack.any serving

/-- The engine opened a prompt inside a command. -/
def enterPrompt (h : Host) (kind : PromptKind) : Host :=
  if h.follows && h.alive then
    match h.createPipeline .nested with
    | (.ok n, h) =>
      { h with stack := h.stack.push n (kind == .debugger), opened := true :: h.opened }
    | (.error f, h) => { h with opened := false :: h.opened }.notice (.promptFrameFailed f kind)
  else h

/-- The engine closed the innermost of its prompts. -/
def leavePrompt (h : Host) : Host :=
  if h.follows then
    let known := h.opened.headD false
    let h := { h with opened := h.opened.tail }
    if known && h.alive then { h with stack := h.stack.pop } else h
  else h

end Host

end SharedPrompt
