import SharedPrompt.Host.Basic

/-!
# Engine threads

A thread works on its innermost activation. A command that ends returns its outcome to the
activation below it, whatever the outcome is: a panic goes no further.
-/

namespace SharedPrompt

namespace Activation

/-- Begins a command on a pipeline. -/
def beginCommand (h : Host) (pipeline : Nat) (job : Job) (below : List Activation) :
    Host × List Activation :=
  let trace := h.trace.call (.started pipeline job.options job.command)
  let (engine, inv, editing) := h.engine.begin pipeline job.command job.sink job.token
  ({ h with engine, trace }, (if editing then .edit inv true else .command inv) :: below)

/-- Hands the outcome of a command to the activation below. -/
def deliver (r : RunResult) : List Activation → List Activation
  | .errand .called work :: below => .errand (.unlock r) work :: below
  | .serve (.called request permit pipeline) :: below =>
    .serve (.answer request permit pipeline r) :: below
  | stack => stack

/-- Ends a command. -/
def endCommand (h : Host) (inv : Invocation) (editing : Bool) (o : Outcome) (below : List Activation) :
    Host × List Activation :=
  let h := { h with engine := h.engine.finish inv editing }
  let h := match o.notice? inv.command with
    | some n => h.notice n
    | none => h
  match below with
  | .direct pipeline true _ reply :: below => ((h.unlockPipeline pipeline).sendReply reply o.result, below)
  | _ => (h, deliver o.result below)

def stepErrand (h : Host) (work : Assignment) (below : List Activation) :
    Errand → Option (Host × List Activation)
  | .start =>
    if h.tokens.isFired work.job.token then
      some (h, .errand (.release (.error .cancelled)) work :: below)
    else some (h, .errand .lock work :: below)
  | .lock =>
    if h.isLocked work.pipeline then none
    else some (beginCommand (h.lockPipeline work.pipeline) work.pipeline work.job
      (.errand .called work :: below))
  | .called => none
  | .unlock r => some (h.unlockPipeline work.pipeline, .errand (.release r) work :: below)
  | .release r => some (h.releaseGate work.permit.lease, .errand (.releaseMain r) work :: below)
  | .releaseMain r =>
    some (work.permit.main.toList.foldl Host.releaseGate h, .errand (.answer r) work :: below)
  | .answer r => some (h.sendReply work.reply r, below)

/-- An idle moment goes to the parked command if there is one and no key waits to be read. It runs
in a prompt of its own, which is taken for it before anybody can see it. -/
def stepServing (h : Host) (below : List Activation) : Serving → Option (Host × List Activation)
  | .look =>
    if h.slot.pending.isNone || h.console.keyAvailable then some (h, below)
    else some (h, .serve .take :: below)
  | .take =>
    match h.slot.pending with
    | none => some (h, below)
    | some request =>
      some ({ h with slot := { h.slot with pending := none } }, .serve (.openPrompt request) :: below)
  | .openPrompt request =>
    match h.createPipeline .nested with
    | (.error f, h) =>
      some ((h.notice (.idleFrameFailed f)).sendReply request.reply (.error (.engine f)), below)
    | (.ok n, h) =>
      let h := { h with stack := h.stack.pushLeased n false }
      some (h, .serve (.lock request { lease := h.stack.top.gate } n) :: below)
  | .lock request permit pipeline =>
    if h.isLocked pipeline then none
    else
      let (token, h) := h.newToken
      some (beginCommand (h.lockPipeline pipeline) pipeline { request.job with token }
        (.serve (.called request permit pipeline) :: below))
  | .called .. => none
  | .answer request permit pipeline r =>
    some (h.sendReply request.reply r, .serve (.unlock permit pipeline) :: below)
  | .unlock permit pipeline => some (h.unlockPipeline pipeline, .serve (.release permit) :: below)
  | .release permit => some (h.releasePermit permit, .serve .closePrompt :: below)
  | .closePrompt => some ({ h with stack := h.stack.pop }, below)

def stepCommand (h : Host) (inv : Invocation) (below : List Activation) :
    Option (Host × List Activation) :=
  match inv.turn h.engine (h.tokens.isFired inv.token) h.barriers.contains with
  | .on inv => some (h, .command inv :: below)
  | .record text inv => some ({ h with records := h.records ++ [(inv.sink, text)] }, .command inv :: below)
  | .ended o => some (endCommand h inv false o below)
  | .stuck => none
  | .idle inv => some (h, .notify h.subscriptions.subscribers :: .command inv :: below)
  | .enter kind inv => some (h.enterPrompt kind, .command inv :: below)
  | .leave inv => some (h.leavePrompt, .command inv :: below)

/-- The line editor returns the oldest line typed. Without one it stops if it observes its token
and that has fired, and else makes an idle moment and looks again. -/
def stepEdit (h : Host) (inv : Invocation) (below : List Activation) : Host × List Activation :=
  match h.engine.lines with
  | line :: rest =>
    endCommand { h with engine := { h.engine with lines := rest } } inv true (.values [.str line]) below
  | [] =>
    if h.engine.cancellable && h.tokens.isFired inv.token then
      endCommand h inv true (.fault .cancelled) below
    else (h, .notify h.subscriptions.subscribers :: .edit inv false :: below)

/-- One step of a thread; none if it has to wait. -/
def step (h : Host) : List Activation → Option (Host × List Activation)
  | [] => none
  | .notify [] :: below => some (h, below)
  | .notify (_ :: rest) :: below =>
    some (h, if h.alive then .serve .look :: .notify rest :: below else .notify rest :: below)
  | .serve phase :: below => stepServing h below phase
  | .errand phase work :: below => stepErrand h work below phase
  | .direct pipeline false job reply :: below =>
    if h.isLocked pipeline then none
    else
      some (beginCommand (h.lockPipeline pipeline) pipeline job
        (.direct pipeline true job reply :: below))
  | .direct _ true _ _ :: _ => none
  | .command inv :: below => stepCommand h inv below
  | .edit inv _ :: below => some (stepEdit h inv below)

end Activation

namespace Host

def thread? (h : Host) (id : Nat) : Option Thread := h.threads.find? (·.id = id)

def setThread (h : Host) (id : Nat) (stack : List Activation) : Host :=
  if stack.isEmpty then { h with threads := h.threads.filter (·.id ≠ id) }
  else { h with threads := h.threads.map fun t => if t.id = id then ⟨id, stack⟩ else t }

/-- One step of a thread; whether there was anything to do. -/
def stepThread (h : Host) (id : Nat) : Host × Bool :=
  match h.thread? id with
  | none => (h, false)
  | some t =>
    match Activation.step h t.stack with
    | none => (h, false)
    | some (h, stack) => (h.setThread id stack, true)

end Host

end SharedPrompt
