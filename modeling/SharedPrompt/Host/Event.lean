import SharedPrompt.Host.Task
import SharedPrompt.Host.Thread

/-!
# Events

Everything that can happen to a host, one at a time. A run is a list of events in any order; a
task or a thread that has nothing to do lets its event pass.
-/

namespace SharedPrompt

inductive Event where
  /-- One step of a task; `bias` says which of two things it looks at first. -/
  | poll (task : Nat) (bias : List Bool)
  | advance (thread : Nat)
  | start (call : Start)
  | drop (task : Nat)
  /-- The owner of a permit gives it back. -/
  | release (owner : Nat)
  | fire (token : Nat)
  | key (k : KeyEvent)
  | typeLine (line : String)
  /-- The engine has an idle moment. -/
  | idle
  /-- The engine ends all subscriptions to its idle moments. -/
  | teardown
  | enter (kind : PromptKind)
  | leave
  | push (debugger : Bool)
  | pushLeased (debugger : Bool)
  | pop
  | lock (pipeline : Nat)
  | unlock (pipeline : Nat)
  | barrier (name : String) (isOpen : Bool)
  | running (pipeline : Nat) (on : Bool)
  | failing (switch : Switch) (on : Bool)
  /-- The owner of the host lets go of it. -/
  | disown
  deriving Inhabited

namespace Host

/-- Opens a prompt on request; its level. -/
def pushPrompt (h : Host) (debugger : Bool) : Except EngineFault Nat × Host :=
  match h.createPipeline .nested with
  | (.error f, h) => (.error f, h)
  | (.ok n, h) =>
    let h := { h with stack := h.stack.push n debugger }
    (.ok h.stack.level, h)

/-- Opens a prompt whose ticket the caller holds from the start, under a new owner's name. -/
def pushLeasedPrompt (h : Host) (debugger : Bool) : Except EngineFault (Nat × Permit) × Host :=
  match h.createPipeline .nested with
  | (.error f, h) => (.error f, h)
  | (.ok n, h) =>
    let stack := h.stack.pushLeased n debugger
    let permit : Permit := { lease := stack.top.gate }
    (.ok (h.nextTask, permit),
      { h with stack, nextTask := h.nextTask + 1, permits := h.permits ++ [(h.nextTask, permit)] })

def releaseOwned (h : Host) (owner : Nat) : Host :=
  match h.permits.lookup owner with
  | some p => { h with permits := h.permits.filter (·.1 ≠ owner) }.releasePermit p
  | none => h

/-- Ends all subscriptions. The host subscribes again while something uses it. -/
def teardown (h : Host) : Host :=
  let r := h.subscriptions.teardown (fun _ => h.alive) (!h.engine.failures.subscribeIdle)
  r.2.foldl (fun h _ => h.notice (.resubscribeFailed (.subscribe "idle" Engine.injected)))
    { h with subscriptions := r.1 }

def typeLine (h : Host) (line : String) : Host := { h with engine := h.engine.typeLine line }

def setBarrier (h : Host) (name : String) (isOpen : Bool) : Host :=
  { h with barriers := if isOpen then name :: h.barriers else h.barriers.filter (· ≠ name) }

def setRunning (h : Host) (pipeline : Nat) (on : Bool) : Host :=
  let others := h.engine.running.filter (· ≠ pipeline)
  { h with engine := { h.engine with running := if on then pipeline :: others else others } }

def setFailing (h : Host) (switch : Switch) (on : Bool) : Host :=
  { h with engine := { h.engine with failures := h.engine.failures.set on switch } }

def apply (h : Host) : Event → Host
  | .poll task bias => (h.stepTask task bias).1
  | .advance thread => (h.stepThread thread).1
  | .start call => (h.startTask call).2
  | .drop task => h.dropTask task
  | .release owner => h.releaseOwned owner
  | .fire token => h.fireToken token
  | .key k => h.pushKey k
  | .typeLine line => h.typeLine line
  | .idle => h.spawnThread [.notify h.subscriptions.subscribers]
  | .teardown => h.teardown
  | .enter kind => h.enterPrompt kind
  | .leave => h.leavePrompt
  | .push debugger => (h.pushPrompt debugger).2
  | .pushLeased debugger => (h.pushLeasedPrompt debugger).2
  | .pop => { h with stack := h.stack.pop }
  | .lock pipeline => if h.isLocked pipeline then h else h.lockPipeline pipeline
  | .unlock pipeline => h.unlockPipeline pipeline
  | .barrier name isOpen => h.setBarrier name isOpen
  | .running pipeline on => h.setRunning pipeline on
  | .failing switch on => h.setFailing switch on
  | .disown => { h with owned := false }

/-- What a host comes to by a list of events. -/
def run (h : Host) (events : List Event) : Host := events.foldl apply h

end Host

end SharedPrompt
