import SharedPrompt.Host.Read

/-!
# Tasks

A task is one call of the host, polled until it ends. Dropping it gives up what it holds.
-/

namespace SharedPrompt

/-- The calls of a host, with their arguments. -/
inductive Start where
  /-- A command, after stopping a read if its options ask for that. -/
  | command (job : Job) (sink : Option Nat)
  | run (job : Job) (sink : Option Nat)
  | idle (job : Job) (sink : Nat)
  | read (commandLine : Bool) (token : Nat)
  | line (commandLine : Bool) (token : Nat)
  | abort
  | exit
  | lease (readLine : Bool)
  | key (token : Nat)
  deriving Inhabited

/-- A call before its first step. -/
def Start.task : Start → Task
  | command job sink => .command (.start job) sink
  | run job sink => .command (.running (.start job)) sink
  | idle job sink => .idle (.start job) sink
  | read commandLine token => .read (.start commandLine token)
  | line commandLine token => .line (.start commandLine token)
  | abort => .abort .start
  | exit => .exit .start
  | lease readLine => .lease (.choose readLine)
  | key token => .key (.start token)

namespace Task

def step (h : Host) (me : Nat) (bias : List Bool) : Task → Host × Poll Task TaskResult
  | command call sink =>
    let r := call.step h me bias
    (r.1, r.2.map (.command · sink) (.ran · sink))
  | idle call sink =>
    let r := call.step h me
    (r.1, r.2.map (.idle · sink) fun result => .ran result (some sink))
  | read call =>
    let r := call.step h me bias
    (r.1, r.2.map .read .line)
  | line call =>
    let r := call.step h me bias
    (r.1, r.2.map .line .line)
  | abort call =>
    let r := call.step h me bias
    (r.1, r.2.map .abort fun _ => .done)
  | exit call =>
    let r := call.step h me
    (r.1, r.2.map .exit fun _ => .done)
  | lease call =>
    let r := call.step h me
    (r.1, r.2.map .lease .permit)
  | key call =>
    let r := call.step h me bias
    (r.1, r.2.map .key .key)

def abandon (h : Host) (me : Nat) : Task → Host
  | command call _ => call.abandon h me
  | idle call _ => call.abandon h
  | read call => call.abandon h me
  | line call => call.abandon h me
  | abort call => call.abandon h
  | exit call => call.abandon h
  | lease call => call.abandon h
  | key call => call.abandon h me

end Task

namespace Host

def task? (h : Host) (id : Nat) : Option Task := h.tasks.lookup id

/-- A new task, woken. -/
def startTask (h : Host) (call : Start) : Nat × Host :=
  let grown := { h with tasks := h.tasks ++ [(h.nextTask, call.task)], nextTask := h.nextTask + 1 }
  (h.nextTask, grown.wake h.nextTask)

def setTask (h : Host) (id : Nat) (task : Task) : Host :=
  { h with tasks := h.tasks.map fun t => if t.1 = id then (id, task) else t }

def removeTask (h : Host) (id : Nat) : Host := { h with tasks := h.tasks.filter (·.1 ≠ id) }

/-- A task has ended. A permit it ends with goes to its owner outside. -/
def finishTask (h : Host) (id : Nat) (r : TaskResult) : Host :=
  let h := h.removeTask id
  let h := { h with finished := h.finished ++ [(id, r)] }
  match r with
  | .permit p => { h with permits := h.permits ++ [(id, p)] }
  | _ => h

/-- One step of a task; whether there was anything to do. -/
def stepTask (h : Host) (id : Nat) (bias : List Bool) : Host × Bool :=
  match h.task? id with
  | none => (h, false)
  | some task =>
    match task.step h id bias with
    | (h, .blocked) => (h, false)
    | (h, .next task) => (h.setTask id task, true)
    | (h, .done r) => (h.finishTask id r, true)

/-- Drops a task that has not ended. -/
def dropTask (h : Host) (id : Nat) : Host :=
  match h.task? id with
  | none => h
  | some task => (task.abandon h id).removeTask id

end Host

end SharedPrompt
