import SharedPrompt.Editor
import SharedPrompt.Engine.Invocation
import SharedPrompt.Worker.Work

/-!
# Workers

A worker has an engine and an inbox. It takes one message at a time and works on it to the end,
except that a unit handed to it by the unit it is working on is done at once, in place. Dropping
its owner puts a last message into the inbox: what lies behind that is never done.
-/

namespace SharedPrompt

inductive Message where
  /-- A unit whose answer goes to `ticket`; an owner that it may drop came with `holder`. -/
  | work (ticket holder : Nat) (list : Work)
  | shutdown
  deriving Inhabited

/-- What the innermost unit is at. -/
inductive Doing where
  | deeds
  | command (inv : Invocation) (editing : Bool)
  /-- Waits for the answer of a unit handed to another worker. -/
  | awaiting (ticket : Nat)
  deriving Inhabited

structure Frame where
  rest : Work
  entries : List Entry := []
  doing : Doing := .deeds
  deriving Inhabited

/-- A unit that was handed over in place is done. Its answer is an entry of the unit that handed it
over; a command that did so keeps the answer to itself. -/
def Frame.told (f : Frame) (r : WorkResult) : Frame :=
  match f.doing with
  | .command .. => f
  | .deeds | .awaiting _ => { f with entries := f.entries ++ [.nested r] }

/-- The unit that a worker has taken, with those that it was handed meanwhile on top. -/
structure Running where
  ticket : Nat
  holder : Nat
  frame : Frame
  below : List Frame := []
  deriving Inhabited

/-- Who has the owner of a worker. -/
inductive Owner where
  | outside
  /-- A unit has it, by the ticket of that unit. -/
  | within (ticket : Nat)
  | gone
  deriving Repr, DecidableEq, Inhabited

/-- How far a worker has come. -/
inductive Phase where
  | working
  /-- It has taken its last message, but its inbox is still there. -/
  | leaving
  | ended
  deriving Repr, DecidableEq, Inhabited

structure Worker where
  name : String
  thread : String
  engine : Engine
  /-- What the engines that it has opened were opened with. -/
  opened : List Preload := []
  inbox : List Message := []
  running : Option Running := none
  phase : Phase := .working
  owner : Owner := .outside
  /-- How many clients the outside has of it. -/
  clients : Nat := 1
  deriving Inhabited

/-- Nobody outside can send it a message any more. -/
def Worker.forsaken (w : Worker) : Bool := w.owner = .gone && w.clients = 0

/-- A worker whose owner goes learns of it by a message. -/
def Worker.disown (w : Worker) : Worker :=
  let inbox := if w.phase = .ended || w.owner = .gone then w.inbox else w.inbox ++ [.shutdown]
  { w with owner := .gone, inbox }

/-- Workers, the barriers their units wait at, and the answers by ticket. -/
structure Crew where
  workers : List Worker := []
  barriers : List String := []
  replies : List (Option WorkResult) := []
  trace : Trace := {}
  deriving Inhabited

namespace Crew

def worker? (c : Crew) (name : String) : Option Worker := c.workers.find? (·.name = name)

def setWorker (c : Crew) (w : Worker) : Crew :=
  { c with workers := c.workers.map fun v => if v.name = w.name then w else v }

def modifyWorker (c : Crew) (name : String) (f : Worker → Worker) : Crew :=
  { c with workers := c.workers.map fun w => if w.name = name then f w else w }

/-- Opens an engine for a worker and starts it. -/
def start (c : Crew) (name : String) (behavior : Behavior) (options : WorkerOptions) : Crew :=
  let worker : Worker :=
    { name, thread := options.thread, engine := Engine.opened behavior options.preload
      opened := [options.preload] }
  { c with workers := c.workers ++ [worker] }

/-- The same with an engine that may refuse to open. -/
def hire (c : Crew) (name : String) (behavior : Behavior) (refuses : Bool) (options : WorkerOptions) :
    Except WorkerFault Crew :=
  if refuses then .error (.engine Engine.refusal) else .ok (c.start name behavior options)

def answer? (c : Crew) (ticket : Nat) : Option WorkResult := (c.replies[ticket]?).join

/-- The first answer to a ticket is the one that counts. -/
def reply (c : Crew) (ticket : Nat) (r : WorkResult) : Crew :=
  { c with replies := c.replies.modify ticket fun old => old.or (some r) }

/-- Hands a unit to a worker, for a new ticket. A worker that has ended refuses it. -/
def submit (c : Crew) (name : String) (holder : Option Nat) (list : Work) : Nat × Crew :=
  let ticket := c.replies.length
  let message := Message.work ticket (holder.getD ticket) list
  match c.worker? name with
  | some w =>
    if w.phase = .ended then (ticket, { c with replies := c.replies ++ [some (.error .shutdown)] })
    else
      (ticket, { c with replies := c.replies ++ [none] }.setWorker { w with inbox := w.inbox ++ [message] })
  | none => (ticket, { c with replies := c.replies ++ [some (.error .shutdown)] })

/-- Drops the owner of a worker, if no unit has it. -/
def dropOwner (c : Crew) (name : String) : Crew :=
  c.modifyWorker name fun w => if w.owner = .outside then w.disown else w

/-- Drops whatever owner came with a unit. -/
def dropOwnerOf (c : Crew) (ticket : Nat) : Crew :=
  { c with workers := c.workers.map fun w => if w.owner = .within ticket then Worker.disown w else w }

/-- Gives the owner of a worker to a unit. -/
def giveOwner (c : Crew) (name : String) (ticket : Nat) : Crew :=
  c.modifyWorker name fun w => if w.owner = .outside then { w with owner := .within ticket } else w

/-- A unit that is never done is answered all the same. -/
def discard (c : Crew) : Message → Crew
  | .work ticket .. => (c.dropOwnerOf ticket).reply ticket (.error .replyDropped)
  | .shutdown => c

/-- The worker ends; the units left in its inbox are not done. -/
def close (c : Crew) (w : Worker) : Crew :=
  w.inbox.foldl discard (c.setWorker { w with inbox := [], phase := .ended })

/-- The innermost unit ends. If it was handed over by the unit below it, that one goes on. -/
def finish (c : Crew) (w : Worker) (run : Running) (r : WorkResult) : Crew :=
  match run.below with
  | f :: below => c.setWorker { w with running := some { run with frame := f.told r, below } }
  | [] => ((c.setWorker { w with running := none }).dropOwnerOf run.ticket).reply run.ticket r

/-- A panic ends the innermost unit and goes no further. -/
def panicked (c : Crew) (w : Worker) (run : Running) (p : Panic) : Crew :=
  { c with trace := c.trace.notice (.unitPanicked p.message) }.finish w run (.error (.panicked p.message))

/-- The innermost unit goes on with its deeds. -/
def resume (c : Crew) (w : Worker) (run : Running) (rest : Work) (more : List Entry) : Crew :=
  let frame : Frame := { rest, entries := run.frame.entries ++ more }
  c.setWorker { w with running := some { run with frame } }

def doing (c : Crew) (w : Worker) (run : Running) (rest : Work) (d : Doing) : Crew :=
  c.setWorker { w with running := some { run with frame := { run.frame with rest, doing := d } } }

/-- Begins a command on a fresh pipeline. -/
def beginCommand (c : Crew) (w : Worker) (run : Running) (rest : Work) (command : Command) : Crew :=
  match w.engine.create c.trace .current with
  | (.error f, engine, trace) =>
    { c with trace }.resume { w with engine } run rest [.engineFault f]
  | (.ok pipeline, engine, trace) =>
    let (engine, inv, editing) := engine.begin pipeline command 0 0
    { c with trace := trace.call (.started pipeline .silent command) }.doing { w with engine } run rest
      (.command inv editing)

/-- One deed; none if it has to wait. -/
def stepDeed (c : Crew) (w : Worker) (run : Running) (rest : Work) : Deed → Option Crew
  | .invoke command => some (c.beginCommand w run rest command)
  | .script editor text =>
    match w.engine.setVariable EditorView.variableName editor with
    | (.error f, engine) => some (c.resume { w with engine } run rest [.engineFault f])
    | (.ok (), engine) => some (c.beginCommand { w with engine } run rest (.script text))
  | .set name v =>
    match w.engine.setVariable name v with
    | (.error f, engine) => some (c.resume { w with engine } run rest [.engineFault f])
    | (.ok (), engine) => some (c.resume { w with engine } run rest [.flag true])
  | .place => some (c.resume w run rest [.place w.engine.inProcess w.engine.cancellable])
  | .onWorker name => some (c.resume w run rest [.flag (name == w.name)])
  | .thread => some (c.resume w run rest [.thread w.thread])
  | .submit name list =>
    if name = w.name then
      some (c.setWorker { w with running := some { run with
        frame := { rest := list }, below := { run.frame with rest } :: run.below } })
    else
      let (ticket, c) := c.submit name (some run.holder) list
      some (c.doing w run rest (.awaiting ticket))
  | .barrier name => if c.barriers.contains name then some (c.resume w run rest []) else none
  | .panic p => some (c.panicked w run p)
  | .dropOwner => some ((c.resume w run rest []).dropOwnerOf run.holder)

/-- One step of the command that the innermost unit runs. Nobody listens to the engine's own
notifications, and nothing fires the command's token. -/
def stepCommand (c : Crew) (w : Worker) (run : Running) (inv : Invocation) (editing : Bool) :
    Option Crew :=
  let ended (engine : Engine) (o : Outcome) : Crew :=
    let w := { w with engine := engine.finish inv editing }
    match o with
    | .values vs => c.resume w run run.frame.rest [.values vs]
    | .fault f => c.resume w run run.frame.rest [.scriptFault f]
    | .panicked p => c.panicked w run p
  let on (inv : Invocation) : Crew := c.doing w run run.frame.rest (.command inv false)
  if editing then
    match w.engine.lines with
    | line :: lines => some (ended { w.engine with lines } (.values [.str line]))
    | [] => none
  else
    match inv.turn w.engine false c.barriers.contains with
    | .on inv | .record _ inv | .idle inv | .enter _ inv | .leave inv => some (on inv)
    | .ended o => some (ended w.engine o)
    | .stuck => none

/-- One step of a worker; none if it has nothing to do or has to wait. -/
def stepWorker (c : Crew) (w : Worker) : Option Crew :=
  match w.running with
  | none =>
    match w.phase, w.inbox with
    | .ended, _ => none
    | .leaving, _ => some (c.close w)
    | .working, [] => if w.forsaken then some (c.setWorker { w with phase := .leaving }) else none
    | .working, .shutdown :: inbox => some (c.setWorker { w with inbox, phase := .leaving })
    | .working, .work ticket holder list :: inbox =>
      some (c.setWorker { w with inbox, running := some { ticket, holder, frame := { rest := list } } })
  | some run =>
    match run.frame.doing with
    | .command inv editing => c.stepCommand w run inv editing
    | .awaiting ticket => (c.answer? ticket).map fun r => c.resume w run run.frame.rest [.nested r]
    | .deeds =>
      match run.frame.rest with
      | [] => some (c.finish w run (.ok run.frame.entries))
      | d :: rest => c.stepDeed w run rest d

def step (c : Crew) (name : String) : Option Crew := (c.worker? name).bind c.stepWorker

/-- The command that a worker is at hands a unit to the worker itself. The unit is done in place, and
the command goes on after it. -/
def callBack (c : Crew) (name : String) (list : Work) : Crew :=
  c.modifyWorker name fun w =>
    match w.running with
    | some run =>
      match run.frame.doing with
      | .command .. =>
        { w with running := some { run with frame := { rest := list }, below := run.frame :: run.below } }
      | .deeds | .awaiting _ => w
    | none => w

end Crew

/-- What happens to a crew. -/
inductive CrewEvent where
  | submit (worker : String) (list : Work)
  /-- A unit that takes the owner of its worker along. -/
  | submitOwner (worker : String) (list : Work)
  | dropOwner (worker : String)
  /-- One more client of a worker. -/
  | client (worker : String)
  | dropClient (worker : String)
  | openBarrier (name : String)
  | failing (worker : String) (switch : Switch) (on : Bool)
  | turn (worker : String)
  deriving Inhabited

namespace Crew

def apply (c : Crew) : CrewEvent → Crew
  | .submit name list => (c.submit name none list).2
  | .submitOwner name list =>
    let (ticket, c) := c.submit name none list
    c.giveOwner name ticket
  | .dropOwner name => c.dropOwner name
  | .client name => c.modifyWorker name fun w => { w with clients := w.clients + 1 }
  | .dropClient name => c.modifyWorker name fun w => { w with clients := w.clients - 1 }
  | .openBarrier name => { c with barriers := name :: c.barriers }
  | .failing name switch on =>
    c.modifyWorker name fun w =>
      { w with engine := { w.engine with failures := w.engine.failures.set on switch } }
  | .turn name => (c.step name).getD c

def run (c : Crew) (events : List CrewEvent) : Crew := events.foldl apply c

end Crew

/-- What happens to a crew whose commands call back. -/
inductive CallingEvent where
  | event (e : CrewEvent)
  /-- The command that a worker is at hands a unit to that worker. -/
  | callBack (worker : String) (list : Work)
  deriving Inhabited

namespace Crew

def happen (c : Crew) : CallingEvent → Crew
  | .event e => c.apply e
  | .callBack name list => c.callBack name list

def follow (c : Crew) (events : List CallingEvent) : Crew := events.foldl happen c

end Crew

end SharedPrompt
