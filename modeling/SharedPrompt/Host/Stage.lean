import SharedPrompt.Host.Open
import SharedPrompt.Host.Settle

/-!
# A stage

A stage is a host with names for its tasks, tokens, permits and locks. A step does one thing to
the host and lets it come to rest; the report of a step is what has come about since the last.
-/

namespace SharedPrompt

/-- Which part of a host is on stage. -/
inductive Target where
  | session
  | parts
  | console
  | legacy
  deriving Repr, DecidableEq, Inhabited

def Target.hasPrompts : Target → Bool
  | session | parts => true
  | console | legacy => false

inductive Step where
  | exec (id : String) (command : Command) (options : Options) (token : Option String)
  | idleExec (id : String) (command : Command) (options : Options)
  | read (id : String) (commandLine : Bool) (token : Option String)
  | abort (id : String)
  | waitExit (id : String)
  | acquire (id : String) (readLine : Bool)
  | readKey (id : String) (token : Option String)
  | drop (id : String)
  | release (id : String)
  | push (debugger : Bool)
  | pushLeased (id : String) (debugger : Bool)
  | pop
  | samePipeline
  | lock (id : String) (readLine : Bool)
  | unlock (id : String)
  | invoke (command : Command) (options : Options) (readLine : Bool) (token : Option String)
  | set (name : String) (v : Value)
  | cancel (token : String)
  | keys (list : List KeyEvent)
  | write (text : String)
  | cursor (column row : Nat)
  | stats
  /-- An event that needs no names. -/
  | event (e : Event)
  | none
  deriving Inhabited

inductive Answer where
  | none
  | flag (b : Bool)
  | level (r : Except EngineFault Nat)
  | leased (r : Except EngineFault (Permit × Bool))
  | ran (r : RunResult)
  | value (r : Except EngineFault Value)
  | stats (invoked : List Command) (created : List PipelineMode)
  deriving Inhabited

structure Stage where
  target : Target
  host : Host
  names : List (String × Nat) := []
  tokens : List (String × Nat) := []
  locks : List (String × Nat) := []
  seenCalls : Nat := 0
  seenNotices : Nat := 0
  seenWritten : Nat := 0
  seenFinished : Nat := 0
  deriving Inhabited

/-- What has come about since the last report. -/
structure Report where
  answer : Answer
  finished : List (String × TaskResult)
  calls : List Call
  notices : List Notice
  written : List Char
  host : Host
  deriving Inhabited

namespace Stage

/-- The token of a name, made on first use; without a name a token of its own. -/
def token (s : Stage) : Option String → Nat × Stage
  | .none =>
    let (id, host) := s.host.newToken
    (id, { s with host })
  | .some name =>
    match s.tokens.lookup name with
    | .some id => (id, s)
    | .none =>
      let (id, host) := s.host.newToken
      (id, { s with host, tokens := (name, id) :: s.tokens })

def sink (s : Stage) : Nat × Stage :=
  let (id, host) := s.host.newSink
  (id, { s with host })

def start (s : Stage) (name : String) (call : Start) : Stage :=
  let (id, host) := s.host.startTask call
  { s with host, names := (name, id) :: s.names }

def apply (s : Stage) (e : Event) : Stage := { s with host := s.host.apply e }

def nameOf (s : Stage) (id : Nat) : String :=
  ((s.names.find? (·.2 = id)).map (·.1)).getD ""

/-- Runs a command as the part on stage does: a session first stops a read if it is asked to, and
keeps the records of a command to itself unless the caller brings a token. -/
def exec (s : Stage) (id : String) (command : Command) (options : Options)
    (token : Option String) : Stage :=
  let (t, s) := s.token token
  let (sink, s) := s.sink
  let job : Job := ⟨command, options, sink, t⟩
  match s.target with
  | .session => s.start id (.command job (if token.isSome then some sink else Option.none))
  | _ => s.start id (.run job (some sink))

def read (s : Stage) (id : String) (commandLine : Bool) (token : Option String) : Stage :=
  let (t, s) := s.token token
  s.start id (if s.target.hasPrompts then .read commandLine t else .line commandLine t)

def invoke (s : Stage) (command : Command) (options : Options) (readLine : Bool) (token : Option String) :
    Answer × Stage :=
  let (t, s) := s.token token
  let (sink, s) := s.sink
  let (reply, host) := s.host.newReply s.host.nextTask
  let pipeline := host.stack.currentPipeline readLine
  let host := host.runDirect pipeline ⟨command, options, sink, t⟩ reply Host.patience
  match host.replyResult reply with
  | .some r => (.ran r, { s with host })
  | .none => (.none, { s with host })

def dropTask (s : Stage) (name : String) : Answer × Stage :=
  match s.names.lookup name with
  | .some id => (.flag (s.host.task? id).isSome, s.apply (.drop id))
  | .none => (.flag false, s)

def act (s : Stage) : Step → Answer × Stage
  | .exec id command options token => (.none, s.exec id command options token)
  | .idleExec id command options =>
    let (t, s) := s.token .none
    let (sink, s) := s.sink
    (.none, s.start id (.idle ⟨command, options, sink, t⟩ sink))
  | .read id commandLine token => (.none, s.read id commandLine token)
  | .abort id => (.none, s.start id .abort)
  | .waitExit id => (.none, s.start id .exit)
  | .acquire id readLine => (.none, s.start id (.lease readLine))
  | .readKey id token =>
    let (t, s) := s.token token
    (.none, s.start id (.key t))
  | .drop id => s.dropTask id
  | .release id =>
    match s.names.lookup id with
    | .some owner => (.none, s.apply (.release owner))
    | .none => (.none, s)
  | .push debugger =>
    let (r, host) := s.host.pushPrompt debugger
    (.level r, { s with host })
  | .pushLeased id debugger =>
    match s.host.pushLeasedPrompt debugger with
    | (.error f, host) => (.leased (.error f), { s with host })
    | (.ok (owner, permit), host) =>
      let current := host.stack.currentPipeline false = host.stack.top.pipeline
      (.leased (.ok (permit, current)), { s with host, names := (id, owner) :: s.names })
  | .pop => (.flag (!s.host.stack.nested.isEmpty), s.apply .pop)
  | .samePipeline => (.flag (s.host.stack.currentPipeline false == s.host.stack.currentPipeline true), s)
  | .lock id readLine =>
    let p := s.host.stack.currentPipeline readLine
    (.none, { s.apply (.lock p) with locks := (id, p) :: s.locks })
  | .unlock id =>
    match s.locks.lookup id with
    | .some p => (.none, { s.apply (.unlock p) with locks := s.locks.filter (·.1 ≠ id) })
    | .none => (.none, s)
  | .invoke command options readLine token => s.invoke command options readLine token
  | .set name v =>
    let (r, engine) := s.host.engine.setVariable name v
    (.value (r.map fun _ => (engine.variable_ name).getD .null), { s with host := { s.host with engine } })
  | .cancel token =>
    let (t, s) := s.token (some token)
    (.none, s.apply (.fire t))
  | .keys list => (.none, list.foldl (fun s k => s.apply (.key k)) s)
  | .write text => (.none, { s with host := s.host.modifyConsole (·.write text.toList) })
  | .cursor column row =>
    (.none, { s with host := s.host.modifyConsole fun c => { c with cursor := ⟨column, row⟩ } })
  | .stats => (.stats s.host.engine.invoked s.host.engine.created, s)
  | .event e => (.none, s.apply e)
  | .none => (.none, s)

def report (s : Stage) (answer : Answer) : Report × Stage :=
  let h := s.host
  ({ answer
     finished := (h.finished.drop s.seenFinished).map fun f => (s.nameOf f.1, f.2)
     calls := h.trace.calls.drop s.seenCalls
     notices := h.trace.notices.drop s.seenNotices
     written := h.console.written.drop s.seenWritten
     host := h },
   { s with
     seenFinished := h.finished.length
     seenCalls := h.trace.calls.length
     seenNotices := h.trace.notices.length
     seenWritten := h.console.written.length })

/-- One step, the rest after it, and the report. -/
def step (s : Stage) (step : Step) : Report × Stage :=
  let (answer, s) := s.act step
  { s with host := s.host.settle }.report answer

/-- The reports of a list of steps, after a first one of the start if that is wanted. -/
def reports (s : Stage) (steps : List Step) : List Report :=
  match steps with
  | [] => []
  | step :: rest =>
    let r := s.step step
    r.1 :: reports r.2 rest

def play (s : Stage) (reportStart : Bool) (steps : List Step) : List Report :=
  if reportStart then
    let r := s.report .none
    r.1 :: r.2.reports steps
  else s.reports steps

/-- A stage for a target. A host that cannot be opened leaves its fault, and how many
subscriptions there are. -/
def open_ (target : Target) (h : Host) : Except (EngineFault × Nat) Stage :=
  if target.hasPrompts then
    match h.establish (target = .session) with
    | (.ok (), host) => .ok { target, host }
    | (.error f, host) => .error (f, host.subscriptions.count)
  else .ok { target, host := { h with native := false } }

end Stage

end SharedPrompt
