import SharedPrompt.Engine.Basic

/-!
# Running a command

An invocation is a list of actions still to do and the output so far. One action is one turn:
it goes on, ends the invocation, waits, or asks the engine to do something around the command.
-/

namespace SharedPrompt

/-- How the engine left a command. -/
inductive Outcome where
  | values (vs : List Value)
  | fault (f : ScriptFault)
  | panicked (p : Panic)
  deriving Repr, Inhabited

/-- A panic becomes a fault of the run. -/
def Outcome.result : Outcome → Except RunFault (List Value)
  | values vs => .ok vs
  | fault f => .error (.script f)
  | panicked p => .error (.panicked p.message)

def Outcome.notice? (command : Command) : Outcome → Option Notice
  | panicked p => some (.pipelinePanicked command p.message)
  | _ => none

structure Invocation where
  pipeline : Nat
  command : Command
  /-- Where the error records go. -/
  sink : Nat
  token : Nat
  /-- Counted among the commands that run on the engine at the same time. -/
  counted : Bool := true
  rest : List Action := []
  output : List Value := []
  deriving Repr, Inhabited

/-- What a command is to the engine: a list of actions, or one of its line editor's commands. -/
inductive Plan where
  | actions (counted : Bool) (list : List Action)
  | edit
  | revert
  deriving Repr, Inhabited

/-- The actions of a command by the table; without an entry a script puts out its text and a call
its arguments. An entry for a line editor command takes it away from the line editor. -/
def Engine.plan (e : Engine) : Command → Plan
  | .script text => .actions true ((e.behavior.lookup text).getD [.out (.str text)])
  | .call name args => .actions true ((e.behavior.lookup name).getD (args.map .out))
  | .readLine => match e.behavior.lookup Behavior.readLineKey with
    | some list => .actions false list
    | none => .edit
  | .revertLine => match e.behavior.lookup Behavior.revertKey with
    | some list => .actions false list
    | none => .revert

/-- Begins a command: `true` if it is the line editor's read. -/
def Engine.begin (e : Engine) (pipeline : Nat) (command : Command) (sink token : Nat) :
    Engine × Invocation × Bool :=
  let counted (e : Engine) : Engine :=
    { e with invoked := e.invoked ++ [command], active := e.active + 1, peak := max e.peak (e.active + 1) }
  let inv : Invocation := { pipeline, command, sink, token }
  match e.plan command with
  | .actions true list => (counted e, { inv with rest := list }, false)
  | .actions false list => (e, { inv with rest := list, counted := false }, false)
  | .edit => ({ counted e with reading := true }, inv, true)
  | .revert => ((counted e).typeLine "", inv, false)

/-- Ends a command. -/
def Engine.finish (e : Engine) (inv : Invocation) (reading : Bool) : Engine :=
  let e := if inv.counted then { e with active := e.active - 1 } else e
  if reading then { e with reading := false } else e

/-- One turn of an invocation. -/
inductive Turn where
  | on (inv : Invocation)
  | record (text : String) (inv : Invocation)
  | ended (outcome : Outcome)
  | stuck
  | idle (inv : Invocation)
  | enter (kind : PromptKind) (inv : Invocation)
  | leave (inv : Invocation)
  deriving Repr, Inhabited

def Invocation.put (inv : Invocation) (v : Value) (rest : List Action) : Invocation :=
  { inv with rest, output := inv.output ++ [v] }

/-- The next turn, where `fired` is the state of the token and `isOpen` that of the barriers. -/
def Invocation.turn (inv : Invocation) (e : Engine) (fired : Bool) (isOpen : String → Bool) : Turn :=
  match inv.rest with
  | [] => .ended (.values inv.output)
  | .out v :: rest => .on (inv.put v rest)
  | .record text :: rest => .record text { inv with rest }
  | .askFired :: rest => .on (inv.put (.bool fired) rest)
  | .fail f :: _ => .ended (.fault f)
  | .panic p :: _ => .ended (.panicked p)
  | .barrier name :: rest => if isOpen name then .on { inv with rest } else .stuck
  | .barrierOrFired name :: rest =>
    if isOpen name then .on { inv with rest }
    else if fired then .ended (.fault .cancelled)
    else .stuck
  | .enter kind :: rest => .enter kind { inv with rest }
  | .leave :: rest => .leave { inv with rest }
  | .idle :: rest => .idle { inv with rest }
  | .get name :: rest => .on (inv.put ((e.variable_ name).getD .null) rest)

end SharedPrompt
