import SharedPrompt.Notice

/-!
# The engine

An in-memory interpreter instance. What a command does is given by a table of actions; a command
that is not in the table echoes. `Trace` records what can be seen from outside: pipelines made,
commands started, notices.
-/

namespace SharedPrompt

inductive PipelineMode where
  | current
  /-- On top of a pipeline that is suspended. -/
  | nested
  deriving Repr, DecidableEq, Inhabited

def PipelineMode.name : PipelineMode → String
  | current => "Current"
  | nested => "Nested"

inductive Call where
  | created (pipeline : Nat) (mode : PipelineMode)
  | started (pipeline : Nat) (options : Options) (command : Command)
  deriving Repr, Inhabited

def Call.text : Call → String
  | created n mode => toString n ++ "|new|" ++ mode.name
  | started n options command => toString n ++ "|" ++ options.flags ++ "|" ++ command.display

structure Trace where
  /-- The number of the next pipeline. -/
  pipelines : Nat := 0
  calls : List Call := []
  notices : List Notice := []
  deriving Repr, Inhabited

namespace Trace

def call (t : Trace) (c : Call) : Trace := { t with calls := t.calls ++ [c] }

def notice (t : Trace) (n : Notice) : Trace := { t with notices := t.notices ++ [n] }

end Trace

/-- One thing that a command does. -/
inductive Action where
  | out (v : Value)
  | record (text : String)
  /-- Puts out whether the command's token has fired. -/
  | askFired
  | fail (fault : ScriptFault)
  | panic (p : Panic)
  /-- Waits for a barrier to be open. -/
  | barrier (name : String)
  /-- The same, but fails as cancelled if the token fires first. -/
  | barrierOrFired (name : String)
  | enter (kind : PromptKind)
  | leave
  /-- Gives everybody who asked for it an idle moment. -/
  | idle
  /-- Puts out a variable. -/
  | get (name : String)
  deriving Repr, Inhabited

/-- What commands do, by script text or by the name called. -/
abbrev Behavior := List (String × List Action)

namespace Behavior

def readLineKey : String := "@read_line"
def revertKey : String := "@revert"

end Behavior

/-- Where an engine is told to fail. -/
structure Failures where
  pipeline : Bool := false
  setVariable : Bool := false
  subscribeIdle : Bool := false
  subscribeNested : Bool := false
  deriving Repr, DecidableEq, Inhabited

/-- One of the failures, to be switched on and off. -/
inductive Switch where
  | pipeline
  | subscribeIdle
  | subscribeNested
  | setVariable
  deriving Repr, DecidableEq, Inhabited

def Failures.set (f : Failures) (on : Bool) : Switch → Failures
  | .pipeline => { f with pipeline := on }
  | .subscribeIdle => { f with subscribeIdle := on }
  | .subscribeNested => { f with subscribeNested := on }
  | .setVariable => { f with setVariable := on }

structure Engine where
  inProcess : Bool := true
  /-- The line editor gives up when its token fires. -/
  cancellable : Bool := false
  behavior : Behavior := []
  failures : Failures := {}
  /-- Which attempts to make a pipeline fail, counted from one. -/
  refused : List Nat := []
  attempts : Nat := 0
  created : List PipelineMode := []
  /-- The pipelines that report themselves running. -/
  running : List Nat := []
  invoked : List Command := []
  active : Nat := 0
  /-- The most commands that ran at one time. -/
  peak : Nat := 0
  reading : Bool := false
  lines : List String := []
  bindings : List (String × Value) := []
  deriving Repr, Inhabited

namespace Engine

def injected : String := "injected"

/-- Makes a pipeline, with its number. -/
def create (e : Engine) (t : Trace) (mode : PipelineMode) : Except EngineFault Nat × Engine × Trace :=
  let e := { e with attempts := e.attempts + 1 }
  if e.refused.contains e.attempts then (.error (.pipeline injected), e, t)
  else if e.failures.pipeline then (.error (.pipeline "pipeline creation disabled"), e, t)
  else
    let n := t.pipelines
    (.ok n, { e with created := e.created ++ [mode] }, { t with pipelines := n + 1 }.call (.created n mode))

def setVariable (e : Engine) (name : String) (v : Value) : Except EngineFault Unit × Engine :=
  if e.failures.setVariable then (.error (.variable_ name injected), e)
  else (.ok (), { e with bindings := Value.insertField name v e.bindings })

def variable_ (e : Engine) (name : String) : Option Value := e.bindings.lookup name

def typeLine (e : Engine) (line : String) : Engine := { e with lines := e.lines ++ [line] }

end Engine

end SharedPrompt
