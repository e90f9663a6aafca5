import SharedPrompt.Engine.Basic

/-!
# Units of background work

A unit is a list of deeds, done in order on one worker's thread. Most deeds leave an entry in the
unit's answer. A unit may hand a further unit to its own worker or to another one.
-/

namespace SharedPrompt

/-- One thing that a unit of work does. -/
inductive Deed where
  /-- Runs a command on a fresh pipeline. -/
  | invoke (command : Command)
  /-- Shows the engine an editor and runs a script; without the first not the second. -/
  | script (editor : Value) (text : String)
  | set (name : String) (v : Value)
  /-- Where the engine runs, and whether its line editor observes cancellation. -/
  | place
  /-- Whether the thread is the one of this worker. -/
  | onWorker (worker : String)
  | thread
  /-- Hands a unit to a worker and waits for its answer. -/
  | submit (worker : String) (work : List Deed)
  | barrier (name : String)
  | panic (p : Panic)
  /-- Drops the owner that came with the unit. -/
  | dropOwner
  deriving Inhabited

abbrev Work := List Deed

/-- What a deed leaves in the answer of its unit. -/
inductive Entry where
  | values (vs : List Value)
  | scriptFault (fault : ScriptFault)
  | engineFault (fault : EngineFault)
  | flag (b : Bool)
  | place (inProcess cancellable : Bool)
  | thread (name : String)
  | nested (r : Except WorkerFault (List Entry))
  deriving Inhabited

abbrev WorkResult := Except WorkerFault (List Entry)

/-- What is put into an engine when it is opened. -/
structure Preload where
  modules : List String := []
  bindings : List (String × Value) := []
  deriving Repr, Inhabited

namespace Preload

def isEmpty (p : Preload) : Bool := p.modules.isEmpty && p.bindings.isEmpty

def withVariable (p : Preload) (name : String) (v : Value) : Preload :=
  { p with bindings := Value.insertField name v p.bindings }

end Preload

/-- The name of a worker's thread if nothing else is asked for. -/
def WorkerOptions.threadName : String := "shellhost-background"

/-- How a worker is set up. -/
structure WorkerOptions where
  thread : String := WorkerOptions.threadName
  preload : Preload := {}
  deriving Repr, Inhabited

/-- The fault of an engine that cannot be opened. -/
def Engine.refusal : EngineFault := .open_ "engine refused to open"

/-- A fresh engine with its variables in place. -/
def Engine.opened (behavior : Behavior) (preload : Preload) : Engine :=
  { behavior, bindings := preload.bindings.foldl (fun vars f => Value.insertField f.1 f.2 vars) [] }

end SharedPrompt
