/-!
# What can go wrong

One type for each layer, with the causes as constructors and one `message` function for the
wording. An outer fault that only passes an inner one on has the inner one's message.
-/

namespace SharedPrompt

inductive ScriptFaultKind where
  | runtime
  | invalidCast
  | cancelled
  | other
  deriving Repr, DecidableEq, Inhabited

def ScriptFaultKind.name : ScriptFaultKind → String
  | runtime => "Runtime"
  | invalidCast => "InvalidCast"
  | cancelled => "Cancelled"
  | other => "Other"

/-- A fault raised while the engine was running a command. -/
structure ScriptFault where
  kind : ScriptFaultKind
  message : String
  script : Option String := none
  line : Option Nat := none
  deriving Repr, DecidableEq, Inhabited

namespace ScriptFault

/-- The fault of a command that was stopped. -/
def cancelled : ScriptFault := ⟨.cancelled, "the pipeline was stopped", none, none⟩

def invalidCast (message : String) : ScriptFault := ⟨.invalidCast, message, none, none⟩

def isCancelled (f : ScriptFault) : Bool := f.kind == .cancelled

end ScriptFault

/-- Failures of the engine's plumbing. -/
inductive EngineFault where
  | open_ (message : String)
  | pipeline (message : String)
  | subscribe (event message : String)
  | variable_ (name message : String)
  | closed
  deriving Repr, DecidableEq, Inhabited

def EngineFault.message : EngineFault → String
  | open_ m => "failed to open runspace: " ++ m
  | pipeline m => "failed to create pipeline: " ++ m
  | subscribe event m => "failed to subscribe to " ++ event ++ ": " ++ m
  | variable_ name m => "failed to set variable '" ++ name ++ "': " ++ m
  | closed => "runspace is closed"

inductive ConsoleFault where
  | cancelled
  | closed
  | device (message : String)
  deriving Repr, DecidableEq, Inhabited

def ConsoleFault.message : ConsoleFault → String
  | cancelled => "key read was cancelled"
  | closed => "console input closed"
  | device m => "console I/O error: " ++ m

/-- Why a command gave no output. -/
inductive RunFault where
  | script (fault : ScriptFault)
  | engine (fault : EngineFault)
  | panicked (message : String)
  /-- The request was dropped before anything completed it. -/
  | abandoned
  deriving Repr, DecidableEq, Inhabited

namespace RunFault

def cancelled : RunFault := .script .cancelled

def message : RunFault → String
  | script f => f.message
  | engine f => f.message
  | panicked m => "command panicked: " ++ m
  | abandoned => "command was abandoned before it completed"

def isCancelled : RunFault → Bool
  | script f => f.isCancelled
  | _ => false

end RunFault

/-- Why a read gave no line. -/
inductive ReadFault where
  /-- The caller's token had fired before anything was read. -/
  | cancelled
  | console (fault : ConsoleFault)
  | run (fault : RunFault)
  deriving Repr, DecidableEq, Inhabited

def ReadFault.message : ReadFault → String
  | cancelled => "read-line was cancelled before it started"
  | console f => f.message
  | run f => "native read-line failed: " ++ f.message

/-- Why a unit of background work gave no answer. -/
inductive WorkerFault where
  | spawn (message : String)
  | engine (fault : EngineFault)
  /-- The worker had gone; the unit was not run. -/
  | shutdown
  /-- The unit was queued but never run. -/
  | replyDropped
  | panicked (message : String)
  deriving Repr, DecidableEq, Inhabited

def WorkerFault.message : WorkerFault → String
  | spawn m => "failed to spawn background runspace thread: " ++ m
  | engine f => f.message
  | shutdown => "background runspace thread has shut down"
  | replyDropped => "background runspace thread dropped the reply"
  | panicked m => "background unit of work panicked: " ++ m

inductive ProviderFault where
  | notRegistered (id : String)
  | readOnly (command : String)
  | encode (message : String)
  | script (fault : ScriptFault)
  | engine (fault : EngineFault)
  | worker (fault : WorkerFault)
  deriving Repr, DecidableEq, Inhabited

def ProviderFault.message : ProviderFault → String
  | notRegistered id => "no feature provider registered with id '" ++ id ++ "'"
  | readOnly name => "cannot register editor command '" ++ name ++ "': the editor object is read-only"
  | encode m => "failed to encode editor object: " ++ m
  | script f => f.message
  | engine f => f.message
  | worker f => f.message

/-- What a panic carries: a text, or something that is none. -/
inductive Panic where
  | text (message : String)
  | other
  deriving Repr, DecidableEq, Inhabited

def Panic.message : Panic → String
  | text m => m
  | other => "non-string panic payload"

end SharedPrompt
