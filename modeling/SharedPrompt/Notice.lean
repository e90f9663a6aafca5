import SharedPrompt.Command
import SharedPrompt.Fault

/-!
# Notices

The events that are reported to whoever watches the host, with their level, their text and the
fields that go with it.
-/

namespace SharedPrompt

/-- Why the engine opened a prompt inside another command. -/
inductive PromptKind where
  | nested
  | debugger
  deriving Repr, DecidableEq, Inhabited

def PromptKind.name : PromptKind → String
  | nested => "Nested"
  | debugger => "Debugger"

inductive Notice where
  | pipelinePanicked (command : Command) (message : String)
  | unitPanicked (message : String)
  | idleFrameFailed (fault : EngineFault)
  | resubscribeFailed (fault : EngineFault)
  | promptFrameFailed (fault : EngineFault) (kind : PromptKind)
  | revertFailed (fault : RunFault)
  | providerScriptFailed (provider script : String) (line : Option Nat) (fault : ScriptFault)
  | providerFailed (provider script : String) (fault : ProviderFault)
  deriving Repr, Inhabited

namespace Notice

def level : Notice → String
  | revertFailed _ => "WARN"
  | _ => "ERROR"

def text : Notice → String
  | pipelinePanicked .. => "pipeline panicked"
  | unitPanicked _ => "background unit of work panicked"
  | idleFrameFailed _ => "could not open a frame for idle execution"
  | resubscribeFailed _ => "failed to resubscribe to idle notifications"
  | promptFrameFailed .. => "failed to open frame for nested prompt"
  | revertFailed _ => "reverting the line editor failed"
  | providerScriptFailed .. => "feature provider script failed"
  | providerFailed .. => "feature provider failed"

def fields : Notice → List (String × Value)
  | pipelinePanicked c m => [("command", .str c.display), ("message", .str m)]
  | unitPanicked m => [("message", .str m)]
  | idleFrameFailed f => [("error", .str f.message)]
  | resubscribeFailed f => [("error", .str f.message)]
  | promptFrameFailed f k => [("error", .str f.message), ("kind", .str k.name)]
  | revertFailed f => [("error", .str f.message)]
  | providerScriptFailed p s line f =>
    [("provider", .str p), ("script", .str s)] ++ (line.map fun n => ("line", Value.int n)).toList ++
      [("kind", .str f.kind.name), ("error", .str f.message)]
  | providerFailed p s f => [("provider", .str p), ("script", .str s), ("error", .str f.message)]

end Notice

end SharedPrompt
