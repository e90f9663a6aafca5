import SharedPrompt.Fault

/-!
# Work on a thread of its own

A piece of work is started on a thread, with a name or without, and answers the name of the thread
it finds itself on.
-/

namespace SharedPrompt

/-- What a piece of work is for. -/
inductive WorkClass where
  /-- Commands and reads that somebody waits for. -/
  | interactive
  /-- Scripts of providers. -/
  | background
  deriving Repr, DecidableEq, Inhabited

def WorkClass.name : WorkClass → String
  | interactive => "interactive"
  | background => "background"

structure Launch where
  workClass : WorkClass
  thread : Option String
  /-- The panic that the work ends with, if it does. -/
  panic : Option Panic := none
  deriving Repr, DecidableEq, Inhabited

/-- The name of the thread, or the message of the panic. -/
def Launch.result (l : Launch) : Except String (Option String) :=
  match l.panic with
  | some p => .error p.message
  | none => .ok l.thread

end SharedPrompt
