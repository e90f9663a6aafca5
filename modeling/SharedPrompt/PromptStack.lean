import SharedPrompt.TicketGate

/-!
# The stack of prompts

The bottom prompt is always there and a prompt that the engine opens inside a command goes on top
of it. Each has a pipeline of its own and a gate with one ticket. The line prompt stands beside
the stack and serves the interactive reader while nothing is on top of the bottom.
-/

namespace SharedPrompt

/-- Somebody in line at a gate: a task, and the turn it drew. -/
structure Waiter where
  task : Nat
  turn : Nat
  deriving Repr, DecidableEq, Inhabited

abbrev Gate := TicketGate Waiter

structure Prompt where
  pipeline : Nat
  /-- Its gate, by its place among all gates. -/
  gate : Nat
  debugger : Bool := false
  deriving Repr, DecidableEq, Inhabited

structure PromptStack where
  bottom : Prompt := ⟨0, 0, false⟩
  line : Prompt := ⟨1, 1, false⟩
  /-- The prompts on top of the bottom, innermost first. -/
  nested : List Prompt := []
  /-- All gates ever made, those of closed prompts included. -/
  gates : List Gate := [.new "main", .new "read-line"]
  deriving Repr, DecidableEq, Inhabited

namespace PromptStack

def top (s : PromptStack) : Prompt := s.nested.head?.getD s.bottom

def level (s : PromptStack) : Nat := s.nested.length + 1

def inDebugger (s : PromptStack) : Bool := s.top.debugger

/-- The pipeline that the next command runs on. The line prompt has its own only while nothing is
on top of the bottom. -/
def currentPipeline (s : PromptStack) (readLine : Bool) : Nat :=
  if readLine && s.nested.isEmpty then s.line.pipeline else s.top.pipeline

/-- Puts a prompt with a new gate on top. -/
def push (s : PromptStack) (pipeline : Nat) (debugger : Bool) : PromptStack :=
  { s with
    nested := ⟨pipeline, s.gates.length, debugger⟩ :: s.nested
    gates := s.gates ++ [.new "nested"] }

/-- Puts a prompt on top whose ticket is already taken. -/
def pushLeased (s : PromptStack) (pipeline : Nat) (debugger : Bool) : PromptStack :=
  let s := s.push pipeline debugger
  { s with gates := s.gates.modify s.top.gate fun g => g.take?.getD g }

/-- Takes the innermost prompt away; the bottom stays. -/
def pop (s : PromptStack) : PromptStack := { s with nested := s.nested.tail }

def gate (s : PromptStack) (g : Nat) : Gate := s.gates.getD g (.new "")

def modifyGate (s : PromptStack) (g : Nat) (f : Gate → Gate) : PromptStack :=
  { s with gates := s.gates.modify g f }

/-- The ticket of a gate is not in place. -/
def isLeased (s : PromptStack) (g : Nat) : Bool := (s.gate g).isLeased

def lineBusy (s : PromptStack) : Bool := s.isLeased s.line.gate

end PromptStack

/-- The right to run on a pipeline: the ticket of one gate, and for a reader in the same process
also the ticket of the prompt it reads for. -/
structure Permit where
  lease : Nat
  main : Option Nat := none
  readLine : Bool := false
  deriving Repr, DecidableEq, Inhabited

namespace Permit

/-- Whether the permit stands for a prompt's main pipeline. -/
def holdsMain (p : Permit) : Bool := !p.readLine || p.main.isSome

/-- The gates whose tickets it holds, in the order in which they are given back. -/
def gates (p : Permit) : List Nat := p.lease :: p.main.toList

end Permit

/-- A permit as diagnostics show it. -/
def PromptStack.showPermit (s : PromptStack) (p : Permit) : String :=
  "RunspaceHandle \x7b queue: \"" ++ (s.gate p.lease).name ++ "\", holds_main: " ++
    toString p.holdsMain ++
    ", is_read_line: " ++ toString p.readLine ++ " \x7d"

end SharedPrompt
