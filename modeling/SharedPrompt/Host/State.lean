import SharedPrompt.Console
import SharedPrompt.Engine.Invocation
import SharedPrompt.PromptStack
import SharedPrompt.Subscriptions
import SharedPrompt.Tokens

/-!
# The state of a host

A host is an engine, a console and the prompts on it, used by tasks and by engine threads. A task
advances when it is polled and holds everything it has taken in its own state, so that what a
task owns can be read off. A thread is a stack of activations, the innermost first.
-/

namespace SharedPrompt

abbrev RunResult := Except RunFault (List Value)

/-- A command with its options, the sink of its error records and the token that stops it. -/
structure Job where
  command : Command
  options : Options
  sink : Nat
  token : Nat
  deriving Inhabited

/-- What a lease is for. -/
inductive Purpose where
  /-- A command: one ticket, that of the prompt on top. -/
  | command
  /-- A reader in the same process: first the ticket of the prompt on top. -/
  | main
  /-- A reader: the ticket of the line prompt, with what it holds already. -/
  | line (held : Option Nat)
  deriving DecidableEq, Inhabited

/-- Taking a permit. -/
inductive Leasing where
  | choose (readLine : Bool)
  | ask (gate : Nat) (purpose : Purpose)
  | wait (gate : Nat) (waiter : Waiter) (purpose : Purpose)
  deriving DecidableEq, Inhabited

/-- Running a command in an idle moment. From `install` on the call holds the turn. -/
inductive IdleCall where
  | start (job : Job)
  | queued (waiter : Waiter) (job : Job)
  | install (job : Job)
  | parked (request reply : Nat)
  deriving Inhabited

/-- Running a command by whichever way is open. -/
inductive Execution where
  | start (job : Job)
  | idle (call : IdleCall) (token : Nat)
  | leasing (lease : Leasing) (job : Job)
  | granted (permit : Permit) (job : Job)
  | running (reply : Nat)
  deriving Inhabited

/-- Stopping the read in progress. -/
inductive AbortCall where
  | start
  | exiting (lease : Leasing)
  | reverting (call : IdleCall) (lease : Leasing)
  deriving Inhabited

/-- Waiting until no read is in progress. -/
inductive ExitCall where
  | start
  | leasing (lease : Leasing)
  | queued (waiter : Waiter)
  deriving Inhabited

/-- Reading one key. -/
inductive KeyCall where
  | start (token : Nat)
  | look (token : Nat)
  | arm (token : Nat)
  | listen (waiter : Waiter) (token : Nat)
  deriving DecidableEq, Inhabited

/-- Reading a line key by key. From `opened` on the call holds the reader's gate. -/
inductive ConsoleRead where
  | start (commandLine : Bool) (token : Nat)
  | ask (commandLine : Bool) (token : Nat)
  | queued (waiter : Waiter) (commandLine : Bool) (token : Nat)
  | opened (commandLine : Bool) (token : Nat)
  | key (call : KeyCall) (line : List Char) (commandLine : Bool) (token : Nat)
  deriving DecidableEq, Inhabited

/-- Reading a line with the engine's line editor, or from the console. -/
inductive ReadCall where
  | start (commandLine : Bool) (token : Nat)
  | console (call : ConsoleRead)
  | clearing (abort : AbortCall) (token : Nat)
  | enter (token : Nat)
  | reading (run : Execution) (read token own : Nat)
  /-- The caller's token has fired: the read is stopped and waited for. -/
  | stopping (abort : Option AbortCall) (run : Option Execution) (result : Option RunResult)
      (read token : Nat)
  deriving Inhabited

/-- Running a command, after stopping a read if the options ask for it. -/
inductive CommandCall where
  | start (job : Job)
  | aborting (abort : AbortCall) (job : Job)
  | exiting (exit : ExitCall) (job : Job)
  | running (run : Execution)
  deriving Inhabited

inductive Task where
  | command (call : CommandCall) (sink : Option Nat)
  | idle (call : IdleCall) (sink : Nat)
  | read (call : ReadCall)
  | line (call : ConsoleRead)
  | abort (call : AbortCall)
  | exit (call : ExitCall)
  | lease (call : Leasing)
  | key (call : KeyCall)
  deriving Inhabited

/-- What a task ends with. -/
inductive TaskResult where
  | ran (result : RunResult) (sink : Option Nat)
  | line (result : Except ReadFault String)
  | done
  | permit (permit : Permit)
  | key (result : Except ConsoleFault KeyPress)
  deriving Inhabited

/-- A command parked for an idle moment. -/
structure Parked where
  id : Nat
  job : Job
  reply : Nat
  deriving Inhabited

/-- Holds one parked command; the turn says whose. -/
structure IdleSlot where
  pending : Option Parked := none
  turn : Gate := .new "turn"
  nextId : Nat := 1
  deriving Inhabited

/-- Where the answer to a request arrives, for the task that waits for it. -/
inductive Reply where
  | open_ (task : Nat)
  | sent (result : RunResult)
  /-- Nobody waits any more, or the answer was taken. -/
  | closed
  deriving Inhabited

/-- A request of the editor or of a thread to run one command on one pipeline. -/
structure Assignment where
  permit : Permit
  pipeline : Nat
  job : Job
  reply : Nat
  deriving Inhabited

/-- How far a thread is with a command that it runs for a task. -/
inductive Errand where
  | start
  | lock
  | called
  | unlock (result : RunResult)
  | release (result : RunResult)
  | releaseMain (result : RunResult)
  | answer (result : RunResult)
  deriving Inhabited

/-- How far a thread is with serving an idle moment. -/
inductive Serving where
  | look
  | take
  | openPrompt (request : Parked)
  | lock (request : Parked) (permit : Permit) (pipeline : Nat)
  | called (request : Parked) (permit : Permit) (pipeline : Nat)
  | answer (request : Parked) (permit : Permit) (pipeline : Nat) (result : RunResult)
  | unlock (permit : Permit) (pipeline : Nat)
  | release (permit : Permit)
  | closePrompt
  deriving Inhabited

/-- What a thread is inside of. -/
inductive Activation where
  /-- Tells the rest of the subscribers of an idle moment. -/
  | notify (rest : List Nat)
  | serve (phase : Serving)
  | errand (phase : Errand) (work : Assignment)
  /-- A command that is run without a permit, for a request that is answered at once. -/
  | direct (pipeline : Nat) (called : Bool) (job : Job) (reply : Nat)
  | command (inv : Invocation)
  /-- The line editor; `fresh` until it has looked for a line once. -/
  | edit (inv : Invocation) (fresh : Bool)
  deriving Inhabited

structure Thread where
  id : Nat
  stack : List Activation
  deriving Inhabited

/-- The reader of lines from the console. -/
structure LineReader where
  gate : Gate := .new "console-read-line"
  /-- The token of the read in progress. -/
  active : Option Nat := none
  deriving Inhabited

/-- The reads with the engine's line editor: the latest one, with its token. -/
structure EditorReads where
  active : Option (Nat × Nat) := none
  nextId : Nat := 1
  deriving Inhabited

structure Host where
  /-- Command lines are read with the engine's line editor. -/
  native : Bool := true
  engine : Engine := {}
  trace : Trace := {}
  tokens : Tokens := {}
  console : Console Waiter := {}
  stack : PromptStack := {}
  slot : IdleSlot := {}
  subscriptions : Subscriptions := {}
  reader : LineReader := {}
  editor : EditorReads := {}
  /-- Whether the engine's own prompts are followed, and for each open one whether a prompt was
      put on the stack for it, innermost first. -/
  follows : Bool := false
  opened : List Bool := []
  replies : List Reply := []
  /-- Error records, each with its sink. -/
  records : List (Nat × String) := []
  nextSink : Nat := 0
  nextTurn : Nat := 0
  nextTask : Nat := 0
  nextThread : Nat := 0
  tasks : List (Nat × Task) := []
  /-- Woken tasks, in the order in which they were woken. -/
  ready : List Nat := []
  finished : List (Nat × TaskResult) := []
  /-- Permits whose owners are outside, each named by the task that took it. -/
  permits : List (Nat × Permit) := []
  threads : List Thread := []
  /-- The barriers that are open. -/
  barriers : List String := []
  /-- The pipelines that somebody has locked. -/
  locked : List Nat := []
  /-- Its owner still uses it; tasks may go on after that. -/
  owned : Bool := true
  deriving Inhabited

end SharedPrompt
