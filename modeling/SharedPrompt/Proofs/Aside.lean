import Mathlib.Order.Nat
import SharedPrompt.Host.Event

/-!
# Changes that pass the gates by

Most of what a call does wakes tasks, writes to the console or moves on in a line that is not that
of a prompt. Such a change leaves the prompts and their gates, all threads and all owners alone.
-/

namespace SharedPrompt

def Call.command? : Call → Option (Options × Command)
  | created _ _ => none
  | started _ options command => some (options, command)

def Host.commands (h : Host) : List (Options × Command) := h.trace.calls.filterMap Call.command?

/-- A change of a host in which no gate of a prompt, no thread and no owner takes part. -/
structure Host.Aside (h h' : Host) : Prop where
  stack : h'.stack = h.stack
  turns : h.nextTurn ≤ h'.nextTurn
  tasks : h'.tasks = h.tasks
  nextTask : h'.nextTask = h.nextTask
  permits : h'.permits = h.permits
  threads : h'.threads = h.threads
  nextThread : h'.nextThread = h.nextThread
  engine : h'.engine = h.engine
  commands : h'.commands = h.commands
  locked : h'.locked = h.locked
  follows : h'.follows = h.follows
  opened : h'.opened = h.opened

namespace Host

namespace Aside

theorem refl (h : Host) : h.Aside h := by constructor <;> rfl

theorem trans {a b c : Host} (hab : a.Aside b) (hbc : b.Aside c) : a.Aside c where
  stack := hbc.stack.trans hab.stack
  turns := hab.turns.trans hbc.turns
  tasks := hbc.tasks.trans hab.tasks
  nextTask := hbc.nextTask.trans hab.nextTask
  permits := hbc.permits.trans hab.permits
  threads := hbc.threads.trans hab.threads
  nextThread := hbc.nextThread.trans hab.nextThread
  engine := hbc.engine.trans hab.engine
  commands := hbc.commands.trans hab.commands
  locked := hbc.locked.trans hab.locked
  follows := hbc.follows.trans hab.follows
  opened := hbc.opened.trans hab.opened

end Aside

variable (h : Host)

/-! ## Waking, tokens, replies and notices -/

theorem aside_wake (task : Nat) : h.Aside (h.wake task) := by
  unfold wake
  split <;> constructor <;> rfl

theorem aside_wakeAll (tasks : List Nat) : h.Aside (h.wakeAll tasks) := by
  induction tasks generalizing h with
  | nil => exact .refl h
  | cons t rest ih => exact (h.aside_wake t).trans (ih (h.wake t))

theorem aside_wakeWaiter (w : Option Waiter) : h.Aside (h.wakeWaiter w) := by
  cases w with
  | none => exact .refl h
  | some w => exact h.aside_wake w.task

theorem aside_drawTurn (task : Nat) : h.Aside (h.drawTurn task).2 := by
  constructor
  case turns => exact Nat.le_succ _
  all_goals rfl

theorem aside_newToken : h.Aside h.newToken.2 := by constructor <;> rfl

theorem aside_deriveToken (token : Nat) : h.Aside (h.deriveToken token).2 := by constructor <;> rfl

theorem aside_awaitToken (token task : Nat) : h.Aside (h.awaitToken token task) := by
  constructor <;> rfl

theorem aside_forgetToken (token task : Nat) : h.Aside (h.forgetToken token task) := by
  constructor <;> rfl

theorem aside_fireToken (token : Nat) : h.Aside (h.fireToken token) := by
  have hset : h.Aside { h with tokens := (h.tokens.fire token).1 } := by constructor <;> rfl
  exact hset.trans (aside_wakeAll _ _)

theorem aside_newReply (task : Nat) : h.Aside (h.newReply task).2 := by constructor <;> rfl

theorem aside_closeReply (reply : Nat) : h.Aside (h.closeReply reply) := by constructor <;> rfl

theorem aside_sendReply (reply : Nat) (r : RunResult) : h.Aside (h.sendReply reply r) := by
  unfold sendReply
  split
  next task _ =>
    have hset : h.Aside { h with replies := h.replies.set reply (.sent r) } := by
      constructor <;> rfl
    exact hset.trans (aside_wake _ _)
  next => exact .refl h

theorem aside_newSink : h.Aside h.newSink.2 := by constructor <;> rfl

theorem aside_notice (n : Notice) : h.Aside (h.notice n) := by constructor <;> rfl

/-! ## The idle slot, the line reader and the console -/

theorem aside_setSlot (slot : IdleSlot) : h.Aside { h with slot } := by constructor <;> rfl

theorem aside_setReader (reader : LineReader) : h.Aside { h with reader } := by constructor <;> rfl

theorem aside_setConsole (console : Console Waiter) : h.Aside { h with console } := by
  constructor <;> rfl

theorem aside_modifyConsole (f : Console Waiter → Console Waiter) : h.Aside (h.modifyConsole f) :=
  h.aside_setConsole (f h.console)

theorem aside_releaseTurn : h.Aside h.releaseTurn :=
  (h.aside_setSlot _).trans (aside_wakeWaiter _ _)

theorem aside_leaveTurn (w : Waiter) : h.Aside (h.leaveTurn w) :=
  (h.aside_setSlot _).trans (aside_wakeWaiter _ _)

theorem aside_releaseReader : h.Aside h.releaseReader :=
  (h.aside_setReader _).trans (aside_wakeWaiter _ _)

theorem aside_leaveReader (w : Waiter) : h.Aside (h.leaveReader w) :=
  (h.aside_setReader _).trans (aside_wakeWaiter _ _)

theorem aside_withdraw (id : Nat) : h.Aside (h.withdraw id) := by
  unfold withdraw
  split
  next parked _ =>
    split
    · exact h.aside_setSlot _
    · exact .refl h
  next => exact .refl h

theorem aside_park (me : Nat) (job : Job) : h.Aside (h.park me job).2 :=
  (h.aside_newReply me).trans (aside_setSlot _ _)

theorem aside_ignoreSignal (w : Waiter) : h.Aside (h.ignoreSignal w) :=
  (h.aside_modifyConsole _).trans (aside_wakeWaiter _ _)

theorem aside_pushKey (k : KeyEvent) : h.Aside (h.pushKey k) :=
  (h.aside_modifyConsole _).trans (aside_wakeWaiter _ _)

theorem aside_setReading (token : Option Nat) : h.Aside (h.setReading token) := by
  constructor <;> rfl

theorem aside_stopReader : h.Aside h.stopReader := by
  unfold stopReader
  split
  next token _ => exact h.aside_fireToken token
  next => exact .refl h

/-- Waiting for a call or a token passes the gates by if the call does. -/
theorem aside_orFired {σ α : Type} (me token : Nat) (eager : Bool) (abandon : Host → Host)
    (fired : α) (step : Host → Host × Poll σ α) (hstep : h.Aside (step h).1)
    (habandon : ∀ h : Host, h.Aside (abandon h)) :
    h.Aside (h.orFired me token eager abandon fired step).1 := by
  have hgive (k : Host) : k.Aside (abandon (k.forgetToken token me)) :=
    (k.aside_forgetToken token me).trans (habandon _)
  simp only [orFired]
  split
  · exact hgive h
  · split <;> rename_i hr <;> rw [hr] at hstep
    · split
      · exact hstep.trans (hgive _)
      · exact hstep.trans (aside_awaitToken _ _ _)
    · exact hstep
    · exact hstep.trans (aside_forgetToken _ _ _)

end Host

/-! ## Calls that never come to a gate of the prompts -/

theorem IdleCall.aside_step (h : Host) (me : Nat) (call : IdleCall) :
    h.Aside (call.step h me).1 := by
  cases call with
  | start job => exact (h.aside_drawTurn me).trans (Host.aside_setSlot _ _)
  | queued w job =>
    simp only [IdleCall.step]
    split
    · exact h.aside_setSlot _
    · exact .refl h
  | install job => exact h.aside_park me job
  | parked id reply =>
    simp only [IdleCall.step]
    split
    · exact ((h.aside_closeReply reply).trans (Host.aside_withdraw _ id)).trans
        (Host.aside_releaseTurn _)
    · exact .refl h
    · exact (h.aside_withdraw id).trans (Host.aside_releaseTurn _)

theorem IdleCall.aside_abandon (h : Host) (call : IdleCall) : h.Aside (call.abandon h) := by
  cases call with
  | start job => exact .refl h
  | queued w job => exact h.aside_leaveTurn w
  | install job => exact h.aside_releaseTurn
  | parked id reply =>
    exact ((h.aside_closeReply reply).trans (Host.aside_withdraw _ id)).trans
      (Host.aside_releaseTurn _)

theorem KeyCall.aside_step (h : Host) (me : Nat) (bias : List Bool) (call : KeyCall) :
    h.Aside (call.step h me bias).1 := by
  cases call with
  | start token => exact h.aside_setConsole _
  | look token =>
    simp only [KeyCall.step]
    split
    · exact .refl h
    · split
      · exact h.aside_setConsole _
      · exact .refl h
  | arm token =>
    simp only [KeyCall.step]
    split
    · exact .refl h
    · exact (h.aside_drawTurn me).trans (Host.aside_setConsole _ _)
  | listen w token =>
    have hstop : h.Aside ((h.ignoreSignal w).forgetToken token me) :=
      (h.aside_ignoreSignal w).trans (Host.aside_forgetToken _ _ _)
    simp only [KeyCall.step]
    split
    · exact hstop
    · split
      · exact (h.aside_modifyConsole _).trans (Host.aside_forgetToken _ _ _)
      · split
        · exact hstop
        · split
          · exact .refl h
          · exact h.aside_awaitToken token me

theorem KeyCall.aside_abandon (h : Host) (me : Nat) (call : KeyCall) :
    h.Aside (call.abandon h me) := by
  cases call with
  | listen w token => exact (h.aside_ignoreSignal w).trans (Host.aside_forgetToken _ _ _)
  | _ => exact .refl h

theorem ConsoleRead.aside_close (h : Host) : h.Aside (ConsoleRead.close h) :=
  (h.aside_setReading none).trans (Host.aside_releaseReader _)

theorem ConsoleRead.aside_step (h : Host) (me : Nat) (bias : List Bool) (call : ConsoleRead) :
    h.Aside (call.step h me bias).1 := by
  cases call with
  | start commandLine token =>
    simp only [ConsoleRead.step]
    split
    · exact .refl h
    · split
      · exact h.aside_stopReader
      · exact .refl h
  | ask commandLine token =>
    simp only [ConsoleRead.step]
    split
    · exact .refl h
    · exact (h.aside_drawTurn me).trans (Host.aside_setReader _ _)
  | queued w commandLine token =>
    refine h.aside_orFired _ _ _ _ _ _ ?_ fun k => k.aside_leaveReader w
    split
    · exact (h.aside_setReader _).trans (Host.aside_forgetToken _ _ _)
    · exact .refl h
  | opened commandLine token =>
    exact (h.aside_deriveToken token).trans (Host.aside_setReading _ _)
  | key call line commandLine own =>
    have hkey := call.aside_step h me bias
    simp only [ConsoleRead.step]
    split <;> rename_i hr <;> rw [hr] at hkey
    · exact hkey
    · exact hkey
    · exact hkey.trans (aside_close _)
    · exact hkey.trans (aside_close _)
    · rename_i k key
      have hecho := hkey.trans
        (k.aside_modifyConsole (·.write (Edit.ofKey commandLine line key).echo))
      split
      · exact hecho.trans (aside_close _)
      · exact hecho

theorem ConsoleRead.aside_abandon (h : Host) (me : Nat) (call : ConsoleRead) :
    h.Aside (call.abandon h me) := by
  cases call with
  | start commandLine token => exact .refl h
  | ask commandLine token => exact .refl h
  | queued w commandLine token => exact (h.aside_leaveReader w).trans (Host.aside_forgetToken _ _ _)
  | opened commandLine token => exact h.aside_releaseReader
  | key call line commandLine own => exact (call.aside_abandon h me).trans (aside_close _)

end SharedPrompt
