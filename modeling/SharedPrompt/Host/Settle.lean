import SharedPrompt.Host.Event

/-!
# Letting a host come to rest

One fixed order among all that could happen next: first every thread runs until it ends or has to
wait, then the task that was woken first is polled until it is blocked, and so on. With no task
woken, a line editor at rest looks around once more, if that would change anything.
-/

namespace SharedPrompt

namespace Activation

/-- A thread goes on by itself unless it waits for a lock, for a barrier, or in a line editor that
has already looked for a line. -/
def runs (h : Host) : List Activation → Bool
  | [] => false
  | .edit _ fresh :: _ => fresh
  | stack => (step h stack).isSome

end Activation

namespace Host

/-- A line editor at rest that would find a line, or its token fired, or somebody to serve. -/
def editorStirs (h : Host) : List Activation → Bool
  | .edit inv false :: _ =>
    !h.engine.lines.isEmpty || (h.engine.cancellable && h.tokens.isFired inv.token) ||
      (h.slot.pending.isSome && !h.console.keyAvailable && h.alive && h.subscriptions.count != 0)
  | _ => false

/-- Polls a task until it is blocked. -/
def pollTask (h : Host) (task : Nat) : Nat → Host
  | 0 => h
  | fuel + 1 =>
    match h.stepTask task [] with
    | (h, true) => pollTask h task fuel
    | (h, false) => h

/-- How many steps a host is given before it is taken as it is. -/
def patience : Nat := 200000

/-- The host after everything that can happen by itself. -/
def settleWithin (h : Host) : Nat → Host
  | 0 => h
  | fuel + 1 =>
    match h.threads.find? fun t => Activation.runs h t.stack with
    | some t => settleWithin (h.stepThread t.id).1 fuel
    | none =>
      match h.ready with
      | task :: rest => settleWithin (pollTask { h with ready := rest } task patience) fuel
      | [] =>
        match h.threads.find? fun t => h.editorStirs t.stack with
        | some t => settleWithin (h.stepThread t.id).1 fuel
        | none => h

def settle (h : Host) : Host := h.settleWithin patience

end Host

end SharedPrompt
