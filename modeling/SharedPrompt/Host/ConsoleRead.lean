import SharedPrompt.Console.Line
import SharedPrompt.Host.Execution

/-!
# Reading a line from the console

One read at a time holds the reader's gate and takes keys. A read that finds the gate taken stops
the read in progress first and then waits for its turn. A read that is stopped answers the empty
line and takes no key that it does not use.
-/

namespace SharedPrompt

namespace Host

def modifyConsole (h : Host) (f : Console Waiter → Console Waiter) : Host :=
  { h with console := f h.console }

/-- Wakes the oldest reader that waits for a key. -/
def pushKey (h : Host) (k : KeyEvent) : Host :=
  (h.modifyConsole (·.pushKey k)).wakeWaiter h.console.signal.next?

/-- Stops waiting for a key; a signal that came meanwhile goes to the next reader. -/
def ignoreSignal (h : Host) (w : Waiter) : Host :=
  (h.modifyConsole (·.ignore w)).wakeWaiter (h.console.signal.heir? w)

def setReading (h : Host) (token : Option Nat) : Host :=
  { h with reader := { h.reader with active := token } }

/-- Stops the read in progress, without waiting for it. -/
def stopReader (h : Host) : Host :=
  match h.reader.active with
  | some token => h.fireToken token
  | none => h

end Host

namespace KeyCall

/-- Whether the console stops this read of a key. -/
def stopped (h : Host) (token : Nat) : Bool := !h.console.deaf && h.tokens.isFired token

def step (h : Host) (me : Nat) (bias : List Bool) :
    KeyCall → Host × Poll KeyCall (Except ConsoleFault KeyPress)
  | start token => (h.modifyConsole fun c => { c with reads := c.reads + 1 }, .next (.look token))
  | look token =>
    if stopped h token then (h, .done (.error .cancelled))
    else match h.console.popKey? with
      | some (k, console) => ({ h with console }, .done k.result)
      | none => (h, .next (.arm token))
  | arm token =>
    if bias.headD false && stopped h token then (h, .done (.error .cancelled))
    else
      let (w, h) := h.drawTurn me
      let r := h.console.signal.join w
      let h := h.modifyConsole fun c => { c with signal := r.2 }
      (h, .next (if r.1.isSome then .look token else .listen w token))
  | listen w token =>
    if bias.headD false && stopped h token then
      ((h.ignoreSignal w).forgetToken token me, .done (.error .cancelled))
    else match h.console.signal.collect? w with
      | some (_, signal) =>
        ((h.modifyConsole fun c => { c with signal }).forgetToken token me, .next (.look token))
      | none =>
        if stopped h token then ((h.ignoreSignal w).forgetToken token me, .done (.error .cancelled))
        else (if h.console.deaf then h else h.awaitToken token me, .blocked)

def abandon (h : Host) (me : Nat) : KeyCall → Host
  | start _ | look _ | arm _ => h
  | listen w token => (h.ignoreSignal w).forgetToken token me

end KeyCall

namespace ConsoleRead

abbrev Answer := Except ReadFault String

/-- The read is over: nothing is being read, and the next in line may begin. -/
def close (h : Host) : Host := (h.setReading none).releaseReader

def step (h : Host) (me : Nat) (bias : List Bool) : ConsoleRead → Host × Poll ConsoleRead Answer
  | start commandLine token =>
    if h.tokens.isFired token then (h, .done (.error .cancelled))
    else (if h.reader.gate.isLeased then h.stopReader else h, .next (.ask commandLine token))
  | ask commandLine token =>
    if bias.headD false && h.tokens.isFired token then (h, .done (.ok ""))
    else
      let (w, h) := h.drawTurn me
      let r := h.reader.gate.join w
      let h := { h with reader := { h.reader with gate := r.2 } }
      (h, .next (if r.1 then .opened commandLine token else .queued w commandLine token))
  | queued w commandLine token =>
    h.orFired me token (bias.headD false) (·.leaveReader w) (.ok "") fun h =>
      match h.reader.gate.collect? w with
      | some gate =>
        ({ h with reader := { h.reader with gate } }.forgetToken token me,
          .next (.opened commandLine token))
      | none => (h, .blocked)
  | opened commandLine token =>
    let (own, h) := h.deriveToken token
    (h.setReading (some own), .next (.key (.start own) [] commandLine own))
  | key call line commandLine own =>
    match call.step h me bias with
    | (h, .blocked) => (h, .blocked)
    | (h, .next call) => (h, .next (.key call line commandLine own))
    | (h, .done (.error .cancelled)) => (close h, .done (.ok ""))
    | (h, .done (.error f)) => (close h, .done (.error (.console f)))
    | (h, .done (.ok k)) =>
      let edit := Edit.ofKey commandLine line k
      let h := h.modifyConsole (·.write edit.echo)
      if edit.accepted then (close h, .done (.ok (String.ofList edit.line)))
      else (h, .next (.key (.start own) edit.line commandLine own))

def abandon (h : Host) (me : Nat) : ConsoleRead → Host
  | start .. | ask .. => h
  | queued w _ token => (h.leaveReader w).forgetToken token me
  | opened .. => h.releaseReader
  | key call _ _ _ => close (call.abandon h me)

end ConsoleRead

end SharedPrompt
