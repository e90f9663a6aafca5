import SharedPrompt.Host.ConsoleRead
import SharedPrompt.Value.Json

/-!
# Reads, and stopping them

A host reads command lines with the engine's line editor, and everything else from the console;
a host that is not native reads everything from the console. To stop a read of the line editor,
its token is fired if the editor observes tokens, and otherwise the editor is told in an idle
moment to give up its line. Whoever stops a read waits until it has ended.
-/

namespace SharedPrompt

namespace AbortCall

/-- The command that makes the line editor give up its line. -/
def revert (h : Host) : Job × Host :=
  let (sink, h) := h.newSink
  let (token, h) := h.newToken
  (⟨.revertLine, .silent, sink, token⟩, h)

def reverted (h : Host) : RunResult → Host
  | .ok _ => h
  | .error f => h.notice (.revertFailed f)

def begin (h : Host) : Host × Poll AbortCall Unit :=
  if !h.native then (h.stopReader, .done ())
  else if !h.lineBusy then (h, .done ())
  else match h.editor.active, h.engine.cancellable with
    | some (_, token), true => (h.fireToken token, .next (.exiting (.choose true)))
    | _, _ =>
      let (job, h) := revert h
      (h, .next (.reverting (.start job) (.choose true)))

/-- Looks whether the read has ended. -/
def stepExit (h : Host) (me : Nat) (call : IdleCall) (lease : Leasing) : Host × Poll AbortCall Unit :=
  match lease.step h me with
  | (h, .blocked) => (h, .blocked)
  | (h, .next lease) => (h, .next (.reverting call lease))
  | (h, .done permit) => (call.abandon (h.releasePermit permit), .done ())

/-- Looks whether the editor has been told. -/
def stepRevert (h : Host) (me : Nat) (call : IdleCall) (lease : Leasing) : Host × Poll AbortCall Unit :=
  match call.step h me with
  | (h, .blocked) => (h, .blocked)
  | (h, .next call) => (h, .next (.reverting call lease))
  | (h, .done r) => (reverted (lease.abandon h) r, .done ())

def step (h : Host) (me : Nat) (bias : List Bool) : AbortCall → Host × Poll AbortCall Unit
  | start => begin h
  | exiting lease =>
    match lease.step h me with
    | (h, .blocked) => (h, .blocked)
    | (h, .next lease) => (h, .next (.exiting lease))
    | (h, .done permit) => (h.releasePermit permit, .done ())
  | reverting call lease =>
    if bias.headD false then
      match stepExit h me call lease with
      | (h, .blocked) => stepRevert h me call lease
      | r => r
    else
      match stepRevert h me call lease with
      | (h, .blocked) => stepExit h me call lease
      | r => r

def abandon (h : Host) : AbortCall → Host
  | start => h
  | exiting lease => lease.abandon h
  | reverting call lease => lease.abandon (call.abandon h)

end AbortCall

namespace ExitCall

def step (h : Host) (me : Nat) : ExitCall → Host × Poll ExitCall Unit
  | start =>
    if h.native then (h, .next (.leasing (.choose true)))
    else
      let (w, h) := h.drawTurn me
      let r := h.reader.gate.join w
      let h := { h with reader := { h.reader with gate := r.2 } }
      if r.1 then (h.releaseReader, .done ()) else (h, .next (.queued w))
  | leasing lease =>
    match lease.step h me with
    | (h, .blocked) => (h, .blocked)
    | (h, .next lease) => (h, .next (.leasing lease))
    | (h, .done permit) => (h.releasePermit permit, .done ())
  | queued w =>
    match h.reader.gate.collect? w with
    | some gate => ({ h with reader := { h.reader with gate } }.releaseReader, .done ())
    | none => (h, .blocked)

def abandon (h : Host) : ExitCall → Host
  | start => h
  | leasing lease => lease.abandon h
  | queued w => h.leaveReader w

end ExitCall

namespace ReadCall

abbrev Answer := Except ReadFault String

/-- The line among the values of a read: the first one, as text. -/
def lineOf : List Value → String
  | .str s :: _ => s
  | .null :: _ => ""
  | [] => ""
  | v :: _ => v.text

/-- What the engine's answer means to the reader: nothing but an empty line when the caller's token
has fired or the engine was stopped. -/
def interpret (fired : Bool) : RunResult → Answer
  | .ok vs => .ok (if fired then "" else lineOf vs)
  | .error f => if f.isCancelled then .ok "" else .error (.run f)

/-- The read `id` is no longer the latest, if it was. -/
def clearActive (h : Host) (id : Nat) : Host :=
  match h.editor.active with
  | some (other, _) => if other = id then { h with editor := { h.editor with active := none } } else h
  | none => h

def enterRead (h : Host) (token : Nat) : Host × ReadCall :=
  let id := h.editor.nextId
  let (own, h) := h.deriveToken token
  let (sink, h) := h.newSink
  ({ h with editor := ⟨some (id, own), id + 1⟩ },
    .reading (.start ⟨.readLine, .reading, sink, own⟩) id token own)

def finish (h : Host) (id token : Nat) (r : RunResult) : Host × Poll ReadCall Answer :=
  (clearActive h id, .done (interpret (h.tokens.isFired token) r))

def stepRun (h : Host) (me : Nat) (bias : List Bool) (run : Execution) (id token : Nat) :
    Host × Poll ReadCall Answer :=
  match run.step h me bias with
  | (h, .blocked) => (h, .blocked)
  | (h, .next run) => (h, .next (.stopping none (some run) none id token))
  | (h, .done r) => finish h id token r

def step (h : Host) (me : Nat) (bias : List Bool) : ReadCall → Host × Poll ReadCall Answer
  | start commandLine token =>
    if h.tokens.isFired token then (h, .done (.error .cancelled))
    else if !h.native || !commandLine then (h, .next (.console (.start commandLine token)))
    else (h, .next (if h.lineBusy then .clearing .start token else .enter token))
  | console call =>
    let r := call.step h me bias
    (r.1, r.2.map .console id)
  | clearing abort token =>
    let r := abort.step h me bias
    (r.1, r.2.andThen (.clearing · token) fun _ => .enter token)
  | enter token =>
    let r := enterRead h token
    (r.1, .next r.2)
  | reading run id token own =>
    let stop (h : Host) : Host × Poll ReadCall Answer :=
      (h.forgetToken token me, .next (.stopping (some .start) (some run) none id token))
    if bias.headD false && h.tokens.isFired token then stop h
    else match run.step h me bias.tail with
      | (h, .blocked) => if h.tokens.isFired token then stop h else (h.awaitToken token me, .blocked)
      | (h, .next run) => (h, .next (.reading run id token own))
      | (h, .done r) => finish (h.forgetToken token me) id token r
  | stopping none none (some r) id token => finish h id token r
  | stopping none (some run) _ id token => stepRun h me bias run id token
  | stopping (some abort) run result id token =>
    match abort.step h me bias with
    | (h, .next abort) => (h, .next (.stopping (some abort) run result id token))
    | (h, .done ()) => (h, .next (.stopping none run result id token))
    | (h, .blocked) =>
      match run with
      | none => (h, .blocked)
      | some run =>
        match run.step h me bias.tail with
        | (h, .blocked) => (h, .blocked)
        | (h, .next run) => (h, .next (.stopping (some abort) (some run) none id token))
        | (h, .done r) => (h, .next (.stopping (some abort) none (some r) id token))
  | stopping none none none _ _ => (h, .blocked)

def abandon (h : Host) (me : Nat) : ReadCall → Host
  | start .. | enter _ => h
  | console call => call.abandon h me
  | clearing abort _ => abort.abandon h
  | reading run id token _ => clearActive ((run.abandon h me).forgetToken token me) id
  | stopping abort run _ id _ =>
    let h := abort.elim h fun a => a.abandon h
    clearActive (run.elim h fun r => r.abandon h me) id

end ReadCall

namespace CommandCall

def step (h : Host) (me : Nat) (bias : List Bool) : CommandCall → Host × Poll CommandCall RunResult
  | start job =>
    (h, .next (if job.options.interrupt && h.lineBusy then .aborting .start job
      else .running (.start job)))
  | aborting abort job =>
    let r := abort.step h me bias
    (r.1, r.2.andThen (.aborting · job) fun _ => .exiting .start job)
  | exiting exit job =>
    let r := exit.step h me
    (r.1, r.2.andThen (.exiting · job) fun _ => .running (.start job))
  | running run =>
    let r := run.step h me bias
    (r.1, r.2.map .running id)

def abandon (h : Host) (me : Nat) : CommandCall → Host
  | start _ => h
  | aborting abort _ => abort.abandon h
  | exiting exit _ => exit.abandon h
  | running run => run.abandon h me

end CommandCall

end SharedPrompt
