import SharedPrompt.Proofs.AtGates
import SharedPrompt.Proofs.Shifts

/-!
# What passes the keyboard by

The keyboard is read by one reader of lines at a time. Only reads from the console, and calls that
wait for their end on a host that is not native, have to do with the reader's gate, and only those
reads with what is being read. Whether the console takes notice of tokens never changes.
-/

namespace SharedPrompt

namespace Host

def keyboard (h : Host) : LineReader × Bool := (h.reader, h.console.deaf)

variable (h : Host)

/-! ## Waking, tokens and gates -/

theorem AtGates.keyboard {h h' : Host} (ha : h.AtGates h') : h'.keyboard = h.keyboard :=
  ha.same Host.keyboard fun _ _ _ => rfl

@[simp] theorem keyboard_wake (task : Nat) : (h.wake task).keyboard = h.keyboard :=
  (h.atGates_wake task).keyboard

@[simp] theorem keyboard_wakeAll (tasks : List Nat) : (h.wakeAll tasks).keyboard = h.keyboard := by
  induction tasks generalizing h with
  | nil => rfl
  | cons t rest ih => exact (ih (h.wake t)).trans (h.keyboard_wake t)

@[simp] theorem keyboard_wakeWaiter (w : Option Waiter) :
    (h.wakeWaiter w).keyboard = h.keyboard := (h.atGates_wakeWaiter w).keyboard

@[simp] theorem keyboard_awaitToken (token task : Nat) :
    (h.awaitToken token task).keyboard = h.keyboard := rfl

@[simp] theorem keyboard_forgetToken (token task : Nat) :
    (h.forgetToken token task).keyboard = h.keyboard := rfl

@[simp] theorem keyboard_fireToken (token : Nat) : (h.fireToken token).keyboard = h.keyboard :=
  keyboard_wakeAll _ _

@[simp] theorem keyboard_releaseAll (gates : List Nat) :
    (gates.foldl releaseGate h).keyboard = h.keyboard := (h.atGates_releaseAll gates).keyboard

@[simp] theorem keyboard_releasePermit (p : Permit) :
    (h.releasePermit p).keyboard = h.keyboard := (h.atGates_releasePermit p).keyboard

@[simp] theorem keyboard_stopReader : h.stopReader.keyboard = h.keyboard := by
  unfold stopReader
  split
  · exact h.keyboard_fireToken _
  · rfl

/-! ## Replies, the idle slot and the keys -/

@[simp] theorem keyboard_sendReply (reply : Nat) (r : RunResult) :
    (h.sendReply reply r).keyboard = h.keyboard := by
  unfold sendReply
  split
  · exact keyboard_wake _ _
  · rfl

@[simp] theorem keyboard_closeReply (reply : Nat) :
    (h.closeReply reply).keyboard = h.keyboard := rfl

@[simp] theorem keyboard_releaseTurn : h.releaseTurn.keyboard = h.keyboard :=
  keyboard_wakeWaiter _ _

@[simp] theorem keyboard_leaveTurn (w : Waiter) : (h.leaveTurn w).keyboard = h.keyboard :=
  keyboard_wakeWaiter _ _

@[simp] theorem keyboard_withdraw (id : Nat) : (h.withdraw id).keyboard = h.keyboard := by
  unfold withdraw
  split
  · split <;> rfl
  · rfl

theorem deaf_raise (c : Console Waiter) : c.raise.deaf = c.deaf := by
  unfold Console.raise
  split <;> rfl

@[simp] theorem keyboard_ignoreSignal (w : Waiter) :
    (h.ignoreSignal w).keyboard = h.keyboard := by
  have hdeaf : (h.console.ignore w).deaf = h.console.deaf := by
    unfold Console.ignore
    split
    · exact deaf_raise _
    · rfl
  refine (keyboard_wakeWaiter _ _).trans ?_
  rw [keyboard, modifyConsole, hdeaf]
  rfl

@[simp] theorem keyboard_pushKey (k : KeyEvent) : (h.pushKey k).keyboard = h.keyboard := by
  refine (keyboard_wakeWaiter _ _).trans ?_
  have hdeaf : (h.console.pushKey k).deaf = h.console.deaf := deaf_raise _
  rw [keyboard, modifyConsole, hdeaf]
  rfl

/-- Waiting for a call or a token passes the keyboard by if the call does. -/
theorem keyboard_orFired {σ α : Type} (me token : Nat) (eager : Bool) (abandon : Host → Host)
    (fired : α) (step : Host → Host × Poll σ α) (hstep : (step h).1.keyboard = h.keyboard)
    (habandon : ∀ k : Host, (abandon k).keyboard = k.keyboard) :
    (h.orFired me token eager abandon fired step).1.keyboard = h.keyboard := by
  have hgive (k : Host) : (abandon (k.forgetToken token me)).keyboard = k.keyboard :=
    (habandon _).trans (k.keyboard_forgetToken token me)
  simp only [orFired]
  split
  · exact hgive h
  · split <;> rename_i hr <;> rw [hr] at hstep
    · split
      · exact (hgive _).trans hstep
      · exact hstep
    · exact hstep
    · exact hstep

end Host

/-! ## Calls -/

theorem Leasing.keyboard_step (h : Host) (me : Nat) (l : Leasing) :
    (l.step h me).1.keyboard = h.keyboard := (l.atGates_step h me).keyboard

theorem Leasing.keyboard_abandon (h : Host) (l : Leasing) :
    (l.abandon h).keyboard = h.keyboard := (l.atGates_abandon h).keyboard

namespace IdleCall

theorem keyboard_step (h : Host) (me : Nat) (call : IdleCall) :
    (call.step h me).1.keyboard = h.keyboard := by
  cases call with
  | start job => rfl
  | queued w job =>
    simp only [step]
    split <;> rfl
  | install job => rfl
  | parked id reply =>
    simp only [step]
    split <;> simp

theorem keyboard_abandon (h : Host) (call : IdleCall) :
    (call.abandon h).keyboard = h.keyboard := by
  cases call <;> simp [abandon]

end IdleCall

namespace KeyCall

theorem keyboard_step (h : Host) (me : Nat) (bias : List Bool) (call : KeyCall) :
    (call.step h me bias).1.keyboard = h.keyboard := by
  cases call with
  | start token => rfl
  | look token =>
    simp only [step]
    split
    · rfl
    · split
      next hpop =>
        unfold Console.popKey? at hpop
        split at hpop
        · cases hpop
        · cases hpop
          rfl
      next => rfl
  | arm token =>
    simp only [step]
    split <;> rfl
  | listen w token =>
    simp only [step]
    split
    · simp
    · split
      · rfl
      · split
        · simp
        · split <;> simp

theorem keyboard_abandon (h : Host) (me : Nat) (call : KeyCall) :
    (call.abandon h me).keyboard = h.keyboard := by
  cases call <;> simp [abandon]

end KeyCall

namespace Execution

theorem keyboard_step (h : Host) (me : Nat) (bias : List Bool) (run : Execution) :
    (run.step h me bias).1.keyboard = h.keyboard := by
  cases run with
  | start job => rfl
  | idle call token =>
    exact h.keyboard_orFired me token _ _ _ (call.step · me) (call.keyboard_step h me)
      fun k => call.keyboard_abandon k
  | leasing lease job =>
    have hrun := h.keyboard_orFired me job.token (bias.headD false) lease.abandon none
      (fun h => ((lease.step h me).1, (lease.step h me).2.map id some)) (lease.keyboard_step h me)
      fun k => lease.keyboard_abandon k
    simp only [step]
    split <;> rename_i hr <;> rw [hr] at hrun <;> exact hrun
  | granted permit job => rfl
  | running reply =>
    simp only [step]
    split <;> rfl

theorem keyboard_abandon (h : Host) (me : Nat) (run : Execution) :
    (run.abandon h me).keyboard = h.keyboard := by
  cases run with
  | idle call token => exact call.keyboard_abandon h
  | leasing lease job => exact lease.keyboard_abandon h
  | _ => simp [abandon]

end Execution

namespace AbortCall

theorem keyboard_begin (h : Host) : (begin h).1.keyboard = h.keyboard := by
  unfold begin
  split
  · exact h.keyboard_stopReader
  · split
    · rfl
    · split
      · exact h.keyboard_fireToken _
      · rfl

theorem keyboard_reverted (h : Host) (r : RunResult) : (reverted h r).keyboard = h.keyboard := by
  cases r <;> rfl

theorem keyboard_stepExit (h : Host) (me : Nat) (call : IdleCall) (lease : Leasing) :
    (stepExit h me call lease).1.keyboard = h.keyboard := by
  have hlease := lease.keyboard_step h me
  simp only [stepExit]
  split <;> rename_i hr <;> rw [hr] at hlease
  · exact hlease
  · exact hlease
  · exact (call.keyboard_abandon _).trans ((Host.keyboard_releasePermit _ _).trans hlease)

theorem keyboard_stepRevert (h : Host) (me : Nat) (call : IdleCall) (lease : Leasing) :
    (stepRevert h me call lease).1.keyboard = h.keyboard := by
  have hcall := call.keyboard_step h me
  simp only [stepRevert]
  split <;> rename_i hr <;> rw [hr] at hcall
  · exact hcall
  · exact hcall
  · exact (keyboard_reverted _ _).trans ((lease.keyboard_abandon _).trans hcall)

theorem keyboard_step (h : Host) (me : Nat) (bias : List Bool) (abort : AbortCall) :
    (abort.step h me bias).1.keyboard = h.keyboard := by
  cases abort with
  | start => exact keyboard_begin h
  | exiting lease =>
    have hlease := lease.keyboard_step h me
    simp only [step]
    split <;> rename_i hr <;> rw [hr] at hlease
    · exact hlease
    · exact hlease
    · exact (Host.keyboard_releasePermit _ _).trans hlease
  | reverting call lease =>
    have hexit := keyboard_stepExit h me call lease
    have hrevert := keyboard_stepRevert h me call lease
    simp only [step]
    split
    · split
      next hr =>
        rw [hr] at hexit
        exact (keyboard_stepRevert _ me call lease).trans hexit
      next => exact hexit
    · split
      next hr =>
        rw [hr] at hrevert
        exact (keyboard_stepExit _ me call lease).trans hrevert
      next => exact hrevert

theorem keyboard_abandon (h : Host) (abort : AbortCall) :
    (abort.abandon h).keyboard = h.keyboard := by
  cases abort with
  | start => rfl
  | exiting lease => exact lease.keyboard_abandon h
  | reverting call lease => exact (lease.keyboard_abandon _).trans (call.keyboard_abandon h)

end AbortCall

theorem ReadCall.keyboard_clearActive (h : Host) (id : Nat) :
    (clearActive h id).keyboard = h.keyboard := by
  unfold clearActive
  split
  · split <;> rfl
  · rfl

/-! ## Threads -/

namespace Host

variable (h : Host)

@[simp] theorem keyboard_createPipeline (mode : PipelineMode) :
    (h.createPipeline mode).2.keyboard = h.keyboard := rfl

theorem keyboard_enterPrompt (kind : PromptKind) : (h.enterPrompt kind).keyboard = h.keyboard := by
  have hcreate := h.keyboard_createPipeline .nested
  unfold enterPrompt
  split
  · split <;> rename_i hr <;> rw [hr] at hcreate <;> exact hcreate
  · rfl

theorem keyboard_leavePrompt : h.leavePrompt.keyboard = h.keyboard := by
  simp only [leavePrompt]
  split
  · split <;> rfl
  · rfl

end Host

namespace Activation

variable (h : Host) (below : List Activation)

theorem keyboard_endCommand (inv : Invocation) (editing : Bool) (o : Outcome) :
    (endCommand h inv editing o below).1.keyboard = h.keyboard := by
  cases hnotice : o.notice? inv.command with
  | none =>
    simp only [endCommand, hnotice]
    split
    · exact Host.keyboard_sendReply _ _ _
    · rfl
  | some n =>
    simp only [endCommand, hnotice]
    split
    · exact Host.keyboard_sendReply _ _ _
    · rfl

variable {h below} {k : Host} {stack : List Activation}

theorem keyboard_begin {pipeline : Nat} {job : Job}
    (hs : some (beginCommand h pipeline job below) = some (k, stack)) :
    k.keyboard = h.keyboard := by
  have hk : (beginCommand h pipeline job below).1 = k := congrArg Prod.fst (Option.some.inj hs)
  rw [← hk]
  rfl

theorem keyboard_stepErrand {work : Assignment} {phase : Errand}
    (hs : stepErrand h work below phase = some (k, stack)) : k.keyboard = h.keyboard := by
  cases phase with
  | start =>
    simp only [stepErrand] at hs
    split at hs <;> cases hs <;> rfl
  | lock =>
    simp only [stepErrand] at hs
    split at hs
    · cases hs
    · exact (keyboard_begin hs).trans rfl
  | called => cases hs
  | unlock r => cases hs; rfl
  | release r => cases hs; exact (h.atGates_releaseGate _).keyboard
  | releaseMain r => cases hs; exact h.keyboard_releaseAll _
  | answer r => cases hs; exact h.keyboard_sendReply _ _

theorem keyboard_stepServing {phase : Serving}
    (hs : stepServing h below phase = some (k, stack)) : k.keyboard = h.keyboard := by
  cases phase with
  | look =>
    simp only [stepServing] at hs
    split at hs <;> cases hs <;> rfl
  | take =>
    simp only [stepServing] at hs
    split at hs <;> cases hs <;> rfl
  | openPrompt request =>
    have hcreate := h.keyboard_createPipeline .nested
    simp only [stepServing] at hs
    split at hs <;> rename_i hr <;> rw [hr] at hcreate <;> cases hs
    · exact (Host.keyboard_sendReply _ _ _).trans hcreate
    · exact hcreate
  | lock request permit pipeline =>
    simp only [stepServing] at hs
    split at hs
    · cases hs
    · exact (keyboard_begin hs).trans rfl
  | called request permit pipeline => cases hs
  | answer request permit pipeline r => cases hs; exact h.keyboard_sendReply _ _
  | unlock permit pipeline => cases hs; rfl
  | release permit => cases hs; exact h.keyboard_releasePermit permit
  | closePrompt => cases hs; rfl

theorem keyboard_stepCommand {inv : Invocation}
    (hs : stepCommand h inv below = some (k, stack)) : k.keyboard = h.keyboard := by
  simp only [stepCommand] at hs
  split at hs
  case h_3 o _ =>
    have hend := keyboard_endCommand h below inv false o
    rwa [Option.some.inj hs] at hend
  all_goals cases hs
  case h_6 => exact h.keyboard_enterPrompt _
  case h_7 => exact h.keyboard_leavePrompt
  all_goals rfl

theorem keyboard_stepEdit (h : Host) (below : List Activation) (inv : Invocation) :
    (stepEdit h inv below).1.keyboard = h.keyboard := by
  simp only [stepEdit]
  split
  · exact keyboard_endCommand _ below inv true _
  · split
    · exact keyboard_endCommand h below inv true _
    · rfl

/-- Threads have nothing to do with the keyboard. -/
theorem keyboard_step {t : List Activation} (hs : step h t = some (k, stack)) :
    k.keyboard = h.keyboard := by
  rcases t with - | ⟨a, below⟩
  · cases hs
  · cases a with
    | notify rest => rcases rest with - | ⟨s, rest⟩ <;> cases hs <;> rfl
    | serve phase => exact keyboard_stepServing hs
    | errand phase work => exact keyboard_stepErrand hs
    | direct pipeline called job reply =>
      cases called with
      | false =>
        simp only [step] at hs
        split at hs
        · cases hs
        · exact (keyboard_begin hs).trans rfl
      | true => cases hs
    | command inv => exact keyboard_stepCommand hs
    | edit inv fresh =>
      have hedit := keyboard_stepEdit h below inv
      rwa [Option.some.inj hs] at hedit

end Activation

end SharedPrompt
