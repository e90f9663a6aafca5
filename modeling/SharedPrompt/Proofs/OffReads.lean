import SharedPrompt.Proofs.AtGates
import SharedPrompt.Proofs.Shifts
import SharedPrompt.Proofs.TokenFamilies

/-!
# What passes the reads of the line editor by

Only a read that is entered or that ends changes which read counts as the latest. Everything else
leaves that alone and does with the tokens what can be done with tokens. Whether the host has a line
editor at all, and whether that observes its token, never changes.
-/

namespace SharedPrompt

open Relation

namespace Host

def reads (h : Host) : EditorReads × Bool × Bool := (h.editor, h.native, h.engine.cancellable)

/-- A change of a host that leaves the reads of the line editor alone. -/
structure OffReads (h h' : Host) : Prop where
  reads : h'.reads = h.reads
  tokens : h.tokens.Steps h'.tokens

namespace OffReads

theorem refl (h : Host) : h.OffReads h := ⟨rfl, .refl⟩

theorem same {h h' : Host} (hreads : h'.reads = h.reads) (htokens : h'.tokens = h.tokens) :
    h.OffReads h' := by
  apply OffReads.mk hreads
  rw [htokens]

theorem trans {a b c : Host} (hab : a.OffReads b) (hbc : b.OffReads c) : a.OffReads c :=
  ⟨hbc.reads.trans hab.reads, hab.tokens.trans hbc.tokens⟩

theorem after {a b c : Host} (hbc : b.OffReads c) (hreads : b.reads = a.reads)
    (htokens : b.tokens = a.tokens) : a.OffReads c :=
  (OffReads.same hreads htokens).trans hbc

theorem editor {h h' : Host} (ho : h.OffReads h') : h'.editor = h.editor :=
  congrArg Prod.fst ho.reads

end OffReads

variable (h : Host)

/-! ## Waking, tokens and gates -/

theorem AtGates.offReads {h h' : Host} (ha : h.AtGates h') : h.OffReads h' :=
  .same (ha.same Host.reads fun _ _ _ => rfl) (ha.same Host.tokens fun _ _ _ => rfl)

theorem offReads_wake (task : Nat) : h.OffReads (h.wake task) := (h.atGates_wake task).offReads

theorem offReads_wakeAll (tasks : List Nat) : h.OffReads (h.wakeAll tasks) := by
  induction tasks generalizing h with
  | nil => exact .refl h
  | cons t rest ih => exact (h.offReads_wake t).trans (ih (h.wake t))

theorem offReads_wakeWaiter (w : Option Waiter) : h.OffReads (h.wakeWaiter w) :=
  (h.atGates_wakeWaiter w).offReads

theorem offReads_newToken : h.OffReads h.newToken.2 := ⟨rfl, .single (.new _)⟩

theorem offReads_deriveToken (token : Nat) : h.OffReads (h.deriveToken token).2 :=
  ⟨rfl, .single (.derive _ token)⟩

theorem offReads_awaitToken (token task : Nat) : h.OffReads (h.awaitToken token task) :=
  ⟨rfl, .single (.await _ token task)⟩

theorem offReads_forgetToken (token task : Nat) : h.OffReads (h.forgetToken token task) :=
  ⟨rfl, .single (.forget _ token task)⟩

theorem offReads_fireToken (token : Nat) : h.OffReads (h.fireToken token) := by
  have hfire : h.OffReads { h with tokens := (h.tokens.fire token).1 } :=
    ⟨rfl, .single (.fire _ token)⟩
  exact hfire.trans (offReads_wakeAll _ _)

theorem offReads_releasePermit (p : Permit) : h.OffReads (h.releasePermit p) :=
  (h.atGates_releasePermit p).offReads

/-! ## Replies, the idle slot, the line reader and the console -/

theorem offReads_sendReply (reply : Nat) (r : RunResult) : h.OffReads (h.sendReply reply r) := by
  unfold sendReply
  split
  · exact (offReads_wake _ _).after rfl rfl
  · exact .refl h

theorem offReads_releaseTurn : h.OffReads h.releaseTurn :=
  (offReads_wakeWaiter _ _).after rfl rfl

theorem offReads_leaveTurn (w : Waiter) : h.OffReads (h.leaveTurn w) :=
  (offReads_wakeWaiter _ _).after rfl rfl

theorem offReads_withdraw (id : Nat) : h.OffReads (h.withdraw id) := by
  unfold withdraw
  split
  · split <;> exact .same rfl rfl
  · exact .refl h

theorem offReads_releaseReader : h.OffReads h.releaseReader :=
  (offReads_wakeWaiter _ _).after rfl rfl

theorem offReads_leaveReader (w : Waiter) : h.OffReads (h.leaveReader w) :=
  (offReads_wakeWaiter _ _).after rfl rfl

theorem offReads_modifyConsole (f : Console Waiter → Console Waiter) :
    h.OffReads (h.modifyConsole f) := .same rfl rfl

theorem offReads_ignoreSignal (w : Waiter) : h.OffReads (h.ignoreSignal w) :=
  (h.offReads_modifyConsole _).trans (offReads_wakeWaiter _ _)

theorem offReads_pushKey (k : KeyEvent) : h.OffReads (h.pushKey k) :=
  (h.offReads_modifyConsole _).trans (offReads_wakeWaiter _ _)

theorem offReads_stopReader : h.OffReads h.stopReader := by
  unfold stopReader
  split
  · exact h.offReads_fireToken _
  · exact .refl h

theorem offReads_closeRead : h.OffReads (ConsoleRead.close h) :=
  (offReads_releaseReader _).after rfl rfl

/-- Waiting for a call or a token passes the reads by if the call does. -/
theorem offReads_orFired {σ α : Type} (me token : Nat) (eager : Bool) (abandon : Host → Host)
    (fired : α) (step : Host → Host × Poll σ α) (hstep : h.OffReads (step h).1)
    (habandon : ∀ k : Host, k.OffReads (abandon k)) :
    h.OffReads (h.orFired me token eager abandon fired step).1 := by
  have hgive (k : Host) : k.OffReads (abandon (k.forgetToken token me)) :=
    (k.offReads_forgetToken token me).trans (habandon _)
  simp only [orFired]
  split
  · exact hgive h
  · split <;> rename_i hr <;> rw [hr] at hstep
    · split
      · exact hstep.trans (hgive _)
      · exact hstep.trans (offReads_awaitToken _ _ _)
    · exact hstep
    · exact hstep.trans (offReads_forgetToken _ _ _)

end Host

/-! ## Calls -/

theorem Leasing.offReads_step (h : Host) (me : Nat) (l : Leasing) : h.OffReads (l.step h me).1 :=
  (l.atGates_step h me).offReads

theorem Leasing.offReads_abandon (h : Host) (l : Leasing) : h.OffReads (l.abandon h) :=
  (l.atGates_abandon h).offReads

namespace IdleCall

theorem offReads_step (h : Host) (me : Nat) (call : IdleCall) : h.OffReads (call.step h me).1 := by
  have htake (k : Host) (id : Nat) : k.OffReads ((k.withdraw id).releaseTurn) :=
    (k.offReads_withdraw id).trans (Host.offReads_releaseTurn _)
  cases call with
  | start job => exact .same rfl rfl
  | queued w job =>
    simp only [step]
    split <;> exact .same rfl rfl
  | install job => exact .same rfl rfl
  | parked id reply =>
    simp only [step]
    split
    · exact (htake (h.closeReply reply) id).after rfl rfl
    · exact .refl h
    · exact htake h id

theorem offReads_abandon (h : Host) (call : IdleCall) : h.OffReads (call.abandon h) := by
  cases call with
  | start job => exact .refl h
  | queued w job => exact h.offReads_leaveTurn w
  | install job => exact h.offReads_releaseTurn
  | parked id reply =>
    have hclose : h.OffReads (h.closeReply reply) := .same rfl rfl
    exact hclose.trans ((Host.offReads_withdraw _ id).trans (Host.offReads_releaseTurn _))

end IdleCall

namespace KeyCall

theorem offReads_step (h : Host) (me : Nat) (bias : List Bool) (call : KeyCall) :
    h.OffReads (call.step h me bias).1 := by
  cases call with
  | start token => exact .same rfl rfl
  | look token =>
    simp only [step]
    split
    · exact .refl h
    · split <;> exact .same rfl rfl
  | arm token =>
    simp only [step]
    split <;> exact .same rfl rfl
  | listen w token =>
    have hstop : h.OffReads ((h.ignoreSignal w).forgetToken token me) :=
      (h.offReads_ignoreSignal w).trans (Host.offReads_forgetToken _ _ _)
    simp only [step]
    split
    · exact hstop
    · split
      · exact (h.offReads_modifyConsole _).trans (Host.offReads_forgetToken _ _ _)
      · split
        · exact hstop
        · split
          · exact .refl h
          · exact h.offReads_awaitToken token me

theorem offReads_abandon (h : Host) (me : Nat) (call : KeyCall) :
    h.OffReads (call.abandon h me) := by
  cases call with
  | listen w token => exact (h.offReads_ignoreSignal w).trans (Host.offReads_forgetToken _ _ _)
  | _ => exact .refl h

end KeyCall

namespace ConsoleRead

theorem offReads_step (h : Host) (me : Nat) (bias : List Bool) (call : ConsoleRead) :
    h.OffReads (call.step h me bias).1 := by
  cases call with
  | start commandLine token =>
    simp only [step]
    split
    · exact .refl h
    · split
      · exact h.offReads_stopReader
      · exact .refl h
  | ask commandLine token =>
    simp only [step]
    split <;> exact .same rfl rfl
  | queued w commandLine token =>
    refine h.offReads_orFired _ _ _ _ _ _ ?_ fun k => k.offReads_leaveReader w
    split
    · exact (Host.offReads_forgetToken _ _ _).after rfl rfl
    · exact .refl h
  | opened commandLine token => exact (h.offReads_deriveToken token).trans (.same rfl rfl)
  | key call line commandLine own =>
    have hkey := call.offReads_step h me bias
    simp only [step]
    split <;> rename_i hr <;> rw [hr] at hkey
    · exact hkey
    · exact hkey
    · exact hkey.trans (Host.offReads_closeRead _)
    · exact hkey.trans (Host.offReads_closeRead _)
    · rename_i k key
      have hecho := hkey.trans
        (k.offReads_modifyConsole (·.write (Edit.ofKey commandLine line key).echo))
      split
      · exact hecho.trans (Host.offReads_closeRead _)
      · exact hecho

theorem offReads_abandon (h : Host) (me : Nat) (call : ConsoleRead) :
    h.OffReads (call.abandon h me) := by
  cases call with
  | start commandLine token => exact .refl h
  | ask commandLine token => exact .refl h
  | queued w commandLine token =>
    exact (h.offReads_leaveReader w).trans (Host.offReads_forgetToken _ _ _)
  | opened commandLine token => exact h.offReads_releaseReader
  | key call line commandLine own =>
    exact (call.offReads_abandon h me).trans (Host.offReads_closeRead _)

end ConsoleRead

namespace Execution

theorem offReads_step (h : Host) (me : Nat) (bias : List Bool) (run : Execution) :
    h.OffReads (run.step h me bias).1 := by
  cases run with
  | start job => exact .refl h
  | idle call token =>
    exact h.offReads_orFired me token _ _ _ (call.step · me) (call.offReads_step h me) fun k =>
      call.offReads_abandon k
  | leasing lease job =>
    have hrun := h.offReads_orFired me job.token (bias.headD false) lease.abandon none
      (fun h => ((lease.step h me).1, (lease.step h me).2.map id some)) (lease.offReads_step h me)
      fun k => lease.offReads_abandon k
    simp only [step]
    split <;> rename_i hr <;> rw [hr] at hrun <;> exact hrun
  | granted permit job => exact .same rfl rfl
  | running reply =>
    simp only [step]
    split <;> exact .same rfl rfl

theorem offReads_abandon (h : Host) (me : Nat) (run : Execution) :
    h.OffReads (run.abandon h me) := by
  cases run with
  | start job => exact .refl h
  | idle call token => exact (call.offReads_abandon h).trans (Host.offReads_forgetToken _ _ _)
  | leasing lease job => exact (lease.offReads_abandon h).trans (Host.offReads_forgetToken _ _ _)
  | granted permit job => exact h.offReads_releasePermit permit
  | running reply => exact .same rfl rfl

end Execution

namespace AbortCall

theorem offReads_begin (h : Host) : h.OffReads (begin h).1 := by
  unfold begin
  split
  · exact h.offReads_stopReader
  · split
    · exact .refl h
    · split
      · exact h.offReads_fireToken _
      · exact ⟨rfl, .single (.new _)⟩

theorem offReads_reverted (h : Host) (r : RunResult) : h.OffReads (reverted h r) := by
  cases r <;> exact .same rfl rfl

theorem offReads_stepExit (h : Host) (me : Nat) (call : IdleCall) (lease : Leasing) :
    h.OffReads (stepExit h me call lease).1 := by
  have hlease := lease.offReads_step h me
  simp only [stepExit]
  split <;> rename_i hr <;> rw [hr] at hlease
  · exact hlease
  · exact hlease
  · exact hlease.trans ((Host.offReads_releasePermit _ _).trans (call.offReads_abandon _))

theorem offReads_stepRevert (h : Host) (me : Nat) (call : IdleCall) (lease : Leasing) :
    h.OffReads (stepRevert h me call lease).1 := by
  have hcall := call.offReads_step h me
  simp only [stepRevert]
  split <;> rename_i hr <;> rw [hr] at hcall
  · exact hcall
  · exact hcall
  · exact hcall.trans ((lease.offReads_abandon _).trans (offReads_reverted _ _))

theorem offReads_step (h : Host) (me : Nat) (bias : List Bool) (abort : AbortCall) :
    h.OffReads (abort.step h me bias).1 := by
  cases abort with
  | start => exact offReads_begin h
  | exiting lease =>
    have hlease := lease.offReads_step h me
    simp only [step]
    split <;> rename_i hr <;> rw [hr] at hlease
    · exact hlease
    · exact hlease
    · exact hlease.trans (Host.offReads_releasePermit _ _)
  | reverting call lease =>
    have hexit := offReads_stepExit h me call lease
    have hrevert := offReads_stepRevert h me call lease
    simp only [step]
    split
    · split
      next hr =>
        rw [hr] at hexit
        exact hexit.trans (offReads_stepRevert _ me call lease)
      next => exact hexit
    · split
      next hr =>
        rw [hr] at hrevert
        exact hrevert.trans (offReads_stepExit _ me call lease)
      next => exact hrevert

theorem offReads_abandon (h : Host) (abort : AbortCall) : h.OffReads (abort.abandon h) := by
  cases abort with
  | start => exact .refl h
  | exiting lease => exact lease.offReads_abandon h
  | reverting call lease => exact (call.offReads_abandon h).trans (lease.offReads_abandon _)

end AbortCall

namespace ExitCall

theorem offReads_step (h : Host) (me : Nat) (exit : ExitCall) : h.OffReads (exit.step h me).1 := by
  cases exit with
  | start =>
    simp only [step]
    split
    · exact .refl h
    · split
      · exact (Host.offReads_releaseReader _).after rfl rfl
      · exact .same rfl rfl
  | leasing lease =>
    have hlease := lease.offReads_step h me
    simp only [step]
    split <;> rename_i hr <;> rw [hr] at hlease
    · exact hlease
    · exact hlease
    · exact hlease.trans (Host.offReads_releasePermit _ _)
  | queued w =>
    simp only [step]
    split
    · exact (Host.offReads_releaseReader _).after rfl rfl
    · exact .refl h

theorem offReads_abandon (h : Host) (exit : ExitCall) : h.OffReads (exit.abandon h) := by
  cases exit with
  | start => exact .refl h
  | leasing lease => exact lease.offReads_abandon h
  | queued w => exact h.offReads_leaveReader w

end ExitCall

namespace CommandCall

theorem offReads_step (h : Host) (me : Nat) (bias : List Bool) (call : CommandCall) :
    h.OffReads (call.step h me bias).1 := by
  cases call with
  | start job => exact .refl h
  | aborting abort job => exact abort.offReads_step h me bias
  | exiting exit job => exact exit.offReads_step h me
  | running run => exact run.offReads_step h me bias

theorem offReads_abandon (h : Host) (me : Nat) (call : CommandCall) :
    h.OffReads (call.abandon h me) := by
  cases call with
  | start job => exact .refl h
  | aborting abort job => exact abort.offReads_abandon h
  | exiting exit job => exact exit.offReads_abandon h
  | running run => exact run.offReads_abandon h me

end CommandCall

/-! ## Threads -/

namespace Host

variable (h : Host)

theorem offReads_createPipeline (mode : PipelineMode) : h.OffReads (h.createPipeline mode).2 := by
  have hcreate : (h.engine.create h.trace mode).2.1.cancellable = h.engine.cancellable := by
    unfold Engine.create
    dsimp only
    split
    · rfl
    · split <;> rfl
  apply OffReads.same
  · rw [reads, reads, ← hcreate]
    rfl
  · rfl

theorem offReads_enterPrompt (kind : PromptKind) : h.OffReads (h.enterPrompt kind) := by
  have hcreate := h.offReads_createPipeline .nested
  unfold enterPrompt
  split
  · split <;> rename_i hr <;> rw [hr] at hcreate
    · exact hcreate.trans (.same rfl rfl)
    · exact hcreate.trans (.same rfl rfl)
  · exact .refl h

theorem offReads_leavePrompt : h.OffReads h.leavePrompt := by
  simp only [leavePrompt]
  split
  · split <;> exact .same rfl rfl
  · exact .refl h

end Host

namespace Activation

variable (h : Host) (below : List Activation)

theorem offReads_beginCommand (pipeline : Nat) (job : Job) :
    h.OffReads (beginCommand h pipeline job below).1 := by
  have hbegin : (h.engine.begin pipeline job.command job.sink job.token).1.cancellable =
      h.engine.cancellable := by
    unfold Engine.begin
    split <;> rfl
  apply Host.OffReads.same
  · rw [Host.reads, Host.reads, ← hbegin]
    rfl
  · rfl

theorem offReads_endCommand (inv : Invocation) (editing : Bool) (o : Outcome) :
    h.OffReads (endCommand h inv editing o below).1 := by
  have hfinish : h.OffReads { h with engine := h.engine.finish inv editing } := by
    apply Host.OffReads.same
    · simp only [Host.reads, Engine.finish]
      split <;> split <;> rfl
    · rfl
  have hunlock (k : Host) (pipeline : Nat) : k.OffReads (k.unlockPipeline pipeline) :=
    .same rfl rfl
  have hanswer (k : Host) (pipeline reply : Nat) :
      k.OffReads ((k.unlockPipeline pipeline).sendReply reply o.result) :=
    (hunlock k pipeline).trans (Host.offReads_sendReply _ _ _)
  cases hnotice : o.notice? inv.command with
  | none =>
    simp only [endCommand, hnotice]
    split
    · exact hfinish.trans (hanswer _ _ _)
    · exact hfinish
  | some n =>
    have hnoted (k : Host) : k.OffReads (k.notice n) := .same rfl rfl
    simp only [endCommand, hnotice]
    split
    · exact (hfinish.trans (hnoted _)).trans (hanswer _ _ _)
    · exact hfinish.trans (hnoted _)

variable {h below} {k : Host} {stack : List Activation}

theorem offReads_begin {pipeline : Nat} {job : Job}
    (hs : some (beginCommand h pipeline job below) = some (k, stack)) : h.OffReads k := by
  have hbegin := offReads_beginCommand h below pipeline job
  rwa [Option.some.inj hs] at hbegin

theorem offReads_stepErrand {work : Assignment} {phase : Errand}
    (hs : stepErrand h work below phase = some (k, stack)) : h.OffReads k := by
  cases phase with
  | start =>
    simp only [stepErrand] at hs
    split at hs <;> cases hs <;> exact .refl h
  | lock =>
    simp only [stepErrand] at hs
    split at hs
    · cases hs
    · exact (offReads_begin hs).after rfl rfl
  | called => cases hs
  | unlock r => cases hs; exact .same rfl rfl
  | release r => cases hs; exact (h.atGates_releaseGate _).offReads
  | releaseMain r => cases hs; exact (h.atGates_releaseAll _).offReads
  | answer r => cases hs; exact h.offReads_sendReply _ _

theorem offReads_stepServing {phase : Serving}
    (hs : stepServing h below phase = some (k, stack)) : h.OffReads k := by
  cases phase with
  | look =>
    simp only [stepServing] at hs
    split at hs <;> cases hs <;> exact .refl h
  | take =>
    simp only [stepServing] at hs
    split at hs <;> cases hs <;> exact .same rfl rfl
  | openPrompt request =>
    have hcreate := h.offReads_createPipeline .nested
    simp only [stepServing] at hs
    split at hs <;> rename_i hr <;> rw [hr] at hcreate <;> cases hs
    · exact hcreate.trans ((Host.offReads_sendReply _ _ _).after rfl rfl)
    · exact hcreate.trans (.same rfl rfl)
  | lock request permit pipeline =>
    simp only [stepServing] at hs
    split at hs
    · cases hs
    · exact h.offReads_newToken.trans ((offReads_begin hs).after rfl rfl)
  | called request permit pipeline => cases hs
  | answer request permit pipeline r => cases hs; exact h.offReads_sendReply _ _
  | unlock permit pipeline => cases hs; exact .same rfl rfl
  | release permit => cases hs; exact h.offReads_releasePermit permit
  | closePrompt => cases hs; exact .same rfl rfl

theorem offReads_stepCommand {inv : Invocation}
    (hs : stepCommand h inv below = some (k, stack)) : h.OffReads k := by
  simp only [stepCommand] at hs
  split at hs
  case h_3 o _ =>
    have hend := offReads_endCommand h below inv false o
    rwa [Option.some.inj hs] at hend
  all_goals cases hs
  case h_6 => exact h.offReads_enterPrompt _
  case h_7 => exact h.offReads_leavePrompt
  all_goals exact .same rfl rfl

theorem offReads_stepEdit (h : Host) (below : List Activation) (inv : Invocation) :
    h.OffReads (stepEdit h inv below).1 := by
  simp only [stepEdit]
  split
  · exact (offReads_endCommand _ below inv true _).after rfl rfl
  · split
    · exact offReads_endCommand h below inv true _
    · exact .refl h

/-- Threads leave the reads alone. -/
theorem offReads_step {t : List Activation} (hs : step h t = some (k, stack)) : h.OffReads k := by
  rcases t with - | ⟨a, below⟩
  · cases hs
  · cases a with
    | notify rest => rcases rest with - | ⟨s, rest⟩ <;> cases hs <;> exact .refl h
    | serve phase => exact offReads_stepServing hs
    | errand phase work => exact offReads_stepErrand hs
    | direct pipeline called job reply =>
      cases called with
      | false =>
        simp only [step] at hs
        split at hs
        · cases hs
        · exact (offReads_begin hs).after rfl rfl
      | true => cases hs
    | command inv => exact offReads_stepCommand hs
    | edit inv fresh =>
      have hedit := offReads_stepEdit h below inv
      rwa [Option.some.inj hs] at hedit

end Activation

end SharedPrompt
