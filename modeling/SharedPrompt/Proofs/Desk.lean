import SharedPrompt.Proofs.Growth
import SharedPrompt.Proofs.Polls

/-!
# The idle slot and the replies

A request for an idle moment goes through the idle slot to a thread, which has the engine run it,
and what comes of it comes back as a reply. Most changes of a host have nothing to do with that: only
the calls for idle moments, the executions that send a thread, and the threads when they take a
request, begin a command or are done.
-/

namespace SharedPrompt

namespace Host

/-- Where requests are left, picked up, run and answered. -/
def desk (h : Host) : IdleSlot × List Reply × List Thread × List (Options × Command) :=
  (h.slot, h.replies, h.threads, h.commands)

/-- A change of a host that passes the idle slot, the replies and the threads by, and in which the
engine begins no command. -/
structure OffDesk (h h' : Host) : Prop where
  desk : h'.desk = h.desk
  turns : h.nextTurn ≤ h'.nextTurn

namespace OffDesk

variable {h h' : Host}

theorem refl (h : Host) : h.OffDesk h := ⟨rfl, le_rfl⟩

theorem trans {a b c : Host} (hab : a.OffDesk b) (hbc : b.OffDesk c) : a.OffDesk c :=
  ⟨hbc.desk.trans hab.desk, hab.turns.trans hbc.turns⟩

theorem slot (ho : h.OffDesk h') : h'.slot = h.slot := congrArg Prod.fst ho.desk

theorem replies (ho : h.OffDesk h') : h'.replies = h.replies := congrArg (·.2.1) ho.desk

theorem threads (ho : h.OffDesk h') : h'.threads = h.threads := congrArg (·.2.2.1) ho.desk

theorem commands (ho : h.OffDesk h') : h'.commands = h.commands := congrArg (·.2.2.2) ho.desk

end OffDesk

theorem Aside.offDesk {h h' : Host} (ha : h.Aside h') (hd : h'.desk = h.desk) : h.OffDesk h' :=
  ⟨hd, ha.turns⟩

theorem Grows.offDesk {h h' : Host} (hg : h.Grows h') (hd : h'.desk = h.desk) : h.OffDesk h' :=
  ⟨hd, hg.nextTurn⟩

theorem Filed.offDesk {h h' : Host} (hf : h.Filed h') : h.OffDesk h' :=
  ⟨by rw [desk, desk, hf.slot, hf.replies, hf.threads, commands, commands, hf.trace], hf.nextTurn.ge⟩

variable (h : Host)

/-! ## Waking, tokens and gates -/

@[simp] theorem desk_wake (task : Nat) : (h.wake task).desk = h.desk := by
  unfold wake
  split <;> rfl

@[simp] theorem desk_wakeAll (tasks : List Nat) : (h.wakeAll tasks).desk = h.desk := by
  induction tasks generalizing h with
  | nil => rfl
  | cons t rest ih => exact (ih (h.wake t)).trans (h.desk_wake t)

@[simp] theorem desk_wakeWaiter (w : Option Waiter) : (h.wakeWaiter w).desk = h.desk := by
  cases w with
  | none => rfl
  | some w => exact h.desk_wake w.task

@[simp] theorem desk_drawTurn (task : Nat) : (h.drawTurn task).2.desk = h.desk := rfl

@[simp] theorem desk_awaitToken (token task : Nat) : (h.awaitToken token task).desk = h.desk := rfl

@[simp] theorem desk_forgetToken (token task : Nat) : (h.forgetToken token task).desk = h.desk :=
  rfl

@[simp] theorem desk_fireToken (token : Nat) : (h.fireToken token).desk = h.desk :=
  desk_wakeAll _ _

theorem AtGates.desk {h h' : Host} (ha : h.AtGates h') : h'.desk = h.desk :=
  ha.same Host.desk fun _ _ _ => rfl

@[simp] theorem desk_releaseGate (g : Nat) : (h.releaseGate g).desk = h.desk :=
  (h.atGates_releaseGate g).desk

@[simp] theorem desk_releaseAll (gates : List Nat) : (gates.foldl releaseGate h).desk = h.desk :=
  (h.atGates_releaseAll gates).desk

@[simp] theorem desk_releasePermit (p : Permit) : (h.releasePermit p).desk = h.desk :=
  (h.atGates_releasePermit p).desk

@[simp] theorem desk_leaveGate (g : Nat) (w : Waiter) : (h.leaveGate g w).desk = h.desk :=
  (h.atGates_leaveGate g w).desk

/-! ## The console -/

@[simp] theorem desk_modifyConsole (f : Console Waiter → Console Waiter) :
    (h.modifyConsole f).desk = h.desk := rfl

@[simp] theorem desk_ignoreSignal (w : Waiter) : (h.ignoreSignal w).desk = h.desk :=
  desk_wakeWaiter _ _

@[simp] theorem desk_releaseReader : h.releaseReader.desk = h.desk := desk_wakeWaiter _ _

@[simp] theorem desk_leaveReader (w : Waiter) : (h.leaveReader w).desk = h.desk :=
  desk_wakeWaiter _ _

@[simp] theorem desk_stopReader : h.stopReader.desk = h.desk := by
  unfold stopReader
  split <;> simp

/-- A pipeline is made for a command, but not yet given any. -/
@[simp] theorem desk_createPipeline (mode : PipelineMode) :
    (h.createPipeline mode).2.desk = h.desk := by
  have hcommands : (h.createPipeline mode).2.commands = h.commands := by
    simp only [commands, createPipeline, Engine.create]
    split
    · rfl
    · split
      · rfl
      · simp [Trace.call, Call.command?]
  rw [desk, hcommands]
  rfl

@[simp] theorem desk_closeRead : (ConsoleRead.close h).desk = h.desk := desk_releaseReader _

/-- Waiting for a call or a token is off the desk if the call is. -/
theorem offDesk_orFired {σ α : Type} (me token : Nat) (eager : Bool) (abandon : Host → Host)
    (fired : α) (step : Host → Host × Poll σ α) (hstep : h.OffDesk (step h).1)
    (habandon : ∀ k : Host, k.OffDesk (abandon k)) :
    h.OffDesk (h.orFired me token eager abandon fired step).1 := by
  have hforget (k : Host) : k.OffDesk (k.forgetToken token me) := ⟨rfl, le_rfl⟩
  have hawait (k : Host) : k.OffDesk (k.awaitToken token me) := ⟨rfl, le_rfl⟩
  simp only [orFired]
  split
  · exact (hforget h).trans (habandon _)
  · split <;> rename_i hr <;> rw [hr] at hstep
    · split
      · exact hstep.trans ((hforget _).trans (habandon _))
      · exact hstep.trans (hawait _)
    · exact hstep
    · exact hstep.trans (hforget _)

end Host

/-! ## Calls that have nothing to do with the desk -/

namespace Leasing

theorem offDesk_step (h : Host) (me : Nat) (l : Leasing) : h.OffDesk (l.step h me).1 :=
  (l.grows_step h me).offDesk (l.atGates_step h me).desk

theorem offDesk_abandon (h : Host) (l : Leasing) : h.OffDesk (l.abandon h) :=
  (l.grows_abandon h).offDesk (l.atGates_abandon h).desk

end Leasing

theorem KeyCall.desk_step (h : Host) (me : Nat) (bias : List Bool) (call : KeyCall) :
    (call.step h me bias).1.desk = h.desk := by
  cases call with
  | start token => rfl
  | look token =>
    simp only [step]
    split
    · rfl
    · split <;> rfl
  | arm token =>
    simp only [step]
    split <;> rfl
  | listen w token =>
    simp only [step]
    split
    · simp
    · split
      · rfl
      · split
        · simp
        · split <;> simp

theorem KeyCall.desk_abandon (h : Host) (me : Nat) (call : KeyCall) :
    (call.abandon h me).desk = h.desk := by
  cases call <;> simp [abandon]

namespace ConsoleRead

theorem offDesk_step (h : Host) (me : Nat) (bias : List Bool) (call : ConsoleRead) :
    h.OffDesk (call.step h me bias).1 := by
  refine (call.aside_step h me bias).offDesk ?_
  cases call with
  | start commandLine token =>
    simp only [step]
    split
    · rfl
    · split <;> simp
  | ask commandLine token =>
    simp only [step]
    split <;> rfl
  | queued w commandLine token =>
    refine (h.offDesk_orFired _ _ _ _ _ _ ?_ fun k => (k.aside_leaveReader w).offDesk ?_).desk
    · split <;> exact ⟨rfl, le_rfl⟩
    · simp
  | opened commandLine token => rfl
  | key call line commandLine own =>
    have hkey := call.desk_step h me bias
    simp only [step]
    split <;> rename_i hr <;> rw [hr] at hkey
    · exact hkey
    · exact hkey
    · simpa using hkey
    · simpa using hkey
    · split <;> simpa using hkey

theorem offDesk_abandon (h : Host) (me : Nat) (call : ConsoleRead) :
    h.OffDesk (call.abandon h me) := by
  refine (call.aside_abandon h me).offDesk ?_
  cases call with
  | key call line commandLine own => simp [abandon, KeyCall.desk_abandon]
  | _ => simp [abandon]

end ConsoleRead

namespace ExitCall

theorem offDesk_step (h : Host) (me : Nat) (exit : ExitCall) : h.OffDesk (exit.step h me).1 := by
  refine (exit.step_moves h me 0).moves.grows.offDesk ?_
  cases exit with
  | start =>
    simp only [step]
    split
    · rfl
    · split
      · exact Host.desk_releaseReader _
      · rfl
  | leasing lease =>
    have hlease := (lease.offDesk_step h me).desk
    simp only [step]
    split <;> rename_i hr <;> rw [hr] at hlease
    · exact hlease
    · exact hlease
    · simpa using hlease
  | queued w =>
    simp only [step]
    split
    · exact Host.desk_releaseReader _
    · rfl

theorem offDesk_abandon (h : Host) (exit : ExitCall) : h.OffDesk (exit.abandon h) := by
  refine (exit.abandon_moves h 0).moves.grows.offDesk ?_
  cases exit with
  | start => rfl
  | leasing lease => exact (lease.offDesk_abandon h).desk
  | queued w => simp [abandon]

end ExitCall

namespace ReadCall

theorem offDesk_clearActive (h : Host) (id : Nat) : h.OffDesk (clearActive h id) := by
  refine (aside_clearActive h id).offDesk ?_
  unfold clearActive
  split
  · split <;> rfl
  · rfl

end ReadCall

end SharedPrompt
