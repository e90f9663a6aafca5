import Mathlib.Logic.Relation
import SharedPrompt.Proofs.Aside
import SharedPrompt.Proofs.Parts

/-!
# What a step of a call can do

Whatever a call does to the prompts is made of six elementary moves. With its leases it passes the
gates by, begins to take a permit, goes one step on with that, gives it up, or gives a permit back;
and an execution hands its permit to a thread. An invariant of hosts and parts that these moves keep
is kept by every step of every call.
-/

namespace SharedPrompt

open Relation

def Poll.parts {σ α : Type} (before : Multiset Part) (f : σ → Multiset Part)
    (g : α → Multiset Part) : Poll σ α → Multiset Part
  | blocked => before
  | next s => f s
  | done a => g a

def Poll.leaseParts (l : Leasing) (r : Poll Leasing Permit) : Multiset Part :=
  r.parts {.lease l} (fun l => {.lease l}) fun p => {.permit p}

theorem Poll.parts_map {σ τ α β : Type} (r : Poll σ α) (a : σ → τ) (b : α → β)
    (before : Multiset Part) (f : τ → Multiset Part) (g : β → Multiset Part) :
    (r.map a b).parts before f g = r.parts before (f ∘ a) (g ∘ b) := by
  cases r <;> rfl

theorem Poll.parts_andThen {σ τ α β : Type} (r : Poll σ α) (a : σ → τ) (b : α → τ)
    (before : Multiset Part) (f : τ → Multiset Part) (g : β → Multiset Part) :
    (r.andThen a b : Poll τ β).parts before f g = r.parts before (f ∘ a) (f ∘ b) := by
  cases r <;> rfl

/-- One elementary move of a call with its leases, in the midst of other parts `c`. -/
inductive LeaseMove : Host × Multiset Part → Host × Multiset Part → Prop where
  | aside {h h' : Host} (c : Multiset Part) (ha : h.Aside h') : LeaseMove (h, c) (h', c)
  | begin (h : Host) (c : Multiset Part) (readLine : Bool) :
      LeaseMove (h, c) (h, {.lease (.choose readLine)} + c)
  | advance (h : Host) (c : Multiset Part) (me : Nat) (l : Leasing) :
      LeaseMove (h, {.lease l} + c) ((l.step h me).1, (l.step h me).2.leaseParts l + c)
  | leave (h : Host) (c : Multiset Part) (l : Leasing) :
      LeaseMove (h, {.lease l} + c) (l.abandon h, c)
  | giveBack (h : Host) (c : Multiset Part) (p : Permit) :
      LeaseMove (h, {.permit p} + c) (h.releasePermit p, c)

inductive Move : Host × Multiset Part → Host × Multiset Part → Prop where
  | lease {a b : Host × Multiset Part} (hm : LeaseMove a b) : Move a b
  | dispatch (h : Host) (c : Multiset Part) (me : Nat) (p : Permit) (job : Job) :
      Move (h, {.permit p} + c) ((h.dispatch me p job).2, c)

abbrev LeaseMoves (a b : Host × Multiset Part) : Prop := ReflTransGen LeaseMove a b

abbrev Moves (a b : Host × Multiset Part) : Prop := ReflTransGen Move a b

namespace LeaseMoves

variable {a b : Host × Multiset Part} {h h' : Host} {c : Multiset Part}

theorem moves (hm : LeaseMoves a b) : Moves a b := by
  induction hm with
  | refl => exact .refl
  | tail _ hlast ih => exact ih.tail (.lease hlast)

theorem aside (ha : h.Aside h') : LeaseMoves (h, c) (h', c) := .single (.aside c ha)

theorem thenAside (hm : LeaseMoves a (h, c)) (ha : h.Aside h') : LeaseMoves a (h', c) :=
  hm.tail (.aside c ha)

theorem ofZero (hm : LeaseMoves (h, c) a) : LeaseMoves (h, 0 + c) a := by
  rwa [zero_add]

theorem toZero (hm : LeaseMoves a (h, c)) : LeaseMoves a (h, 0 + c) := by
  rwa [zero_add]

end LeaseMoves

namespace Moves

variable {a : Host × Multiset Part} {h h' : Host} {c : Multiset Part}

theorem aside (ha : h.Aside h') : Moves (h, c) (h', c) := (LeaseMoves.aside ha).moves

theorem thenAside (hm : Moves a (h, c)) (ha : h.Aside h') : Moves a (h', c) :=
  hm.trans (aside ha)

theorem ofZero (hm : Moves (h, c) a) : Moves (h, 0 + c) a := by
  rwa [zero_add]

theorem toZero (hm : Moves a (h, c)) : Moves a (h, 0 + c) := by
  rwa [zero_add]

end Moves

/-! ## Calls that take permits -/

section
variable (h : Host) (me : Nat) (F : Multiset Part)

/-- Waiting for a call or a token makes the moves of the call, or gives it up. -/
theorem Host.orFired_moves {σ α : Type} (token : Nat) (eager : Bool) (abandon : Host → Host)
    (fired : α) (step : Host → Host × Poll σ α) (own : Multiset Part) {f : σ → Multiset Part}
    {g : α → Multiset Part} (hfired : g fired = 0)
    (hstep : LeaseMoves (h, own + F) ((step h).1, (step h).2.parts own f g + F))
    (habandon : ∀ k : Host, LeaseMoves (k, own + F) (abandon k, F)) :
    LeaseMoves (h, own + F) ((h.orFired me token eager abandon fired step).1,
      (h.orFired me token eager abandon fired step).2.parts own f g + F) := by
  have hgive (k : Host) :
      LeaseMoves (k, own + F) (abandon (k.forgetToken token me), g fired + F) := by
    rw [hfired, zero_add]
    exact (LeaseMoves.aside (k.aside_forgetToken token me)).trans (habandon _)
  simp only [orFired]
  split
  · exact hgive h
  · split <;> rename_i hr <;> rw [hr] at hstep
    · split
      · exact hstep.trans (hgive _)
      · exact hstep.thenAside (aside_awaitToken _ _ _)
    · exact hstep
    · exact hstep.thenAside (aside_forgetToken _ _ _)

theorem Execution.step_moves (bias : List Bool) (run : Execution) :
    Moves (h, run.parts + F)
      ((run.step h me bias).1, (run.step h me bias).2.parts run.parts parts (fun _ => 0) + F) := by
  cases run with
  | start job =>
    refine Moves.ofZero ?_
    simp only [step, Poll.parts]
    split
    · exact Moves.toZero .refl
    · exact LeaseMoves.moves (.single (.begin h F job.options.readLine))
  | idle call token =>
    have hrun := Host.aside_orFired h me token (bias.headD false) call.abandon (.error .cancelled)
      (call.step · me) (call.aside_step h me) fun k => call.aside_abandon k
    have hparts (r : Poll IdleCall RunResult) :
        (r.map (idle · token) id).parts (parts (idle call token)) parts (fun _ => 0) = 0 := by
      cases r <;> rfl
    simp only [step, hparts]
    exact Moves.aside hrun
  | leasing lease job =>
    have hrun := Host.orFired_moves h me F job.token (bias.headD false) lease.abandon none
      (fun h => ((lease.step h me).1, (lease.step h me).2.map id some))
      {.lease lease} (f := fun l => {.lease l})
      (g := fun o : Option Permit => o.elim 0 fun p => {.permit p}) rfl
      (by
        have hm := ReflTransGen.single (LeaseMove.advance h F me lease)
        rcases hr : lease.step h me with ⟨k, r⟩
        rw [hr] at hm
        cases r <;> exact hm)
      (fun k => .single (.leave k F lease))
    simp only [step]
    split <;> rename_i hr <;> rw [hr] at hrun <;> exact hrun.moves
  | granted permit job => exact Moves.toZero (.single (.dispatch h F me permit job))
  | running reply =>
    simp only [step]
    split
    · exact Moves.aside (h.aside_closeReply reply)
    · exact .refl

theorem Execution.abandon_moves (run : Execution) :
    LeaseMoves (h, run.parts + F) (run.abandon h me, F) := by
  cases run with
  | start job => exact LeaseMoves.ofZero .refl
  | idle call token =>
    exact LeaseMoves.ofZero
      (LeaseMoves.aside ((call.aside_abandon h).trans (Host.aside_forgetToken _ token me)))
  | leasing lease job =>
    exact (LeaseMoves.thenAside (.single (.leave h F lease))
      (Host.aside_forgetToken _ job.token me))
  | granted permit job => exact .single (.giveBack h F permit)
  | running reply => exact LeaseMoves.ofZero (LeaseMoves.aside (h.aside_closeReply reply))

namespace AbortCall

theorem aside_reverted (r : RunResult) : h.Aside (reverted h r) := by
  cases r with
  | ok vs => exact .refl h
  | error f => exact h.aside_notice _

theorem begin_moves :
    LeaseMoves (h, F) ((begin h).1, (begin h).2.parts 0 parts (fun _ => 0) + F) := by
  have hnew (k : Host) : LeaseMoves (k, F) (k, {.lease (.choose true)} + F) :=
    .single (.begin k F true)
  simp only [begin]
  split
  · exact LeaseMoves.toZero (LeaseMoves.aside h.aside_stopReader)
  · split
    · exact LeaseMoves.toZero .refl
    · split
      · exact (LeaseMoves.aside (h.aside_fireToken _)).trans (hnew _)
      · exact (LeaseMoves.aside (h.aside_newSink.trans (Host.aside_newToken _))).trans (hnew _)

theorem stepExit_moves (call : IdleCall) (lease : Leasing) :
    LeaseMoves (h, {.lease lease} + F) ((stepExit h me call lease).1,
      (stepExit h me call lease).2.parts {.lease lease} parts (fun _ => 0) + F) := by
  have hm := ReflTransGen.single (LeaseMove.advance h F me lease)
  simp only [stepExit]
  split <;> rename_i hr <;> rw [hr] at hm
  · exact hm
  · exact hm
  · exact LeaseMoves.toZero (LeaseMoves.thenAside (hm.tail (.giveBack _ F _))
      (call.aside_abandon _))

theorem stepRevert_moves (call : IdleCall) (lease : Leasing) :
    LeaseMoves (h, {.lease lease} + F) ((stepRevert h me call lease).1,
      (stepRevert h me call lease).2.parts {.lease lease} parts (fun _ => 0) + F) := by
  have ha := call.aside_step h me
  simp only [stepRevert]
  split <;> rename_i hr <;> rw [hr] at ha
  · exact LeaseMoves.aside ha
  · exact LeaseMoves.aside ha
  · have hleave := (LeaseMoves.aside (c := {.lease lease} + F) ha).tail (.leave _ F lease)
    exact LeaseMoves.toZero (LeaseMoves.thenAside hleave (aside_reverted _ _))

theorem step_moves (bias : List Bool) (abort : AbortCall) :
    LeaseMoves (h, abort.parts + F)
      ((abort.step h me bias).1,
        (abort.step h me bias).2.parts abort.parts parts (fun _ => 0) + F) := by
  cases abort with
  | start => exact LeaseMoves.ofZero (begin_moves h F)
  | exiting lease =>
    have hm := ReflTransGen.single (LeaseMove.advance h F me lease)
    simp only [step]
    split <;> rename_i hr <;> rw [hr] at hm
    · exact hm
    · exact hm
    · exact LeaseMoves.toZero (hm.tail (.giveBack _ F _))
  | reverting call lease =>
    have hexit (k : Host) := stepExit_moves k me F call lease
    have hrevert (k : Host) := stepRevert_moves k me F call lease
    simp only [step]
    split
    · split
      next k hr =>
        have hblocked := hexit h
        rw [hr] at hblocked
        exact hblocked.trans (hrevert k)
      next => exact hexit h
    · split
      next k hr =>
        have hblocked := hrevert h
        rw [hr] at hblocked
        exact hblocked.trans (hexit k)
      next => exact hrevert h

theorem abandon_moves (abort : AbortCall) :
    LeaseMoves (h, abort.parts + F) (abort.abandon h, F) := by
  cases abort with
  | start => exact LeaseMoves.ofZero .refl
  | exiting lease => exact .single (.leave h F lease)
  | reverting call lease =>
    exact (LeaseMoves.aside (call.aside_abandon h)).tail (.leave _ F lease)

end AbortCall

namespace ExitCall

theorem step_moves (exit : ExitCall) :
    LeaseMoves (h, exit.parts + F)
      ((exit.step h me).1, (exit.step h me).2.parts exit.parts parts (fun _ => 0) + F) := by
  cases exit with
  | start =>
    have hread : h.Aside { (h.drawTurn me).2 with
        reader := { h.reader with gate := (h.reader.gate.join (h.drawTurn me).1).2 } } :=
      (h.aside_drawTurn me).trans (Host.aside_setReader _ _)
    simp only [step]
    split
    · exact LeaseMoves.ofZero (.single (.begin h F true))
    · split
      · exact LeaseMoves.aside (hread.trans (Host.aside_releaseReader _))
      · exact LeaseMoves.aside hread
  | leasing lease =>
    have hm := ReflTransGen.single (LeaseMove.advance h F me lease)
    simp only [step]
    split <;> rename_i hr <;> rw [hr] at hm
    · exact hm
    · exact hm
    · exact LeaseMoves.toZero (hm.tail (.giveBack _ F _))
  | queued w =>
    simp only [step]
    split
    · exact LeaseMoves.aside ((h.aside_setReader _).trans (Host.aside_releaseReader _))
    · exact .refl

theorem abandon_moves (exit : ExitCall) : LeaseMoves (h, exit.parts + F) (exit.abandon h, F) := by
  cases exit with
  | start => exact LeaseMoves.ofZero .refl
  | leasing lease => exact .single (.leave h F lease)
  | queued w => exact LeaseMoves.ofZero (LeaseMoves.aside (h.aside_leaveReader w))

end ExitCall

namespace ReadCall

theorem aside_clearActive (id : Nat) : h.Aside (clearActive h id) := by
  unfold clearActive
  split
  · split
    · constructor <;> rfl
    · exact .refl h
  · exact .refl h

theorem aside_enterRead (token : Nat) : h.Aside (enterRead h token).1 := by
  have hset (k : Host) (editor : EditorReads) : k.Aside { k with editor } := by constructor <;> rfl
  exact ((h.aside_deriveToken token).trans (Host.aside_newSink _)).trans (hset _ _)

theorem stepRun_moves (bias : List Bool) (run : Execution) (id token : Nat) :
    Moves (h, run.parts + F) ((stepRun h me bias run id token).1,
      (stepRun h me bias run id token).2.parts run.parts parts (fun _ => 0) + F) := by
  have hm := run.step_moves h me F bias
  simp only [stepRun]
  split <;> rename_i hr <;> rw [hr] at hm
  · exact hm
  · simpa [Poll.parts, parts] using hm
  · exact Moves.thenAside hm (aside_clearActive _ id)

/-- A read that is being stopped goes on with both of its halves. -/
theorem stepStopping_moves (bias : List Bool) (abort : Option AbortCall) (run : Option Execution)
    (result : Option RunResult) (id token : Nat) :
    Moves (h, (stopping abort run result id token).parts + F)
      (((stopping abort run result id token).step h me bias).1,
        ((stopping abort run result id token).step h me bias).2.parts
          (stopping abort run result id token).parts parts (fun _ => 0) + F) := by
  rcases abort with - | abort
  · rcases run with - | run
    · rcases result with - | r
      · exact .refl
      · exact Moves.aside (aside_clearActive h id)
    · simpa [step, parts] using stepRun_moves h me F bias run id token
  · have hm := (abort.step_moves h me (run.elim 0 Execution.parts + F) bias).moves
    simp only [← add_assoc] at hm
    simp only [step]
    split <;> rename_i hr <;> rw [hr] at hm
    · exact hm
    · simpa [Poll.parts, parts] using hm
    · refine hm.trans ?_
      rcases run with - | run
      · exact .refl
      · rename_i k
        have hrun := run.step_moves k me (abort.parts + F) bias.tail
        simp only [← add_assoc, add_comm _ abort.parts] at hrun
        dsimp only
        split <;> rename_i hr' <;> rw [hr'] at hrun <;> exact hrun

theorem step_moves (bias : List Bool) (read : ReadCall) :
    Moves (h, read.parts + F)
      ((read.step h me bias).1,
        (read.step h me bias).2.parts read.parts parts (fun _ => 0) + F) := by
  cases read with
  | start commandLine token =>
    simp only [step]
    split
    · exact .refl
    · split
      · exact .refl
      · split <;> exact .refl
  | console call =>
    simp only [step, Poll.parts_map]
    have hparts (r : Poll ConsoleRead Answer) :
        r.parts 0 (parts ∘ console) ((fun _ => 0) ∘ id) = 0 := by
      cases r <;> rfl
    simpa only [parts, hparts] using Moves.aside (call.aside_step h me bias)
  | clearing abort token =>
    simp only [step, Poll.parts_andThen]
    exact (abort.step_moves h me F bias).moves
  | enter token => exact Moves.aside (aside_enterRead h token)
  | reading run id token own =>
    have hstop (k : Host) : Moves (k, run.parts + F) (k.forgetToken token me,
        (stopping (some .start) (some run) none id token).parts + F) := by
      simpa [parts, AbortCall.parts] using Moves.aside (k.aside_forgetToken token me)
    have hm := run.step_moves h me F bias.tail
    simp only [step]
    split
    · exact hstop h
    · split <;> rename_i hr <;> rw [hr] at hm
      · split
        · exact hm.trans (hstop _)
        · exact Moves.thenAside hm (Host.aside_awaitToken _ _ _)
      · exact hm
      · exact Moves.thenAside hm ((Host.aside_forgetToken _ _ _).trans (aside_clearActive _ _))
  | stopping abort run result id token =>
    exact stepStopping_moves h me F bias abort run result id token

theorem abandon_moves (read : ReadCall) :
    LeaseMoves (h, read.parts + F) (read.abandon h me, F) := by
  cases read with
  | start commandLine token => exact LeaseMoves.ofZero .refl
  | enter token => exact LeaseMoves.ofZero .refl
  | console call => exact LeaseMoves.ofZero (LeaseMoves.aside (call.aside_abandon h me))
  | clearing abort token => exact abort.abandon_moves h F
  | reading run id token own =>
    exact LeaseMoves.thenAside (run.abandon_moves h me F)
      ((Host.aside_forgetToken _ token me).trans (aside_clearActive _ id))
  | stopping abort run result id token =>
    have hrun (k : Host) :
        LeaseMoves (k, run.elim 0 Execution.parts + F) (run.elim k fun r => r.abandon k me, F) := by
      cases run with
      | none => exact LeaseMoves.ofZero .refl
      | some run => exact run.abandon_moves k me F
    have habort : LeaseMoves (h, (stopping abort run result id token).parts + F)
        (abort.elim h fun a => a.abandon h, run.elim 0 Execution.parts + F) := by
      simp only [parts, add_assoc]
      cases abort with
      | none => exact LeaseMoves.ofZero .refl
      | some abort => exact abort.abandon_moves h _
    exact LeaseMoves.thenAside (habort.trans (hrun _)) (aside_clearActive _ id)

end ReadCall

namespace CommandCall

theorem step_moves (bias : List Bool) (call : CommandCall) :
    Moves (h, call.parts + F)
      ((call.step h me bias).1,
        (call.step h me bias).2.parts call.parts parts (fun _ => 0) + F) := by
  cases call with
  | start job =>
    simp only [step]
    split <;> exact .refl
  | aborting abort job =>
    simp only [step, Poll.parts_andThen]
    exact (abort.step_moves h me F bias).moves
  | exiting exit job =>
    simp only [step, Poll.parts_andThen]
    exact (exit.step_moves h me F).moves
  | running run =>
    simp only [step, Poll.parts_map]
    exact run.step_moves h me F bias

theorem abandon_moves (call : CommandCall) :
    LeaseMoves (h, call.parts + F) (call.abandon h me, F) := by
  cases call with
  | start job => exact LeaseMoves.ofZero .refl
  | aborting abort job => exact abort.abandon_moves h F
  | exiting exit job => exact exit.abandon_moves h F
  | running run => exact run.abandon_moves h me F

end CommandCall

namespace Task

private theorem step_moves_of_aside {σ α : Type} {k : Host} (ha : h.Aside k) (r : Poll σ α)
    (a : σ → Task) (b : α → TaskResult) (hpart : ∀ s, (a s).parts = 0)
    (hresult : ∀ x, (b x).parts = 0) :
    Moves (h, 0 + F) (k, (r.map a b).parts 0 parts TaskResult.parts + F) := by
  have hparts : (r.map a b).parts 0 parts TaskResult.parts = 0 := by
    cases r with
    | blocked => rfl
    | next s => exact hpart s
    | done x => exact hresult x
  rw [hparts]
  exact Moves.aside ha

/-- A step of a task is made of moves. -/
theorem step_moves (bias : List Bool) (task : Task) :
    Moves (h, task.parts + F)
      ((task.step h me bias).1,
        (task.step h me bias).2.parts task.parts parts TaskResult.parts + F) := by
  cases task with
  | command call sink =>
    simp only [step, Poll.parts_map]
    exact call.step_moves h me F bias
  | idle call sink =>
    exact step_moves_of_aside h F (call.aside_step h me) _ _ _ (fun _ => rfl) fun _ => rfl
  | read call =>
    simp only [step, Poll.parts_map]
    exact call.step_moves h me F bias
  | line call =>
    exact step_moves_of_aside h F (call.aside_step h me bias) _ _ _ (fun _ => rfl) fun _ => rfl
  | abort call =>
    simp only [step, Poll.parts_map]
    exact (call.step_moves h me F bias).moves
  | exit call =>
    simp only [step, Poll.parts_map]
    exact (call.step_moves h me F).moves
  | lease call =>
    simp only [step, Poll.parts_map]
    exact LeaseMoves.moves (.single (.advance h F me call))
  | key call =>
    exact step_moves_of_aside h F (call.aside_step h me bias) _ _ _ (fun _ => rfl) fun _ => rfl

/-- Dropping a task is made of moves, and leaves nothing of it. -/
theorem abandon_moves (task : Task) : LeaseMoves (h, task.parts + F) (task.abandon h me, F) := by
  cases task with
  | command call sink => exact call.abandon_moves h me F
  | idle call sink => exact LeaseMoves.ofZero (LeaseMoves.aside (call.aside_abandon h))
  | read call => exact call.abandon_moves h me F
  | line call => exact LeaseMoves.ofZero (LeaseMoves.aside (call.aside_abandon h me))
  | abort call => exact call.abandon_moves h F
  | exit call => exact call.abandon_moves h F
  | lease call => exact .single (.leave h F call)
  | key call => exact LeaseMoves.ofZero (LeaseMoves.aside (call.aside_abandon h me))

end Task

end

end SharedPrompt
