import SharedPrompt.Proofs.Notes
import SharedPrompt.Proofs.Desk

/-!
# What tasks do at the desk

A task has calls for idle moments, and it awaits replies to the commands that it has given to
threads. A step of a task deals with at most one of these, and dropping a task gives up all of them.
-/

namespace SharedPrompt

open Relation

/-- What a task has to do with the idle slot and the replies. -/
inductive Stake where
  | call (task : Nat) (call : IdleCall)
  /-- The answer to a command that was given to a thread. -/
  | await (task reply : Nat)

namespace Stake

def task : Stake → Nat
  | call task _ => task
  | await task _ => task

def reply? : Stake → Option Nat
  | call _ (.parked _ reply) => some reply
  | await _ reply => some reply
  | _ => none

def isIdle : Stake → Bool
  | call _ _ => true
  | await _ _ => false

end Stake

section
variable (me : Nat)

def Execution.stakes : Execution → List Stake
  | idle call _ => [.call me call]
  | running reply => [.await me reply]
  | _ => []

def AbortCall.stakes : AbortCall → List Stake
  | reverting call _ => [.call me call]
  | _ => []

def ReadCall.stakes : ReadCall → List Stake
  | clearing abort _ => abort.stakes me
  | reading run _ _ _ => run.stakes me
  | stopping abort run _ _ _ => abort.elim [] (AbortCall.stakes me) ++ run.elim [] (Execution.stakes me)
  | _ => []

def CommandCall.stakes : CommandCall → List Stake
  | aborting abort _ => abort.stakes me
  | running run => run.stakes me
  | _ => []

def Task.stakes : Task → List Stake
  | command call _ => call.stakes me
  | idle call _ => [.call me call]
  | read call => call.stakes me
  | abort call => call.stakes me
  | _ => []

end

def Host.stakes (h : Host) : List Stake := h.tasks.flatMap fun t => t.2.stakes t.1

/-- The stakes of a call after a step, where it had `before`. Nothing is left of one that is over. -/
def Poll.stakes {σ α : Type} (before : List Stake) (f : σ → List Stake) : Poll σ α → List Stake
  | blocked => before
  | next s => f s
  | done _ => []

namespace Poll

variable {σ τ α β : Type} (r : Poll σ α) (before : List Stake)

theorem stakes_map (a : σ → τ) (b : α → β) (f : τ → List Stake) :
    (r.map a b).stakes before f = r.stakes before (f ∘ a) := by
  cases r <;> rfl

theorem stakes_andThen (a : σ → τ) (b : α → τ) {f : τ → List Stake} (hb : ∀ x, f (b x) = []) :
    (r.andThen a b : Poll τ β).stakes before f = r.stakes before (f ∘ a) := by
  cases r with
  | done x => exact hb x
  | _ => rfl

end Poll

/-- What a task may do at the desk, in the midst of other stakes `s`, and what is noted of it. -/
inductive Dealt (me : Nat) :
    Host × Multiset Stake → Host × Multiset Stake → Option Note → Prop where
  | off {h h' : Host} (s : Multiset Stake) (ho : h.OffDesk h') : Dealt me (h, s) (h', s) none
  | opened {h h' : Host} (s : Multiset Stake) (job : Job) (ho : h.OffDesk h') :
      Dealt me (h, s) (h', {.call me (.start job)} + s) none
  | stepped {h h' : Host} (s : Multiset Stake) (k : IdleCall) (ho : (k.step h me).1.OffDesk h') :
      Dealt me (h, {.call me k} + s)
        (h', ((k.step h me).2.stakes [.call me k] fun k' => [.call me k']) + s) (k.note? h me)
  | left {h h₁ h' : Host} (s : Multiset Stake) (k : IdleCall) (hbefore : h.OffDesk h₁)
      (ho : (k.abandon h₁).OffDesk h') : Dealt me (h, {.call me k} + s) (h', s) none
  | sent {h h' : Host} (s : Multiset Stake) (p : Permit) (job : Job)
      (ho : (h.dispatch me p job).2.OffDesk h') :
      Dealt me (h, s) (h', {.await me h.replies.length} + s) (some (.sent me h.replies.length job))
  | returned {h h' : Host} (s : Multiset Stake) (reply : Nat) (r : RunResult)
      (hsent : h.replies[reply]? = some (.sent r)) (ho : (h.closeReply reply).OffDesk h') :
      Dealt me (h, {.await me reply} + s) (h', s) (some (.returned me reply r))
  | closed {h h' : Host} (s : Multiset Stake) (reply : Nat) (ho : (h.closeReply reply).OffDesk h') :
      Dealt me (h, {.await me reply} + s) (h', s) none

namespace Dealt

variable {me : Nat} {a : Host × Multiset Stake} {h h' : Host} {s : Multiset Stake} {d : Option Note}

theorem thenOff (hd : Dealt me a (h, s) d) (ho : h.OffDesk h') : Dealt me a (h', s) d := by
  generalize hb : (h, s) = b at hd
  cases hd with
  | off s ho' => cases hb; exact .off _ (ho'.trans ho)
  | opened s job ho' => cases hb; exact .opened _ job (ho'.trans ho)
  | stepped s k ho' => cases hb; exact .stepped _ k (ho'.trans ho)
  | left s k hbefore ho' => cases hb; exact .left _ k hbefore (ho'.trans ho)
  | sent s p job ho' => cases hb; exact .sent _ p job (ho'.trans ho)
  | returned s reply r hsent ho' => cases hb; exact .returned _ reply r hsent (ho'.trans ho)
  | closed s reply ho' => cases hb; exact .closed _ reply (ho'.trans ho)

/-- Tasks do not give the engine anything to run. -/
theorem commands {s' : Multiset Stake} (hd : Dealt me (h, s) (h', s') d) :
    h'.commands = h.commands ++ (d.bind Note.command?).toList := by
  have hnone (heq : h'.commands = h.commands) {d : Option Note} (hd : d.bind Note.command? = none) :
      h'.commands = h.commands ++ (d.bind Note.command?).toList := by
    rw [heq, hd, Option.toList_none, List.append_nil]
  cases hd with
  | off s ho => exact hnone ho.commands rfl
  | opened s job ho => exact hnone ho.commands rfl
  | stepped s k ho =>
    refine hnone (ho.commands.trans (k.aside_step h me).commands) ?_
    cases k with
    | parked id reply =>
      simp only [IdleCall.note?]
      split <;> rfl
    | _ => rfl
  | left s k hbefore ho =>
    exact hnone (ho.commands.trans ((k.aside_abandon _).commands.trans hbefore.commands)) rfl
  | sent s p job ho => exact hnone ho.commands rfl
  | returned s reply r hsent ho => exact hnone ho.commands rfl
  | closed s reply ho => exact hnone ho.commands rfl

/-- Tasks do not take requests out of the slot. -/
theorem took?_eq_none {b : Host × Multiset Stake} (hd : Dealt me a b d) :
    d.bind Note.took? = none := by
  cases hd with
  | stepped s k ho =>
    cases k with
    | parked id reply =>
      simp only [IdleCall.note?]
      split <;> rfl
    | _ => rfl
  | _ => rfl

/-- Whoever makes a request or sends an errand awaits the reply. -/
theorem exists_of_opens {b : Host × Multiset Stake} {d : Note} (hd : Dealt me a b (some d))
    (hopens : d.opens = true) : ∃ x ∈ b.2, x.reply? = d.reply? := by
  generalize hsome : some d = d' at hd
  cases hd with
  | stepped s k ho =>
    cases k with
    | start job => cases hsome; cases hopens
    | queued w job => cases hsome
    | install job =>
      cases hsome
      exact ⟨_, Multiset.mem_add.2 (.inl (Multiset.mem_singleton_self _)), rfl⟩
    | parked id reply =>
      simp only [IdleCall.note?] at hsome
      split at hsome <;> cases hsome <;> cases hopens
  | sent s p job ho =>
    cases hsome
    exact ⟨_, Multiset.mem_add.2 (.inl (Multiset.mem_singleton_self _)), rfl⟩
  | returned s reply r hsent ho => cases hsome; cases hopens
  | _ => cases hsome

/-- Nothing is dealt with where nothing is staked. -/
theorem offNil (ho : h.OffDesk h') :
    Dealt me (h, ↑([] : List Stake) + s) (h', ↑([] : List Stake) + s) none :=
  .off _ ho

theorem leftAll {k : IdleCall} {h₁ : Host} (hbefore : h.OffDesk h₁)
    (ho : (k.abandon h₁).OffDesk h') :
    Dealt me (h, ↑[Stake.call me k] + s) (h', ↑([] : List Stake) + s) none := by
  rw [Multiset.coe_nil, zero_add]
  exact .left s k hbefore ho

end Dealt

/-- What tasks that are given up do at the desk, of which nothing is noted. -/
def DealtOff (me : Nat) (a b : Host × Multiset Stake) : Prop := Dealt me a b none

/-! ## Calls -/

section
variable (h : Host) (me : Nat) (F : Multiset Stake)

namespace Execution

private theorem stepIdle_dealt (eager : Bool) (call : IdleCall) (token : Nat) :
    Dealt me (h, ↑[Stake.call me call] + F)
      ((h.orFired me token eager call.abandon (.error .cancelled) (call.step · me)).1,
        ↑((h.orFired me token eager call.abandon (.error .cancelled) (call.step · me)).2.stakes
          [Stake.call me call] fun call' => [.call me call']) + F)
      (if eager && h.tokens.isFired token then none else call.note? h me) := by
  have hforget (k : Host) : k.OffDesk (k.forgetToken token me) := ⟨rfl, le_rfl⟩
  have hstep : Dealt me _ _ _ := .stepped F call (.refl (call.step h me).1)
  simp only [Host.orFired]
  split
  · exact .leftAll (hforget h) (.refl _)
  · split <;> rename_i hr <;> rw [hr] at hstep
    · rw [IdleCall.note?_of_blocked hr]
      obtain rfl := IdleCall.step_blocked hr
      split
      · exact .leftAll (hforget _) (.refl _)
      · exact .off _ ⟨rfl, le_rfl⟩
    · exact hstep
    · exact hstep.thenOff (hforget _)

theorem offDesk_leasing (bias : List Bool) (lease : Leasing) (job : Job) :
    h.OffDesk ((leasing lease job).step h me bias).1 := by
  have hrun := h.offDesk_orFired me job.token (bias.headD false) lease.abandon none
    (fun h => ((lease.step h me).1, (lease.step h me).2.map id some)) (lease.offDesk_step h me)
    fun k => lease.offDesk_abandon k
  simp only [step]
  split <;> rename_i hr <;> rw [hr] at hrun <;> exact hrun

theorem stakes_leasing (bias : List Bool) (lease : Leasing) (job : Job) :
    ((leasing lease job).step h me bias).2.stakes [] (stakes me) = [] := by
  simp only [step]
  split <;> rfl

theorem step_dealt (bias : List Bool) (run : Execution) :
    Dealt me (h, ↑(run.stakes me) + F)
      ((run.step h me bias).1, ↑((run.step h me bias).2.stakes (run.stakes me) (stakes me)) + F)
      (run.note? h me bias) := by
  cases run with
  | start job =>
    simp only [step, Poll.stakes]
    split
    · exact (zero_add F).symm ▸ .opened F job (.refl h)
    · exact .offNil (.refl h)
  | idle call token =>
    have hidle := stepIdle_dealt h me F (bias.headD false) call token
    simp only [step, Poll.stakes_map]
    exact hidle
  | leasing lease job =>
    have hnone : (leasing lease job).stakes me = [] := rfl
    rw [hnone, stakes_leasing]
    exact .offNil (offDesk_leasing h me bias lease job)
  | granted permit job => exact (zero_add F).symm ▸ .sent F permit job (.refl _)
  | running reply =>
    have hoff : Dealt me _ _ _ := .off ({.await me reply} + F) (.refl h)
    simp only [step, note?]
    rcases hr : h.replies[reply]? with - | r
    · exact hoff
    · cases r with
      | sent r => exact (zero_add F).symm ▸ .returned F reply r hr (.refl _)
      | _ => exact hoff

theorem abandon_dealt (run : Execution) :
    Dealt me (h, ↑(run.stakes me) + F) (run.abandon h me, F) none := by
  cases run with
  | start job => exact (zero_add F).symm ▸ .off F (.refl h)
  | idle call token => exact .left F call (.refl h) ⟨rfl, le_rfl⟩
  | leasing lease job =>
    exact (zero_add F).symm ▸ .off F ((lease.offDesk_abandon h).trans ⟨rfl, le_rfl⟩)
  | granted permit job =>
    exact (zero_add F).symm ▸ .off F ((h.grows_releaseAll permit.gates).offDesk (by simp))
  | running reply => exact .closed F reply (.refl _)

end Execution

namespace AbortCall

theorem offDesk_reverted (r : RunResult) : h.OffDesk (reverted h r) := by
  cases r <;> exact ⟨rfl, le_rfl⟩

theorem begin_dealt :
    Dealt me (h, ↑([] : List Stake) + F)
      ((begin h).1, ↑((begin h).2.stakes [] (stakes me)) + F) none := by
  simp only [begin]
  split
  · exact .offNil ((h.aside_stopReader).offDesk (by simp))
  · split
    · exact .offNil (.refl h)
    · split
      · exact .offNil ((h.aside_fireToken _).offDesk (by simp))
      · rw [Multiset.coe_nil, zero_add]
        exact .opened F _ ⟨rfl, le_rfl⟩

theorem stepExit_dealt (call : IdleCall) (lease : Leasing) :
    Dealt me (h, ↑[Stake.call me call] + F) ((stepExit h me call lease).1,
      ↑((stepExit h me call lease).2.stakes [Stake.call me call] (stakes me)) + F) none := by
  have hlease := lease.offDesk_step h me
  simp only [stepExit]
  split <;> rename_i hr <;> rw [hr] at hlease
  · exact .off _ hlease
  · exact .off _ hlease
  · rename_i k permit
    exact .leftAll (hlease.trans ((k.grows_releaseAll permit.gates).offDesk (by simp))) (.refl _)

theorem stepRevert_dealt (call : IdleCall) (lease : Leasing) :
    Dealt me (h, ↑[Stake.call me call] + F) ((stepRevert h me call lease).1,
      ↑((stepRevert h me call lease).2.stakes [Stake.call me call] (stakes me)) + F)
      (call.note? h me) := by
  have hstep : Dealt me _ _ _ := .stepped F call (.refl (call.step h me).1)
  simp only [stepRevert]
  split <;> rename_i hr <;> rw [hr] at hstep
  · exact hstep
  · exact hstep
  · exact hstep.thenOff ((lease.offDesk_abandon _).trans (offDesk_reverted _ _))

theorem note?_of_stepRevert {call : IdleCall} {lease : Leasing} {k : Host}
    (hs : stepRevert h me call lease = (k, .blocked)) : call.note? h me = none := by
  simp only [stepRevert] at hs
  split at hs
  · exact IdleCall.note?_of_blocked (by assumption)
  · cases hs
  · cases hs

theorem step_dealt (bias : List Bool) (abort : AbortCall) :
    Dealt me (h, ↑(abort.stakes me) + F)
      ((abort.step h me bias).1,
        ↑((abort.step h me bias).2.stakes (abort.stakes me) (stakes me)) + F)
      (abort.note? h me bias) := by
  cases abort with
  | start => exact begin_dealt h me F
  | exiting lease =>
    have hlease := lease.offDesk_step h me
    simp only [step]
    split <;> rename_i hr <;> rw [hr] at hlease
    · exact .offNil hlease
    · exact .offNil hlease
    · rename_i k permit
      exact .offNil (hlease.trans ((k.grows_releaseAll permit.gates).offDesk (by simp)))
  | reverting call lease =>
    -- Whichever is looked at second is looked at only if the first was blocked.
    have hexit := stepExit_dealt h me F call lease
    have hrevert := stepRevert_dealt h me F call lease
    simp only [step, note?]
    cases bias.headD false with
    | true =>
      rcases hr : stepExit h me call lease with ⟨k, r⟩
      rw [hr] at hexit
      cases r with
      | blocked => rwa [stepExit_blocked hr]
      | next abort' => exact hexit
      | done a => exact hexit
    | false =>
      rcases hr : stepRevert h me call lease with ⟨k, r⟩
      cases r with
      | blocked =>
        dsimp only
        rwa [note?_of_stepRevert h me hr, stepRevert_blocked hr]
      | next abort' => rwa [hr] at hrevert
      | done a => rwa [hr] at hrevert

theorem abandon_dealt (abort : AbortCall) :
    Dealt me (h, ↑(abort.stakes me) + F) (abort.abandon h, F) none := by
  cases abort with
  | start => exact (zero_add F).symm ▸ .off F (.refl h)
  | exiting lease => exact (zero_add F).symm ▸ .off F (lease.offDesk_abandon h)
  | reverting call lease => exact .left F call (.refl h) (lease.offDesk_abandon _)

end AbortCall

namespace ReadCall

theorem offDesk_enterRead (token : Nat) : h.OffDesk (enterRead h token).1 :=
  (aside_enterRead h token).offDesk rfl

theorem stepRun_dealt (bias : List Bool) (run : Execution) (id token : Nat) :
    Dealt me (h, ↑(run.stakes me) + F) ((stepRun h me bias run id token).1,
      ↑((stepRun h me bias run id token).2.stakes (run.stakes me) (stakes me)) + F)
      (run.note? h me bias) := by
  have hstep := run.step_dealt h me F bias
  simp only [stepRun]
  split <;> rename_i hr <;> rw [hr] at hstep
  · exact hstep
  · exact hstep
  · exact hstep.thenOff (offDesk_clearActive _ id)

/-- Of the two halves of a read that is being stopped, only one deals with anything. -/
theorem stepStopping_dealt (bias : List Bool) (abort : Option AbortCall) (run : Option Execution)
    (result : Option RunResult) (id token : Nat) :
    Dealt me (h, ↑((stopping abort run result id token).stakes me) + F)
      (((stopping abort run result id token).step h me bias).1,
        ↑(((stopping abort run result id token).step h me bias).2.stakes
          ((stopping abort run result id token).stakes me) (stakes me)) + F)
      ((stopping abort run result id token).note? h me bias) := by
  rcases abort with - | abort
  · rcases run with - | run
    · rcases result with - | r
      · exact .off _ (.refl h)
      · exact .offNil (offDesk_clearActive h id)
    · exact stepRun_dealt h me F bias run id token
  · have hstep := abort.step_dealt h me (↑(run.elim [] (Execution.stakes me)) + F) bias
    simp only [← add_assoc, Multiset.coe_add] at hstep
    rcases hr : abort.step h me bias with ⟨k, r⟩
    rw [hr] at hstep
    have hstop (hgoes : r ≠ .blocked) :
        (stopping (some abort) run result id token).note? h me bias = abort.note? h me bias := by
      cases r with
      | blocked => exact absurd rfl hgoes
      | _ => cases run <;> simp only [note?, hr]
    simp only [step, hr]
    cases r with
    | next abort' =>
      rw [hstop fun heq => by cases heq]
      exact hstep
    | done a =>
      rw [hstop fun heq => by cases heq]
      exact hstep
    | blocked =>
      have hrest : (stopping (some abort) run result id token).note? h me bias =
          run.elim none (·.note? h me bias.tail) := by
        cases run <;> simp only [note?, hr, Option.elim_none, Option.elim_some]
      rw [hrest]
      obtain rfl := AbortCall.step_blocked hr
      rcases run with - | run
      · exact .off _ (.refl k)
      · have hrun := run.step_dealt k me (↑(abort.stakes me) + F) bias.tail
        simp only [← add_assoc, add_comm _ (↑(abort.stakes me) : Multiset Stake),
          Multiset.coe_add] at hrun
        rcases hr' : run.step k me bias.tail with ⟨k', r⟩
        rw [hr'] at hrun
        simp only [hr']
        cases r <;> exact hrun

theorem step_dealt (bias : List Bool) (read : ReadCall) :
    Dealt me (h, ↑(read.stakes me) + F)
      ((read.step h me bias).1,
        ↑((read.step h me bias).2.stakes (read.stakes me) (stakes me)) + F)
      (read.note? h me bias) := by
  cases read with
  | start commandLine token =>
    simp only [step]
    split
    · exact .off _ (.refl h)
    · split
      · exact .off _ (.refl h)
      · split <;> exact .off _ (.refl h)
  | console call =>
    have hoff : Dealt me _ (_, _ + F) _ := .offNil (call.offDesk_step h me bias)
    simp only [step, Poll.stakes_map]
    cases (call.step h me bias).2 <;> exact hoff
  | clearing abort token =>
    simp only [step]
    rw [Poll.stakes_andThen _ _ _ _ fun _ => rfl]
    exact abort.step_dealt h me F bias
  | enter token => exact .offNil (offDesk_enterRead h token)
  | reading run id token own =>
    have hstop (k : Host) : k.OffDesk (k.forgetToken token me) := ⟨rfl, le_rfl⟩
    have hstep := run.step_dealt h me F bias.tail
    simp only [step, note?]
    split
    · exact .off _ (hstop h)
    · split <;> rename_i hr <;> rw [hr] at hstep
      · split
        · exact hstep.thenOff (hstop _)
        · exact hstep.thenOff ⟨rfl, le_rfl⟩
      · exact hstep
      · exact hstep.thenOff ((hstop _).trans (offDesk_clearActive _ id))
  | stopping abort run result id token => exact stepStopping_dealt h me F bias abort run result id token

theorem abandon_dealt (read : ReadCall) :
    ReflTransGen (DealtOff me) (h, ↑(read.stakes me) + F) (read.abandon h me, F) := by
  cases read with
  | start commandLine token => exact .single ((zero_add F).symm ▸ .off F (.refl h))
  | enter token => exact .single ((zero_add F).symm ▸ .off F (.refl h))
  | console call => exact .single ((zero_add F).symm ▸ .off F (call.offDesk_abandon h me))
  | clearing abort token => exact .single (abort.abandon_dealt h me F)
  | reading run id token own =>
    have hforget (k : Host) : k.OffDesk (k.forgetToken token me) := ⟨rfl, le_rfl⟩
    exact .single ((run.abandon_dealt h me F).thenOff
      ((hforget _).trans (offDesk_clearActive _ id)))
  | stopping abort run result id token =>
    have hrun (k : Host) : Dealt me (k, ↑(run.elim [] (Execution.stakes me)) + F)
        (run.elim k fun r => r.abandon k me, F) none := by
      cases run with
      | none => exact (zero_add F).symm ▸ .off F (.refl k)
      | some run => exact run.abandon_dealt k me F
    have habort (G : Multiset Stake) : Dealt me (h, ↑(abort.elim [] (AbortCall.stakes me)) + G)
        (abort.elim h fun a => a.abandon h, G) none := by
      cases abort with
      | none => exact (zero_add G).symm ▸ .off G (.refl h)
      | some abort => exact abort.abandon_dealt h me G
    simp only [stakes, ← Multiset.coe_add, add_assoc]
    exact (ReflTransGen.single (habort _)).tail ((hrun _).thenOff (offDesk_clearActive _ id))

end ReadCall

namespace CommandCall

theorem step_dealt (bias : List Bool) (call : CommandCall) :
    Dealt me (h, ↑(call.stakes me) + F)
      ((call.step h me bias).1,
        ↑((call.step h me bias).2.stakes (call.stakes me) (stakes me)) + F)
      (call.note? h me bias) := by
  cases call with
  | start job =>
    simp only [step]
    split <;> exact .off _ (.refl h)
  | aborting abort job =>
    simp only [step]
    rw [Poll.stakes_andThen _ _ _ _ fun _ => rfl]
    exact abort.step_dealt h me F bias
  | exiting exit job =>
    have hoff : Dealt me _ (_, _ + F) _ := .offNil (exit.offDesk_step h me)
    simp only [step]
    rw [Poll.stakes_andThen _ _ _ _ fun _ => rfl]
    cases (exit.step h me).2 <;> exact hoff
  | running run =>
    simp only [step, Poll.stakes_map]
    exact run.step_dealt h me F bias

theorem abandon_dealt (call : CommandCall) :
    Dealt me (h, ↑(call.stakes me) + F) (call.abandon h me, F) none := by
  cases call with
  | start job => exact (zero_add F).symm ▸ .off F (.refl h)
  | aborting abort job => exact abort.abandon_dealt h me F
  | exiting exit job => exact (zero_add F).symm ▸ .off F (exit.offDesk_abandon h)
  | running run => exact run.abandon_dealt h me F

end CommandCall

namespace Task

private theorem stakes_of_off {σ α : Type} {k : Host} (ho : h.OffDesk k) (r : Poll σ α)
    (a : σ → Task) (b : α → TaskResult) (hnone : ∀ s, (a s).stakes me = []) :
    Dealt me (h, ↑([] : List Stake) + F) (k, ↑((r.map a b).stakes [] (stakes me)) + F) none := by
  have hstakes : (r.map a b).stakes [] (stakes me) = [] := by
    cases r with
    | next s => exact hnone s
    | _ => rfl
  rw [hstakes]
  exact .offNil ho

/-- A step of a task deals with at most one stake. -/
theorem step_dealt (bias : List Bool) (task : Task) :
    Dealt me (h, ↑(task.stakes me) + F)
      ((task.step h me bias).1,
        ↑((task.step h me bias).2.stakes (task.stakes me) (stakes me)) + F)
      (task.note? h me bias) := by
  cases task with
  | command call sink =>
    simp only [step, Poll.stakes_map]
    exact call.step_dealt h me F bias
  | idle call sink =>
    simp only [step, Poll.stakes_map]
    exact .stepped F call (.refl _)
  | read call =>
    simp only [step, Poll.stakes_map]
    exact call.step_dealt h me F bias
  | line call => exact stakes_of_off h me F (call.offDesk_step h me bias) _ _ _ fun _ => rfl
  | abort call =>
    simp only [step, Poll.stakes_map]
    exact call.step_dealt h me F bias
  | exit call => exact stakes_of_off h me F (call.offDesk_step h me) _ _ _ fun _ => rfl
  | lease call => exact stakes_of_off h me F (call.offDesk_step h me) _ _ _ fun _ => rfl
  | key call =>
    exact stakes_of_off h me F ((call.aside_step h me bias).offDesk (call.desk_step h me bias))
      _ _ _ fun _ => rfl

/-- Dropping a task gives up all its stakes. -/
theorem abandon_dealt (task : Task) :
    ReflTransGen (DealtOff me) (h, ↑(task.stakes me) + F) (task.abandon h me, F) := by
  cases task with
  | command call sink => exact .single (call.abandon_dealt h me F)
  | idle call sink => exact .single (.left F call (.refl h) (.refl _))
  | read call => exact call.abandon_dealt h me F
  | line call => exact .single ((zero_add F).symm ▸ .off F (call.offDesk_abandon h me))
  | abort call => exact .single (call.abandon_dealt h me F)
  | exit call => exact .single ((zero_add F).symm ▸ .off F (call.offDesk_abandon h))
  | lease call => exact .single ((zero_add F).symm ▸ .off F (call.offDesk_abandon h))
  | key call =>
    exact .single ((zero_add F).symm ▸
      .off F ((call.aside_abandon h me).offDesk (call.desk_abandon h me)))

end Task

end

end SharedPrompt
