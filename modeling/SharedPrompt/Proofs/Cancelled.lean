import SharedPrompt.Proofs.IdleDelivery

/-!
# Commands that fail as cancelled

A call that finds its token fired gives up and fails as cancelled. At a gate, and in the idle slot
until an idle moment takes the request, that keeps the command from the engine for good; so does the
thread that finds the token of its job fired. But a call also gives up when its request has been
taken, and the thread that has taken it does not look at the token.
-/

namespace SharedPrompt

namespace Execution

/-- The reply that an execution awaits: of the request that it has left in the idle slot, or of the
errand that it has sent a thread on. Before, it has not asked anything of the engine. -/
def reply? : Execution → Option Nat
  | idle (.parked _ reply) _ => some reply
  | running reply => some reply
  | _ => none

theorem reply?_cases {run : Execution} {ρ : Nat} (hreply : run.reply? = some ρ) :
    (∃ id token, run = .idle (.parked id ρ) token) ∨ run = .running ρ := by
  unfold reply? at hreply
  split at hreply
  · rename_i id reply token
    obtain rfl := Option.some.inj hreply
    exact .inl ⟨id, token, rfl⟩
  · obtain rfl := Option.some.inj hreply
    exact .inr rfl
  · cases hreply

/-- An execution that awaits a reply awaits it until it ends. -/
theorem reply?_step {h : Host} {t : Nat} {b : List Bool} {before run : Execution} {ρ : Nat}
    (hreply : before.reply? = some ρ) (hrun : (before.step h t b).2.after before = some run) :
    run.reply? = some ρ := by
  have hsame (heq : some before = some run) : run.reply? = some ρ := by
    rwa [← Option.some.inj heq]
  rcases reply?_cases hreply with ⟨id, token, rfl⟩ | rfl
  · have hcall (k : IdleCall) : ((IdleCall.parked id ρ).step h t).2 ≠ .next k := fun hnext => by
      simp only [IdleCall.step] at hnext
      split at hnext <;> cases hnext
    simp only [step, Host.orFired] at hrun
    split at hrun
    · cases hrun
    · split at hrun <;> rename_i hr
      · split at hrun
        · cases hrun
        · exact hsame hrun
      · exact absurd (congrArg Prod.snd hr) (hcall _)
      · cases hrun
  · simp only [step] at hrun
    split at hrun
    · cases hrun
    · exact hsame hrun

/-- An execution that waits for an idle moment ends with its call, or because its token has fired. -/
theorem idle_done {h : Host} {t : Nat} {b : List Bool} {call : IdleCall} {token : Nat}
    {r : RunResult} (hdone : ((idle call token).step h t b).2 = .done r) :
    r = .error .cancelled ∧ h.tokens.isFired token = true ∨ (call.step h t).2 = .done r := by
  simp only [step, Host.orFired] at hdone
  split at hdone
  next hfired =>
    cases hdone
    exact .inl ⟨rfl, (Bool.and_eq_true_iff.1 hfired).2⟩
  next =>
    split at hdone
    next hr =>
      obtain rfl := IdleCall.step_blocked hr
      split at hdone
      next hfired =>
        cases hdone
        exact .inl ⟨rfl, hfired⟩
      next => cases hdone
    next => cases hdone
    next hr =>
      cases hdone
      exact .inr (congrArg Prod.snd hr)

end Execution

/-! ## The end of an execution -/

namespace Task

variable {h : Host} {me : Nat} {bias b : List Bool} {task : Task} {run : Execution} {r : RunResult}

theorem execution?_of_stepped (hsome : task.stepped? h me bias = some (run, b)) :
    task.execution? = some run := by
  unfold stepped? at hsome
  split at hsome
  · cases hsome; rfl
  · split at hsome
    · cases hsome
    · cases hsome; rfl
  · cases hsome; rfl
  · split at hsome
    · cases hsome; rfl
    · cases hsome
  · cases hsome

/-- With the end of its execution a task gives up what the execution had at stake, and that only. -/
theorem stakes_of_done (hsome : task.stepped? h me bias = some (run, b))
    (hdone : (run.step h me b).2 = .done r) :
    task.stakes me = (task.step h me bias).2.stakes (task.stakes me) (stakes me) ++
      run.stakes me := by
  obtain ⟨k, hstep⟩ : ∃ k, run.step h me b = (k, .done r) := ⟨_, Prod.ext rfl hdone⟩
  unfold stepped? at hsome
  split at hsome
  · cases hsome
    simp only [step, CommandCall.step, hstep]
    rfl
  · split at hsome
    · cases hsome
    · rename_i hnot
      cases hsome
      simp only [step, ReadCall.step, hnot, hstep]
      rfl
  · cases hsome
    simp only [step, ReadCall.step, ReadCall.stepRun, hstep]
    rfl
  · rename_i stop run' result id token
    rcases hstop : stop.step h me bias with ⟨k', r'⟩
    cases r' with
    | blocked =>
      rw [hstop] at hsome
      cases hsome
      obtain rfl := AbortCall.step_blocked hstop
      simp only [step, ReadCall.step, hstop, hstep]
      simp [stakes, ReadCall.stakes, Poll.map, Poll.stakes]
    | _ =>
      rw [hstop] at hsome
      cases hsome
  · cases hsome

end Task

namespace Host

variable {h : Host} {t : Nat} {e : Event} {run : Execution} {b : List Bool} {r : RunResult}

theorem stepped?_eq_some (hsome : h.stepped? e = some (t, run, b)) :
    ∃ bias task, e = .poll t bias ∧ h.task? t = some task ∧
      task.stepped? h t bias = some (run, b) := by
  cases e with
  | poll u bias =>
    obtain ⟨task, ht, hsome⟩ := Option.bind_eq_some_iff.1 hsome
    obtain ⟨x, hsome, heq⟩ := Option.map_eq_some_iff.1 hsome
    cases heq
    exact ⟨bias, task, rfl, ht, hsome⟩
  | _ => cases hsome

theorem execution?_of_stepped (hsome : h.stepped? e = some (t, run, b)) :
    h.execution? t = some run := by
  obtain ⟨bias, task, -, ht, hsome⟩ := stepped?_eq_some hsome
  rw [execution?, ht, Option.bind_some, Task.execution?_of_stepped hsome]

/-- What an execution had at stake is all that is gone when it has ended. -/
theorem stakes_of_done (hn : h.Numbered) (hsome : h.stepped? e = some (t, run, b))
    (hdone : (run.step h t b).2 = .done r) :
    (↑h.stakes : Multiset Stake) = ↑(run.stakes t) + ↑(h.apply e).stakes := by
  obtain ⟨bias, task, rfl, ht, hsome⟩ := stepped?_eq_some hsome
  have hspawns := (task.step_moves h t 0 bias).spawns
  have hstakes := Task.stakes_of_done hsome hdone
  rcases hs : task.step h t bias with ⟨k, r'⟩
  rw [hs] at hspawns hstakes
  rw [apply_poll ht hs, stakes_afterPoll (hspawns.numbered hn) (by rwa [task?, hspawns.tasks]) r',
    otherStakes_of_tasks hspawns.tasks, (stakes_split hn ht).1]
  nth_rewrite 1 [hstakes]
  rw [← Multiset.coe_add, add_comm (_ : Multiset Stake) ↑(run.stakes t), add_assoc]

/-- A task does not come to another execution when one has ended. -/
theorem past_of_done (hn : h.Numbered) (hsome : h.stepped? e = some (t, run, b))
    (hdone : (run.step h t b).2 = .done r) : (h.apply e).Past t fun _ => False := by
  obtain ⟨bias, task, rfl, ht, hsome⟩ := stepped?_eq_some hsome
  refine ⟨(lt_nextTask hn ht).trans_le (h.grows_apply _).nextTask, fun task' ht' => ?_⟩
  have htasks := (task.step_moves h t 0 bias).spawns.tasks
  have hstepped := task.stepped h t bias
  rcases hs : task.step h t bias with ⟨k, r'⟩
  rw [hs] at htasks hstepped
  rw [apply_poll ht hs, task?_afterPoll_self (by rwa [task?, htasks])] at ht'
  cases hstepped with
  | aloof hm hrun hbegun hnone => cases hnone.symm.trans hsome
  | begun hm hbefore hfresh job hrun hnone => cases hnone.symm.trans hsome
  | stepped run' b' hbefore ha hrun hbegun hsome' =>
    obtain ⟨rfl, rfl⟩ := Prod.mk.inj (Option.some.inj (hsome'.symm.trans hsome))
    rw [hdone, Poll.after, ← Poll.bind_task?, ht', Option.bind_some] at hrun
    refine ⟨?_, fun run hnow => by cases hrun.symm.trans hnow⟩
    cases r' with
    | blocked => cases ht'; exact hbegun
    | next task'' => cases ht'; exact hbegun
    | done a => cases ht'

/-- What a task is past now, it is past from then on, if the steps of its execution keep it so. -/
theorem Past.lasts {Q : Execution → Prop} (hk : h.WellKept) (hp : h.Past t Q)
    (hq : ∀ k : Host, ∀ before run b, Q before → (before.step k t b).2.after before = some run → Q run)
    (events : List Event) : (h.run events).Past t Q := by
  induction events using List.reverseRecOn with
  | nil => exact hp
  | append_singleton past e ih =>
    rw [run_concat]
    exact ih.apply (hk.run past).numbered (fun before run b _ => hq _ before run b) e

/-- An execution that has awaited a reply awaits it in its last step. -/
theorem reply?_of_done (hk : h.WellKept) {past future before : List Event}
    (hsome : (h.run past).stepped? e = some (t, run, b))
    (hdone : (run.step (h.run past) t b).2 = .done r) (hle : before <+: past ++ e :: future)
    {run' : Execution} (hrun : (h.run before).execution? t = some run') {ρ : Nat}
    (hreply : run'.reply? = some ρ) : run.reply? = some ρ := by
  have hlast := execution?_of_stepped hsome
  rcases List.prefix_or_prefix_of_prefix hle (List.prefix_append past (e :: future)) with
    ⟨later, rfl⟩ | ⟨later, rfl⟩
  · have hp := (Past.of_execution (hk.run before).numbered hrun hreply).lasts (hk.run before)
      (fun _ _ _ _ => Execution.reply?_step) later
    rw [run_append] at hlast
    exact hp.execution hlast
  · cases later with
    | nil =>
      rw [List.append_nil] at hrun
      rwa [Option.some.inj (hlast.symm.trans hrun)]
    | cons e' later =>
      obtain ⟨rfl, -⟩ := List.cons_prefix_cons.1 ((List.prefix_append_right_inj past).1 hle)
      have hk' := hk.run (past ++ [e'])
      have hp := past_of_done (hk.run past).numbered hsome hdone
      rw [← run_concat] at hp
      rw [List.append_cons, run_append] at hrun
      exact ((hp.lasts hk' (fun _ _ _ _ hf => hf.elim) later).execution hrun).elim

/-! ## What is said of commands that have ended -/

/-- An errand is answered by the engine, or it is refused. -/
theorem DeskKept.of_errand {log : List Note} (hd : h.DeskKept log) {ρ : Nat}
    (hmem : .await t ρ ∈ h.stakes) (hdone : ((Execution.running ρ).step h t b).2 = .done r) :
    .ended ρ r ∈ log ∨ .refused ρ ∈ log := by
  obtain ⟨served, hd⟩ := hd.atDesk
  obtain ⟨job, p, hlife, ⟨hopen, -⟩ | ⟨r', hsent, rfl⟩⟩ := hd.inHand.stakes _ hmem ρ rfl
  · simp only [Execution.step, hopen] at hdone
    cases hdone
  · simp only [Execution.step, hsent] at hdone
    cases hdone
    have htold := (hd.inHand.lawful.told ρ).2 _ hlife
    exact (htold.settled r rfl).2.imp And.left fun hrefused => hrefused.2.1

/-- A request was taken out of the slot, or it is one that was not. -/
theorem DeskKept.of_request {log : List Note} (hd : h.DeskKept log) {id ρ : Nat}
    (hmem : .call t (.parked id ρ) ∈ h.stakes) :
    (∃ q, q.reply = ρ ∧ .took q ∈ log) ∨
      ∃ q, q.reply = ρ ∧ .parked t q ∈ log ∧ .took q ∉ log := by
  obtain ⟨served, hd⟩ := hd.atDesk
  obtain ⟨job, p, hlife, -⟩ := hd.inHand.stakes _ hmem ρ rfl
  have htold := (hd.inHand.lawful.told ρ).2 _ hlife
  by_cases hp : p = .waiting
  · obtain ⟨q, hreply, -, hparked⟩ := htold.parked rfl
    exact .inr ⟨q, hreply, hparked, fun htook => htold.waiting hp q htook hreply⟩
  · obtain ⟨q, hreply, -, htook⟩ := htold.took rfl hp
    exact .inl ⟨q, hreply, htook⟩

/-- When the call of an execution has ended, nobody awaits the answer to its request. -/
theorem DeskKept.unawaited_of_done {log : List Note} (hd : h.DeskKept log) (hn : h.Numbered)
    {id ρ token : Nat} (hsome : h.stepped? e = some (t, .idle (.parked id ρ) token, b))
    (hdone : ((Execution.idle (.parked id ρ) token).step h t b).2 = .done r) :
    ∀ x ∈ (h.apply e).stakes, x.reply? ≠ some ρ := by
  obtain ⟨served, hd⟩ := hd.atDesk
  have hhand := hd.inHand
  rw [stakes_of_done hn hsome hdone] at hhand
  exact fun x hx => hhand.not_awaited rfl x hx

/-- The engine is given a command to run only for a call that awaits the answer. -/
theorem Fresh.awaited_of_began {start : Host} (hf : start.Fresh) {past : List Event} {ρ : Nat}
    {job : Job} (hbegan : .began ρ job ∈ start.notes past) :
    ∃ before, before <+: past ∧ ∃ x ∈ (start.run before).stakes, x.reply? = some ρ := by
  have hlog := (hf.deskKept past).lawful
  obtain ⟨d, hd, hopens, hreply⟩ :
      ∃ d ∈ start.notes past, d.opens = true ∧ d.reply? = some ρ := by
    cases hlife : lifeOf (start.notes past) ρ with
    | none => exact absurd rfl ((hlog.told ρ).1 hlife _ hbegan)
    | some l =>
      have htold := (hlog.told ρ).2 l hlife
      cases hidle : l.idle with
      | false => exact ⟨_, htold.sent hidle, rfl, rfl⟩
      | true =>
        obtain ⟨q, hq, -, hparked⟩ := htold.parked hidle
        exact ⟨_, hparked, rfl, congrArg some hq⟩
  obtain ⟨before, e, hle, hd⟩ := exists_of_mem_during hd
  obtain ⟨x, hx, hawaited⟩ := exists_stake_of_opens (hf.kept.run before).numbered hd hopens
  rw [← run_concat] at hx
  exact ⟨_, hle, x, hx, hawaited.trans hreply⟩

/-- An execution that awaits a reply and ends with `r` has had that from the engine, or its command
is never begun, or it has given up a request that was taken. -/
theorem Fresh.cases_of_done {start : Host} (hf : start.Fresh) {past : List Event}
    (hsome : (start.run past).stepped? e = some (t, run, b))
    (hdone : (run.step (start.run past) t b).2 = .done r) {ρ : Nat}
    (hreply : run.reply? = some ρ) (future : List Event) :
    (∀ job, .began ρ job ∉ start.notes (past ++ e :: future)) ∨
      .ended ρ r ∈ start.notes past ∨
      r = .error .cancelled ∧ ∃ id token q, run = .idle (.parked id ρ) token ∧
        (start.run past).tokens.isFired token = true ∧ q.reply = ρ ∧
        .took q ∈ start.notes past := by
  have hd := hf.deskKept past
  have hn := (hf.kept.run past).numbered
  have hmem {x : Stake} (hx : x ∈ run.stakes t) : x ∈ (start.run past).stakes := by
    rw [← Multiset.mem_coe, stakes_of_done hn hsome hdone]
    exact Multiset.mem_add.2 (.inl hx)
  rcases Execution.reply?_cases hreply with ⟨id, token, rfl⟩ | rfl
  · have hcall := hmem (List.mem_singleton_self _)
    rcases Execution.idle_done hdone with ⟨rfl, hfired⟩ | hanswer
    · rcases hd.of_request hcall with ⟨q, hq, htook⟩ | ⟨q, rfl, hparked, htook⟩
      · exact .inr (.inr ⟨rfl, id, token, q, rfl, hfired, hq, htook⟩)
      · have hgone := hd.unawaited_of_done hn hsome hdone
        rw [← run_concat] at hgone
        obtain ⟨bias, -, rfl, -⟩ := stepped?_eq_some hsome
        refine .inl fun job => ?_
        rw [List.append_cons]
        refine hf.never_begun (t := t) ?_ ?_ hgone future job
        · exact (notes_mono _ (List.prefix_append _ _)).subset hparked
        · rw [notes_concat, List.mem_append, Option.mem_toList]
          rintro (hold | hnew)
          · exact htook hold
          · have hnone := took?_poll (start.run past) t bias
            rw [hnew] at hnone
            cases hnone
    · obtain ⟨-, id', q, heq, -, -, hended, -⟩ := hd.answer hcall (Prod.ext rfl hanswer)
      obtain ⟨-, rfl⟩ := IdleCall.parked.inj heq
      exact .inr (.inl ((hended r).2 rfl))
  · rcases hd.of_errand (hmem (List.mem_singleton_self _)) hdone with hended | hrefused
    · exact .inr (.inl hended)
    · refine .inl ((hf.deskKept _).lawful.unbegun_of_refused ?_)
      exact (notes_mono _ (List.prefix_append _ _)).subset hrefused

/-- The engine runs commands only for those who await the answer. When an execution ends, its result
is what the engine had reported for its command; or the engine never begins the command, neither
before nor after; or the execution fails as cancelled while it waits for an idle moment, and one had
taken its request. -/
theorem cancelled_unbegun (native follows : Bool) (engine : Engine) (console : Console Waiter)
    (tokens : Tokens) :
    let start : Host := { established native follows engine console with tokens }
    (∀ events ρ job, .began ρ job ∈ start.notes events →
      ∃ before, before <+: events ∧ ∃ x ∈ (start.run before).stakes, x.reply? = some ρ) ∧
    ∀ past e future t run b r, (start.run past).stepped? e = some (t, run, b) →
      (run.step (start.run past) t b).2 = .done r →
        ∀ before run' ρ, before <+: past ++ e :: future →
          (start.run before).execution? t = some run' → run'.reply? = some ρ →
            (∀ job, .began ρ job ∉ start.notes (past ++ e :: future)) ∨
              .ended ρ r ∈ start.notes past ∨
              r = .error .cancelled ∧ ∃ id token q, run = .idle (.parked id ρ) token ∧
                (start.run past).tokens.isFired token = true ∧ q.reply = ρ ∧
                .took q ∈ start.notes past := by
  intro start
  have hf : start.Fresh := fresh_established native follows engine console tokens
  refine ⟨fun events ρ job => hf.awaited_of_began, ?_⟩
  intro past e future t run b r hsome hdone before run' ρ hle hrun hreply
  exact hf.cases_of_done hsome hdone (reply?_of_done hf.kept hsome hdone hle hrun hreply) future

def oneToken : Host := { established true false {} {} with tokens := { all := [.fresh] } }

/-- A reader has the line, a command waits for an idle moment, and its token fires. -/
def queuedCommand : List Event :=
  [.start (.lease true), .poll 0 [], .poll 0 [], .poll 0 [],
    .start (.run ⟨.script "b", {}, 0, 0⟩ none), .poll 1 [], .poll 1 [], .poll 1 [], .fire 0]

/-- The command gives up before the engine has an idle moment. -/
theorem cancelled_unbegun_queuedCommand :
    ((Execution.idle (.parked 1 0) 0).step (oneToken.run queuedCommand) 1 [true]).2 =
        .done (.error .cancelled) ∧
      ∀ job, .began 0 job ∉
        oneToken.notes (queuedCommand ++ .poll 1 [true] :: .idle :: List.replicate 8 (.advance 0)) := by
  have hsome : (oneToken.run queuedCommand).stepped? (.poll 1 [true]) =
      some (1, .idle (.parked 1 0) 0, [true]) := rfl
  have hdone : ((Execution.idle (.parked 1 0) 0).step (oneToken.run queuedCommand) 1 [true]).2 =
      .done (.error .cancelled) := rfl
  have hnotes : oneToken.notes queuedCommand = [.called ⟨1, 2⟩ ⟨.script "b", {}, 0, 0⟩,
      .parked 1 ⟨1, ⟨.script "b", {}, 0, 0⟩, 0⟩] := rfl
  refine ⟨hdone, ?_⟩
  rcases (cancelled_unbegun true false {} {} { all := [.fresh] }).2 queuedCommand (.poll 1 [true])
    (.idle :: List.replicate 8 (.advance 0)) 1 _ _ _ hsome hdone queuedCommand _ 0
    (List.prefix_append _ _) (execution?_of_stepped hsome) rfl with
    hnever | hended | ⟨-, id, token, q, -, -, -, htook⟩
  · exact hnever
  · change _ ∈ oneToken.notes queuedCommand at hended
    simp [hnotes] at hended
  · change _ ∈ oneToken.notes queuedCommand at htook
    simp [hnotes] at htook

/-- An idle moment comes when the token has fired, and takes the request. Then the command gives up,
and only after that the engine begins it. -/
theorem queuedCommand_begun :
    let past := queuedCommand ++ .idle :: List.replicate 3 (.advance 0)
    ((oneToken.run queuedCommand).tokens.isFired 0 = true ∧
        (oneToken.run queuedCommand).slot.pending = some ⟨1, ⟨.script "b", {}, 0, 0⟩, 0⟩) ∧
      (oneToken.run past).stepped? (.poll 1 [true]) = some (1, .idle (.parked 1 0) 0, [true]) ∧
      ((Execution.idle (.parked 1 0) 0).step (oneToken.run past) 1 [true]).2 =
        .done (.error .cancelled) ∧
      (∀ r, .ended 0 r ∉ oneToken.notes past) ∧
      .began 0 ⟨.script "b", {}, 0, 0⟩ ∈
        oneToken.notes (past ++ .poll 1 [true] :: List.replicate 2 (.advance 0)) := by
  intro past
  have hpast : oneToken.notes past = [.called ⟨1, 2⟩ ⟨.script "b", {}, 0, 0⟩,
      .parked 1 ⟨1, ⟨.script "b", {}, 0, 0⟩, 0⟩, .took ⟨1, ⟨.script "b", {}, 0, 0⟩, 0⟩] := rfl
  have hwhole : oneToken.notes (past ++ .poll 1 [true] :: List.replicate 2 (.advance 0)) =
      [.called ⟨1, 2⟩ ⟨.script "b", {}, 0, 0⟩, .parked 1 ⟨1, ⟨.script "b", {}, 0, 0⟩, 0⟩,
        .took ⟨1, ⟨.script "b", {}, 0, 0⟩, 0⟩, .began 0 ⟨.script "b", {}, 0, 0⟩] := rfl
  refine ⟨⟨rfl, rfl⟩, rfl, rfl, fun r hended => ?_, ?_⟩
  · simp [hpast] at hended
  · rw [hwhole]
    simp

end Host

end SharedPrompt
