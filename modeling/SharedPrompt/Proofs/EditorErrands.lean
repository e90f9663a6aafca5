import SharedPrompt.Proofs.Cancelled
import SharedPrompt.Proofs.Courses
import SharedPrompt.Proofs.LineTaken
import SharedPrompt.Proofs.ReadJobs

/-!
# The errands of the line editor

A read with the engine's line editor has one job from the moment when it is entered: the engine is to
read a line, with the permit of a reader. While the engine does so, a thread holds that permit, and
nobody else comes by the ticket of the line. The answer of the engine is what the read ends with.
-/

namespace SharedPrompt

def Job.IsRead (job : Job) : Prop := job.command = .readLine ∧ job.options = .reading

theorem Job.IsRead.readLine {job : Job} (hj : job.IsRead) : job.options.readLine = true := by
  rw [hj.2]
  rfl

/-! ## The execution of a read -/

theorem Execution.step_eq_running {h k : Host} {me ρ : Nat} {bias : List Bool} {run : Execution}
    (hs : run.step h me bias = (k, .next (.running ρ))) :
    ∃ permit job, run = .granted permit job ∧ run.note? h me bias = some (.sent me ρ job) := by
  cases run with
  | start job =>
    simp only [step] at hs
    obtain ⟨-, hnext⟩ := Prod.mk.inj hs
    have hrunning := Poll.next.inj hnext
    split at hrunning <;> cases hrunning
  | idle call token =>
    obtain ⟨_, -, heq⟩ := Poll.map_eq_next (Prod.mk.inj hs).2
    cases heq
  | leasing lease job =>
    simp only [step] at hs
    split at hs <;> cases hs
  | granted permit job =>
    cases hs
    exact ⟨permit, job, rfl, rfl⟩
  | running reply =>
    simp only [step] at hs
    split at hs <;> cases hs

/-- A reader's execution does not wait for an idle moment. -/
theorem Execution.job?_step_of_isRead {h k : Host} {me : Nat} {bias : List Bool}
    {run run' : Execution} {job : Job} (hjob : run.job? = some job) (hread : job.IsRead)
    (hs : run.step h me bias = (k, .next run')) :
    run'.job? = some job ∨ ∃ ρ, run' = .running ρ := by
  cases run with
  | start job' =>
    cases hjob
    have hnot : mustPark h job.options = false := by
      rw [mustPark, hread.readLine]
      rfl
    simp only [step, hnot] at hs
    cases hs
    exact .inl rfl
  | idle call token => cases hjob
  | leasing lease job' =>
    cases hjob
    simp only [step] at hs
    split at hs <;> cases hs <;> exact .inl rfl
  | granted permit job' =>
    cases hs
    exact .inr ⟨_, rfl⟩
  | running reply => cases hjob

namespace ReadCall

variable {h k : Host} {me : Nat} {bias : List Bool}

def execution? : ReadCall → Option Execution
  | reading run _ _ _ => some run
  | stopping _ run _ _ _ => run
  | _ => none

/-- After a step of a read, its execution has just begun, or is as it was, or has been stepped. -/
theorem execution?_step {call call' : ReadCall} {run' : Execution}
    (hs : call.step h me bias = (k, .next call')) (hrun : call'.execution? = some run') :
    (∃ job : Job, job.IsRead ∧ run' = .start job) ∨ call.execution? = some run' ∨
      ∃ run b k', call.execution? = some run ∧ run.step h me b = (k', .next run') ∧
        call.note? h me bias = run.note? h me b := by
  cases call with
  | start commandLine token =>
    simp only [step] at hs
    split at hs
    · cases hs
    · split at hs
      · cases hs
        cases hrun
      · split at hs <;> cases hs <;> cases hrun
  | console call =>
    obtain ⟨c, -, rfl⟩ := Poll.map_eq_next (Prod.mk.inj hs).2
    cases hrun
  | clearing abort token =>
    obtain ⟨-, hnext⟩ := Prod.mk.inj hs
    generalize (abort.step h me bias).2 = r at hnext
    cases r <;> cases hnext <;> cases hrun
  | enter token =>
    obtain ⟨-, hnext⟩ := Prod.mk.inj hs
    cases hnext
    cases hrun
    exact .inl ⟨_, ⟨rfl, rfl⟩, rfl⟩
  | reading run id token own =>
    simp only [step] at hs
    split at hs
    · cases hs
      exact .inr (.inl hrun)
    next heager =>
      split at hs
      · split at hs <;> cases hs
        exact .inr (.inl hrun)
      next k' run'' hr =>
        cases hs
        cases hrun
        exact .inr (.inr ⟨run, bias.tail, k, rfl, hr, if_neg heager⟩)
      · cases hs
  | stopping abort run result id token =>
    rcases abort with - | abort <;> rcases run with - | run
    · cases result <;> cases hs
    · simp only [step, stepRun] at hs
      split at hs
      · cases hs
      next k' run'' hr =>
        cases hs
        cases hrun
        exact .inr (.inr ⟨run, bias, k, rfl, hr, rfl⟩)
      · cases hs
    · simp only [step] at hs
      split at hs <;> cases hs <;> cases hrun
    · simp only [step] at hs
      split at hs
      · cases hs
        exact .inr (.inl hrun)
      · cases hs
        exact .inr (.inl hrun)
      next hr =>
        have hnote : (stopping (some abort) (some run) result id token).note? h me bias =
            run.note? h me bias.tail := by
          simp only [note?, hr]
          rfl
        obtain rfl := AbortCall.step_blocked hr
        split at hs
        · cases hs
        next k' run'' hr' =>
          cases hs
          cases hrun
          exact .inr (.inr ⟨run, bias.tail, k, rfl, hr', hnote⟩)
        · cases hs
          cases hrun

end ReadCall

/-! ## The jobs of reads -/

namespace Host

def ReadsSent (h : Host) (log : List Note) : Prop :=
  ∀ t call run, h.task? t = some (.read call) → call.execution? = some run →
    (∃ job : Job, job.IsRead ∧ run.job? = some job) ∨
      ∃ ρ job, run = .running ρ ∧ job.IsRead ∧ .sent t ρ job ∈ log

theorem ReadsSent.apply {h : Host} {log : List Note} (hr : h.ReadsSent log) (hn : h.Numbered)
    (e : Event) : (h.apply e).ReadsSent (log ++ (h.note? e).toList) := by
  intro t call' run' ht hrun
  have hsame {call : ReadCall} (ht : h.task? t = some (.read call))
      (hrun : call.execution? = some run') :
      (∃ job : Job, job.IsRead ∧ run'.job? = some job) ∨ ∃ ρ job, run' = .running ρ ∧ job.IsRead ∧
        .sent t ρ job ∈ log ++ (h.note? e).toList := by
    rcases hr t call run' ht hrun with hjob | ⟨ρ, job, hrunning, hread, hsent⟩
    · exact .inl hjob
    · exact .inr ⟨ρ, job, hrunning, hread, List.mem_append_left _ hsent⟩
  cases task?_apply hn ht with
  | same ht => exact hsame ht hrun
  | started call _ hcall =>
    cases call <;> cases hcall
    cases hrun
  | @polled bias task k r hbefore hs _ hafter =>
    cases r with
    | blocked =>
      cases hafter
      exact hsame hbefore hrun
    | done r => cases hafter
    | next task' =>
      cases hafter
      obtain ⟨call, rfl, hcall⟩ := Task.step_eq_read hs
      rcases ReadCall.execution?_step hcall hrun with ⟨job, hread, rfl⟩ | hold |
        ⟨run, b, k', hold, hstep, hnote⟩
      · exact .inl ⟨job, hread, rfl⟩
      · exact hsame hbefore hold
      · rcases hr t call run hbefore hold with ⟨job, hread, hjob⟩ | ⟨ρ, job, rfl, hread, -⟩
        · rcases Execution.job?_step_of_isRead hjob hread hstep with hjob' | ⟨ρ, rfl⟩
          · exact .inl ⟨job, hread, hjob'⟩
          · obtain ⟨permit, job', rfl, hsent⟩ := Execution.step_eq_running hstep
            cases hjob
            refine .inr ⟨ρ, job, rfl, hread, List.mem_append_right _ ?_⟩
            rw [Option.mem_toList, note?, hbefore, Option.bind_some]
            exact hnote.trans hsent
        · simp only [Execution.step] at hstep
          split at hstep <;> cases hstep

theorem Fresh.readsSent {start : Host} (hf : start.Fresh) (past : List Event) :
    (start.run past).ReadsSent (start.notes past) := by
  induction past using List.reverseRecOn with
  | nil =>
    intro t call run ht
    rw [Host.run, List.foldl_nil, task?, hf.tasks] at ht
    cases ht
  | append_singleton past e ih =>
    rw [run_concat, notes_concat]
    exact ih.apply (hf.kept.run past).numbered e

/-! ## Reads in the editor -/

/-- The engine runs the command of the read `t`, which awaits the reply `ρ`. -/
def InEditor (h : Host) (t ρ : Nat) : Prop :=
  (∃ call, h.task? t = some (.read call) ∧ call.execution? = some (.running ρ)) ∧
    ∃ th ∈ h.threads, ∃ work, .errand .called work ∈ th.stack ∧ work.reply = ρ

variable {start : Host} {past : List Event} {t ρ : Nat}

theorem await_mem_stakes {h : Host} {call : ReadCall} (ht : h.task? t = some (.read call))
    (hrun : call.execution? = some (.running ρ)) : .await t ρ ∈ h.stakes := by
  refine List.mem_flatMap.2 ⟨_, mem_of_lookup ht, ?_⟩
  cases call with
  | reading run id token own =>
    cases hrun
    exact List.mem_singleton_self _
  | stopping abort run result id token =>
    cases hrun
    exact List.mem_append_right _ (List.mem_singleton_self _)
  | _ => cases hrun

/-- The errand of a read that the engine runs has the permit of a reader. -/
theorem InEditor.exists_work (hf : start.Fresh) (hin : (start.run past).InEditor t ρ) :
    ∃ th ∈ (start.run past).threads, ∃ work, .errand .called work ∈ th.stack ∧ work.reply = ρ ∧
      work.job.IsRead ∧ work.permit.lease = 1 ∧ .began ρ work.job ∈ start.notes past := by
  obtain ⟨⟨call, ht, hrun⟩, th, hth, work, hwork, rfl⟩ := hin
  obtain ⟨served, hdesk⟩ := (hf.deskKept past).atDesk
  -- The stake of the task and the affair of the thread are about one life.
  obtain ⟨job, p, hlife, -⟩ := hdesk.inHand.stakes _ (await_mem_stakes ht hrun) _ rfl
  have haffair : (⟨work.reply, false, work.job, .begun⟩ : Affair) ∈ (start.run past).affairs := by
    obtain ⟨pre, post, hsplit⟩ := List.append_of_mem hth
    rw [affairs, hsplit, List.map_append, List.map_cons, List.sum_append, List.sum_cons]
    refine Multiset.mem_add.2 (.inr (Multiset.mem_add.2 (.inl ?_)))
    exact Multiset.mem_coe.2 (List.mem_filterMap.2 ⟨_, hwork, rfl⟩)
  obtain ⟨u, hlife', -⟩ := hdesk.inHand.affairs _ (Multiset.mem_add.2 (.inr haffair))
  obtain ⟨-, rfl, rfl⟩ : t = u ∧ job = work.job ∧ p = .begun := by
    cases hlife.symm.trans hlife'
    exact ⟨rfl, rfl, rfl⟩
  have htold := (hdesk.inHand.lawful.told _).2 _ hlife
  have hread : work.job.IsRead := by
    rcases hf.readsSent past t call _ ht hrun with ⟨job, -, hjob⟩ | ⟨ρ, job, heq, hread, hsent⟩
    · cases hjob
    · cases heq
      cases hdesk.inHand.lawful.eq_of_opens hsent (htold.sent rfl) rfl rfl rfl
      exact hread
  have hchron := Chronicled.run hf.kept hf.tasks (congrArg (·.2.2.1) hf.desk) past
  obtain ⟨u, looked, sent, hsent⟩ := (hchron.errands th hth).works _ hwork work rfl
  refine ⟨th, hth, work, hwork, rfl, hread, ?_, htold.begun rfl⟩
  have hline := (hf.kept.run looked).balanced.books.sound.line
  rw [hsent.looked.permit, hread.readLine, permitFor]
  split
  · exact hline
  · exact hline

/-- While the engine runs the command of a read, no other task can come by the ticket of the
line. -/
theorem InEditor.lineTaken (hf : start.Fresh) (hin : (start.run past).InEditor t ρ) (u : Nat) :
    (start.run past).LineTaken u := by
  obtain ⟨th, hth, work, hwork, -, -, hlease, -⟩ := hin.exists_work hf
  rw [LineTaken, (hf.kept.run past).balanced.books.sound.line]
  apply Part.held_pos (x := .permit work.permit)
  · refine Multiset.mem_add.2 (.inr (Multiset.mem_add.2 (.inl ?_)))
    obtain ⟨pre, post, hsplit⟩ := List.append_of_mem hth
    rw [hsplit, List.map_append, List.map_cons, List.sum_append, List.sum_cons]
    refine Multiset.mem_add.2 (.inr (Multiset.mem_add.2 (.inl ?_)))
    obtain ⟨above, below, hstack⟩ := List.append_of_mem hwork
    rw [hstack, Activation.partsOf, List.map_append, List.map_cons, List.sum_append,
      List.sum_cons]
    exact Multiset.mem_add.2 (.inr (Multiset.mem_add.2 (.inl (Multiset.mem_singleton_self _))))
  · simp [Part.tickets, Permit.gates, hlease]

end Host

/-! ## What a read ends with -/

namespace ReadCall

def caller? : ReadCall → Option Nat
  | reading _ _ token _ => some token
  | stopping _ _ _ _ token => some token
  | _ => none

/-- The result of the execution of a read whose stop is still waited for. -/
def result? : ReadCall → Option RunResult
  | stopping _ none (some r) _ _ => some r
  | _ => none

variable (h : Host) (me : Nat) (bias : List Bool)

theorem running_step {ρ : Nat} {r : RunResult} {k : Host} {b : List Bool}
    (hs : (Execution.running ρ).step h me b = (k, .done r)) :
    h.replies[ρ]? = some (.sent r) ∧ k = h.closeReply ρ := by
  simp only [Execution.step] at hs
  split at hs
  next hsent =>
    cases hs
    exact ⟨hsent, rfl⟩
  next => cases hs

/-- A read whose command is with a thread goes on so, until it has the answer. -/
theorem step_of_running {call : ReadCall} {ρ : Nat} (hrun : call.execution? = some (.running ρ)) :
    (call.step h me bias).2.Meets
      (fun call' => call'.caller? = call.caller? ∧ (call'.execution? = some (.running ρ) ∨
        ∃ r, call'.result? = some r ∧ h.replies[ρ]? = some (.sent r)))
      fun a => ∃ r token, call.caller? = some token ∧ h.replies[ρ]? = some (.sent r) ∧
        a = interpret (h.tokens.isFired token) r := by
  have hnext {k : Host} {b : List Bool} {run : Execution} :
      (Execution.running ρ).step h me b ≠ (k, .next run) := by
    intro hs
    simp only [Execution.step] at hs
    split at hs <;> cases hs
  cases call with
  | reading run id token own =>
    cases hrun
    simp only [step]
    split
    · exact ⟨rfl, .inl rfl⟩
    · split
      · split
        · exact ⟨rfl, .inl rfl⟩
        · trivial
      next hr => exact absurd hr hnext
      next r hr =>
        obtain ⟨hsent, rfl⟩ := running_step h me hr
        refine ⟨r, token, rfl, hsent, congrArg (interpret · r) ?_⟩
        exact h.tokens.isFired_forget token me token
  | stopping abort run result id token =>
    cases hrun
    cases abort with
    | none =>
      simp only [step, stepRun]
      split
      · trivial
      next hr => exact absurd hr hnext
      next r hr =>
        obtain ⟨hsent, rfl⟩ := running_step h me hr
        exact ⟨r, token, rfl, hsent, rfl⟩
    | some abort =>
      simp only [step]
      split
      · exact ⟨rfl, .inl rfl⟩
      · exact ⟨rfl, .inl rfl⟩
      next hr =>
        obtain rfl := AbortCall.step_blocked hr
        split
        · trivial
        next hr' => exact absurd hr' hnext
        next r hr' => exact ⟨rfl, .inr ⟨r, rfl, (running_step _ me hr').1⟩⟩
  | _ => cases hrun

/-- Once it has the answer, it ends with that. -/
theorem step_of_result {call : ReadCall} {r : RunResult} (hr : call.result? = some r) :
    (call.step h me bias).2.Meets
      (fun call' => call'.caller? = call.caller? ∧ call'.result? = some r)
      fun a => ∃ token, call.caller? = some token ∧
        a = interpret (h.tokens.isFired token) r := by
  cases call with
  | stopping abort run result id token =>
    rcases run with - | run
    · rcases result with - | result
      · cases hr
      · cases hr
        cases abort with
        | none => exact ⟨token, rfl, rfl⟩
        | some abort =>
          simp only [step]
          split
          · exact ⟨rfl, rfl⟩
          · exact ⟨rfl, rfl⟩
          · trivial
    · cases hr
  | _ => cases hr

/-- What the engine's answer comes to: an empty line, the line that it has read, or a fault. -/
theorem interpret_cases (fired : Bool) (r : RunResult) :
    interpret fired r = .ok "" ∨ (∃ vs, r = .ok vs ∧ interpret fired r = .ok (lineOf vs)) ∨
      ∃ f, r = .error f ∧ interpret fired r = .error (.run f) := by
  cases r with
  | ok vs =>
    cases fired with
    | true => exact .inl rfl
    | false => exact .inr (.inl ⟨vs, rfl, rfl⟩)
  | error f =>
    cases hf : f.isCancelled with
    | true => exact .inl (if_pos hf)
    | false => exact .inr (.inr ⟨f, rfl, if_neg (by rw [hf]; exact Bool.false_ne_true)⟩)

end ReadCall

namespace Host

variable {start : Host} {past : List Event} {t ρ : Nat}

/-- A read whose command the engine was running ends with what the engine was done with, as it looks
to the read by the token of its caller. -/
theorem InEditor.result (hf : start.Fresh) (hin : (start.run past).InEditor t ρ)
    {future : List Event} {a : TaskResult} (ha : (t, a) ∈ (start.run past).results future) :
    ∃ r call token before, .ended ρ r ∈ start.notes (past ++ future) ∧
      (start.run past).task? t = some (.read call) ∧ call.caller? = some token ∧
      before <+: future ∧ a = .line (ReadCall.interpret
        ((start.run (past ++ before)).tokens.isFired token) r) := by
  obtain ⟨th, -, work, -, -, -, -, hbegan⟩ := hin.exists_work hf
  obtain ⟨⟨first, ht, hrun⟩, -⟩ := hin
  -- Until it ends, the read awaits the reply or has what the engine was done with.
  let Q (task : Task) : Prop := ∃ call, task = .read call ∧ call.caller? = first.caller? ∧
    (call.execution? = some (.running ρ) ∨
      ∃ r, call.result? = some r ∧ .ended ρ r ∈ start.notes (past ++ future))
  have hended {before : List Event} (hle : before <+: future) {call : ReadCall}
      (ht : ((start.run past).run before).task? t = some (.read call))
      (hrun : call.execution? = some (.running ρ)) {r : RunResult}
      (hsent : ((start.run past).run before).replies[ρ]? = some (.sent r)) :
      .ended ρ r ∈ start.notes (past ++ future) := by
    rw [← run_append] at ht hsent
    have hd := hf.deskKept (past ++ before)
    have hle' : past ++ before <+: past ++ future := (List.prefix_append_right_inj past).2 hle
    have hdone : ((Execution.running ρ).step (start.run (past ++ before)) t []).2 = .done r := by
      simp only [Execution.step, hsent]
    rcases hd.of_errand (await_mem_stakes ht hrun) hdone with hended | hrefused
    · exact (notes_mono start hle').subset hended
    · refine absurd ?_ (hd.lawful.unbegun_of_refused hrefused work.job)
      exact (notes_mono start (List.prefix_append past before)).subset hbegan
  have hstart : (start.run past).Course t Q :=
    .of_task (hf.kept.run past).numbered ht ⟨first, rfl, rfl, .inl hrun⟩
  have hresults := (hstart.run (hf.kept.run past) future
    (R := fun a => ∃ r token before, .ended ρ r ∈ start.notes (past ++ future) ∧
      first.caller? = some token ∧ before <+: future ∧ a = .line (ReadCall.interpret
        ((start.run (past ++ before)).tokens.isFired token) r)) ?_).2
  · obtain ⟨r, token, before, hended, hcaller, hle, rfl⟩ := hresults a ha
    exact ⟨r, first, token, before, hended, ht, hcaller, hle, rfl⟩
  rintro before bias _ hle ht ⟨call, rfl, hcaller, hrun | ⟨r, hr, hended'⟩⟩
  · have hmeets := call.step_of_running ((start.run past).run before) t bias hrun
    have hle' : before <+: future := (List.prefix_append _ _).trans hle
    simp only [Task.step]
    generalize (call.step ((start.run past).run before) t bias).2 = p at hmeets
    rcases p with - | call' | a
    · trivial
    · refine ⟨call', rfl, hmeets.1.trans hcaller, hmeets.2.imp_right ?_⟩
      rintro ⟨r, hr, hsent⟩
      exact ⟨r, hr, hended hle' ht hrun hsent⟩
    · obtain ⟨r, token, htoken, hsent, rfl⟩ := hmeets
      rw [← run_append]
      refine ⟨r, token, before, hended hle' ht hrun hsent, hcaller ▸ htoken, hle', rfl⟩
  · have hmeets := call.step_of_result ((start.run past).run before) t bias hr
    simp only [Task.step]
    generalize (call.step ((start.run past).run before) t bias).2 = p at hmeets
    rcases p with - | call' | a
    · trivial
    · exact ⟨call', rfl, hmeets.1.trans hcaller, .inr ⟨r, hmeets.2, hended'⟩⟩
    · obtain ⟨token, htoken, rfl⟩ := hmeets
      rw [← run_append]
      refine ⟨r, token, before, hended', hcaller ▸ htoken, ?_, rfl⟩
      exact (List.prefix_append _ _).trans hle

end Host

end SharedPrompt
