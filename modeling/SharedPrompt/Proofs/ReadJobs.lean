import SharedPrompt.Proofs.LatestRead

/-!
# The command of a read

A read that is under way runs one command under its own token, until the command has been handed to
a thread. The read is known to the host as it was entered.
-/

namespace SharedPrompt

theorem Poll.map_eq_next {σ τ α β : Type} {f : σ → τ} {g : α → β} {p : Poll σ α} {t : τ}
    (hp : p.map f g = .next t) : ∃ s, p = .next s ∧ t = f s := by
  cases p with
  | next s => exact ⟨s, rfl, (Poll.next.inj hp).symm⟩
  | _ => cases hp

/-- The job of an execution that has not handed it to a thread. -/
def Execution.job? : Execution → Option Job
  | start job => some job
  | leasing _ job => some job
  | granted _ job => some job
  | _ => none

theorem Execution.job?_step {h k : Host} {me : Nat} {bias : List Bool} {run run' : Execution}
    (hs : run.step h me bias = (k, .next run')) : run'.job? = none ∨ run'.job? = run.job? := by
  cases run with
  | start job =>
    simp only [step] at hs
    obtain ⟨-, hnext⟩ := Prod.mk.inj hs
    rw [← Poll.next.inj hnext]
    split
    · exact .inl rfl
    · exact .inr rfl
  | idle call token =>
    simp only [step] at hs
    obtain ⟨-, hnext⟩ := Prod.mk.inj hs
    obtain ⟨call', -, rfl⟩ := Poll.map_eq_next hnext
    exact .inl rfl
  | leasing lease job =>
    simp only [step] at hs
    split at hs <;> cases hs
    · exact .inr rfl
    · exact .inr rfl
  | granted permit job =>
    cases hs
    exact .inl rfl
  | running reply =>
    simp only [step] at hs
    split at hs <;> cases hs

namespace ReadCall

variable {h k : Host} {me : Nat} {bias : List Bool}

/-- A read that is under way has been entered in this step, or its execution has been stepped. -/
theorem step_eq_reading {call : ReadCall} {run' : Execution} {id caller own : Nat}
    (hs : call.step h me bias = (k, .next (.reading run' id caller own))) :
    (call = .enter caller ∧ id = h.editor.nextId ∧ own = h.tokens.all.length ∧
      ∃ sink, run' = .start ⟨.readLine, .reading, sink, own⟩) ∨
      ∃ run, call = .reading run id caller own ∧ run.step h me bias.tail = (k, .next run') := by
  cases call with
  | start commandLine token =>
    simp only [step] at hs
    split at hs
    · cases hs
    · split at hs
      · cases hs
      · split at hs <;> cases hs
  | console call =>
    obtain ⟨_, -, heq⟩ := Poll.map_eq_next (Prod.mk.inj hs).2
    cases heq
  | clearing abort token =>
    obtain ⟨-, hnext⟩ := Prod.mk.inj hs
    cases hr : (abort.step h me bias).2 <;> rw [hr] at hnext <;> cases hnext
  | enter token =>
    obtain ⟨-, hnext⟩ := Prod.mk.inj hs
    cases hnext
    refine .inl ⟨rfl, rfl, h.tokens.derive_fst caller, ?_⟩
    exact ⟨h.nextSink, rfl⟩
  | reading run id' token own' =>
    right
    simp only [step] at hs
    split at hs
    · cases hs
    · split at hs
      next => split at hs <;> cases hs
      next hr =>
        cases hs
        exact ⟨run, rfl, hr⟩
      next => cases hs
  | stopping abort run result id' token =>
    cases abort with
    | none =>
      cases run with
      | none => cases result <;> cases hs
      | some run =>
        simp only [step, stepRun] at hs
        split at hs <;> cases hs
    | some abort =>
      simp only [step] at hs
      split at hs
      · cases hs
      · cases hs
      · cases run with
        | none => cases hs
        | some run =>
          dsimp only at hs
          split at hs <;> cases hs

end ReadCall

theorem Task.step_eq_read {h k : Host} {me : Nat} {bias : List Bool} {task : Task} {call' : ReadCall}
    (hs : task.step h me bias = (k, .next (.read call'))) :
    ∃ call, task = .read call ∧ call.step h me bias = (k, .next call') := by
  cases task with
  | read call =>
    obtain ⟨rfl, hnext⟩ := Prod.mk.inj hs
    obtain ⟨c, hc, heq⟩ := Poll.map_eq_next hnext
    cases heq
    exact ⟨call, rfl, Prod.ext rfl hc⟩
  | command call sink =>
    obtain ⟨_, -, heq⟩ := Poll.map_eq_next (Prod.mk.inj hs).2
    cases heq
  | idle call sink =>
    obtain ⟨_, -, heq⟩ := Poll.map_eq_next (Prod.mk.inj hs).2
    cases heq
  | line call =>
    obtain ⟨_, -, heq⟩ := Poll.map_eq_next (Prod.mk.inj hs).2
    cases heq
  | abort call =>
    obtain ⟨_, -, heq⟩ := Poll.map_eq_next (Prod.mk.inj hs).2
    cases heq
  | exit call =>
    obtain ⟨_, -, heq⟩ := Poll.map_eq_next (Prod.mk.inj hs).2
    cases heq
  | lease call =>
    obtain ⟨_, -, heq⟩ := Poll.map_eq_next (Prod.mk.inj hs).2
    cases heq
  | key call =>
    obtain ⟨_, -, heq⟩ := Poll.map_eq_next (Prod.mk.inj hs).2
    cases heq

namespace Host

def ReadsTold (h : Host) (entries : List EditorRead) : Prop :=
  ∀ t run id caller own, h.task? t = some (.read (.reading run id caller own)) →
    ⟨t, id, caller, own⟩ ∈ entries ∧
      ∀ job, run.job? = some job → job.options.readLine = true ∧ job.token = own

theorem ReadsTold.apply {h : Host} {entries : List EditorRead} (hr : h.ReadsTold entries)
    (hn : h.Numbered) (e : Event) : (h.apply e).ReadsTold (entries ++ (h.enters? e).toList) := by
  intro t run' id caller own ht
  have hsame (ht : h.task? t = some (.read (.reading run' id caller own))) :
      ⟨t, id, caller, own⟩ ∈ entries ++ (h.enters? e).toList ∧
        ∀ job, run'.job? = some job → job.options.readLine = true ∧ job.token = own :=
    And.imp_left (List.mem_append_left _) (hr t run' id caller own ht)
  cases task?_apply hn ht with
  | same ht => exact hsame ht
  | started call _ hcall => cases call <;> cases hcall
  | @polled bias task k r hbefore hs _ hafter =>
    cases r with
    | blocked =>
      cases hafter
      exact hsame hbefore
    | done r => cases hafter
    | next task' =>
      cases hafter
      obtain ⟨call, rfl, hcall⟩ := Task.step_eq_read hs
      rcases ReadCall.step_eq_reading hcall with ⟨rfl, rfl, rfl, sink, rfl⟩ | ⟨run, rfl, hrun⟩
      · refine ⟨List.mem_append_right _ ?_, fun job hjob => ?_⟩
        · simp [enters?, hbefore, Task.entering?, ReadCall.entering?]
        · cases hjob
          exact ⟨rfl, rfl⟩
      · obtain ⟨hmem, hjob⟩ := hr t run id caller own hbefore
        refine ⟨List.mem_append_left _ hmem, fun job hjob' => ?_⟩
        rcases Execution.job?_step hrun with hnone | hkept
        · rw [hnone] at hjob'
          cases hjob'
        · exact hjob job (hkept ▸ hjob')

theorem ReadsTold.run {start : Host} (hkept : start.WellKept) (htasks : start.tasks = [])
    (past : List Event) : (start.run past).ReadsTold (start.entries past) := by
  induction past using List.reverseRecOn with
  | nil =>
    intro t run id caller own ht
    rw [Host.run, List.foldl_nil, task?, htasks] at ht
    cases ht
  | append_singleton past e ih =>
    rw [run_concat, entries, during_concat]
    exact ih.apply (hkept.run past).numbered e

end Host

end SharedPrompt
