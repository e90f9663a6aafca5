import SharedPrompt.Proofs.Arrivals

/-!
# The course of a task

A task that is polled goes on as another state of the same call, or ends with its result. When it has
ended or has been dropped, no task gets its number again. So what its steps keep is so until it ends,
and its result is what its last step comes to.
-/

namespace SharedPrompt

/-- If a step comes to another state, `P` holds of that, and if it comes to an answer, `Q` does. -/
def Poll.Meets {σ α : Type} (P : σ → Prop) (Q : α → Prop) : Poll σ α → Prop
  | blocked => True
  | next s => P s
  | done a => Q a

theorem Poll.Meets.map {σ τ α β : Type} {P : τ → Prop} {Q : β → Prop} {f : σ → τ} {g : α → β}
    {p : Poll σ α} (hp : p.Meets (fun s => P (f s)) fun a => Q (g a)) :
    (p.map f g).Meets P Q := by
  cases p <;> exact hp

namespace Host

def ending? (h : Host) : Event → Option (Nat × TaskResult)
  | .poll t bias => (h.task? t).bind fun task =>
      match (task.step h t bias).2 with
      | .done r => some (t, r)
      | _ => none
  | _ => none

def results (h : Host) (events : List Event) : List (Nat × TaskResult) := h.during ending? events

/-- The task `t` has been started, and as long as it goes on, `Q` holds of it. -/
structure Course (h : Host) (t : Nat) (Q : Task → Prop) : Prop where
  old : t < h.nextTask
  holds : ∀ task, h.task? t = some task → Q task

variable {h : Host} {t : Nat} {Q : Task → Prop}

theorem ending?_eq_some {e : Event} {r : TaskResult} (he : h.ending? e = some (t, r)) :
    ∃ bias task, e = .poll t bias ∧ h.task? t = some task ∧ (task.step h t bias).2 = .done r := by
  cases e with
  | poll u bias =>
    obtain ⟨task, ht, hr⟩ := Option.bind_eq_some_iff.1 he
    split at hr
    next hdone =>
      cases hr
      exact ⟨bias, task, rfl, ht, hdone⟩
    next => cases hr
  | _ => cases he

namespace Course

theorem of_task (hn : h.Numbered) {task : Task} (ht : h.task? t = some task) (hq : Q task) :
    h.Course t Q := by
  refine ⟨lt_nextTask hn ht, fun task' ht' => ?_⟩
  rwa [← Option.some.inj (ht.symm.trans ht')]

/-- It stays so if a step of the task keeps it so. -/
theorem apply (hc : h.Course t Q) (hn : h.Numbered) (e : Event) {R : TaskResult → Prop}
    (hstep : ∀ bias task, e = .poll t bias → h.task? t = some task → Q task →
      (task.step h t bias).2.Meets Q R) :
    (h.apply e).Course t Q := by
  refine ⟨hc.old.trans_le (h.grows_apply e).nextTask, fun task' ht' => ?_⟩
  cases task?_apply hn ht' with
  | same ht => exact hc.holds task' ht
  | started call hnew _ => exact absurd hc.old (by omega)
  | @polled bias before k r ht hs hf hr =>
    have hmeets := hstep bias before rfl ht (hc.holds before ht)
    rw [hs] at hmeets
    cases r with
    | blocked =>
      cases hr
      exact hc.holds task' ht
    | next after =>
      cases hr
      exact hmeets
    | done r => cases hr

/-- A task that is dropped does not go on. -/
theorem drop (hc : h.Course t Q) : (h.apply (.drop t)).Course t fun _ => False := by
  refine ⟨hc.old.trans_le (h.grows_apply (.drop t)).nextTask, fun task' ht' => ?_⟩
  cases ht : h.task? t with
  | none =>
    simp only [Host.apply, dropTask, ht] at ht'
    cases ht'
  | some task =>
    rw [apply_drop ht] at ht'
    cases (lookup_remove_self _ t).symm.trans ht'

/-- What the steps of the task keep is so throughout the run, and what they come to in the end its
result is. -/
theorem run (hc : h.Course t Q) (hk : h.WellKept) (events : List Event) {R : TaskResult → Prop}
    (hstep : ∀ before bias task, before ++ [.poll t bias] <+: events →
      (h.run before).task? t = some task → Q task →
        (task.step (h.run before) t bias).2.Meets Q R) :
    (h.run events).Course t Q ∧ ∀ r, (t, r) ∈ h.results events → R r := by
  induction events using List.reverseRecOn with
  | nil => exact ⟨hc, fun r hr => absurd hr List.not_mem_nil⟩
  | append_singleton past e ih =>
    obtain ⟨hcourse, hresults⟩ := ih fun before bias task hle =>
      hstep before bias task (hle.trans (List.prefix_append _ _))
    rw [run_concat, results, during_concat]
    constructor
    · refine hcourse.apply (hk.run past).numbered e (R := R) ?_
      rintro bias task rfl ht
      exact hstep past bias task List.prefix_rfl ht
    · intro r hr
      rcases List.mem_append.1 hr with hr | hr
      · exact hresults r hr
      · obtain ⟨bias, task, rfl, ht, hdone⟩ := ending?_eq_some (Option.mem_toList.1 hr)
        have hmeets := hstep past bias task List.prefix_rfl ht (hcourse.holds task ht)
        rwa [hdone] at hmeets

end Course

end Host

end SharedPrompt
