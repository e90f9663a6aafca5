import SharedPrompt.Proofs.Executions
import SharedPrompt.Proofs.WellKept

/-!
# What an event does to the tasks

An event polls one task, starts or drops one, or leaves all tasks as they are.
-/

namespace SharedPrompt

namespace Host

def execution? (h : Host) (t : Nat) : Option Execution := (h.task? t).bind Task.execution?

def stepped? (h : Host) : Event → Option (Nat × Execution × List Bool)
  | .poll t bias => (h.task? t).bind fun task => (task.stepped? h t bias).map (t, ·)
  | _ => none

/-- Two hosts that differ at most in what tasks there are and in what has become of others. -/
structure Filed (h h' : Host) : Prop where
  stack : h'.stack = h.stack
  nextTurn : h'.nextTurn = h.nextTurn
  threads : h'.threads = h.threads
  nextThread : h'.nextThread = h.nextThread
  slot : h'.slot = h.slot
  replies : h'.replies = h.replies
  trace : h'.trace = h.trace

end Host

/-! ## Looking tasks up -/

section
variable {β : Type} (l : List (Nat × β)) (id : Nat)

theorem lookup_set_self (b : β) (hl : (l.lookup id).isSome) :
    (l.map fun t => if t.1 = id then (id, b) else t).lookup id = some b := by
  induction l with
  | nil => cases hl
  | cons t rest ih =>
    by_cases ht : t.1 = id
    · simp [ht]
    · have hne : (id == t.1) = false := by simpa using Ne.symm ht
      rw [List.lookup_cons, hne] at hl
      rw [List.map_cons, if_neg ht, List.lookup_cons, hne]
      exact ih hl

theorem lookup_set_ne {u : Nat} (hu : u ≠ id) (b : β) :
    (l.map fun t => if t.1 = id then (id, b) else t).lookup u = l.lookup u := by
  induction l with
  | nil => rfl
  | cons t rest ih =>
    by_cases ht : t.1 = id
    · have hne : (u == id) = false := by simpa using hu
      rw [List.map_cons, if_pos ht, List.lookup_cons, List.lookup_cons, ht, hne, ih]
    · rw [List.map_cons, if_neg ht, List.lookup_cons, List.lookup_cons, ih]

theorem lookup_remove_self : (l.filter (·.1 ≠ id)).lookup id = none := by
  rw [List.lookup_eq_none_iff]
  intro t ht
  simpa using Ne.symm (of_decide_eq_true (List.mem_filter.1 ht).2)

theorem lookup_remove_ne {u : Nat} (hu : u ≠ id) : (l.filter (·.1 ≠ id)).lookup u = l.lookup u := by
  induction l with
  | nil => rfl
  | cons t rest ih =>
    by_cases ht : t.1 = id
    · have hne : (u == t.1) = false := by simpa [ht] using hu
      rw [List.filter_cons_of_neg (by simpa using ht), List.lookup_cons, hne, ih]
    · rw [List.filter_cons_of_pos (by simpa using ht), List.lookup_cons, List.lookup_cons, ih]

end

/-! ## Polling a task -/

def Poll.task? (before : Task) : Poll Task TaskResult → Option Task
  | blocked => some before
  | next task => some task
  | done _ => none

theorem Poll.bind_task? (before : Task) (r : Poll Task TaskResult) :
    (r.task? before).bind Task.execution? = r.execution? before := by
  cases r <;> rfl

namespace Host

theorem filed_afterPoll (k : Host) (t : Nat) (r : Poll Task TaskResult) :
    k.Filed (k.afterPoll t r) := by
  cases r with
  | done r => cases r <;> constructor <;> rfl
  | _ => constructor <;> rfl

theorem task?_afterPoll_self {k : Host} {t : Nat} {task : Task} (ht : k.task? t = some task)
    (r : Poll Task TaskResult) : (k.afterPoll t r).task? t = r.task? task := by
  cases r with
  | blocked => exact ht
  | next task' => exact lookup_set_self _ t task' (by rw [← task?, ht]; rfl)
  | done r => cases r <;> exact lookup_remove_self _ t

theorem task?_afterPoll_ne (k : Host) {t u : Nat} (hu : u ≠ t) (r : Poll Task TaskResult) :
    (k.afterPoll t r).task? u = k.task? u := by
  cases r with
  | blocked => rfl
  | next task' => exact lookup_set_ne _ t hu task'
  | done r => cases r <;> exact lookup_remove_ne _ t hu

/-! ## Starting a task -/

variable {h : Host}

theorem task?_nextTask (hn : h.Numbered) : h.task? h.nextTask = none := by
  rw [task?, List.lookup_eq_none_iff]
  intro p hp
  have := hn.owners_lt p.1 (List.mem_append_left _ (List.mem_map_of_mem hp))
  simpa using Nat.ne_of_gt this

theorem task?_addTask_self (hn : h.Numbered) (task : Task) :
    (h.addTask task).task? h.nextTask = some task := by
  have hnone := task?_nextTask hn
  rw [task?] at hnone
  rw [task?, addTask, List.lookup_append, hnone, List.lookup_cons_self, Option.none_or]

theorem task?_addTask_ne (h : Host) (task : Task) {u : Nat} (hu : u ≠ h.nextTask) :
    (h.addTask task).task? u = h.task? u := by
  have hne : (u == h.nextTask) = false := by simpa using hu
  rw [task?, addTask, List.lookup_append, List.lookup_cons, hne, List.lookup_nil, Option.or_none,
    task?]

/-! ## Events -/

/-- A task that is polled is as its step leaves it. -/
theorem task?_poll {t : Nat} {bias : List Bool} {task : Task} {k : Host} {r : Poll Task TaskResult}
    (ht : h.task? t = some task) (hs : task.step h t bias = (k, r)) :
    (h.apply (.poll t bias)).task? t = r.task? task := by
  have htasks := (task.step_moves h t 0 bias).spawns.tasks
  rw [hs] at htasks
  rw [apply_poll ht hs, task?_afterPoll_self (by rwa [task?, htasks])]

inductive TaskAfter (h : Host) (t : Nat) (task' : Task) : Event → Prop where
  | same {e : Event} (ht : h.task? t = some task') : TaskAfter h t task' e
  | started (call : Start) (ht : t = h.nextTask) (hcall : task' = call.task) :
      TaskAfter h t task' (.start call)
  | polled {bias : List Bool} {task : Task} {k : Host} {r : Poll Task TaskResult}
      (ht : h.task? t = some task) (hs : task.step h t bias = (k, r))
      (hf : k.Filed (h.apply (.poll t bias))) (hr : r.task? task = some task') :
      TaskAfter h t task' (.poll t bias)

theorem task?_apply (hn : h.Numbered) {e : Event} {t : Nat} {task' : Task}
    (ht : (h.apply e).task? t = some task') : h.TaskAfter t task' e := by
  have hsame {k : Host} (htasks : k.tasks = h.tasks) (ht : k.task? t = some task') :
      h.TaskAfter t task' e := .same (by rwa [task?, htasks] at ht)
  obtain ⟨k, hk, hnext⟩ : ∃ k, h.apply e = k ∧ h.Next e k := ⟨_, rfl, h.next_apply e⟩
  rw [hk] at ht
  cases hnext with
  | plain hs => exact hsame (hs 0).sameCalls.tasks ht
  | @polled u bias task k r hbefore hs =>
    have htasks := (task.step_moves h u 0 bias).spawns.tasks
    rw [hs] at htasks
    by_cases hu : t = u
    · subst hu
      rw [task?_afterPoll_self (by rwa [task?, htasks])] at ht
      exact .polled hbefore hs (hk ▸ k.filed_afterPoll t r) ht
    · rw [k.task?_afterPoll_ne hu] at ht
      exact hsame htasks ht
  | advanced _ hs =>
    rw [setThread_eq] at ht
    exact hsame (Activation.step_shifts 0 hs).sameCalls.tasks ht
  | started call =>
    rw [task?, (aside_wake _ _).tasks, ← task?] at ht
    by_cases hnew : t = h.nextTask
    · subst hnew
      rw [task?_addTask_self hn] at ht
      exact .started call rfl (Option.some.inj ht).symm
    · rw [task?_addTask_ne h _ hnew] at ht
      exact .same ht
  | @dropped u task _ =>
    have htasks := (task.abandon_moves h u 0).moves.spawns.tasks
    by_cases hu : t = u
    · subst hu
      have hgone := lookup_remove_self (task.abandon h t).tasks t
      cases hgone.symm.trans ht
    · exact hsame htasks ((lookup_remove_ne _ u hu).symm.trans ht)
  | released _ =>
    rw [task?, (sameCalls_releasePermit _ _).tasks] at ht
    exact .same ht
  | idle => exact .same ht
  | pushed hq => exact hsame hq.tasks ht

inductive ExecutionAfter (h : Host) (t : Nat) (run : Execution) : Event → Prop where
  | same {e : Event} (hrun : h.execution? t = some run) : ExecutionAfter h t run e
  | begun {e : Event} (job : Job) (hrun : run = .start job) : ExecutionAfter h t run e
  | stepped {bias b : List Bool} {before : Execution} {k : Host}
      (hsome : h.stepped? (.poll t bias) = some (t, before, b))
      (hbefore : h.execution? t = some before)
      (hafter : (before.step h t b).2.after before = some run) (ha : (before.step h t b).1.Aside k)
      (hf : k.Filed (h.apply (.poll t bias))) : ExecutionAfter h t run (.poll t bias)

theorem executionAfter (hn : h.Numbered) {e : Event} {t : Nat} {run : Execution}
    (hrun : (h.apply e).execution? t = some run) : h.ExecutionAfter t run e := by
  obtain ⟨task', ht, hexec'⟩ := Option.bind_eq_some_iff.1 hrun
  have hsame (hbefore : h.task? t = some task') : h.execution? t = some run := by
    rw [execution?, hbefore, Option.bind_some, hexec']
  cases task?_apply hn ht with
  | same hbefore => exact .same (hsame hbefore)
  | started call hnew hcall =>
    subst hcall
    cases call with
    | run job sink => exact .begun job (Option.some.inj hexec').symm
    | _ => cases hexec'
  | @polled bias task k r hbefore hs hf hr =>
    have hafter : r.execution? task = some run := by
      rw [← Poll.bind_task?, hr, Option.bind_some, hexec']
    have hstepped := task.stepped h t bias
    rw [hs] at hstepped
    cases hstepped with
    | aloof hm hexec hbegun hnone =>
      refine .same ?_
      rw [execution?, hbefore, Option.bind_some, ← hexec, hafter]
    | begun hm hnone hfresh job hstart =>
      exact .begun job (Option.some.inj (hafter.symm.trans hstart))
    | stepped before b hexec ha hstep hbegun hsome =>
      refine .stepped ?_ ?_ (hstep ▸ hafter) ha hf
      · rw [stepped?, hbefore, Option.bind_some, hsome, Option.map_some]
      · rw [execution?, hbefore, Option.bind_some, hexec]

/-- After an event, an execution is as it was before, or has just begun, or has had its turn. -/
theorem execution?_apply (hn : h.Numbered) {e : Event} {t : Nat} {run : Execution}
    (hrun : (h.apply e).execution? t = some run) :
    h.execution? t = some run ∨ (∃ job, run = .start job) ∨
      ∃ bias before k, e = .poll t bias ∧ h.execution? t = some before ∧
        before.Turn h t k (some run) ∧ k.Filed (h.apply e) := by
  cases executionAfter hn hrun with
  | same hsame => exact .inl hsame
  | begun job hstart => exact .inr (.inl ⟨job, hstart⟩)
  | @stepped bias b before k _ hbefore hafter ha hf =>
    have hturn := (before.turn h t b).thenAside ha
    rw [hafter] at hturn
    exact .inr (.inr ⟨bias, before, k, rfl, hbefore, hturn, hf⟩)

end Host

end SharedPrompt
