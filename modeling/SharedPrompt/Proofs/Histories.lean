import SharedPrompt.Proofs.Running

/-!
# The history of an errand

An execution looks up the prompt on top once, when it begins to take its permit, and looks up the
pipeline once more when it has the permit. Between the two it may wait for long. Every errand of a
thread goes back to these two moments of a run.
-/

namespace SharedPrompt

def Host.permitFor (h : Host) : Bool → Permit
  | false => ⟨h.stack.top.gate, none, false⟩
  | true => if h.engine.inProcess then ⟨h.stack.line.gate, some h.stack.top.gate, true⟩
    else ⟨h.stack.line.gate, none, true⟩

namespace Leasing

variable {h : Host} (me : Nat)

theorem goal?_choose (hline : h.stack.line.gate = 1) (readLine : Bool) :
    ∃ l, ((choose readLine).step h me).2 = .next l ∧ l.goal? 1 = some (h.permitFor readLine) := by
  cases readLine with
  | false => exact ⟨_, rfl, rfl⟩
  | true =>
    simp only [step, Host.permitFor, hline]
    split
    · exact ⟨_, rfl, rfl⟩
    · exact ⟨_, rfl, rfl⟩

/-- Once it has looked up the prompt, a lease goes where it was going. -/
theorem goal?_step (hline : h.stack.line.gate = 1) {l : Leasing} {p : Permit}
    (hp : l.goal? 1 = some p) :
    (l.step h me).2 = .blocked ∨ (∃ l', (l.step h me).2 = .next l' ∧ l'.goal? 1 = some p) ∨
      (l.step h me).2 = .done p := by
  have hgranted (gate : Nat) (purpose : Purpose) (hgoal : some (purpose.permit 1 gate) = some p) :
      (∃ l', purpose.granted 1 gate = .next l' ∧ l'.goal? 1 = some p) ∨
        purpose.granted 1 gate = .done p := by
    obtain rfl := Option.some.inj hgoal
    cases purpose with
    | command => exact .inr rfl
    | main => exact .inl ⟨_, rfl, rfl⟩
    | line held => exact .inr rfl
  cases l with
  | choose readLine => cases hp
  | ask g purpose =>
    simp only [step]
    split
    · rename_i k hjoin
      have hk : k.stack.line.gate = 1 := by
        rw [← (Prod.mk.inj hjoin).2]
        exact hline
      rw [hk]
      exact .inr (hgranted g purpose hp)
    · exact .inr (.inl ⟨_, rfl, hp⟩)
  | wait g w purpose =>
    simp only [step]
    split
    · rename_i k hcollect
      have hk : k.stack.line.gate = 1 := by
        obtain ⟨gate, -, rfl⟩ := Option.map_eq_some_iff.1 hcollect
        exact hline
      rw [hk]
      exact .inr (hgranted g purpose hp)
    · exact .inl rfl

end Leasing

/-! ## The two moments -/

/-- The permit that an execution is on its way to or has, and what for. -/
def Execution.goal? : Execution → Option (Permit × Job)
  | leasing l job => (l.goal? 1).map (·, job)
  | granted p job => some (p, job)
  | _ => none

/-- In a run of `past` from `h`, the task `t` looks up the prompt on top after `before`, and comes
to the permit `p` for a job. -/
structure Looked (h : Host) (past : List Event) (t : Nat) (p : Permit) (job : Job)
    (before : List Event) : Prop where
  within : ∃ bias, before ++ [.poll t bias] <+: past
  choosing : (h.run before).execution? t = some (.leasing (.choose job.options.readLine) job)
  permit : p = (h.run before).permitFor job.options.readLine

/-- In a run of `past` from `h`, the task `t` looks up the prompt on top after `looked`, and after
`sent` it looks up the pipeline and sends a thread on the errand `work`. -/
structure Sent (h : Host) (past : List Event) (work : Assignment) (t : Nat)
    (looked sent : List Event) : Prop where
  within : ∃ bias, sent ++ [.poll t bias] <+: past
  looked : Looked h sent t work.permit work.job looked
  granted : (h.run sent).execution? t = some (.granted work.permit work.job)
  pipeline : work.pipeline = (h.run sent).stack.currentPipeline work.job.options.readLine

theorem Looked.mono {h : Host} {past past' : List Event} {t : Nat} {p : Permit} {job : Job}
    {before : List Event} (hl : Looked h past t p job before) (hle : past <+: past') :
    Looked h past' t p job before where
  within := hl.within.imp fun _ hb => hb.trans hle
  choosing := hl.choosing
  permit := hl.permit

theorem Sent.mono {h : Host} {past past' : List Event} {work : Assignment} {t : Nat}
    {looked sent : List Event} (hs : Sent h past work t looked sent) (hle : past <+: past') :
    Sent h past' work t looked sent where
  within := hs.within.imp fun _ hb => hb.trans hle
  looked := hs.looked
  granted := hs.granted
  pipeline := hs.pipeline

theorem Host.run_cons (h : Host) (e : Event) (future : List Event) :
    h.run (e :: future) = (h.apply e).run future := rfl

theorem Host.run_append (h : Host) (past future : List Event) :
    h.run (past ++ future) = (h.run past).run future := List.foldl_append

theorem Host.run_concat (h : Host) (past : List Event) (e : Event) :
    h.run (past ++ [e]) = (h.run past).apply e := by
  simp [Host.run]

/-- What an execution is on its way to goes back to the moment when it looked up the prompt. -/
structure Execution.Explained (h : Host) (past : List Event) (t : Nat) (run : Execution) :
    Prop where
  choosing : ∀ readLine job, run = .leasing (.choose readLine) job → readLine = job.options.readLine
  goal : ∀ p job, run.goal? = some (p, job) → ∃ before, Looked h past t p job before

structure Chronicled (h : Host) (past : List Event) : Prop where
  executions : ∀ t run, (h.run past).execution? t = some run → run.Explained h past t
  errands : (h.run past).Shaped fun work => ∃ t looked sent, Sent h past work t looked sent

namespace Execution.Explained

variable {h : Host} {past : List Event} {t : Nat} {run : Execution}

/-- There is nothing to explain before an execution has looked up the prompt, nor when it is
sent. -/
theorem of_goal_eq_none (hchoosing : ∀ readLine job, run ≠ .leasing (.choose readLine) job)
    (hgoal : run.goal? = none) : run.Explained h past t where
  choosing readLine job heq := absurd heq (hchoosing readLine job)
  goal p job hp := by
    rw [hgoal] at hp
    cases hp

/-- An execution that goes where it was going when it looked up the prompt is explained by that. -/
theorem of_looked {p : Permit} {job : Job} {before : List Event} (hgoal : run.goal? = some (p, job))
    (hl : Looked h past t p job before) : run.Explained h past t where
  choosing readLine job' heq := by
    rw [heq] at hgoal
    cases hgoal
  goal p' job' hp := by
    rw [hgoal] at hp
    cases hp
    exact ⟨before, hl⟩

theorem mono (hexp : run.Explained h past t) {past' : List Event} (hle : past <+: past') :
    run.Explained h past' t :=
  ⟨hexp.choosing, fun p job hp => (hexp.goal p job hp).imp fun _ hl => hl.mono hle⟩

/-- What a step of a lease comes to is explained if the execution was. -/
theorem lease (hline : (h.run past).stack.line.gate = 1) {bias : List Bool} {l : Leasing}
    {job : Job} (hbefore : (h.run past).execution? t = some (.leasing l job))
    (hexp : Explained h past t (.leasing l job)) :
    Explained h (past ++ [.poll t bias]) t ((l.step (h.run past) t).2.afterLease l job) := by
  by_cases hchoose : ∃ readLine, l = .choose readLine
  · -- The prompt is looked up now.
    obtain ⟨readLine, rfl⟩ := hchoose
    obtain rfl := hexp.choosing _ _ rfl
    obtain ⟨l', hl', hgoal⟩ := Leasing.goal?_choose t hline job.options.readLine
    rw [hl']
    exact of_looked (by simp [Poll.afterLease, goal?, hgoal])
      ⟨⟨bias, List.prefix_rfl⟩, hbefore, rfl⟩
  · obtain ⟨p, hp⟩ : ∃ p, l.goal? 1 = some p := by
      cases l with
      | choose readLine => exact absurd ⟨readLine, rfl⟩ hchoose
      | ask g purpose => exact ⟨_, rfl⟩
      | wait g w purpose => exact ⟨_, rfl⟩
    obtain ⟨looked, hlooked⟩ := hexp.goal p job (by simp [goal?, hp])
    refine of_looked ?_ (hlooked.mono (List.prefix_append past [.poll t bias]))
    rcases Leasing.goal?_step t hline hp with hl' | ⟨l', hl', hgoal⟩ | hl'
    · simp [hl', Poll.afterLease, goal?, hp]
    · simp [hl', Poll.afterLease, goal?, hgoal]
    · simp [hl', Poll.afterLease, goal?]

/-- What a turn of an execution comes to is explained if the execution was. -/
theorem turn (hline : (h.run past).stack.line.gate = 1) {bias : List Bool} {before : Execution}
    {k : Host} (hbefore : (h.run past).execution? t = some before)
    (hexp : before.Explained h past t) (hturn : before.Turn (h.run past) t k (some run)) :
    run.Explained h (past ++ [.poll t bias]) t := by
  generalize hafter : some run = after at hturn
  cases hturn with
  | giveUp l job hk ha => cases hafter
  | dispatch permit job ha =>
    cases hafter
    exact of_goal_eq_none (fun _ _ heq => by cases heq) rfl
  | aside ha hw =>
    cases hw with
    | ended => cases hafter
    | same =>
      cases hafter
      exact hexp.mono (List.prefix_append _ _)
    | park job =>
      cases hafter
      exact of_goal_eq_none (fun _ _ heq => by cases heq) rfl
    | lease job =>
      cases hafter
      refine ⟨fun readLine job' heq => ?_, fun p job' hp => ?_⟩
      · cases heq
        rfl
      · cases hp
    | idle call call' token =>
      cases hafter
      exact of_goal_eq_none (fun _ _ heq => by cases heq) rfl
  | lease l job ha =>
    cases hafter
    exact hexp.lease hline hbefore

end Execution.Explained

namespace Chronicled

variable {h : Host} {past : List Event}

/-- One more event: what is under way afterwards goes back to the run so far. -/
theorem concat (hc : Chronicled h past) (hk : (h.run past).WellKept) (e : Event) :
    Chronicled h (past ++ [e]) where
  executions t run hrun := by
    rw [h.run_concat] at hrun
    rcases Host.execution?_apply hk.numbered hrun with
      hsame | ⟨job, rfl⟩ | ⟨bias, before, k, rfl, hbefore, hturn, -⟩
    · exact (hc.executions t run hsame).mono (List.prefix_append _ _)
    · exact .of_goal_eq_none (fun _ _ heq => by cases heq) rfl
    · exact (hc.executions t before hbefore).turn hk.balanced.books.sound.line hbefore hturn
  errands := by
    rw [h.run_concat]
    have hbefore : (h.run past).Shaped fun work =>
        ∃ t looked sent, Sent h (past ++ [e]) work t looked sent :=
      fun t ht => (hc.errands t ht).mono fun work hw => by
        obtain ⟨u, looked, sent, hs⟩ := hw
        exact ⟨u, looked, sent, hs.mono (List.prefix_append _ _)⟩
    refine hbefore.apply hk.numbered e fun t bias permit job he hexec => ?_
    subst he
    obtain ⟨looked, hlooked⟩ := (hc.executions t _ hexec).goal permit job rfl
    exact ⟨t, looked, past, ⟨⟨bias, List.prefix_rfl⟩, hlooked, hexec, rfl⟩⟩

/-- In every run of a host that has just been taken into use, whatever is under way goes back to
it. -/
theorem run (hk : h.WellKept) (htasks : h.tasks = []) (hthreads : h.threads = [])
    (past : List Event) : Chronicled h past := by
  induction past using List.reverseRecOn with
  | nil =>
    refine ⟨fun t run hrun => ?_, fun t ht => ?_⟩
    · have hnone : h.execution? t = none := by
        rw [Host.execution?, Host.task?, htasks]
        rfl
      rw [show h.run [] = h from rfl, hnone] at hrun
      cases hrun
    · rw [show h.run [] = h from rfl, hthreads] at ht
      cases ht
  | append_singleton past e ih => exact ih.concat (hk.run past) e

theorem established (native follows : Bool) (engine : Engine) (console : Console Waiter)
    (past : List Event) :
    Chronicled (Host.established native follows engine console) past :=
  have hcalls := Host.sameCalls_established native follows engine console
  run (Host.WellKept.established native follows engine console) hcalls.tasks hcalls.threads past

end Chronicled

end SharedPrompt
