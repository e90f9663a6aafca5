import SharedPrompt.Proofs.Histories
import SharedPrompt.Proofs.OnePrompt

/-!
# Arriving at the bottom prompt

In its first poll an execution looks up the prompt on top and asks at its gate, where it takes the
ticket or joins the line. With that it has arrived. Each arrival draws a turn, and later ones draw
later turns.
-/

namespace SharedPrompt

/-- What `f` notes at the events of a run, oldest first. -/
def Host.during {α : Type} (f : Host → Event → Option α) : Host → List Event → List α
  | _, [] => []
  | h, e :: rest => (f h e).toList ++ during f (h.apply e) rest

theorem Host.during_append {α : Type} (f : Host → Event → Option α) (h : Host)
    (past future : List Event) :
    h.during f (past ++ future) = h.during f past ++ (h.run past).during f future := by
  induction past generalizing h with
  | nil => rfl
  | cons d rest ih =>
    rw [List.cons_append, during, during, ih, List.append_assoc]
    rfl

theorem Host.during_concat {α : Type} (f : Host → Event → Option α) (h : Host) (past : List Event)
    (e : Event) : h.during f (past ++ [e]) = h.during f past ++ (f (h.run past) e).toList := by
  rw [h.during_append, during, during, List.append_nil]

/-- What is noted is noted at an event of the run. -/
theorem Host.exists_of_mem_during {α : Type} {f : Host → Event → Option α} {h : Host}
    {past : List Event} {a : α} (ha : a ∈ h.during f past) :
    ∃ before e, before ++ [e] <+: past ∧ f (h.run before) e = some a := by
  induction past using List.reverseRecOn with
  | nil => cases ha
  | append_singleton past e ih =>
    rw [during_concat, List.mem_append, Option.mem_toList] at ha
    rcases ha with ha | ha
    · obtain ⟨before, e', hle, ha⟩ := ih ha
      exact ⟨before, e', hle.trans (List.prefix_append _ _), ha⟩
    · exact ⟨past, e, List.prefix_rfl, ha⟩

def Purpose.isLine : Purpose → Bool
  | line _ => true
  | _ => false

def Execution.hasAsked : Execution → Bool
  | leasing (.ask _ purpose) _ => purpose.isLine
  | leasing (.wait _ _ _) _ => true
  | granted _ _ => true
  | running _ => true
  | _ => false

theorem Execution.hasAsked_of_owns {run : Execution} (howns : run.owns = true) :
    run.hasAsked = true := by
  unfold owns at howns
  split at howns
  · rfl
  · rfl
  · rfl
  · cases howns

/-! ## A turn of an execution -/

/-- What a turn of an execution comes to for its place at the bottom prompt. -/
inductive Execution.Progress (h : Host) (t : Nat) (before : Execution) (k : Host)
    (run : Execution) : Prop where
  | unasked (hbefore : before.hasAsked = false) (hrun : run.hasAsked = false)
  | same (hrun : run = before)
  | joined (purpose : Purpose) (job : Job) (hpurpose : purpose.isLine = false)
      (hbefore : before = .leasing (.ask 0 purpose) job)
      (hrun : run = .leasing (.wait 0 ⟨t, h.nextTurn⟩ purpose) job)
      (hturn : h.nextTurn < k.nextTurn)
  | taken (hbefore : before.hasAsked = false) (hrun : run.owns = true)
      (hline : (k.stack.gate 0).line = []) (hturn : h.nextTurn < k.nextTurn)
  | collected (w : Waiter) (purpose : Purpose) (job : Job) (hpurpose : purpose.isLine = false)
      (hbefore : before = .leasing (.wait 0 w purpose) job) (hrun : run.owns = true)
      (hw : w ∈ (h.stack.gate 0).line) (hline : ∀ v ∈ (k.stack.gate 0).line, w.turn < v.turn)
  | onward (hbefore : before.owns = true) (hrun : run.owns = true)
  | sent (permit : Permit) (job : Job) (hbefore : before = .granted permit job)
      (hrun : run = .running h.replies.length) (hthread : h.nextThread < k.nextThread)

namespace Execution

variable {h k : Host} {t : Nat} {before run : Execution}

/-- The ticket of the prompt, and then that of the line prompt, leave an execution in possession. -/
private theorem owns_granted (l : Leasing) (line g : Nat) (purpose : Purpose) (job : Job) :
    ((purpose.granted line g).afterLease l job).owns = true := by
  cases purpose <;> rfl

private theorem prompt_permit {purpose : Purpose} (hpurpose : purpose.isLine = false)
    (line g : Nat) : (purpose.permit line g).prompt = g := by
  cases purpose with
  | line held => cases hpurpose
  | _ => rfl

private theorem owns_of_isLine {purpose : Purpose} (hpurpose : purpose.isLine = true) (g : Nat)
    (w : Waiter) (job : Job) :
    owns (.leasing (.ask g purpose) job) = true ∧
      owns (.leasing (.wait g w purpose) job) = true := by
  cases purpose with
  | line held => exact ⟨rfl, rfl⟩
  | _ => cases hpurpose

theorem progress_ask (hs : h.Single) {g : Nat} {purpose : Purpose} {job : Job}
    (hbefore : h.execution? t = some (.leasing (.ask g purpose) job))
    (ha : ((Leasing.ask g purpose).step h t).1.Aside k) :
    Progress h t (.leasing (.ask g purpose) job) k
      (((Leasing.ask g purpose).step h t).2.afterLease (.ask g purpose) job) := by
  cases hpurpose : purpose.isLine with
  | true =>
    refine .onward (owns_of_isLine hpurpose g default job).1 ?_
    simp only [Leasing.step]
    split
    · exact owns_granted _ _ _ _ job
    · exact (owns_of_isLine hpurpose g _ job).2
  | false =>
    have hmem := Host.mem_parts_of_leasing hbefore
    have hlt := (hs.kept.balanced.known _ hmem).asked g rfl
    obtain rfl := hs.gate_eq_zero hmem rfl (prompt_permit hpurpose 1 g) hlt
    have hgate := hs.kept.balanced.books.gates 0
    rcases hjoin : (h.stack.gate 0).join ⟨t, h.nextTurn⟩ with ⟨taken, gate⟩
    simp only [Leasing.step, Host.drawTurn, Host.joinGate, hjoin] at ha ⊢
    cases taken with
    | false => exact .joined purpose job hpurpose rfl rfl ha.turns
    | true =>
      refine .taken hpurpose (owns_granted _ _ _ _ job) ?_ ha.turns
      have hline := hgate.line_of_join (w := ⟨t, h.nextTurn⟩) (by rw [hjoin])
      rw [hjoin] at hline
      rw [ha.stack, PromptStack.gate_modifyGate_self _ hlt]
      exact hline

theorem progress_wait (hs : h.Single) {g : Nat} {w : Waiter} {purpose : Purpose} {job : Job}
    (hbefore : h.execution? t = some (.leasing (.wait g w purpose) job))
    (ha : ((Leasing.wait g w purpose).step h t).1.Aside k) :
    Progress h t (.leasing (.wait g w purpose) job) k
      (((Leasing.wait g w purpose).step h t).2.afterLease (.wait g w purpose) job) := by
  rcases hcollect : h.collectGate? g w with - | h'
  · simp only [Leasing.step, hcollect]
    exact .same rfl
  · simp only [Leasing.step, hcollect] at ha ⊢
    cases hpurpose : purpose.isLine with
    | true => exact .onward (owns_of_isLine hpurpose g w job).2 (owns_granted _ _ _ _ job)
    | false =>
      have hmem := Host.mem_parts_of_leasing hbefore
      have hlt := hs.kept.balanced.books.lt_of_placed
        (Part.placed_pos g w hmem (List.mem_singleton_self _))
      obtain rfl := hs.gate_eq_zero hmem rfl (prompt_permit hpurpose 1 g) hlt
      obtain ⟨gate, hgate, rfl⟩ := Option.map_eq_some_iff.1 hcollect
      obtain ⟨hw, hline⟩ := (hs.kept.balanced.books.gates 0).line_of_collect hgate
      refine .collected w purpose job hpurpose rfl (owns_granted _ _ _ _ job) hw ?_
      rw [ha.stack, PromptStack.gate_modifyGate_self _ hlt]
      exact hline

/-- A turn of an execution goes on towards the prompt or away from it. -/
theorem Turn.progress (hs : h.Single) (hbefore : h.execution? t = some before)
    (ht : before.Turn h t k (some run)) : Progress h t before k run := by
  generalize hafter : some run = after at ht
  cases ht with
  | giveUp l job hk ha => cases hafter
  | dispatch permit job ha =>
    cases hafter
    refine .sent permit job rfl rfl ?_
    rw [ha.nextThread]
    exact Nat.lt_succ_self _
  | aside ha hw =>
    cases hw with
    | ended => cases hafter
    | same => exact .same (Option.some.inj hafter)
    | _ =>
      cases hafter
      exact .unasked rfl rfl
  | lease l job ha =>
    cases hafter
    cases l with
    | choose readLine =>
      refine .unasked rfl ?_
      cases readLine with
      | false => rfl
      | true =>
        simp only [Leasing.step, hs.inProcess, if_true]
        rfl
    | ask g purpose => exact progress_ask hs hbefore ha
    | wait g w purpose => exact progress_wait hs hbefore ha

end Execution

/-! ## The arrivals of a run -/

namespace Host

def arrival? (h : Host) : Event → Option Waiter
  | .poll t bias =>
    if (h.execution? t).any (!·.hasAsked) &&
        ((h.apply (.poll t bias)).execution? t).any (·.hasAsked) then
      some ⟨t, h.nextTurn⟩
    else none
  | _ => none

def arrivals (h : Host) (past : List Event) : List Waiter := h.during arrival? past

variable {h : Host}

theorem arrival?_eq_some {e : Event} {w : Waiter} (harrival : h.arrival? e = some w) :
    w.turn = h.nextTurn ∧ (∃ bias, e = .poll w.task bias) ∧
      (∃ before, h.execution? w.task = some before ∧ before.hasAsked = false) ∧
      ∃ run, (h.apply e).execution? w.task = some run ∧ run.hasAsked = true := by
  cases e with
  | poll t bias =>
    simp only [arrival?] at harrival
    split at harrival
    · rename_i hasked
      cases harrival
      rw [Bool.and_eq_true, Option.any_eq_true, Option.any_eq_true] at hasked
      obtain ⟨⟨before, hbefore, hnot⟩, run, hrun, hasked⟩ := hasked
      exact ⟨rfl, ⟨bias, rfl⟩, ⟨before, hbefore, by simpa using hnot⟩, run, hrun, hasked⟩
    · cases harrival
  | _ => cases harrival

theorem arrival?_poll {t : Nat} {bias : List Bool} {before run : Execution}
    (hbefore : h.execution? t = some before) (hnot : before.hasAsked = false)
    (hrun : (h.apply (.poll t bias)).execution? t = some run) (hasked : run.hasAsked = true) :
    h.arrival? (.poll t bias) = some ⟨t, h.nextTurn⟩ := by
  simp [arrival?, hbefore, hnot, hrun, hasked]

/-- With an arrival a turn is drawn. -/
theorem nextTurn_lt_of_arrival (hs : h.Single) {e : Event} {w : Waiter}
    (harrival : h.arrival? e = some w) : h.nextTurn < (h.apply e).nextTurn := by
  obtain ⟨-, -, ⟨before, hbefore, hnot⟩, run, hrun, hasked⟩ := arrival?_eq_some harrival
  rcases execution?_apply hs.kept.numbered hrun with
    hsame | ⟨job, rfl⟩ | ⟨bias, before', k, -, hbefore', hturn, hf⟩
  · obtain rfl := Option.some.inj (hbefore.symm.trans hsame)
    rw [hnot] at hasked
    cases hasked
  · cases hasked
  · obtain rfl := Option.some.inj (hbefore.symm.trans hbefore')
    rw [hf.nextTurn]
    cases hturn.progress hs hbefore with
    | unasked _ hnow => rw [hnow] at hasked; cases hasked
    | same heq => rw [heq, hnot] at hasked; cases hasked
    | joined purpose job _ _ _ hlt => exact hlt
    | taken _ _ _ hlt => exact hlt
    | collected w purpose job _ heq => rw [heq] at hnot; cases hnot
    | onward howns _ => rw [Execution.hasAsked_of_owns howns] at hnot; cases hnot
    | sent permit job heq => rw [heq] at hnot; cases hnot

theorem lt_nextTask (hn : h.Numbered) {t : Nat} {task : Task} (ht : h.task? t = some task) :
    t < h.nextTask :=
  hn.owners_lt t (List.mem_append_left _ (List.mem_map_of_mem (mem_of_lookup ht)))

/-- A task has come to its execution and will come to no other. While it is in it, `Q` holds. -/
structure Past (h : Host) (t : Nat) (Q : Execution → Prop) : Prop where
  old : t < h.nextTask
  begun : ∀ task, h.task? t = some task →
    task.hasBegun = true ∧ ∀ run, task.execution? = some run → Q run

namespace Past

variable {t : Nat} {Q : Execution → Prop}

theorem of_execution (hn : h.Numbered) {run : Execution} (hrun : h.execution? t = some run)
    (hq : Q run) : h.Past t Q := by
  obtain ⟨task, ht, hexec⟩ := Option.bind_eq_some_iff.1 hrun
  refine ⟨lt_nextTask hn ht, fun task' ht' => ?_⟩
  obtain rfl := Option.some.inj (ht.symm.trans ht')
  refine ⟨Task.hasBegun_of_execution? hexec, fun run' hrun' => ?_⟩
  rwa [← Option.some.inj (hexec.symm.trans hrun')]

theorem execution (hp : h.Past t Q) {run : Execution} (hrun : h.execution? t = some run) :
    Q run := by
  obtain ⟨task, ht, hexec⟩ := Option.bind_eq_some_iff.1 hrun
  exact (hp.begun task ht).2 run hexec

/-- It stays so if a step of the execution keeps `Q`. -/
theorem apply (hp : h.Past t Q) (hn : h.Numbered)
    (hq : ∀ before run b, h.execution? t = some before → Q before →
      (before.step h t b).2.after before = some run → Q run) (e : Event) :
    (h.apply e).Past t Q := by
  refine ⟨hp.old.trans_le (h.grows_apply e).nextTask, fun task' ht' => ?_⟩
  cases task?_apply hn ht' with
  | same ht => exact hp.begun task' ht
  | started call hnew _ => exact absurd hp.old (by omega)
  | @polled bias task k r ht hs hf hr =>
    have hstep := task.stepped h t bias
    rw [hs] at hstep
    obtain ⟨hbegun, hbefore⟩ := hp.begun task ht
    have hexec : r.execution? task = task'.execution? := by
      rw [← Poll.bind_task?, hr, Option.bind_some]
    have hafter : r.hasBegun task = task'.hasBegun := by
      cases r with
      | done a => cases hr
      | _ => cases hr; rfl
    cases hstep with
    | aloof hm hsame hkeep =>
      refine ⟨hafter ▸ hkeep hbegun, fun run hrun => hbefore run ?_⟩
      rw [← hsame, hexec, hrun]
    | begun hm hnone hfresh job hstart =>
      rw [hbegun] at hfresh
      cases hfresh
    | stepped before b hwas ha hturn hkeep =>
      refine ⟨hafter ▸ hkeep, fun run hrun => ?_⟩
      refine hq before run b ?_ (hbefore before hwas) ?_
      · rw [execution?, ht, Option.bind_some, hwas]
      · rw [← hturn, hexec, hrun]

end Past

/-- An execution that has asked goes on as one that has. -/
theorem Past.asked {t : Nat} (hp : h.Past t (·.hasAsked = true)) (hs : h.Single) (e : Event) :
    (h.apply e).Past t (·.hasAsked = true) := by
  refine hp.apply hs.kept.numbered (fun before run b hbefore hasked hrun => ?_) e
  have hturn := before.turn h t b
  rw [hrun] at hturn
  cases hturn.progress hs hbefore with
  | unasked hnot _ => rw [hasked] at hnot; cases hnot
  | same heq => rwa [heq]
  | joined purpose job hpurpose _ heq => rw [heq]; rfl
  | taken _ howns => exact Execution.hasAsked_of_owns howns
  | collected w purpose job hpurpose _ howns => exact Execution.hasAsked_of_owns howns
  | onward _ howns => exact Execution.hasAsked_of_owns howns
  | sent permit job _ heq => rw [heq]; rfl

end Host

/-- Arrivals draw ever later turns, nobody arrives twice, and whoever waits at the bottom has
arrived. -/
structure Arrived (h : Host) (past : List Event) : Prop where
  sorted : (h.arrivals past).Pairwise fun v w => v.turn < w.turn
  recent : ∀ w ∈ h.arrivals past, w.turn < (h.run past).nextTurn
  once : ((h.arrivals past).map Waiter.task).Nodup
  gone : ∀ w ∈ h.arrivals past, (h.run past).Past w.task (·.hasAsked = true)
  waiting : ∀ t g w purpose job,
    (h.run past).execution? t = some (.leasing (.wait g w purpose) job) →
    purpose.isLine = false → w ∈ h.arrivals past ∧ w.task = t

namespace Arrived

variable {h : Host} {past : List Event}

theorem arrivals_concat (h : Host) (past : List Event) (e : Event) :
    h.arrivals (past ++ [e]) = h.arrivals past ++ ((h.run past).arrival? e).toList :=
  h.during_concat _ past e

theorem mem_concat {e : Event} {w : Waiter} :
    w ∈ h.arrivals (past ++ [e]) ↔ w ∈ h.arrivals past ∨ (h.run past).arrival? e = some w := by
  rw [arrivals_concat, List.mem_append, Option.mem_toList]

/-- Whoever arrives has not asked before, unlike those who have arrived. -/
theorem once_concat (ha : Arrived h past) (e : Event) :
    ((h.arrivals (past ++ [e])).map Waiter.task).Nodup := by
  rw [arrivals_concat, List.map_append, List.nodup_append]
  refine ⟨ha.once, ?_, fun t ht u hu heq => ?_⟩
  · cases (h.run past).arrival? e <;> simp
  · obtain ⟨v, hv, rfl⟩ := List.mem_map.1 ht
    obtain ⟨w, hw, rfl⟩ := List.mem_map.1 hu
    obtain ⟨-, -, ⟨before, hbefore, hnot⟩, -⟩ := Host.arrival?_eq_some (Option.mem_toList.1 hw)
    rw [← heq] at hbefore
    rw [(ha.gone v hv).execution hbefore] at hnot
    cases hnot

/-- Whoever waits after an event waited before, or arrives with it. -/
theorem waiting_concat (ha : Arrived h past) (hs : (h.run past).Single) (e : Event) (t g : Nat)
    (w : Waiter) (purpose : Purpose) (job : Job)
    (hrun : (h.run (past ++ [e])).execution? t = some (.leasing (.wait g w purpose) job))
    (hpurpose : purpose.isLine = false) : w ∈ h.arrivals (past ++ [e]) ∧ w.task = t := by
  rw [h.run_concat] at hrun
  have hold (hbefore : (h.run past).execution? t = some (.leasing (.wait g w purpose) job)) :
      w ∈ h.arrivals (past ++ [e]) ∧ w.task = t :=
    (ha.waiting t g w purpose job hbefore hpurpose).imp_left fun hw => mem_concat.2 (.inl hw)
  have howns : Execution.owns (.leasing (.wait g w purpose) job) ≠ true := by
    cases purpose with
    | line held => cases hpurpose
    | _ => exact Bool.false_ne_true
  rcases Host.execution?_apply hs.kept.numbered hrun with
    hsame | ⟨job', heq⟩ | ⟨bias, before, k, rfl, hbefore, hturn, -⟩
  · exact hold hsame
  · cases heq
  · cases hturn.progress hs hbefore with
    | unasked _ hnow => cases hnow
    | same heq => exact hold (heq ▸ hbefore)
    | joined purpose' job' hpurpose' heq hwait =>
      cases hwait
      rw [heq] at hbefore
      exact ⟨mem_concat.2 (.inr (Host.arrival?_poll hbefore hpurpose hrun rfl)), rfl⟩
    | taken _ hnow => exact absurd hnow howns
    | collected _ _ _ _ _ hnow => exact absurd hnow howns
    | onward _ hnow => exact absurd hnow howns
    | sent _ _ _ heq => cases heq

theorem concat (ha : Arrived h past) (hs : (h.run past).Single) (e : Event)
    (hk : (h.run (past ++ [e])).WellKept) : Arrived h (past ++ [e]) where
  sorted := by
    rw [arrivals_concat, List.pairwise_append]
    refine ⟨ha.sorted, ?_, fun v hv w hw => ?_⟩
    · cases (h.run past).arrival? e <;> simp
    · rw [(Host.arrival?_eq_some (Option.mem_toList.1 hw)).1]
      exact ha.recent v hv
  recent w hw := by
    rw [h.run_concat]
    rcases mem_concat.1 hw with hw | hw
    · exact (ha.recent w hw).trans_le ((h.run past).grows_apply e).nextTurn
    · rw [(Host.arrival?_eq_some hw).1]
      exact Host.nextTurn_lt_of_arrival hs hw
  once := ha.once_concat e
  gone w hw := by
    rw [h.run_concat] at hk ⊢
    rcases mem_concat.1 hw with hw | hw
    · exact (ha.gone w hw).asked hs e
    · obtain ⟨-, -, -, run, hrun, hasked⟩ := Host.arrival?_eq_some hw
      exact .of_execution hk.numbered hrun hasked
  waiting := ha.waiting_concat hs e

theorem nil (htasks : h.tasks = []) : Arrived h [] where
  sorted := .nil
  recent w hw := absurd hw List.not_mem_nil
  once := .nil
  gone w hw := absurd hw List.not_mem_nil
  waiting t g w purpose job hrun := by
    rw [show h.run [] = h from rfl, Host.execution?, Host.task?, htasks] at hrun
    cases hrun

end Arrived

end SharedPrompt
