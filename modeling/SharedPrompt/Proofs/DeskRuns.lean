import SharedPrompt.Proofs.Arrivals
import SharedPrompt.Proofs.AtDesk

/-!
# Every run keeps the desk in order

With the stakes of all tasks and the affairs of all threads the desk is in order, whatever happens
to the host, as what has been noted in the run tells.
-/

namespace SharedPrompt

namespace Host

def notes (h : Host) (past : List Event) : List Note := h.during note? past

theorem notes_concat (h : Host) (past : List Event) (e : Event) :
    h.notes (past ++ [e]) = h.notes past ++ ((h.run past).note? e).toList :=
  h.during_concat _ past e

/-- What has been noted stays noted. -/
theorem notes_mono (h : Host) {past all : List Event} (hle : past <+: all) :
    h.notes past <+: h.notes all := by
  obtain ⟨future, rfl⟩ := hle
  exact ⟨_, (h.during_append _ past future).symm⟩

end Host

/-- What tasks and threads do at the desk, whatever it is, keeps `I`. -/
structure Lasting (I : Host → Multiset Stake → Multiset Affair → List Note → Prop) : Prop where
  task : ∀ {me h h' s s' d log}, Dealt me (h, s) (h', s') d → I h s h.affairs log →
    I h' s' h'.affairs (log ++ d.toList)
  thread : ∀ {h h' s a a' d log}, Handled (h, a) (h', a') d → I h s a log →
    I h' s a' (log ++ d.toList)
  /-- Of the threads only their affairs matter. -/
  threads : ∀ {h : Host} {s a log} (threads : List Thread) (nextThread : Nat), I h s a log →
    I { h with threads, nextThread } s a log

namespace Host

def Bears (I : Host → Multiset Stake → Multiset Affair → List Note → Prop) (h : Host)
    (log : List Note) : Prop :=
  I h ↑h.stakes h.affairs log

/-! ## Events that pass the desk by -/

variable (h : Host)

theorem desk_teardown : h.teardown.desk = h.desk := by
  have hfold (k : Host) (l : List Nat) : (l.foldl (fun h _ =>
      h.notice (.resubscribeFailed (.subscribe "idle" Engine.injected))) k).desk = k.desk := by
    induction l generalizing k with
    | nil => rfl
    | cons s rest ih => exact ih _
  exact hfold _ _

/-- An event that concerns no call passes the desk by. -/
theorem offDesk_apply {e : Event} (he : e.isPlain = true) : h.OffDesk (h.apply e) := by
  refine (h.grows_apply e).offDesk ?_
  have hcreate := h.desk_createPipeline .nested
  cases e with
  | poll task bias => cases he
  | advance thread => cases he
  | start call => cases he
  | drop task => cases he
  | release owner => cases he
  | idle => cases he
  | pushLeased debugger => cases he
  | fire token => exact h.desk_fireToken token
  | key k => exact desk_wakeWaiter _ _
  | teardown => exact h.desk_teardown
  | enter kind => exact h.desk_enterPrompt kind
  | leave => exact h.desk_leavePrompt
  | push debugger =>
    simp only [apply, pushPrompt]
    split <;> rename_i hr <;> rw [hr] at hcreate <;> exact hcreate
  | lock pipeline =>
    simp only [apply]
    split <;> rfl
  | _ => rfl

theorem offDesk_releaseOwned (owner : Nat) : h.OffDesk (h.releaseOwned owner) := by
  refine (h.grows_apply (.release owner)).offDesk ?_
  simp only [apply, releaseOwned]
  split
  · exact desk_releasePermit _ _
  · rfl

theorem tasks_releaseOwned (owner : Nat) : (h.releaseOwned owner).tasks = h.tasks := by
  simp only [releaseOwned]
  split
  · exact (sameCalls_releasePermit _ _).tasks
  · rfl

theorem offDesk_pushLeasedPrompt (debugger : Bool) :
    h.OffDesk (h.pushLeasedPrompt debugger).2 := by
  refine (h.grows_apply (.pushLeased debugger)).offDesk ?_
  have hcreate := h.desk_createPipeline .nested
  simp only [apply, pushLeasedPrompt]
  split <;> rename_i hr <;> rw [hr] at hcreate <;> exact hcreate

theorem tasks_pushLeasedPrompt (debugger : Bool) :
    (h.pushLeasedPrompt debugger).2.tasks = h.tasks := by
  have hcreate : (h.createPipeline .nested).2.tasks = h.tasks := rfl
  simp only [pushLeasedPrompt]
  split <;> rename_i hr <;> rw [hr] at hcreate <;> exact hcreate

variable {h}

/-! ## The stakes of tasks -/

def otherStakes (h : Host) (t : Nat) : List Stake := (h.removeTask t).stakes

theorem stakes_split (hn : h.Numbered) {t : Nat} {task : Task} (ht : h.task? t = some task) :
    (↑h.stakes : Multiset Stake) = ↑(task.stakes t) + ↑(h.otherStakes t) ∧
      ∀ task', (↑(h.setTask t task').stakes : Multiset Stake) =
        ↑(task'.stakes t) + ↑(h.otherStakes t) := by
  obtain ⟨pre, post, hsplit, hset, hremove⟩ := hn.split_task ht
  have hperm (task : Task) :
      ((pre ++ (t, task) :: post).flatMap fun t => t.2.stakes t.1).Perm
        (task.stakes t ++ (pre ++ post).flatMap fun t => t.2.stakes t.1) := by
    simp only [List.flatMap_append, List.flatMap_cons]
    exact List.perm_append_comm_assoc _ _ _
  refine ⟨?_, fun task' => ?_⟩
  · rw [otherStakes, stakes, stakes, hremove, hsplit, Multiset.coe_add]
    exact Multiset.coe_eq_coe.2 (hperm task)
  · rw [otherStakes, stakes, stakes, hremove, hset, Multiset.coe_add]
    exact Multiset.coe_eq_coe.2 (hperm task')

theorem otherStakes_of_tasks {k : Host} (htasks : k.tasks = h.tasks) (t : Nat) :
    k.otherStakes t = h.otherStakes t := by
  rw [otherStakes, otherStakes, removeTask, removeTask, stakes, stakes, htasks]

/-- The stakes after a task has been polled. -/
theorem stakes_afterPoll {k : Host} (hn : k.Numbered) {t : Nat} {task : Task}
    (ht : k.task? t = some task) (r : Poll Task TaskResult) :
    (↑(k.afterPoll t r).stakes : Multiset Stake) =
      ↑(r.stakes (task.stakes t) (Task.stakes t)) + ↑(k.otherStakes t) := by
  cases r with
  | blocked => exact (stakes_split hn ht).1
  | next task' => exact (stakes_split hn ht).2 task'
  | done r => cases r <;> exact (zero_add _).symm

end Host

/-! ## What lasts -/

namespace Lasting

variable {I : Host → Multiset Stake → Multiset Affair → List Note → Prop} {h h' : Host}
  {log : List Note}

theorem offDesk (hI : Lasting I) {s : Multiset Stake} (hi : I h s h.affairs log)
    (ho : h.OffDesk h') : I h' s h'.affairs log := by
  have hdealt : Dealt 0 (h, s) (h', s) none := .off s ho
  have hoff := hI.task hdealt hi
  rwa [Option.toList_none, List.append_nil] at hoff

theorem off (hI : Lasting I) (hi : h.Bears I log) (ho : h.OffDesk h')
    (htasks : h'.tasks = h.tasks) : h'.Bears I log := by
  rw [Host.Bears, Host.stakes, htasks]
  exact hI.offDesk hi ho

theorem poll (hI : Lasting I) (hi : h.Bears I log) (hn : h.Numbered) {t : Nat} {bias : List Bool}
    {task : Task} (ht : h.task? t = some task) {k : Host} {r : Poll Task TaskResult}
    (hs : task.step h t bias = (k, r)) :
    (k.afterPoll t r).Bears I (log ++ (task.note? h t bias).toList) := by
  have hspawns := (task.step_moves h t 0 bias).spawns
  have hdealt := task.step_dealt h t ↑(h.otherStakes t) bias
  rw [hs] at hspawns hdealt
  rw [Host.Bears, (Host.stakes_split hn ht).1] at hi
  have hk := hI.task hdealt hi
  have ht' : k.task? t = some task := by rwa [Host.task?, hspawns.tasks]
  rw [← Host.otherStakes_of_tasks hspawns.tasks,
    ← Host.stakes_afterPoll (hspawns.numbered hn) ht' r] at hk
  exact hI.offDesk hk (k.filed_afterPoll t r).offDesk

theorem drop (hI : Lasting I) (hi : h.Bears I log) (hn : h.Numbered) {t : Nat} {task : Task}
    (ht : h.task? t = some task) : ((task.abandon h t).removeTask t).Bears I log := by
  rw [Host.Bears, (Host.stakes_split hn ht).1] at hi
  have hdealt := task.abandon_dealt h t ↑(h.otherStakes t)
  have hkept (b : Host × Multiset Stake)
      (hb : Relation.ReflTransGen (DealtOff t) (h, ↑(task.stakes t) + ↑(h.otherStakes t)) b) :
      I b.1 b.2 b.1.affairs log := by
    induction hb with
    | refl => exact hi
    | tail _ hlast ih => simpa using hI.task hlast ih
  have hk := hkept _ hdealt
  rw [← Host.otherStakes_of_tasks (task.abandon_moves h t 0).moves.spawns.tasks] at hk
  exact hI.offDesk hk ⟨rfl, le_rfl⟩

theorem start (hI : Lasting I) (hi : h.Bears I log) (call : Start) :
    ((h.addTask call.task).wake h.nextTask).Bears I log := by
  have ho : h.OffDesk ((h.addTask call.task).wake h.nextTask) :=
    ⟨Host.desk_wake _ _, ((h.addTask call.task).aside_wake h.nextTask).turns⟩
  have hstakes : (↑((h.addTask call.task).wake h.nextTask).stakes : Multiset Stake) =
      ↑(call.task.stakes h.nextTask) + ↑h.stakes := by
    rw [add_comm, Host.stakes, (Host.aside_wake _ _).tasks, Host.addTask, Multiset.coe_add]
    simp [Host.stakes]
  rw [Host.Bears, hstakes]
  cases call with
  | idle job sink =>
    have hdealt : Dealt h.nextTask _ _ _ := .opened ↑h.stakes job ho
    have hopened := hI.task hdealt hi
    rwa [Option.toList_none, List.append_nil] at hopened
  | _ => exact (zero_add (↑h.stakes : Multiset Stake)).symm ▸ hI.offDesk hi ho

theorem advance (hI : Lasting I) (hi : h.Bears I log) (hn : h.Numbered) {P : Assignment → Prop}
    (hshaped : h.Shaped P) {id : Nat} {t : Thread} (ht : h.thread? id = some t) {k : Host}
    {stack : List Activation} (hs : Activation.step h t.stack = some (k, stack)) :
    (k.setThread id stack).Bears I (log ++ (Activation.note? h t.stack).toList) := by
  have hsame := (Activation.step_shifts 0 hs).sameCalls
  obtain ⟨pre, post, hsplit, -, hremove, hset⟩ := (hn.sameCalls hsame).split_thread (t := t)
    (by rwa [Host.thread?, hsame.threads])
  let F : Multiset Affair := ((pre ++ post).map fun t => Activation.affairs t.stack).sum
  have hbefore : h.affairs = Activation.affairs t.stack + F := by
    rw [← Host.affairs_of_threads hsame.threads, Host.affairs, hsplit]
    simp only [F, List.map_append, List.map_cons, List.sum_append, List.sum_cons]
    rw [add_left_comm]
  have hafter : (k.setThread id stack).affairs = Activation.affairs stack + F := by
    by_cases hne : stack = []
    · subst hne
      rw [Host.affairs, hremove]
      exact (zero_add F).symm
    · rw [Host.affairs, hset stack hne]
      simp only [F, List.map_append, List.map_cons, List.sum_append, List.sum_cons]
      rw [add_left_comm]
  have hstakes : (k.setThread id stack).stakes = h.stakes := by
    rw [Host.stakes, Host.stakes, Host.setThread_eq, hsame.tasks]
  have hseated := hshaped t (List.mem_of_find?_eq_some ht)
  rw [Host.Bears, hbefore] at hi
  rw [Host.Bears, hafter, hstakes, Host.setThread_eq]
  exact hI.threads _ _ (hI.thread (Activation.step_handled F hseated hs) hi)

theorem idle (hI : Lasting I) (hi : h.Bears I log) (rest : List Nat) :
    (h.spawnThread [.notify rest]).Bears I log := by
  have haffairs : (h.spawnThread [.notify rest]).affairs = h.affairs := by
    simp only [Host.affairs, Host.spawnThread, List.map_append, List.map_cons, List.map_nil,
      List.sum_append, List.sum_singleton]
    exact add_zero _
  rw [Host.Bears, haffairs]
  exact hI.threads _ _ hi

/-- Whatever happens, it lasts. -/
theorem apply (hI : Lasting I) (hi : h.Bears I log) (hn : h.Numbered) {P : Assignment → Prop}
    (hshaped : h.Shaped P) (e : Event) : (h.apply e).Bears I (log ++ (h.note? e).toList) := by
  have hnone {e : Event} {k : Host} (hnote : h.note? e = none) (hk : k.Bears I log) :
      k.Bears I (log ++ (h.note? e).toList) := by
    rwa [hnote, Option.toList_none, List.append_nil]
  have hplain {e : Event} (he : e.isPlain = true) :
      (h.apply e).Bears I (log ++ (h.note? e).toList) := by
    refine hnone ?_ (hI.off hi (h.offDesk_apply he) (h.apply_shifts 0 he).sameCalls.tasks)
    cases e <;> first | rfl | cases he
  cases e with
  | poll t bias =>
    cases ht : h.task? t with
    | none =>
      refine hnone (by simp only [Host.note?, ht, Option.bind_none]) ?_
      simpa only [Host.apply, Host.stepTask, ht] using hi
    | some task =>
      rcases hs : task.step h t bias with ⟨k, r⟩
      simp only [Host.apply_poll ht hs, Host.note?, ht, Option.bind_some]
      exact hI.poll hi hn ht hs
  | advance id =>
    cases ht : h.thread? id with
    | none =>
      refine hnone (by simp only [Host.note?, ht, Option.bind_none]) ?_
      simpa only [Host.apply, Host.stepThread, ht] using hi
    | some th =>
      rcases hs : Activation.step h th.stack with - | ⟨k, stack⟩
      · refine hnone ?_ ?_
        · simp only [Host.note?, ht, Option.bind_some, Activation.note?_of_step_eq_none hs]
        · simpa only [Host.apply, Host.stepThread, ht, hs] using hi
      · simp only [Host.apply_advance ht hs, Host.note?, ht, Option.bind_some]
        exact hI.advance hi hn hshaped ht hs
  | start call => exact hnone rfl (hI.start hi call)
  | drop t =>
    refine hnone rfl ?_
    cases ht : h.task? t with
    | none => simpa only [Host.apply, Host.dropTask, ht] using hi
    | some task =>
      rw [Host.apply_drop ht]
      exact hI.drop hi hn ht
  | release owner =>
    exact hnone rfl (hI.off hi (h.offDesk_releaseOwned owner) (h.tasks_releaseOwned owner))
  | idle => exact hnone rfl (hI.idle hi _)
  | pushLeased debugger =>
    exact hnone rfl
      (hI.off hi (h.offDesk_pushLeasedPrompt debugger) (h.tasks_pushLeasedPrompt debugger))
  | _ => exact hplain rfl

end Lasting

structure Host.Fresh (h : Host) : Prop where
  kept : h.WellKept
  tasks : h.tasks = []
  desk : h.desk = ({}, [], [], [])

/-- What is so at some moment of a run lasts from then on. -/
theorem Lasting.run {I : Host → Multiset Stake → Multiset Affair → List Note → Prop}
    (hI : Lasting I) {start : Host} (hf : start.Fresh) (past : List Event)
    (hi : (start.run past).Bears I (start.notes past)) (future : List Event) :
    (start.run (past ++ future)).Bears I (start.notes (past ++ future)) := by
  induction future using List.reverseRecOn with
  | nil => rwa [List.append_nil]
  | append_singleton future e ih =>
    have hshaped := (Chronicled.run hf.kept hf.tasks (congrArg (·.2.2.1) hf.desk)
      (past ++ future)).errands
    rw [← List.append_assoc, Host.run_concat, Host.notes_concat]
    exact hI.apply ih (hf.kept.run (past ++ future)).numbered hshaped e

/-! ## The desk in a run -/

namespace Host

theorem lasting_atDesk :
    Lasting fun h s a log => ∃ served : List (Waiter × Job), h.AtDesk s a log served where
  task hdealt hd := hd.imp fun _ hd => hdealt.atDesk hd
  thread hhandled hd := let ⟨_, hd⟩ := hd; hhandled.atDesk hd
  threads _ _ hd := hd.imp fun _ hd => ⟨hd.inHand, hd.inTurn, hd.inOrder⟩

theorem lasting_commands : Lasting fun h _ _ log => h.commands = given log where
  task hdealt hgiven := by rw [hdealt.commands, hgiven, given_append]
  thread hhandled hgiven := by rw [hhandled.commands, hgiven, given_append]
  threads _ _ hgiven := hgiven

/-- The desk of a host is in order with all its tasks and threads, and the engine was given to run
what was noted. -/
structure DeskKept (h : Host) (log : List Note) : Prop where
  atDesk : ∃ served, h.AtDesk ↑h.stakes h.affairs log served
  commands : h.commands = given log

/-- The desk is empty when a host has been taken into use. -/
theorem desk_established (native follows : Bool) (engine : Engine) (console : Console Waiter) :
    (established native follows engine console).desk = ({}, [], [], []) := by
  have hcreate (k : Host) := k.desk_createPipeline .current
  have hmain := hcreate { native, engine, console }
  unfold established establish
  split <;> rename_i hr <;> rw [hr] at hmain
  · exact hmain
  · rename_i main k
    have hline := (hcreate k).trans hmain
    split <;> rename_i hr' <;> rw [hr'] at hline
    · exact hline
    · split
      · exact hline
      · dsimp only
        split
        · exact hline
        · exact hline

/-- A host that has just been taken into use is fresh, whatever tokens callers have made. -/
theorem fresh_established (native follows : Bool) (engine : Engine) (console : Console Waiter)
    (tokens : Tokens) : Fresh { established native follows engine console with tokens } where
  kept := (WellKept.established native follows engine console).setTokens tokens
  tasks := (sameCalls_established native follows engine console).tasks
  desk := desk_established native follows engine console

/-- In every run of a fresh host, the desk is kept in order. -/
theorem Fresh.deskKept {start : Host} (hf : start.Fresh) (past : List Event) :
    (start.run past).DeskKept (start.notes past) := by
  have hstakes : start.stakes = [] := by
    rw [stakes, hf.tasks]
    rfl
  have haffairs : start.affairs = 0 := by
    rw [affairs, show start.threads = [] from congrArg (·.2.2.1) hf.desk]
    rfl
  have hempty : start.AtDesk ↑start.stakes start.affairs [] [] := by
    rw [hstakes, haffairs]
    exact .of_desk hf.desk (Nat.zero_le _) .nil .nil .nil
  have hnone : start.commands = given [] := congrArg (·.2.2.2) hf.desk
  exact {
    atDesk := lasting_atDesk.run hf [] ⟨[], hempty⟩ past
    commands := lasting_commands.run hf [] hnone past }

end Host

end SharedPrompt
