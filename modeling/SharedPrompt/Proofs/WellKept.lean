import Mathlib.Tactic.Abel
import SharedPrompt.Host.Open
import SharedPrompt.Proofs.Accounting
import SharedPrompt.Proofs.EventCases
import SharedPrompt.Proofs.Numbered

/-!
# Every run keeps the books

In a host that has been taken into use, the books balance with the parts of all its tasks, threads
and owners, whatever happens to it in whatever order.
-/

namespace SharedPrompt

namespace Host

/-- Numbers are given once, and the books balance with all parts there are. -/
structure WellKept (h : Host) : Prop where
  numbered : h.Numbered
  balanced : h.Balanced h.parts

namespace WellKept

variable {h h' : Host}

theorem sameCalls (hk : h.WellKept) (hs : h.SameCalls h') (hb : h'.Balanced h.parts) :
    h'.WellKept where
  numbered := hk.numbered.sameCalls hs
  balanced := by rwa [parts, hs.tasks, hs.afield]

theorem shifts (hk : h.WellKept) (hs : Shifts (h, h.parts) (h', h.parts)) : h'.WellKept :=
  hk.sameCalls hs.sameCalls (hs.balanced hk.balanced)

theorem quiet (hk : h.WellKept) (hq : h.Quiet h') : h'.WellKept := hk.shifts (Shifts.quiet hq)

/-! ## Tasks -/

theorem books (hk : h.WellKept) : Books (h, (h.tasks.map fun t => t.2.parts).sum) := by
  have hb := hk.balanced
  rwa [parts, add_comm] at hb

theorem of_books (hn : h.Numbered) (hb : Books (h, (h.tasks.map fun t => t.2.parts).sum)) :
    h.WellKept where
  numbered := hn
  balanced := by
    unfold Books at hb
    rwa [parts, add_comm]

theorem addTask (hk : h.WellKept) (call : Start) : (h.addTask call.task).WellKept := by
  have hbegin (c : Multiset Part) : LeaseMoves (h, c) (h, call.task.parts + c) := by
    cases call with
    | lease readLine => exact .single (.begin h c readLine)
    | _ => exact LeaseMoves.toZero .refl
  unfold Host.addTask
  refine of_books ?_ ?_
  · have hn := hk.numbered
    refine ⟨?_, ?_, hn.threads, hn.threads_lt⟩
    · simp only [List.map_append, List.map_cons, List.map_nil, List.append_assoc]
      rw [List.singleton_append, List.nodup_middle, List.nodup_cons]
      exact ⟨fun hid => Nat.lt_irrefl _ (hn.owners_lt _ hid), hn.owners⟩
    · intro id hid
      simp only [List.map_append, List.map_cons, List.map_nil, List.append_assoc,
        List.singleton_append, List.mem_append, List.mem_cons] at hid
      rcases hid with hid | rfl | hid
      · exact Nat.lt_succ_of_lt (hn.owners_lt id (List.mem_append_left _ hid))
      · exact Nat.lt_succ_self _
      · exact Nat.lt_succ_of_lt (hn.owners_lt id (List.mem_append_right _ hid))
  · have hb := (hbegin _).moves.books hk.books
    simp only [List.map_append, List.map_cons, List.map_nil, List.sum_append, List.sum_singleton]
    rw [add_comm] at hb
    exact hb.sameStack rfl le_rfl rfl

def others (h : Host) (id : Nat) : Multiset Part :=
  ((h.removeTask id).tasks.map fun t => t.2.parts).sum

theorem others_of_tasks (hs : h'.tasks = h.tasks) (id : Nat) : others h id = others h' id := by
  rw [others, others, Host.removeTask, Host.removeTask, hs]

theorem tasks_sum (hn : h.Numbered) {id : Nat} {task : Task} (ht : h.task? id = some task) :
    (h.tasks.map fun t => t.2.parts).sum = task.parts + others h id := by
  obtain ⟨pre, post, hsplit, -, hremove⟩ := hn.split_task ht
  rw [others, hsplit, hremove]
  simp only [List.map_append, List.map_cons, List.sum_append, List.sum_cons]
  rw [add_left_comm]

theorem setTask (hn : h.Numbered) {id : Nat} {task task' : Task} (ht : h.task? id = some task)
    (hb : Books (h, task'.parts + others h id)) : (h.setTask id task').WellKept := by
  obtain ⟨pre, post, hsplit, hset, hremove⟩ := hn.split_task ht
  have hids : (pre ++ (id, task') :: post).map (·.1) = (pre ++ (id, task) :: post).map (·.1) := by
    simp
  refine of_books ⟨?_, ?_, hn.threads, hn.threads_lt⟩ ?_
  · have howners := hn.owners
    rw [hsplit, ← hids] at howners
    rwa [hset]
  · have hlt := hn.owners_lt
    rw [hsplit, ← hids] at hlt
    rwa [hset]
  · have hsum : ((h.setTask id task').tasks.map fun t => t.2.parts).sum =
        task'.parts + others h id := by
      rw [others, hset, hremove]
      simp only [List.map_append, List.map_cons, List.sum_append, List.sum_cons]
      rw [add_left_comm]
    rw [hsum]
    exact hb.sameStack rfl le_rfl rfl

theorem removeTask (hn : h.Numbered) (id : Nat) (hb : Books (h, others h id)) :
    (h.removeTask id).WellKept := by
  refine of_books (hn.mono ?_ (.refl _) le_rfl le_rfl) (hb.sameStack rfl le_rfl rfl)
  exact (((List.filter_sublist).map _).append (.refl _)).subperm

theorem finishTask (hn : h.Numbered) {id : Nat} {task : Task} (ht : h.task? id = some task)
    {r : TaskResult} (hb : Books (h, r.parts + others h id)) : (h.finishTask id r).WellKept := by
  obtain ⟨pre, post, hsplit, -, hremove⟩ := hn.split_task ht
  cases r with
  | permit p =>
    refine of_books (hn.mono ?_ (.refl _) le_rfl le_rfl) ?_
    · refine List.Perm.subperm ?_
      simp only [Host.finishTask, hremove, hsplit, List.map_append, List.map_cons, List.map_nil,
        List.append_assoc]
      refine .append_left _ ?_
      rw [← List.append_assoc]
      exact List.perm_append_comm
    · have hafield : (h.finishTask id (.permit p)).afield = h.afield + {.permit p} := by
        simp only [afield, Host.finishTask, Host.removeTask, List.map_append, List.map_cons,
          List.map_nil, List.sum_append, List.sum_singleton, add_assoc]
      unfold Books
      rw [hafield, add_assoc]
      exact hb.sameStack rfl le_rfl rfl
  | _ =>
    refine (removeTask hn id ?_).quiet ?_
    · simpa [TaskResult.parts] using hb
    · exact ⟨by constructor <;> rfl, rfl, le_rfl⟩

/-- A task that is polled goes on, or has ended. -/
theorem afterPoll (hk : h.WellKept) {id : Nat} {bias : List Bool} {task : Task} {k : Host}
    {r : Poll Task TaskResult} (ht : h.task? id = some task) (hs : task.step h id bias = (k, r)) :
    (k.afterPoll id r).WellKept := by
  have hb := hk.books
  rw [tasks_sum hk.numbered ht] at hb
  have hm := task.step_moves h id (others h id) bias
  rw [hs] at hm
  have hsp : h.Spawns k := hm.spawns
  have hbooks := hm.books hb
  rw [others_of_tasks hsp.tasks] at hbooks
  have hn : k.Numbered := hsp.numbered hk.numbered
  have ht' : k.task? id = some task := by rwa [task?, hsp.tasks]
  cases r with
  | blocked =>
    refine of_books (h := k) hn ?_
    rwa [tasks_sum hn ht']
  | next task' => exact setTask hn ht' hbooks
  | done r => exact finishTask hn ht' hbooks

theorem drop (hk : h.WellKept) {id : Nat} {task : Task} (ht : h.task? id = some task) :
    ((task.abandon h id).removeTask id).WellKept := by
  have hb := hk.books
  rw [tasks_sum hk.numbered ht] at hb
  have hm := (task.abandon_moves h id (others h id)).moves
  have hsp := hm.spawns
  refine removeTask (hsp.numbered hk.numbered) id ?_
  rw [← others_of_tasks hsp.tasks]
  exact hm.books hb

/-! ## Threads and owners -/

theorem spawnThread (hk : h.WellKept) (rest : List Nat) :
    (h.spawnThread [.notify rest]).WellKept where
  numbered := hk.numbered.spawnThread _
  balanced := by
    have hparts : (h.spawnThread [.notify rest]).parts = h.parts := by
      simp [parts, afield, Host.spawnThread, Activation.parts]
    rw [hparts]
    exact hk.balanced.sameStack rfl le_rfl rfl

/-- A thread goes on with other activations that have other parts. -/
theorem setThread (hk : h.WellKept) {k : Host} (hs : h.SameCalls k) {id : Nat} {t : Thread}
    (ht : h.thread? id = some t) {stack : List Activation}
    (hb : ∀ F, h.Balanced (Activation.partsOf t.stack + F) →
      k.Balanced (Activation.partsOf stack + F)) :
    (k.setThread id stack).WellKept := by
  have hn := hk.numbered.sameCalls hs
  obtain ⟨pre, post, hsplit, hid, hremove, hset⟩ := hn.split_thread (t := t)
    (by rwa [thread?, hs.threads])
  have hbefore : h.parts = Activation.partsOf t.stack + ((k.tasks.map fun u => u.2.parts).sum +
      (((pre ++ post).map fun u => Activation.partsOf u.stack).sum +
        (k.permits.map fun p => ({.permit p.2} : Multiset Part)).sum)) := by
    rw [parts, afield, ← hs.tasks, ← hs.permits, ← hs.threads, hsplit]
    simp only [List.map_append, List.map_cons, List.sum_append, List.sum_cons]
    abel
  have hbalanced := hk.balanced
  rw [hbefore] at hbalanced
  have hafter := hb _ hbalanced
  rw [setThread_eq]
  by_cases hne : stack = []
  · subst hne
    refine ⟨hn.mono (.refl _) ?_ le_rfl le_rfl, ?_⟩
    · exact List.filter_sublist.map _
    · rw [parts, afield, hremove]
      rw [Activation.partsOf_nil, zero_add] at hafter
      exact hafter.sameStack rfl le_rfl rfl
  · rw [hset stack hne]
    have hids : (pre ++ ⟨id, stack⟩ :: post).map Thread.id = k.threads.map Thread.id := by
      rw [hsplit]
      simp [hid]
    refine ⟨⟨hn.owners, hn.owners_lt, ?_, ?_⟩, ?_⟩
    · simpa only [hids] using hn.threads
    · simpa only [hids] using hn.threads_lt
    · have hparts : parts { k with threads := pre ++ ⟨id, stack⟩ :: post } =
          Activation.partsOf stack + ((k.tasks.map fun u => u.2.parts).sum +
            (((pre ++ post).map fun u => Activation.partsOf u.stack).sum +
              (k.permits.map fun p => ({.permit p.2} : Multiset Part)).sum)) := by
        rw [parts, afield]
        simp only [List.map_append, List.map_cons, List.sum_append, List.sum_cons]
        abel
      rw [hparts]
      exact hafter.sameStack rfl le_rfl rfl

theorem releaseOwner (hk : h.WellKept) {owner : Nat} {p : Permit}
    (hp : h.permits.lookup owner = some p) :
    ({ h with permits := h.permits.filter (·.1 ≠ owner) }.releasePermit p).WellKept := by
  obtain ⟨pre, post, hsplit, hremove⟩ := hk.numbered.split_permit hp
  let k : Host := { h with permits := h.permits.filter (·.1 ≠ owner) }
  have hpermits : k.permits = pre ++ post := hremove
  have hparts : h.parts = {.permit p} + k.parts := by
    rw [parts, parts, afield, afield, hpermits, hsplit]
    simp only [List.map_append, List.map_cons, List.sum_append, List.sum_cons]
    abel
  have hn : k.Numbered := by
    refine hk.numbered.mono ?_ (.refl _) le_rfl le_rfl
    exact ((List.Sublist.refl _).append (List.filter_sublist.map _)).subperm
  have hbalanced : k.Balanced ({.permit p} + k.parts) := by
    rw [← hparts]
    exact hk.balanced.sameStack rfl le_rfl rfl
  have hsame := k.sameCalls_releasePermit p
  refine ⟨hn.sameCalls hsame, ?_⟩
  rw [parts, hsame.tasks, hsame.afield]
  exact hbalanced.releasePermit

theorem addOwner (hn : h.Numbered) {p : Permit} (hb : h.Balanced ({.permit p} + h.parts)) :
    (h.addOwner p).WellKept := by
  unfold Host.addOwner
  refine ⟨⟨?_, ?_, hn.threads, hn.threads_lt⟩, ?_⟩
  · simp only [List.map_append, List.map_cons, List.map_nil]
    rw [← List.append_assoc, List.nodup_append]
    refine ⟨hn.owners, List.nodup_singleton _, fun id hid id' hid' heq => ?_⟩
    rw [heq, List.mem_singleton.1 hid'] at hid
    exact Nat.lt_irrefl _ (hn.owners_lt _ hid)
  · simp only [List.map_append, List.map_cons, List.map_nil]
    rw [← List.append_assoc]
    intro id hid
    rcases List.mem_append.1 hid with hid | hid
    · exact Nat.lt_succ_of_lt (hn.owners_lt id hid)
    · rw [List.mem_singleton.1 hid]
      exact Nat.lt_succ_self _
  · have hparts : (h.addOwner p).parts = {.permit p} + h.parts := by
      simp only [parts, afield, Host.addOwner, List.map_append, List.map_cons, List.map_nil,
        List.sum_append, List.sum_singleton]
      abel
    unfold Host.addOwner at hparts
    rw [hparts]
    exact hb.sameStack rfl le_rfl rfl

/-- Whatever happens keeps the books. -/
theorem apply (hk : h.WellKept) (e : Event) : (h.apply e).WellKept := by
  have hnext := h.next_apply e
  generalize h.apply e = k at hnext
  cases hnext with
  | plain hs => exact hk.shifts (hs _)
  | polled ht hs => exact hk.afterPoll ht hs
  | advanced ht hs =>
    have hshifts (F : Multiset Part) := Activation.step_shifts F hs
    exact hk.setThread (hshifts 0).sameCalls ht fun F hb => (hshifts F).balanced hb
  | started call => exact (hk.addTask call).quiet (aside_wake _ _).quiet
  | dropped ht => exact hk.drop ht
  | released hp => exact hk.releaseOwner hp
  | idle => exact hk.spawnThread _
  | @pushed k n debugger hq =>
    have hk' : k.WellKept := hk.quiet hq
    have hpush := Shift.pushLeased k k.parts n debugger
    exact addOwner (hk'.numbered.sameCalls hpush.sameCalls) (hpush.balanced hk'.balanced)

theorem run (hk : h.WellKept) (events : List Event) : (h.run events).WellKept := by
  induction events generalizing h with
  | nil => exact hk
  | cons e rest ih => exact ih (hk.apply e)

end WellKept

def established (native follows : Bool) (engine : Engine) (console : Console Waiter) : Host :=
  (establish { native, engine, console } follows).2

theorem WellKept.initial (native : Bool) (engine : Engine) (console : Console Waiter) :
    WellKept { native, engine, console } := by
  have hgates (g : Nat) : (PromptStack.gate {} g).Balanced 0 0 fun _ => 0 := by
    rcases g with - | - | g
    · exact .new _ 0
    · exact .new _ 0
    · exact .new _ 0
  have hsound : PromptStack.Sound {} :=
    ⟨rfl, rfl, le_rfl, fun p hp => absurd hp List.not_mem_nil, .nil⟩
  exact ⟨⟨.nil, fun id hid => absurd hid List.not_mem_nil, .nil,
      fun id hid => absurd hid List.not_mem_nil⟩,
    ⟨hsound, hgates⟩, fun x hx => absurd hx (Multiset.notMem_zero x)⟩

/-- Prompts that get other pipelines have the same gates. -/
theorem WellKept.setPipelines {h : Host} (hk : h.WellKept) (main line : Nat)
    (subscriptions : Subscriptions) :
    WellKept { h with
      stack := { h.stack with bottom := ⟨main, 0, false⟩, line := ⟨line, 1, false⟩ },
      subscriptions } := by
  have hs := hk.balanced.books.sound
  refine hk.sameCalls (by constructor <;> rfl) ⟨⟨?_, hk.balanced.books.gates⟩, fun x hx =>
    (hk.balanced.known x hx).mono le_rfl rfl⟩
  exact ⟨rfl, rfl, hs.count, hs.nested, hs.sorted⟩

/-- The books of a host balance when it has been taken into use, or could not be. -/
theorem WellKept.established (native follows : Bool) (engine : Engine) (console : Console Waiter) :
    (established native follows engine console).WellKept := by
  have hk := WellKept.initial native engine console
  have hcreate (k : Host) (mode : PipelineMode) (hk : k.WellKept) :
      (k.createPipeline mode).2.WellKept :=
    hk.quiet (k.quiet_createPipeline mode)
  have hmain := hcreate _ .current hk
  unfold Host.established establish
  split <;> rename_i hr <;> rw [hr] at hmain
  · exact hmain
  · rename_i main _
    have hline := hcreate _ .current hmain
    split <;> rename_i hr' <;> rw [hr'] at hline
    · exact hline
    · rename_i line k
      split
      · exact hline
      · have hset := hline.setPipelines main line (k.subscriptions.subscribe 0)
        dsimp only
        split
        · exact hset
        · exact hset.quiet ⟨by constructor <;> rfl, rfl, le_rfl⟩

/-- Tokens that callers make are no part of the books. -/
theorem WellKept.setTokens {h : Host} (hk : h.WellKept) (tokens : Tokens) :
    WellKept { h with tokens } :=
  hk.quiet ⟨by constructor <;> rfl, rfl, le_rfl⟩

/-- Nothing is under way in a host that has just been taken into use. -/
theorem sameCalls_established (native follows : Bool) (engine : Engine) (console : Console Waiter) :
    Host.SameCalls { native, engine, console } (established native follows engine console) := by
  have hcreate (k : Host) := (k.quiet_createPipeline .current).toSameCalls
  have hmain := hcreate { native, engine, console }
  unfold Host.established establish
  split <;> rename_i hr <;> rw [hr] at hmain
  · exact hmain
  · rename_i main k
    have hline := hmain.trans (hcreate k)
    split <;> rename_i hr' <;> rw [hr'] at hline
    · exact hline
    · split
      · exact hline
      · dsimp only
        split
        · exact hline.trans (by constructor <;> rfl)
        · exact hline.trans (by constructor <;> rfl)

end Host

end SharedPrompt
