import SharedPrompt.Proofs.KeyedLists
import SharedPrompt.Proofs.Moves
import SharedPrompt.Proofs.Shifts

/-!
# Tasks, owners and threads have numbers of their own

No number is given twice, so that what is looked up, replaced or removed by its number is one entry
of its list.
-/

namespace SharedPrompt

/-! ## Hosts -/

/-- No two tasks or owners and no two threads have the same number, and new ones get new numbers. -/
structure Host.Numbered (h : Host) : Prop where
  owners : (h.tasks.map (·.1) ++ h.permits.map (·.1)).Nodup
  owners_lt : ∀ id ∈ h.tasks.map (·.1) ++ h.permits.map (·.1), id < h.nextTask
  threads : (h.threads.map Thread.id).Nodup
  threads_lt : ∀ id ∈ h.threads.map Thread.id, id < h.nextThread

namespace Host

theorem setThread_eq (k : Host) (id : Nat) (stack : List Activation) :
    k.setThread id stack = { k with threads := (k.setThread id stack).threads } := by
  unfold Host.setThread
  split <;> rfl

/-- The tasks and owners are the same as before; there may be new threads. -/
structure Spawns (h h' : Host) : Prop where
  tasks : h'.tasks = h.tasks
  nextTask : h'.nextTask = h.nextTask
  permits : h'.permits = h.permits
  inProcess : h'.engine.inProcess = h.engine.inProcess
  numbered : h.Numbered → h'.Numbered

namespace Numbered

variable {h h' : Host}

theorem sameCalls (hn : h.Numbered) (hs : h.SameCalls h') : h'.Numbered where
  owners := by rw [hs.tasks, hs.permits]; exact hn.owners
  owners_lt := by rw [hs.tasks, hs.permits, hs.nextTask]; exact hn.owners_lt
  threads := by rw [hs.threads]; exact hn.threads
  threads_lt := by rw [hs.threads, hs.nextThread]; exact hn.threads_lt

theorem spawnThread (hn : h.Numbered) (stack : List Activation) :
    (h.spawnThread stack).Numbered where
  owners := hn.owners
  owners_lt := hn.owners_lt
  threads := by
    simp only [Host.spawnThread, List.map_append, List.map_cons, List.map_nil]
    refine List.nodup_append.2 ⟨hn.threads, List.nodup_singleton _, fun id hid id' hid' heq => ?_⟩
    have := hn.threads_lt id hid
    rw [heq, List.mem_singleton.1 hid'] at this
    exact Nat.lt_irrefl _ this
  threads_lt id hid := by
    simp only [Host.spawnThread, List.map_append, List.map_cons, List.map_nil, List.mem_append,
      List.mem_singleton] at hid
    rcases hid with hid | rfl
    · exact Nat.lt_succ_of_lt (hn.threads_lt id hid)
    · exact Nat.lt_succ_self _

/-- Fewer owners and threads keep their numbers. -/
theorem mono (hn : h.Numbered)
    (howners : (h'.tasks.map (·.1) ++ h'.permits.map (·.1)).Subperm
      (h.tasks.map (·.1) ++ h.permits.map (·.1)))
    (hthreads : (h'.threads.map Thread.id).Sublist (h.threads.map Thread.id))
    (hnext : h.nextTask ≤ h'.nextTask) (hnextThread : h.nextThread ≤ h'.nextThread) :
    h'.Numbered where
  owners := by
    obtain ⟨l, hperm, hsub⟩ := howners
    exact hperm.nodup_iff.1 (hn.owners.sublist hsub)
  owners_lt id hid := (hn.owners_lt id (howners.subset hid)).trans_le hnext
  threads := hn.threads.sublist hthreads
  threads_lt id hid := (hn.threads_lt id (hthreads.subset hid)).trans_le hnextThread

/-- A task that is looked up is replaced and removed in its own place. -/
theorem split_task (hn : h.Numbered) {id : Nat} {task : Task} (ht : h.task? id = some task) :
    ∃ pre post, h.tasks = pre ++ (id, task) :: post ∧
      (∀ task', (h.setTask id task').tasks = pre ++ (id, task') :: post) ∧
      (h.removeTask id).tasks = pre ++ post := by
  have hnd : (h.tasks.map (·.1)).Nodup := (List.nodup_append.1 hn.owners).1
  obtain ⟨pre, post, hsplit, hset, hremove⟩ := Keyed.split hnd (mem_of_lookup ht)
  exact ⟨pre, post, hsplit, fun task' => hset (id, task'), hremove⟩

theorem split_permit (hn : h.Numbered) {id : Nat} {p : Permit} (hp : h.permits.lookup id = some p) :
    ∃ pre post, h.permits = pre ++ (id, p) :: post ∧ h.permits.filter (·.1 ≠ id) = pre ++ post := by
  have hnd : (h.permits.map (·.1)).Nodup := (List.nodup_append.1 hn.owners).2.1
  obtain ⟨pre, post, hsplit, -, hremove⟩ := Keyed.split hnd (mem_of_lookup hp)
  exact ⟨pre, post, hsplit, hremove⟩

theorem split_thread (hn : h.Numbered) {id : Nat} {t : Thread} (ht : h.thread? id = some t) :
    ∃ pre post, h.threads = pre ++ t :: post ∧ t.id = id ∧
      (h.setThread id []).threads = pre ++ post ∧
      ∀ stack, stack ≠ [] → (h.setThread id stack).threads = pre ++ ⟨id, stack⟩ :: post := by
  have hid : t.id = id := by simpa using List.find?_some ht
  obtain ⟨pre, post, hsplit, hset, hremove⟩ := Keyed.split hn.threads (List.mem_of_find?_eq_some ht)
  rw [hid] at hset hremove
  refine ⟨pre, post, hsplit, hid, hremove, fun stack hne => ?_⟩
  simp only [setThread, List.isEmpty_iff, hne, if_false]
  exact hset ⟨id, stack⟩

end Numbered

namespace Spawns

theorem trans {a b c : Host} (hab : a.Spawns b) (hbc : b.Spawns c) : a.Spawns c where
  tasks := hbc.tasks.trans hab.tasks
  nextTask := hbc.nextTask.trans hab.nextTask
  permits := hbc.permits.trans hab.permits
  inProcess := hbc.inProcess.trans hab.inProcess
  numbered := hbc.numbered ∘ hab.numbered

end Spawns

theorem SameCalls.spawns {h h' : Host} (hs : h.SameCalls h') : h.Spawns h' where
  tasks := hs.tasks
  nextTask := hs.nextTask
  permits := hs.permits
  inProcess := hs.inProcess
  numbered hn := hn.sameCalls hs

end Host

theorem LeaseMove.sameCalls {a b : Host × Multiset Part} (hm : LeaseMove a b) :
    a.1.SameCalls b.1 := by
  cases hm with
  | aside c ha => exact ha.sameCalls
  | begin h c readLine => exact .refl h
  | advance h c me l => exact l.sameCalls_step h me
  | leave h c l => exact l.sameCalls_abandon h
  | giveBack h c p => exact h.sameCalls_releasePermit p

theorem LeaseMoves.sameCalls {a b : Host × Multiset Part} (hm : LeaseMoves a b) :
    a.1.SameCalls b.1 := by
  induction hm with
  | refl => exact .refl _
  | tail _ hlast ih => exact ih.trans hlast.sameCalls

theorem Move.spawns {a b : Host × Multiset Part} (hm : Move a b) : a.1.Spawns b.1 := by
  cases hm with
  | lease hm => exact hm.sameCalls.spawns
  | dispatch h c me p job =>
    refine (h.aside_newReply me).sameCalls.spawns.trans ?_
    exact ⟨rfl, rfl, rfl, rfl, fun hn => hn.spawnThread _⟩

theorem Moves.spawns {a b : Host × Multiset Part} (hm : Moves a b) : a.1.Spawns b.1 := by
  induction hm with
  | refl => exact (Host.SameCalls.refl _).spawns
  | tail _ hlast ih => exact ih.trans hlast.spawns

end SharedPrompt
