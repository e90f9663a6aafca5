import SharedPrompt.Proofs.DeskRuns

/-!
# The request in the slot

The request in the slot stays there until an idle moment takes it or its own call goes away. Once the
call has gone away, no idle moment takes it, and the engine never begins what it was to run.
-/

namespace SharedPrompt

/-! ## What leaves the slot -/

namespace Activation

/-- What a thread takes is the request in the slot. -/
theorem pending_of_took {h : Host} {stack : List Activation} {q : Parked}
    (hd : note? h stack = some (.took q)) : h.slot.pending = some q := by
  unfold note? at hd
  split at hd
  · obtain ⟨q', hq', heq⟩ := Option.map_eq_some_iff.1 hd
    rw [hq', Note.took.inj heq]
  · split at hd <;> cases hd
  · split at hd <;> cases hd
  · split at hd <;> cases hd
  · split at hd <;> cases hd
  · obtain ⟨o, -, hd⟩ := Option.bind_eq_some_iff.1 hd
    obtain ⟨reply, -, hd⟩ := Option.map_eq_some_iff.1 hd
    cases hd
  · cases hd

/-- Threads make no requests, and send no errands. -/
theorem opens_eq_false {h : Host} {stack : List Activation} {d : Note}
    (hd : note? h stack = some d) : d.opens = false := by
  unfold note? at hd
  split at hd
  · obtain ⟨q, -, rfl⟩ := Option.map_eq_some_iff.1 hd
    rfl
  · split at hd <;> cases hd
    rfl
  · split at hd <;> cases hd
    rfl
  · split at hd <;> cases hd
    rfl
  · split at hd <;> cases hd
    rfl
  · obtain ⟨o, -, hd⟩ := Option.bind_eq_some_iff.1 hd
    obtain ⟨reply, -, rfl⟩ := Option.map_eq_some_iff.1 hd
    rfl
  · cases hd

/-- A request in the hands of a thread does not wait in the slot any more. -/
theorem phase_of_affair {a : Activation} {y : Affair} (ha : a.affair? = some y) :
    y.phase ≠ .waiting := by
  unfold affair? at ha
  split at ha <;> cases ha <;> exact Life.Phase.noConfusion

end Activation

/-! ## Whose stakes there are -/

theorem Execution.task_of_mem {t : Nat} {run : Execution} {x : Stake} (hx : x ∈ run.stakes t) :
    x.task = t := by
  cases run with
  | idle call token => rw [List.mem_singleton.1 hx]; rfl
  | running reply => rw [List.mem_singleton.1 hx]; rfl
  | _ => cases hx

theorem AbortCall.task_of_mem {t : Nat} {abort : AbortCall} {x : Stake}
    (hx : x ∈ abort.stakes t) : x.task = t := by
  cases abort with
  | reverting call lease => rw [List.mem_singleton.1 hx]; rfl
  | _ => cases hx

/-- The stakes of a task are its own. -/
theorem Task.task_of_mem {t : Nat} {task : Task} {x : Stake} (hx : x ∈ task.stakes t) :
    x.task = t := by
  cases task with
  | command call sink =>
    cases call with
    | aborting abort job => exact abort.task_of_mem hx
    | running run => exact run.task_of_mem hx
    | _ => cases hx
  | idle call sink => rw [List.mem_singleton.1 hx]; rfl
  | read call =>
    cases call with
    | clearing abort token => exact abort.task_of_mem hx
    | reading run id token own => exact run.task_of_mem hx
    | stopping abort run result id token =>
      rcases List.mem_append.1 hx with hx | hx
      · cases abort with
        | none => cases hx
        | some abort => exact abort.task_of_mem hx
      · cases run with
        | none => cases hx
        | some run => exact run.task_of_mem hx
    | _ => cases hx
  | abort call => exact call.task_of_mem hx
  | _ => cases hx

namespace Host

variable {h : Host}

/-- No task takes a request out of the slot. -/
theorem took?_poll (h : Host) (t : Nat) (bias : List Bool) :
    (h.note? (.poll t bias)).bind Note.took? = none := by
  simp only [note?]
  cases h.task? t with
  | none => rfl
  | some task => exact (task.step_dealt h t 0 bias).took?_eq_none

/-- A task that makes a request or sends an errand awaits the reply. -/
theorem exists_stake_of_opens (hn : h.Numbered) {e : Event} {d : Note} (hd : h.note? e = some d)
    (hopens : d.opens = true) : ∃ x ∈ (h.apply e).stakes, x.reply? = d.reply? := by
  cases e with
  | poll t bias =>
    obtain ⟨task, ht, hd⟩ := Option.bind_eq_some_iff.1 hd
    have hspawns := (task.step_moves h t 0 bias).spawns
    have hdealt := task.step_dealt h t ↑(h.otherStakes t) bias
    rcases hs : task.step h t bias with ⟨k, r⟩
    rw [hs] at hspawns hdealt
    rw [hd] at hdealt
    obtain ⟨x, hx, hreply⟩ := hdealt.exists_of_opens hopens
    rw [← otherStakes_of_tasks hspawns.tasks, ← stakes_afterPoll (hspawns.numbered hn)
      (by rwa [task?, hspawns.tasks]) r] at hx
    rw [apply_poll ht hs]
    exact ⟨x, hx, hreply⟩
  | advance id =>
    obtain ⟨th, -, hd⟩ := Option.bind_eq_some_iff.1 hd
    rw [Activation.opens_eq_false hd] at hopens
    cases hopens
  | _ => cases hd

theorem pending_of_took {e : Event} {q : Parked} (hd : h.note? e = some (.took q)) :
    h.slot.pending = some q := by
  cases e with
  | poll t bias =>
    have hnone := h.took?_poll t bias
    rw [hd] at hnone
    cases hnone
  | advance id =>
    obtain ⟨th, -, hd⟩ := Option.bind_eq_some_iff.1 hd
    exact Activation.pending_of_took hd
  | _ => cases hd

theorem mem_affairs {y : Affair} :
    y ∈ h.affairs ↔ ∃ th ∈ h.threads, ∃ a ∈ th.stack, a.affair? = some y := by
  rw [affairs]
  induction h.threads with
  | nil => simp
  | cons th rest ih =>
    rw [List.map_cons, List.sum_cons, Multiset.mem_add, ih, List.exists_mem_cons_iff,
      Activation.affairs, Multiset.mem_coe, List.mem_filterMap]

theorem mem_stakes {x : Stake} : x ∈ h.stakes ↔ ∃ p ∈ h.tasks, x ∈ p.2.stakes p.1 :=
  List.mem_flatMap

/-- A task that an event neither polls nor drops is there as before. -/
theorem mem_tasks_apply {e : Event} {t : Nat} {task : Task} (ht : (t, task) ∈ h.tasks)
    (hpoll : ∀ bias, e ≠ .poll t bias) (hdrop : e ≠ .drop t) :
    (t, task) ∈ (h.apply e).tasks := by
  obtain ⟨k, hk, hnext⟩ : ∃ k, h.apply e = k ∧ h.Next e k := ⟨_, rfl, h.next_apply e⟩
  rw [hk]
  have hremove {u : Nat} (hu : t ≠ u) {l : List (Nat × Task)} (hl : (t, task) ∈ l) :
      (t, task) ∈ l.filter (·.1 ≠ u) := List.mem_filter.2 ⟨hl, decide_eq_true hu⟩
  cases hnext with
  | plain hs => rwa [(hs 0).sameCalls.tasks]
  | @polled u bias task' k r _ hs =>
    have htasks := (task'.step_moves h u 0 bias).spawns.tasks
    rw [hs] at htasks
    have hu : t ≠ u := fun heq => hpoll bias (heq ▸ rfl)
    rw [← htasks] at ht
    cases r with
    | blocked => exact ht
    | next task'' => exact List.mem_map.2 ⟨_, ht, if_neg hu⟩
    | done r => cases r <;> exact hremove hu ht
  | advanced _ hs =>
    rwa [setThread_eq, (Activation.step_shifts 0 hs).sameCalls.tasks]
  | started call =>
    rw [(aside_wake _ _).tasks]
    exact List.mem_append_left _ ht
  | @dropped u task' _ =>
    have hu : t ≠ u := fun heq => hdrop (heq ▸ rfl)
    rw [← (task'.abandon_moves h u 0).moves.spawns.tasks] at ht
    exact hremove hu ht
  | released _ => rwa [(sameCalls_releasePermit _ _).tasks]
  | idle => exact ht
  | pushed hq => rwa [addOwner, hq.tasks]

/-- A task gives up a stake only when it is polled or dropped. -/
theorem mem_stakes_apply {e : Event} {x : Stake} (hx : x ∈ h.stakes)
    (hpoll : ∀ bias, e ≠ .poll x.task bias) (hdrop : e ≠ .drop x.task) :
    x ∈ (h.apply e).stakes := by
  obtain ⟨⟨t, task⟩, hmem, hx⟩ := mem_stakes.1 hx
  obtain rfl : x.task = t := task.task_of_mem hx
  exact mem_stakes.2 ⟨(x.task, task), mem_tasks_apply hmem hpoll hdrop, hx⟩

/-! ## What becomes of the request in the slot -/

namespace AtDesk

variable {k : Host} {s s' : Multiset Stake} {a a' : Multiset Affair} {log : List Note}
  {served served' : List (Waiter × Job)} {q : Parked}

/-- What is noted next of a request that waits is that it is taken. -/
theorem waiting_concat (hd : h.AtDesk s a log served) (hq : h.slot.pending = some q)
    {d : Option Note} (hlog : Lawful (log ++ d.toList)) (htook : d.bind Note.took? = none) :
    ∃ t, lifeOf (log ++ d.toList) q.reply = some ⟨t, true, q.job, .waiting⟩ := by
  obtain ⟨t, hlife, -⟩ := hd.inHand.affairs q.affair (by simp [IdleSlot.affairs, hq])
  refine ⟨t, ?_⟩
  cases d with
  | none =>
    rw [Option.toList_none, List.append_nil]
    exact hlife
  | some d =>
    refine (lifeOf_concat_ne log fun habout => ?_).trans hlife
    have hallowed := hlog.allowed habout
    rw [show lifeOf log q.reply = some ⟨t, true, q.job, .waiting⟩ from hlife] at hallowed
    cases d with
    | took q' => cases htook
    | called w job => cases habout
    | parked t' q' => cases hallowed
    | sent t' ρ job => cases hallowed
    | began ρ job =>
      obtain ⟨t', idle, heq⟩ := hallowed
      cases heq
    | refused ρ =>
      obtain ⟨t', job, heq⟩ := hallowed
      cases heq
    | ended ρ r =>
      obtain ⟨-, t', idle, job, heq | ⟨-, heq, -⟩⟩ := hallowed <;> cases heq
    | returned t' ρ r =>
      obtain ⟨idle, job, heq⟩ := hallowed
      cases heq

/-- The request in the slot stays there if nobody takes it and its call does not go away. -/
theorem pending_of_call (hd : h.AtDesk s a log served) (hq : h.slot.pending = some q)
    {d : Option Note} (hk : k.AtDesk s' a' (log ++ d.toList) served')
    (htook : d.bind Note.took? = none) (ha : ∀ y ∈ a', y.phase ≠ .waiting) {t : Nat}
    (ht : .call t (.parked q.id q.reply) ∈ s') : k.slot.pending = some q := by
  obtain ⟨u, hlife⟩ := hd.waiting_concat hq hk.inHand.lawful htook
  -- Its reply is still awaited, so that somebody has it in hand.
  obtain ⟨y, hy, hreply⟩ : ∃ y ∈ k.slot.affairs + a', y.reply = q.reply := by
    obtain ⟨job, p, hlife', ⟨-, hy⟩ | ⟨r, -, rfl⟩⟩ := hk.inHand.stakes _ ht q.reply rfl
    · exact hy
    · cases hlife.symm.trans hlife'
  obtain ⟨u', hlife', -⟩ := hk.inHand.affairs y hy
  rw [hreply, hlife] at hlife'
  obtain ⟨-, -, hjob, hphase⟩ := Life.mk.inj (Option.some.inj hlife')
  -- That is the slot, and what is there is the request of the call whose turn it is.
  obtain ⟨q', hq', rfl⟩ : ∃ q', k.slot.pending = some q' ∧ y = q'.affair := by
    rcases Multiset.mem_add.1 hy with hy | hy
    · cases hpending : k.slot.pending with
      | none => simp [IdleSlot.affairs, hpending] at hy
      | some q' =>
        rw [IdleSlot.affairs, hpending] at hy
        exact ⟨q', rfl, Multiset.mem_singleton.1 hy⟩
    · exact absurd hphase.symm (ha y hy)
  have hturn := hk.inTurn
  obtain ⟨rest, rfl⟩ := Multiset.exists_cons_of_mem ht
  rw [← Multiset.singleton_add] at hturn
  obtain ⟨t', heq⟩ := hturn.eq_of_pending rfl hq'
  obtain ⟨-, hcall⟩ := Stake.call.inj heq
  obtain ⟨hid, -⟩ := IdleCall.parked.inj hcall
  obtain ⟨id, job, ρ⟩ := q
  obtain ⟨id', job', ρ'⟩ := q'
  obtain rfl : id = id' := hid
  obtain rfl : job = job' := hjob
  obtain rfl : ρ' = ρ := hreply
  exact hq'

end AtDesk

end Host

/-! ## Requests whose calls have gone away -/

section
variable {h : Host} {ρ : Nat}

theorem Host.replies_withdraw (h : Host) (id : Nat) : (h.withdraw id).replies = h.replies := by
  unfold withdraw
  split
  · split <;> rfl
  · rfl

theorem Host.replies_releaseTurn (h : Host) : h.releaseTurn.replies = h.replies :=
  congrArg (·.2.1) h.desk_releaseTurn

theorem Host.replies_leaveTurn (h : Host) (w : Waiter) : (h.leaveTurn w).replies = h.replies :=
  congrArg (·.2.1) (h.desk_leaveTurn w)

theorem Host.length_replies_closeReply (h : Host) (reply : Nat) :
    (h.closeReply reply).replies.length = h.replies.length := List.length_set

theorem IdleCall.length_replies_abandon (h : Host) (call : IdleCall) :
    (call.abandon h).replies.length = h.replies.length := by
  cases call with
  | start job => rfl
  | queued w job => rw [abandon, Host.replies_leaveTurn]
  | install job => rw [abandon, Host.replies_releaseTurn]
  | parked id reply =>
    rw [abandon, Host.replies_releaseTurn, Host.replies_withdraw, Host.length_replies_closeReply]

/-- A call that goes on awaits no reply but the next one that is opened. -/
theorem IdleCall.unawaited_step {me : Nat} {call : IdleCall} (hlt : ρ < h.replies.length)
    (hcall : (Stake.call me call).reply? ≠ some ρ) :
    ρ < (call.step h me).1.replies.length ∧
      ∀ x ∈ (call.step h me).2.stakes [.call me call] fun call' => [.call me call'],
        x.reply? ≠ some ρ := by
  have hone (call' : IdleCall) (hcall' : (Stake.call me call').reply? ≠ some ρ) :
      ∀ x ∈ [Stake.call me call'], x.reply? ≠ some ρ := fun x hx => by
    rwa [List.mem_singleton.1 hx]
  cases call with
  | start job =>
    refine ⟨hlt, hone _ ?_⟩
    split <;> exact (Option.some_ne_none ρ).symm
  | queued w job =>
    simp only [step]
    split <;> exact ⟨hlt, hone _ (Option.some_ne_none ρ).symm⟩
  | install job =>
    refine ⟨?_, hone _ fun heq => ?_⟩
    · rw [show ((install job).step h me).1.replies = h.replies ++ [.open_ me] from rfl,
        List.length_append]
      exact Nat.lt_add_right _ hlt
    · exact absurd (Option.some.inj heq) (Nat.ne_of_gt hlt)
  | parked id reply =>
    simp only [step]
    split
    · refine ⟨?_, fun x hx => absurd hx List.not_mem_nil⟩
      rwa [Host.replies_releaseTurn, Host.replies_withdraw, Host.length_replies_closeReply]
    · exact ⟨hlt, hone _ hcall⟩
    · refine ⟨?_, fun x hx => absurd hx List.not_mem_nil⟩
      rwa [Host.replies_releaseTurn, Host.replies_withdraw]

def Host.Unawaited (ρ : Nat) (h : Host) (s : Multiset Stake) : Prop :=
  ρ < h.replies.length ∧ ∀ x ∈ s, x.reply? ≠ some ρ

theorem Host.Unawaited.off {s : Multiset Stake} {k : Host} (hu : Unawaited ρ h s) (ho : h.OffDesk k) :
    Unawaited ρ k s := ⟨ho.replies ▸ hu.1, hu.2⟩

theorem Host.Unawaited.drop {x : Stake} {s : Multiset Stake} (hu : Unawaited ρ h ({x} + s)) :
    Unawaited ρ h s := ⟨hu.1, fun y hy => hu.2 y (Multiset.mem_add.2 (.inr hy))⟩

theorem Host.Unawaited.add {t s : Multiset Stake} (hu : Unawaited ρ h s)
    (ht : ∀ x ∈ t, x.reply? ≠ some ρ) : Unawaited ρ h (t + s) :=
  ⟨hu.1, fun y hy => (Multiset.mem_add.1 hy).elim (ht y) (hu.2 y)⟩

/-- What nobody awaits any more, nobody will await. -/
theorem lasting_unawaited (ρ : Nat) : Lasting fun h s _ _ => h.Unawaited ρ s where
  task {me h h' s s' d log} hd hu := by
    cases hd with
    | off s ho => exact hu.off ho
    | opened s job ho =>
      refine (hu.off ho).add fun x hx => ?_
      rw [Multiset.mem_singleton.1 hx]
      exact (Option.some_ne_none ρ).symm
    | stepped s k ho =>
      obtain ⟨hlt, hstakes⟩ := IdleCall.unawaited_step hu.1 (hu.2 (.call me k) (by simp))
      have hstepped : (k.step h me).1.Unawaited ρ _ := ⟨hlt, hu.drop.2⟩
      exact (hstepped.add hstakes).off ho
    | left s k hbefore ho =>
      have hleft : (k.abandon _).Unawaited ρ _ :=
        ⟨(IdleCall.length_replies_abandon _ k).symm ▸ (hu.off hbefore).1, hu.drop.2⟩
      exact hleft.off ho
    | sent s p job ho =>
      have hsent : (h.dispatch me p job).2.Unawaited ρ s := by
        refine ⟨?_, hu.2⟩
        rw [show (h.dispatch me p job).2.replies = h.replies ++ [.open_ me] from rfl,
          List.length_append]
        exact Nat.lt_add_right _ hu.1
      refine (hsent.add fun x hx heq => ?_).off ho
      rw [Multiset.mem_singleton.1 hx] at heq
      exact absurd (Option.some.inj heq) (Nat.ne_of_gt hu.1)
    | returned s reply r hsent ho =>
      have hclosed : (h.closeReply reply).Unawaited ρ _ :=
        ⟨(h.length_replies_closeReply reply).symm ▸ hu.1, hu.drop.2⟩
      exact hclosed.off ho
    | closed s reply ho =>
      have hclosed : (h.closeReply reply).Unawaited ρ _ :=
        ⟨(h.length_replies_closeReply reply).symm ▸ hu.1, hu.drop.2⟩
      exact hclosed.off ho
  thread {h h' s a a' d log} hh hu := by
    refine ⟨?_, hu.2⟩
    have hsend (reply : Nat) (r : RunResult) : (h.sendReply reply r).replies.length =
        h.replies.length := by
      rw [show (h.sendReply reply r).replies = Reply.answered h.replies reply r from
        congrArg (·.2.1) (h.desk_sendReply reply r)]
      exact Reply.length_answered _ _ _
    cases hh with
    | off a ho => exact ho.replies ▸ hu.1
    | took a hq ho => exact ho.replies ▸ hu.1
    | began a reply idle pipeline job ho => exact ho.replies ▸ hu.1
    | went a hy htook hgiven ho => exact ho.replies ▸ hu.1
    | failed a reply job f ho => rw [ho.replies, hsend]; exact hu.1
    | answered a reply idle job r ho => rw [ho.replies, hsend]; exact hu.1
  threads _ _ hu := hu

end

namespace Host

variable {h : Host}

/-! ## What the log tells of requests -/

namespace DeskKept

variable {log : List Note}

/-- A request that was taken had been left in the slot. -/
theorem exists_parked (hd : h.DeskKept log) {q : Parked} (hq : .took q ∈ log) :
    ∃ t, .parked t q ∈ log := by
  obtain ⟨served, hd⟩ := hd.atDesk
  have htaken : List.Forall₂ (fun q c => (∃ t, .parked t q ∈ log) ∧ q.job = c.2) (pickups log)
      served := hd.inOrder.taken.flip.imp fun _ c hc => ⟨⟨c.1.task, hc.1⟩, hc.2⟩
  exact ((List.forall₂_and_left _ _).1 htaken).1 q (List.mem_filterMap.2 ⟨_, hq, rfl⟩)

theorem lawful (hd : h.DeskKept log) : Lawful log :=
  let ⟨_, hd⟩ := hd.atDesk
  hd.inHand.lawful

/-- The call of a request that is in the slot has not gone away. -/
theorem exists_call (hd : h.DeskKept log) {q : Parked} (hq : h.slot.pending = some q) :
    ∃ t, .call t (.parked q.id q.reply) ∈ h.stakes :=
  let ⟨_, hd⟩ := hd.atDesk
  hd.inTurn.pending q hq

theorem lt_of_parked (hd : h.DeskKept log) {t : Nat} {q : Parked} (hq : .parked t q ∈ log) :
    q.reply < h.replies.length := by
  by_contra hle
  obtain ⟨served, hd⟩ := hd.atDesk
  have hnone := hd.inHand.fresh q.reply (Nat.le_of_not_lt hle)
  exact (hd.inHand.lawful.told q.reply).1 hnone _ hq rfl

end DeskKept

/-- If a request was not taken before its call went away, it is never taken, and the engine never
begins it. -/
theorem Fresh.never_begun {start : Host} (hf : start.Fresh) {past : List Event} {t : Nat}
    {q : Parked} (hparked : .parked t q ∈ start.notes past) (htook : .took q ∉ start.notes past)
    (hgone : ∀ x ∈ (start.run past).stakes, x.reply? ≠ some q.reply) (future : List Event)
    (job : Job) : .began q.reply job ∉ start.notes (past ++ future) := by
  have hkept (events : List Event) := hf.deskKept events
  have hmem (future : List Event) : .parked t q ∈ start.notes (past ++ future) :=
    (notes_mono _ (List.prefix_append past future)).subset hparked
  have hown (future : List Event) {p : Parked} (hreply : p.reply = q.reply)
      (hp : .took p ∈ start.notes (past ++ future)) : p = q := by
    obtain ⟨u, hu⟩ := (hkept (past ++ future)).exists_parked hp
    exact (Note.parked.inj ((hkept _).lawful.eq_of_opens hu (hmem future) rfl rfl
      (congrArg some hreply))).2
  -- Nobody awaits the answer from now on, so that it is never taken.
  have hnever : .took q ∉ start.notes (past ++ future) := by
    have hnow : (start.run past).Unawaited q.reply ↑(start.run past).stakes :=
      ⟨(hkept past).lt_of_parked hparked, hgone⟩
    induction future using List.reverseRecOn with
    | nil => rwa [List.append_nil]
    | append_singleton future e ih =>
      rw [← List.append_assoc, notes_concat, List.mem_append, Option.mem_toList]
      rintro (hold | hnew)
      · exact ih hold
      · obtain ⟨u, hu⟩ := (hkept (past ++ future)).exists_call (pending_of_took hnew)
        exact ((lasting_unawaited q.reply).run hf past hnow future).2 _ hu rfl
  intro hbegan
  have hlog := (hkept (past ++ future)).lawful
  cases hlife : lifeOf (start.notes (past ++ future)) q.reply with
  | none => exact (hlog.told q.reply).1 hlife _ hbegan rfl
  | some l =>
    have htold := (hlog.told q.reply).2 l hlife
    obtain ⟨-, hphase, -⟩ := htold.began job hbegan
    cases hidle : l.idle with
    | false => cases hlog.eq_of_opens (htold.sent hidle) (hmem future) rfl rfl rfl
    | true =>
      obtain ⟨p, hreply, -, hp⟩ := htold.took hidle hphase
      exact hnever (hown future hreply hp ▸ hp)

end Host

end SharedPrompt
