import SharedPrompt.Proofs.IdleOrder
import SharedPrompt.Proofs.InHand

/-!
# The desk is kept in order

Whatever tasks and threads do at the desk, the replies, stakes and affairs stay as the log tells, the
calls for idle moments take turns, and requests are taken in the order of the calls.
-/

namespace SharedPrompt

def IdleSlot.affairs (slot : IdleSlot) : Multiset Affair := slot.pending.elim 0 ({·.affair})

namespace Host

def affairs (h : Host) : Multiset Affair := (h.threads.map fun t => Activation.affairs t.stack).sum

variable (h : Host)

theorem desk_releaseTurn : h.releaseTurn.desk =
    ({ h.slot with turn := h.slot.turn.release }, h.replies, h.threads, h.commands) :=
  desk_wakeWaiter _ _

theorem desk_leaveTurn (w : Waiter) : (h.leaveTurn w).desk =
    ({ h.slot with turn := h.slot.turn.leave w }, h.replies, h.threads, h.commands) :=
  desk_wakeWaiter _ _

theorem desk_withdraw {id : Nat} (hown : ∀ q, h.slot.pending = some q → q.id = id) :
    (h.withdraw id).desk =
      ({ h.slot with pending := none }, h.replies, h.threads, h.commands) := by
  unfold withdraw
  split
  next q hq => rw [if_pos (hown q hq)]; rfl
  next hnone => rw [← hnone]; rfl

/-- What is at the desk when the call whose turn it is takes its request back. -/
theorem desk_takeBack {id reply : Nat} (hown : ∀ q, h.slot.pending = some q → q.id = id) :
    (((h.closeReply reply).withdraw id).releaseTurn).desk =
      ({ h.slot with pending := none, turn := h.slot.turn.release },
        h.replies.set reply .closed, h.threads, h.commands) := by
  have hwithdraw := (h.closeReply reply).desk_withdraw hown
  obtain ⟨hslot, hrest⟩ := Prod.mk.inj hwithdraw
  rw [desk_releaseTurn, hslot, hrest]
  rfl

/-- The desk is in order with some stakes of tasks and some affairs of threads. -/
structure AtDesk (h : Host) (s : Multiset Stake) (a : Multiset Affair) (log : List Note)
    (served : List (Waiter × Job)) : Prop where
  inHand : InHand h.replies s (h.slot.affairs + a) log
  inTurn : InTurn h.slot h.nextTurn s
  inOrder : InOrder h.slot h.nextTurn s log served

namespace AtDesk

variable {h h' : Host} {s : Multiset Stake} {a : Multiset Affair} {log : List Note}
  {served : List (Waiter × Job)} {x : Stake} {t : Nat} {job : Job}

/-- Only what is at the desk matters. -/
theorem of_desk {slot : IdleSlot} {replies : List Reply}
    {rest : List Thread × List (Options × Command)} {turn : Nat}
    (hdesk : h'.desk = (slot, replies, rest)) (hle : turn ≤ h'.nextTurn)
    (hhand : InHand replies s (slot.affairs + a) log) (hturn : InTurn slot turn s)
    (horder : InOrder slot turn s log served) : h'.AtDesk s a log served := by
  obtain ⟨hslot, hrest⟩ := Prod.mk.inj hdesk
  obtain ⟨hreplies, -⟩ := Prod.mk.inj hrest
  subst hslot hreplies
  exact ⟨hhand, hturn.later hle,
    horder.mono (fun _ hw => hw) (fun _ hq => hq) hle fun _ hx _ => hx⟩

theorem off (hd : h.AtDesk s a log served) (ho : h.OffDesk h') : h'.AtDesk s a log served :=
  of_desk ho.desk ho.turns hd.inHand hd.inTurn hd.inOrder

/-- A stake is added that has no reply, no turn and no place. -/
theorem addStart (hd : h.AtDesk s a log served) (t : Nat) (job : Job) :
    h.AtDesk ({.call t (.start job)} + s) a log served where
  inHand := hd.inHand.addIdle rfl
  inTurn := hd.inTurn.addFree rfl rfl
  inOrder := hd.inOrder.mono (fun _ hw => hw) (fun _ hq => hq) le_rfl fun _ hx hseeks => by
    refine (Multiset.mem_add.1 hx).resolve_left fun heq => ?_
    rw [Multiset.mem_singleton.1 heq] at hseeks
    cases hseeks

theorem dropStart (hd : h.AtDesk ({.call t (.start job)} + s) a log served) :
    h.AtDesk s a log served where
  inHand := hd.inHand.drop
  inTurn := hd.inTurn.dropFree rfl rfl
  inOrder := hd.inOrder.mono (fun _ hw => hw) (fun _ hq => hq) le_rfl fun _ hx _ =>
    Multiset.mem_add.2 (.inr hx)

/-! ## Calls for idle moments -/

theorem step_start (hd : h.AtDesk ({.call t (.start job)} + s) a log served) :
    ((IdleCall.start job).step h t).1.AtDesk
      (↑(((IdleCall.start job).step h t).2.stakes [.call t (.start job)] fun k => [.call t k]) + s)
      a (log ++ [.called ⟨t, h.nextTurn⟩ job]) served := by
  have hd' := hd.dropStart
  have hnoted := hd'.inHand.note (d := .called ⟨t, h.nextTurn⟩ job) rfl
  have hstep : (IdleCall.start job).step h t =
      ({ h with
          nextTurn := h.nextTurn + 1
          slot := { h.slot with turn := (h.slot.turn.join ⟨t, h.nextTurn⟩).2 } },
        .next (if (h.slot.turn.join ⟨t, h.nextTurn⟩).1 then .install job
          else .queued ⟨t, h.nextTurn⟩ job)) := rfl
  rw [hstep]
  rcases hd'.inTurn.join t job with ⟨htaken, hturn⟩ | ⟨hwait, hturn⟩
  · rw [htaken]
    exact ⟨hnoted.addIdle rfl, hturn, hd'.inOrder.join hd'.inTurn t job _ (.inr ⟨rfl, htaken⟩)⟩
  · rw [hwait]
    exact ⟨hnoted.addIdle rfl, hturn, hd'.inOrder.join hd'.inTurn t job _ (.inl rfl)⟩

theorem step_queued {w : Waiter} (hd : h.AtDesk ({.call t (.queued w job)} + s) a log served) :
    ((IdleCall.queued w job).step h t).1.AtDesk
      (↑(((IdleCall.queued w job).step h t).2.stakes [.call t (.queued w job)] fun k =>
        [.call t k]) + s) a log served := by
  simp only [IdleCall.step]
  split
  next gate hc =>
    exact ⟨hd.inHand.drop.addIdle rfl, hd.inTurn.collect hc, hd.inOrder.collect hd.inTurn hc⟩
  next => exact hd

/-- Nothing is in the slot before the call whose turn it is has left its request there. -/
theorem pending_of_install (hd : h.AtDesk ({.call t (.install job)} + s) a log served) :
    h.slot.pending = none := by
  by_contra hne
  obtain ⟨q, hq⟩ := Option.ne_none_iff_exists'.1 hne
  obtain ⟨t', heq⟩ := hd.inTurn.eq_of_pending rfl hq
  cases heq

theorem step_install (hd : h.AtDesk ({.call t (.install job)} + s) a log served) :
    (h.park t job).2.AtDesk ({.call t (.parked h.slot.nextId h.replies.length)} + s) a
      (log ++ [.parked t ⟨h.slot.nextId, job, h.replies.length⟩]) served where
  inHand := by
    have hopen := hd.inHand.drop.open_ (x := .call t (.parked h.slot.nextId h.replies.length))
      (d := .parked t ⟨h.slot.nextId, job, h.replies.length⟩) t true job rfl rfl rfl rfl rfl rfl
    rw [IdleSlot.affairs, hd.pending_of_install, Option.elim_none, zero_add] at hopen
    exact hopen
  inTurn := hd.inTurn.park _ _ _
  inOrder := hd.inOrder.park _ _ _

/-- The request in the slot is that of the call whose turn it is. -/
theorem own_of_parked {id ρ : Nat} (hd : h.AtDesk ({.call t (.parked id ρ)} + s) a log served)
    {q : Parked} (hq : h.slot.pending = some q) : q.id = id ∧ q.reply = ρ := by
  obtain ⟨t', heq⟩ := hd.inTurn.eq_of_pending rfl hq
  cases heq
  exact ⟨rfl, rfl⟩

theorem dropQueued {w : Waiter} (hd : h.AtDesk ({.call t (.queued w job)} + s) a log served) :
    (h.leaveTurn w).AtDesk s a log served := by
  refine of_desk (h.desk_leaveTurn w) (h.aside_leaveTurn w).turns hd.inHand.drop hd.inTurn.leave ?_
  refine hd.inOrder.mono (fun v hv => ?_) (fun _ hq => hq) le_rfl fun _ hx _ =>
    Multiset.mem_add.2 (.inr hx)
  rw [TicketGate.line_leave] at hv
  exact List.mem_of_mem_erase hv

/-- Without the call whose turn it is, calls are still in order. -/
theorem inOrder_release (hd : h.AtDesk ({x} + s) a log served) :
    InOrder { h.slot with pending := none, turn := h.slot.turn.release } h.nextTurn s log served := by
  refine hd.inOrder.mono (fun w hw => ?_) (fun q hq => by cases hq) le_rfl fun _ hx _ =>
    Multiset.mem_add.2 (.inr hx)
  rwa [TicketGate.line_release] at hw

theorem dropInstall (hd : h.AtDesk ({.call t (.install job)} + s) a log served) :
    h.releaseTurn.AtDesk s a log served := by
  have hnone := hd.pending_of_install
  have hdesk : h.releaseTurn.desk =
      ({ h.slot with pending := none, turn := h.slot.turn.release }, h.replies, h.threads,
        h.commands) := by
    rw [desk_releaseTurn, ← hnone]
  have hhand := hd.inHand.drop
  rw [IdleSlot.affairs, hnone] at hhand
  exact of_desk hdesk h.aside_releaseTurn.turns hhand (hd.inTurn.release rfl) hd.inOrder_release

theorem dropParked {id ρ : Nat} (hd : h.AtDesk ({.call t (.parked id ρ)} + s) a log served) :
    (((h.closeReply ρ).withdraw id).releaseTurn).AtDesk s a log served := by
  have hle : h.nextTurn ≤ (((h.closeReply ρ).withdraw id).releaseTurn).nextTurn :=
    ((h.aside_closeReply ρ).trans ((aside_withdraw _ id).trans (aside_releaseTurn _))).turns
  have hhand := hd.inHand.close (ρ := ρ) rfl
  have hnot := hd.inHand.not_awaited (ρ := ρ) rfl
  refine of_desk (h.desk_takeBack fun q hq => (hd.own_of_parked hq).1) hle ?_
    (hd.inTurn.release rfl) hd.inOrder_release
  -- Nobody else awaits the reply to the request, if it was still in the slot.
  cases hq : h.slot.pending with
  | none => simpa [IdleSlot.affairs, hq] using hhand
  | some q =>
    have hrequest : InHand (h.replies.set ρ .closed) s ({q.affair} + a) log := by
      simpa [IdleSlot.affairs, hq] using hhand
    obtain ⟨-, rfl⟩ := hd.own_of_parked hq
    have hdropped := hrequest.dropAffair hnot
    simpa [IdleSlot.affairs] using hdropped

theorem step_parked {id ρ : Nat} (hd : h.AtDesk ({.call t (.parked id ρ)} + s) a log served) :
    ((IdleCall.parked id ρ).step h t).1.AtDesk
      (↑(((IdleCall.parked id ρ).step h t).2.stakes [.call t (.parked id ρ)] fun k =>
        [.call t k]) + s) a (log ++ ((IdleCall.parked id ρ).note? h t).toList) served := by
  obtain ⟨job, p, hlife, ⟨hopen, -⟩ | ⟨r, hsent, -⟩⟩ :=
    hd.inHand.stakes (.call t (.parked id ρ)) (by simp) ρ rfl
  · simp only [IdleCall.step, IdleCall.note?, hopen, Option.toList_none, List.append_nil]
    exact hd
  · have hle : h.nextTurn ≤ (((h.closeReply ρ).withdraw id).releaseTurn).nextTurn :=
      ((h.aside_closeReply ρ).trans ((aside_withdraw _ id).trans (aside_releaseTurn _))).turns
    -- Its request is not in the slot any more, or there were no answer.
    have hnone : h.slot.pending = none := by
      by_contra hne
      obtain ⟨q, hq⟩ := Option.ne_none_iff_exists'.1 hne
      obtain ⟨-, rfl⟩ := hd.own_of_parked hq
      have hmem : q.affair ∈ h.slot.affairs + a := by simp [IdleSlot.affairs, hq]
      obtain ⟨t', -, hopen | hclosed⟩ := hd.inHand.affairs q.affair hmem
      · cases hopen.symm.trans hsent
      · cases hclosed.symm.trans hsent
    have hhand := hd.inHand.return_ (ρ := ρ) rfl hsent
    rw [IdleSlot.affairs, hnone] at hhand
    simp only [IdleCall.step, IdleCall.note?, hsent, Option.toList_some, Poll.stakes,
      Multiset.coe_nil, zero_add]
    exact of_desk (h.desk_takeBack fun q hq => (hd.own_of_parked hq).1) hle hhand
      (hd.inTurn.release rfl) (hd.inOrder_release.note rfl rfl)

/-- A step of a call keeps the desk in order. -/
theorem step (k : IdleCall) (hd : h.AtDesk ({.call t k} + s) a log served) :
    (k.step h t).1.AtDesk (↑((k.step h t).2.stakes [.call t k] fun k => [.call t k]) + s) a
      (log ++ (k.note? h t).toList) served := by
  cases k with
  | start job => exact hd.step_start
  | queued w job =>
    simp only [IdleCall.note?, Option.toList_none, List.append_nil]
    exact hd.step_queued
  | install job => exact hd.step_install
  | parked id ρ => exact hd.step_parked

/-- Giving up a call keeps the desk in order. -/
theorem abandon (k : IdleCall) (hd : h.AtDesk ({.call t k} + s) a log served) :
    (k.abandon h).AtDesk s a log served := by
  cases k with
  | start job => exact hd.dropStart
  | queued w job => exact hd.dropQueued
  | install job => exact hd.dropInstall
  | parked id ρ => exact hd.dropParked

/-- An execution sends a thread with its job. -/
theorem dispatch (hd : h.AtDesk s a log served) (t : Nat) (p : Permit) (job : Job) :
    (h.dispatch t p job).2.AtDesk ({.await t h.replies.length} + s)
      ({⟨h.replies.length, false, job, .unbegun⟩} + a) (log ++ [.sent t h.replies.length job])
      served where
  inHand := by
    have hopen := hd.inHand.open_ (x := .await t h.replies.length)
      (d := .sent t h.replies.length job) t false job rfl rfl rfl rfl rfl rfl
    rw [add_left_comm] at hopen
    exact hopen
  inTurn := hd.inTurn.addFree rfl rfl
  inOrder := (hd.inOrder.mono (fun _ hw => hw) (fun _ hq => hq) le_rfl fun _ hx hseeks => by
    refine (Multiset.mem_add.1 hx).resolve_left fun heq => ?_
    rw [Multiset.mem_singleton.1 heq] at hseeks
    cases hseeks).note rfl rfl

/-- Whoever awaits a reply to an errand goes away. -/
theorem dropAwait {ρ : Nat} (hd : h.AtDesk ({.await t ρ} + s) a log served) :
    (h.closeReply ρ).AtDesk s a log served where
  inHand := hd.inHand.close rfl
  inTurn := hd.inTurn.dropFree rfl rfl
  inOrder := hd.inOrder.mono (fun _ hw => hw) (fun _ hq => hq) le_rfl fun _ hx _ =>
    Multiset.mem_add.2 (.inr hx)

theorem returnAwait {ρ : Nat} {r : RunResult} (hd : h.AtDesk ({.await t ρ} + s) a log served)
    (hsent : h.replies[ρ]? = some (.sent r)) :
    (h.closeReply ρ).AtDesk s a (log ++ [.returned t ρ r]) served where
  inHand := hd.inHand.return_ rfl hsent
  inTurn := hd.dropAwait.inTurn
  inOrder := hd.dropAwait.inOrder.note rfl rfl

/-! ## Affairs of threads -/

variable {y : Affair}

/-- An affair goes on in the hands of a thread. -/
theorem goes {d : Note} {p : Life.Phase} (hd : h.AtDesk s ({y} + a) log served) (hy : y.Goes d p)
    (htook : d.took? = none) : h.AtDesk s ({{ y with phase := p }} + a) (log ++ [d]) served where
  inHand := by
    have hhand := hd.inHand
    rw [add_left_comm] at hhand ⊢
    exact hhand.goes hy
  inTurn := hd.inTurn
  inOrder := hd.inOrder.note (by cases hy <;> rfl) htook

theorem answer {r : RunResult} (hd : h.AtDesk s ({y} + a) log served) (hy : y.phase = .settled r) :
    (h.sendReply y.reply r).AtDesk s a log served := by
  have hhand := hd.inHand
  rw [add_left_comm] at hhand
  exact of_desk (h.desk_sendReply y.reply r) (h.aside_sendReply y.reply r).turns (hhand.answer hy)
    hd.inTurn hd.inOrder

/-- A thread takes the request out of the slot. -/
theorem take {q : Parked} (hd : h.AtDesk s a log served) (hq : h.slot.pending = some q) :
    ∃ c, h.unpark.AtDesk s ({{ q.affair with phase := .unbegun }} + a) (log ++ [.took q])
      (served ++ [c]) := by
  obtain ⟨c, horder⟩ := hd.inOrder.take hd.inTurn hq
  have hhand := hd.inHand
  rw [IdleSlot.affairs, hq] at hhand
  refine ⟨c, ?_, hd.inTurn.unpark, horder⟩
  simpa [IdleSlot.affairs, unpark] using hhand.goes (.took q)

end AtDesk

theorem affairs_of_threads {h h' : Host} (hthreads : h'.threads = h.threads) :
    h'.affairs = h.affairs := by
  rw [affairs, affairs, hthreads]

theorem affairs_dispatch (h : Host) (t : Nat) (p : Permit) (job : Job) :
    (h.dispatch t p job).2.affairs =
      {⟨h.replies.length, false, job, .unbegun⟩} + h.affairs := by
  simp only [affairs, dispatch, newReply, spawnThread, List.map_append, List.sum_append,
    List.map_cons, List.map_nil, List.sum_singleton]
  rw [add_comm]
  rfl

end Host

section
variable {h h' : Host} {log : List Note} {served : List (Waiter × Job)} {d : Option Note}

/-- What a task does at the desk keeps it in order. -/
theorem Dealt.atDesk {me : Nat} {s s' : Multiset Stake} (hdealt : Dealt me (h, s) (h', s') d)
    (hd : h.AtDesk s h.affairs log served) :
    h'.AtDesk s' h'.affairs (log ++ d.toList) served := by
  cases hdealt with
  | off s ho =>
    rw [Host.affairs_of_threads ho.threads, Option.toList_none, List.append_nil]
    exact hd.off ho
  | opened s job ho =>
    rw [Host.affairs_of_threads ho.threads, Option.toList_none, List.append_nil]
    exact (hd.addStart me job).off ho
  | stepped s k ho =>
    have hthreads : (k.step h me).1.threads = h.threads := (k.aside_step h me).threads
    rw [Host.affairs_of_threads (ho.threads.trans hthreads)]
    exact (hd.step k).off ho
  | left s k hbefore ho =>
    have hthreads := (k.aside_abandon _).threads.trans hbefore.threads
    rw [Host.affairs_of_threads (ho.threads.trans hthreads), Option.toList_none, List.append_nil]
    exact ((hd.off hbefore).abandon k).off ho
  | sent s p job ho =>
    rw [Host.affairs_of_threads ho.threads, Host.affairs_dispatch]
    exact (hd.dispatch me p job).off ho
  | returned s ρ r hsent ho =>
    rw [Host.affairs_of_threads (h := h) ho.threads]
    exact (hd.returnAwait hsent).off ho
  | closed s ρ ho =>
    rw [Host.affairs_of_threads (h := h) ho.threads, Option.toList_none, List.append_nil]
    exact hd.dropAwait.off ho

/-- What a thread does at the desk keeps it in order. -/
theorem Handled.atDesk {a a' : Multiset Affair} (hhandled : Handled (h, a) (h', a') d)
    {s : Multiset Stake} (hd : h.AtDesk s a log served) :
    ∃ served', h'.AtDesk s a' (log ++ d.toList) served' := by
  cases hhandled with
  | off a ho =>
    rw [Option.toList_none, List.append_nil]
    exact ⟨served, hd.off ho⟩
  | took a hq ho =>
    obtain ⟨c, htook⟩ := hd.take hq
    exact ⟨_, htook.off ho⟩
  | began a ρ idle pipeline job ho =>
    have hbegun := hd.goes (.began ρ idle job) rfl
    have hgiven := Host.AtDesk.mk (h := h.giveCommand pipeline job) hbegun.inHand hbegun.inTurn
      hbegun.inOrder
    exact ⟨served, hgiven.off ho⟩
  | went a hy htook hgiven ho => exact ⟨served, (hd.goes hy htook).off ho⟩
  | failed a ρ job f ho =>
    have hover := hd.goes (.failed ρ job f) rfl
    exact ⟨served, (hover.answer rfl).off ho⟩
  | answered a ρ idle job r ho =>
    rw [Option.toList_none, List.append_nil]
    exact ⟨served, (hd.answer rfl).off ho⟩

end

end SharedPrompt
