import SharedPrompt.Proofs.Histories
import SharedPrompt.Proofs.OnePrompt
import SharedPrompt.Proofs.Pickups

/-!
# While somebody else has the line

The ticket of the line prompt is there once. As long as somebody else holds it, no execution has the
permit of a reader, and nobody sees that the line has become free. So a read that has the line cleared
for it goes on with that until the line is free or the editor has been told to give it up, whatever
becomes of its caller.
-/

namespace SharedPrompt

def Event.isPollOf (t : Nat) : Event → Bool
  | .poll u _ => u == t
  | _ => false

theorem Event.exists_of_isPollOf {t : Nat} {e : Event} (he : e.isPollOf t = true) :
    ∃ bias, e = .poll t bias := by
  cases e with
  | poll u bias => exact ⟨bias, by rw [eq_of_beq he]⟩
  | _ => cases he

namespace Host

variable {h : Host} {t : Nat}

/-! ## What other tasks leave alone -/

theorem task?_apply_of_ne (hk : h.WellKept) {task : Task} (ht : h.task? t = some task) {e : Event}
    (hpoll : e.isPollOf t = false) (hdrop : e ≠ .drop t) : (h.apply e).task? t = some task := by
  have hne (bias : List Bool) : e ≠ .poll t bias := by
    rintro rfl
    simp [Event.isPollOf] at hpoll
  exact lookup_of_mem (List.nodup_append.1 (hk.apply e).numbered.owners).1
    (mem_tasks_apply (mem_of_lookup ht) hne hdrop)

/-- A task stays as it is while others go on. -/
theorem task?_run_of_ne (hk : h.WellKept) {task : Task} (ht : h.task? t = some task)
    {events : List Event} (hne : ∀ e ∈ events, e.isPollOf t = false ∧ e ≠ .drop t) :
    (h.run events).task? t = some task := by
  induction events using List.reverseRecOn with
  | nil => exact ht
  | append_singleton events e ih =>
    rw [run_concat]
    obtain ⟨hpoll, hdrop⟩ := hne e (by simp)
    apply task?_apply_of_ne (hk.run events) _ hpoll hdrop
    exact ih fun e' he' => hne e' (List.mem_append_left _ he')

/-! ## The ticket of the line -/

def LineTaken (h : Host) (t : Nat) : Prop :=
  0 < Part.held (WellKept.others h t + h.afield) h.stack.line.gate

instance (h : Host) (t : Nat) : Decidable (h.LineTaken t) := inferInstanceAs (Decidable (0 < _))

theorem parts_eq_task (hk : h.WellKept) {task : Task} (ht : h.task? t = some task) :
    h.parts = task.parts + (WellKept.others h t + h.afield) := by
  rw [parts, WellKept.tasks_sum hk.numbered ht, add_assoc]

/-- An execution that has its permit was on its way to it when it looked up the prompt. -/
theorem lease_of_granted {start : Host} (hkept : start.WellKept) (htasks : start.tasks = [])
    (hthreads : start.threads = []) {past : List Event} {permit : Permit} {job : Job}
    (hreads : job.options.readLine = true)
    (hrun : (start.run past).execution? t = some (.granted permit job)) :
    permit.lease = (start.run past).stack.line.gate := by
  have hline (past : List Event) : (start.run past).stack.line.gate = 1 :=
    (hkept.run past).balanced.books.sound.line
  have hchron := Chronicled.run hkept htasks hthreads past
  obtain ⟨before, hlooked⟩ := (hchron.executions t _ hrun).goal permit job rfl
  rw [hlooked.permit, hreads, hline past, permitFor]
  split
  · exact hline before
  · exact hline before

end Host

/-! ## Leases of readers -/

def Leasing.ForLine (l : Leasing) : Prop :=
  l = .choose true ∨ ∃ p, l.goal? 1 = some p ∧ p.lease = 1

/-- A lease is not at its end, and if it goes on, it does so for the line. -/
def Leasing.GoesOn (r : Poll Leasing Permit) : Prop :=
  r = .blocked ∨ ∃ l, r = .next l ∧ l.ForLine

theorem Leasing.ForLine.step {h : Host} {l : Leasing} (hl : l.ForLine)
    (hline : h.stack.line.gate = 1) (me : Nat) :
    (l.step h me).2 = .blocked ∨ (∃ l', (l.step h me).2 = .next l' ∧ l'.ForLine) ∨
      ∃ p, (l.step h me).2 = .done p ∧ p.lease = 1 := by
  rcases hl with rfl | ⟨p, hp, hlease⟩
  · obtain ⟨l', hl', hgoal⟩ := Leasing.goal?_choose me hline true
    refine .inr (.inl ⟨l', hl', .inr ⟨_, hgoal, ?_⟩⟩)
    rw [Host.permitFor]
    split
    · exact hline
    · exact hline
  · rcases Leasing.goal?_step me hline hp with hblocked | ⟨l', hl', hgoal⟩ | hdone
    · exact .inl hblocked
    · exact .inr (.inl ⟨l', hl', .inr ⟨p, hgoal, hlease⟩⟩)
    · exact .inr (.inr ⟨p, hdone, hlease⟩)

namespace Host.LineTaken

variable {h : Host} {t : Nat} {task : Task}

theorem held (ht : h.LineTaken t) (hk : h.WellKept) :
    0 < Part.held (WellKept.others h t + h.afield) 1 := by
  unfold LineTaken at ht
  rwa [hk.balanced.books.sound.line] at ht

/-- Then no execution of `t` has the permit of a reader. -/
theorem not_granted (ht : h.LineTaken t) (hk : h.WellKept) {permit : Permit} {job : Job}
    (hrun : h.execution? t = some (.granted permit job)) : permit.lease ≠ h.stack.line.gate := by
  intro hgate
  obtain ⟨task, htask, hexec⟩ := Option.bind_eq_some_iff.1 hrun
  have hle : ({.permit permit} : Multiset Part) + (WellKept.others h t + h.afield) ≤ h.parts := by
    rw [parts_eq_task hk htask]
    exact add_le_add_left (Task.parts_execution_le hexec) _
  have hheld : 0 < Part.held ({.permit permit} : Multiset Part) h.stack.line.gate :=
    Part.held_pos _ (Multiset.mem_singleton_self _) (by simp [Part.tickets, Permit.gates, hgate])
  have hnone := hk.not_both hle hheld
  have hsome : 0 < Part.held (WellKept.others h t + h.afield) h.stack.line.gate := ht
  omega

/-- Nor does any lease of `t` come to a permit for the line. -/
theorem not_done (ht : h.LineTaken t) (hk : h.WellKept) (htask : h.task? t = some task)
    {l : Leasing} (hle : ({.lease l} : Multiset Part) ≤ task.parts) {me : Nat} {p : Permit}
    (hlease : p.lease = 1) : (l.step h me).2 ≠ .done p := by
  intro hdone
  obtain ⟨c, hc⟩ := Multiset.le_iff_exists_add.1 hle
  have hbalanced := hk.balanced
  rw [parts_eq_task hk htask, hc, add_assoc] at hbalanced
  have hafter := Leasing.step_balanced me l hbalanced
  rw [hdone] at hafter
  -- The permit would hold the ticket a second time.
  have hone := (hafter.books.gates 1).one
  have hheld : 0 < Part.held ({.permit p} : Multiset Part) 1 :=
    Part.held_pos _ (Multiset.mem_singleton_self _) (by simp [Part.tickets, Permit.gates, hlease])
  have hothers := ht.held hk
  change _ + Part.held ({.permit p} + (c + (WellKept.others h t + h.afield))) 1 = 1 at hone
  rw [Part.held_add, Part.held_add] at hone
  omega

/-- A lease for the line goes on. -/
theorem goesOn (ht : h.LineTaken t) (hk : h.WellKept) (htask : h.task? t = some task)
    {l : Leasing} (hle : ({.lease l} : Multiset Part) ≤ task.parts) (hl : l.ForLine) (me : Nat) :
    Leasing.GoesOn (l.step h me).2 := by
  rcases hl.step hk.balanced.books.sound.line me with hblocked | hnext | ⟨p, hdone, hp⟩
  · exact .inl hblocked
  · exact .inr hnext
  · exact absurd hdone (ht.not_done hk htask hle hp)

theorem lineBusy (ht : h.LineTaken t) (hk : h.WellKept) (htask : h.task? t = some task) :
    h.lineBusy = true := by
  have hle : WellKept.others h t + h.afield ≤ h.parts := by
    rw [parts_eq_task hk htask]
    exact Multiset.le_add_left _ _
  have hheld := Part.held_mono 1 hle
  have hothers := ht.held hk
  have hone := hk.one_ticket 1
  simp only [Host.held] at hone
  have hfree : h.free 1 = 0 := by omega
  rw [Host.lineBusy, PromptStack.lineBusy, hk.balanced.books.sound.line, PromptStack.isLeased,
    TicketGate.isLeased, List.isEmpty_iff]
  exact List.eq_nil_of_length_eq_zero hfree

end Host.LineTaken

/-! ## Aborts -/

def AbortCall.ForLine : AbortCall → Prop
  | start => True
  | exiting l => l.ForLine
  | reverting _ l => l.ForLine

def AbortCall.GoesOn (r : Poll AbortCall Unit) : Prop :=
  r = .blocked ∨ ∃ abort, r = .next abort ∧ abort.ForLine

namespace AbortCall

variable {h : Host} {me : Nat} {l : Leasing} {call : IdleCall}

theorem goesOn_begin (hnative : h.native = true) (hbusy : h.lineBusy = true) :
    GoesOn (begin h).2 := by
  simp only [begin, hnative, hbusy, Bool.not_true, Bool.false_eq_true, if_false]
  split <;> exact .inr ⟨_, rfl, .inl rfl⟩

theorem goesOn_exiting (hl : Leasing.GoesOn (l.step h me).2) (bias : List Bool) :
    GoesOn ((exiting l).step h me bias).2 := by
  rcases hs : l.step h me with ⟨k, r⟩
  rw [hs] at hl
  simp only [step, hs]
  rcases hl with rfl | ⟨l', rfl, hl'⟩
  · exact .inl rfl
  · exact .inr ⟨_, rfl, hl'⟩

theorem goesOn_stepExit (hl : Leasing.GoesOn (l.step h me).2) (call : IdleCall) :
    GoesOn (stepExit h me call l).2 := by
  rcases hs : l.step h me with ⟨k, r⟩
  rw [hs] at hl
  simp only [stepExit, hs]
  rcases hl with rfl | ⟨l', rfl, hl'⟩
  · exact .inl rfl
  · exact .inr ⟨_, rfl, hl'⟩

theorem goesOn_stepRevert (hl : l.ForLine) (hcall : ∀ r, (call.step h me).2 ≠ .done r) :
    GoesOn (stepRevert h me call l).2 := by
  rcases hs : call.step h me with ⟨k, r⟩
  rw [hs] at hcall
  simp only [stepRevert, hs]
  cases r with
  | blocked => exact .inl rfl
  | next call' => exact .inr ⟨_, rfl, hl⟩
  | done r => exact absurd rfl (hcall r)

/-- It does both in either order, and the second only if the first is blocked. -/
theorem goesOn_reverting (hl : Leasing.GoesOn (l.step h me).2) (hline : l.ForLine)
    (hcall : ∀ r, (call.step h me).2 ≠ .done r) (bias : List Bool) :
    GoesOn ((reverting call l).step h me bias).2 := by
  have hexit := goesOn_stepExit hl call
  have hrevert := goesOn_stepRevert hline hcall
  simp only [step]
  split
  · split
    next k hs =>
      rw [stepExit_blocked hs]
      exact hrevert
    next => exact hexit
  · split
    next k hs =>
      rw [stepRevert_blocked hs]
      exact hexit
    next => exact hrevert

end AbortCall

/-! ## A read that clears the line for itself -/

namespace Host

/-- The editor has answered the request to give up its line that was left for the task `t`. -/
def Answered (h : Host) (t : Nat) : Prop :=
  ∃ call l caller r, h.task? t = some (.read (.clearing (.reverting call l) caller)) ∧
    (call.step h t).2 = .done r

def Clearing (h : Host) (t caller : Nat) : Prop :=
  ∃ abort, h.task? t = some (.read (.clearing abort caller)) ∧ abort.ForLine

variable {h : Host} {t caller : Nat}

theorem Clearing.poll (hc : h.Clearing t caller) (hk : h.WellKept) (hnative : h.native = true)
    (htaken : h.LineTaken t) (hanswered : ¬ h.Answered t) (bias : List Bool) :
    (h.apply (.poll t bias)).Clearing t caller := by
  obtain ⟨abort, htask, hline⟩ := hc
  have hlease {l : Leasing} (hle : ({.lease l} : Multiset Part) ≤ abort.parts) (hl : l.ForLine) :
      Leasing.GoesOn (l.step h t).2 := htaken.goesOn hk htask hle hl t
  have hgoes : AbortCall.GoesOn (abort.step h t bias).2 := by
    cases abort with
    | start => exact AbortCall.goesOn_begin hnative (htaken.lineBusy hk htask)
    | exiting l => exact AbortCall.goesOn_exiting (hlease le_rfl hline) bias
    | reverting call l =>
      apply AbortCall.goesOn_reverting (hlease le_rfl hline) hline _ bias
      intro r hr
      exact hanswered ⟨call, l, caller, r, htask, hr⟩
  rcases hs : abort.step h t bias with ⟨k, r⟩
  rw [hs] at hgoes
  have hafter : (h.apply (.poll t bias)).task? t = _ := task?_poll htask (Prod.eta _).symm
  simp only [Task.step, ReadCall.step, hs] at hafter
  rcases hgoes with rfl | ⟨abort', rfl, hline'⟩
  · exact ⟨abort, hafter, hline⟩
  · exact ⟨abort', hafter, hline'⟩

/-- A read that clears the line for itself goes on with that as long as somebody else has the line
and the editor has not been told to give it up. -/
theorem Clearing.run (hc : h.Clearing t caller) (hk : h.WellKept)
    (hnative : ∀ future, (h.run future).native = true) {future : List Event}
    (hdrop : .drop t ∉ future)
    (htaken : ∀ mid, mid <+: future → (h.run mid).LineTaken t ∧ ¬ (h.run mid).Answered t) :
    (h.run future).Clearing t caller := by
  induction future using List.reverseRecOn with
  | nil => exact hc
  | append_singleton future e ih =>
    rw [run_concat]
    have hbefore : (h.run future).Clearing t caller :=
      ih (fun hmem => hdrop (List.mem_append_left _ hmem)) fun mid hle =>
        htaken mid (hle.trans (List.prefix_append _ _))
    by_cases hpoll : e.isPollOf t = true
    · obtain ⟨bias, rfl⟩ := Event.exists_of_isPollOf hpoll
      obtain ⟨htakenNow, hanswered⟩ := htaken future (List.prefix_append _ _)
      exact hbefore.poll (hk.run future) (hnative future) htakenNow hanswered bias
    · obtain ⟨abort, htask, hline⟩ := hbefore
      refine ⟨abort, task?_apply_of_ne (hk.run future) htask (by simpa using hpoll) ?_, hline⟩
      rintro rfl
      exact hdrop (by simp)

end Host

end SharedPrompt
