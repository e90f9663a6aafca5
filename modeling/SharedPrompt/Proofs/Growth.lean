import SharedPrompt.Proofs.Balance
import SharedPrompt.Proofs.EventCases
import SharedPrompt.Proofs.Numbered

/-!
# What only grows

Numbers are given in ascending order and no gate is ever taken away. Whoever is in a line after a
change was in it before or has drawn a new turn.
-/

namespace SharedPrompt

structure Host.Grows (h h' : Host) : Prop where
  inProcess : h'.engine.inProcess = h.engine.inProcess
  nextTask : h.nextTask ≤ h'.nextTask
  nextThread : h.nextThread ≤ h'.nextThread
  nextTurn : h.nextTurn ≤ h'.nextTurn
  gates : h.stack.gates.length ≤ h'.stack.gates.length
  line : ∀ g, ∀ w ∈ (h'.stack.gate g).line, w ∈ (h.stack.gate g).line ∨ h.nextTurn ≤ w.turn

namespace Host

namespace Grows

theorem refl (h : Host) : h.Grows h := ⟨rfl, le_rfl, le_rfl, le_rfl, le_rfl, fun _ _ hw => .inl hw⟩

theorem trans {a b c : Host} (hab : a.Grows b) (hbc : b.Grows c) : a.Grows c where
  inProcess := hbc.inProcess.trans hab.inProcess
  nextTask := hab.nextTask.trans hbc.nextTask
  nextThread := hab.nextThread.trans hbc.nextThread
  nextTurn := hab.nextTurn.trans hbc.nextTurn
  gates := hab.gates.trans hbc.gates
  line g w hw := by
    rcases hbc.line g w hw with hw | hw
    · exact hab.line g w hw
    · exact .inr (hab.nextTurn.trans hw)

/-- The prompts and the next turn are as before. -/
theorem of_stack {h h' : Host} (hin : h'.engine.inProcess = h.engine.inProcess)
    (htask : h.nextTask ≤ h'.nextTask) (hthread : h.nextThread ≤ h'.nextThread)
    (hturn : h.nextTurn ≤ h'.nextTurn) (hstack : h'.stack = h.stack) : h.Grows h' where
  inProcess := hin
  nextTask := htask
  nextThread := hthread
  nextTurn := hturn
  gates := by rw [hstack]
  line g w hw := .inl (by rwa [hstack] at hw)

end Grows

theorem Quiet.grows {h h' : Host} (hq : h.Quiet h') : h.Grows h' :=
  .of_stack hq.inProcess hq.nextTask.ge hq.nextThread.ge hq.turns hq.stack

theorem Aside.grows {h h' : Host} (ha : h.Aside h') : h.Grows h' := ha.quiet.grows

section
variable (h : Host)

/-- A change of one gate grows if the line of that gate does. -/
theorem grows_modifyGate {g : Nat} {f : Gate → Gate}
    (hf : ∀ w ∈ (f (h.stack.gate g)).line, w ∈ (h.stack.gate g).line ∨ h.nextTurn ≤ w.turn) :
    h.Grows { h with stack := h.stack.modifyGate g f } where
  inProcess := rfl
  nextTask := le_rfl
  nextThread := le_rfl
  nextTurn := le_rfl
  gates := by simp [PromptStack.modifyGate]
  line g' w hw := by
    by_cases hg : g' = g
    · subst hg
      by_cases hlt : g' < h.stack.gates.length
      · rw [h.stack.gate_modifyGate_self hlt] at hw
        exact hf w hw
      · rw [PromptStack.gate_of_length_le _
          (by simpa [PromptStack.modifyGate] using Nat.le_of_not_lt hlt)] at hw
        cases hw
    · rw [h.stack.gate_modifyGate_ne hg] at hw
      exact .inl hw

theorem grows_releaseGate (g : Nat) : h.Grows (h.releaseGate g) := by
  refine (h.grows_modifyGate fun w hw => ?_).trans (aside_wakeWaiter _ _).grows
  rw [TicketGate.line_release] at hw
  exact .inl hw

theorem grows_releaseAll (gates : List Nat) : h.Grows (gates.foldl releaseGate h) := by
  induction gates generalizing h with
  | nil => exact .refl h
  | cons g rest ih => exact (h.grows_releaseGate g).trans (ih _)

theorem grows_leaveGate (g : Nat) (w : Waiter) : h.Grows (h.leaveGate g w) := by
  refine (h.grows_modifyGate fun v hv => ?_).trans (aside_wakeWaiter _ _).grows
  rw [TicketGate.line_leave] at hv
  exact .inl (List.mem_of_mem_erase hv)

theorem grows_collectGate {h h' : Host} {g : Nat} {w : Waiter} (hc : h.collectGate? g w = some h') :
    h.Grows h' := by
  obtain ⟨gate, hgate, rfl⟩ := Option.map_eq_some_iff.1 hc
  refine h.grows_modifyGate fun v hv => .inl ?_
  rw [TicketGate.line_collect hgate] at hv
  exact List.mem_of_mem_erase hv

/-- Whoever joins a line has drawn a new turn. -/
theorem grows_join (g me : Nat) : h.Grows ((h.drawTurn me).2.joinGate g (h.drawTurn me).1).2 := by
  have hjoin : h.Grows { h with
      stack := h.stack.modifyGate g fun _ => ((h.stack.gate g).join ⟨me, h.nextTurn⟩).2 } := by
    refine h.grows_modifyGate fun v hv => (TicketGate.mem_line_join hv).imp_right fun heq => ?_
    rw [heq]
  refine ⟨hjoin.inProcess, hjoin.nextTask, hjoin.nextThread, Nat.le_succ _, hjoin.gates, hjoin.line⟩

theorem grows_push (pipeline : Nat) (debugger : Bool) :
    h.Grows { h with stack := h.stack.push pipeline debugger } where
  inProcess := rfl
  nextTask := le_rfl
  nextThread := le_rfl
  nextTurn := le_rfl
  gates := by simp [PromptStack.push]
  line g w hw := by
    rw [PromptStack.gate_push] at hw
    split at hw
    · cases hw
    · exact .inl hw

theorem grows_pushLeased (pipeline : Nat) (debugger : Bool) :
    h.Grows { h with stack := h.stack.pushLeased pipeline debugger } := by
  refine (h.grows_push pipeline debugger).trans (grows_modifyGate _ fun w hw => .inl ?_)
  have hline (gate : Gate) : (gate.take?.getD gate).line = gate.line := by
    cases gate with
    | mk name tickets =>
      simp only [TicketGate.take?, WaitQueue.take?]
      cases tickets.items <;> rfl
  rwa [hline] at hw

end

end Host

namespace Leasing

theorem grows_step (h : Host) (me : Nat) (l : Leasing) : h.Grows (l.step h me).1 := by
  cases l with
  | choose readLine => cases readLine <;> exact .refl h
  | ask g purpose =>
    have hjoin := h.grows_join g me
    simp only [step]
    split <;> rename_i hr <;> rw [hr] at hjoin <;> exact hjoin
  | wait g w purpose =>
    simp only [step]
    split
    · exact Host.grows_collectGate ‹_›
    · exact .refl h

theorem grows_abandon (h : Host) (l : Leasing) : h.Grows (l.abandon h) := by
  cases l with
  | choose readLine => exact .refl h
  | ask g purpose => exact h.grows_releaseAll _
  | wait g w purpose => exact (h.grows_leaveGate g w).trans (Host.grows_releaseAll _ _)

end Leasing

theorem LeaseMove.grows {a b : Host × Multiset Part} (hm : LeaseMove a b) : a.1.Grows b.1 := by
  cases hm with
  | aside c ha => exact ha.grows
  | begin h c readLine => exact .refl h
  | advance h c me l => exact l.grows_step h me
  | leave h c l => exact l.grows_abandon h
  | giveBack h c p => exact h.grows_releaseAll p.gates

theorem Move.grows {a b : Host × Multiset Part} (hm : Move a b) : a.1.Grows b.1 := by
  cases hm with
  | lease hm => exact hm.grows
  | dispatch h c me p job => exact .of_stack rfl le_rfl (Nat.le_succ _) le_rfl rfl

theorem Moves.grows {a b : Host × Multiset Part} (hm : Moves a b) : a.1.Grows b.1 := by
  induction hm with
  | refl => exact .refl _
  | tail _ hlast ih => exact ih.trans hlast.grows

theorem Shift.grows {a b : Host × Multiset Part} (hs : Shift a b) : a.1.Grows b.1 := by
  cases hs with
  | quiet c hq => exact hq.grows
  | push h c pipeline debugger => exact h.grows_push pipeline debugger
  | pushLeased h c pipeline debugger => exact h.grows_pushLeased pipeline debugger
  | pop h c => exact ⟨rfl, le_rfl, le_rfl, le_rfl, le_rfl, fun _ _ hw => .inl hw⟩
  | giveFirst h c p => exact h.grows_releaseGate p.lease
  | giveRest h c p => exact h.grows_releaseAll p.main.toList

theorem Shifts.grows {a b : Host × Multiset Part} (hs : Shifts a b) : a.1.Grows b.1 := by
  induction hs with
  | refl => exact .refl _
  | tail _ hlast ih => exact ih.trans hlast.grows

namespace Host

/-- Whatever happens, a host only grows in this respect. -/
theorem grows_apply (h : Host) (e : Event) : h.Grows (h.apply e) := by
  have hnext := h.next_apply e
  generalize h.apply e = k at hnext
  cases hnext with
  | plain hs => exact (hs 0).grows
  | @polled t bias task k r _ hs =>
    have hm := (task.step_moves h t 0 bias).grows
    rw [hs] at hm
    cases r with
    | done r => cases r <;> exact hm.trans (.of_stack rfl le_rfl le_rfl le_rfl rfl)
    | _ => exact hm.trans (.of_stack rfl le_rfl le_rfl le_rfl rfl)
  | advanced _ hs =>
    rw [setThread_eq]
    exact (Activation.step_shifts 0 hs).grows.trans (.of_stack rfl le_rfl le_rfl le_rfl rfl)
  | started call =>
    have hnew : h.Grows (h.addTask call.task) := .of_stack rfl (Nat.le_succ _) le_rfl le_rfl rfl
    exact hnew.trans (aside_wake _ _).grows
  | @dropped t task _ =>
    exact (task.abandon_moves h t 0).moves.grows.trans (.of_stack rfl le_rfl le_rfl le_rfl rfl)
  | @released owner p _ =>
    have hremove : h.Grows { h with permits := h.permits.filter (·.1 ≠ owner) } :=
      .of_stack rfl le_rfl le_rfl le_rfl rfl
    exact hremove.trans (grows_releaseAll _ p.gates)
  | idle => exact .of_stack rfl le_rfl (Nat.le_succ _) le_rfl rfl
  | @pushed k n debugger hq =>
    exact (hq.grows.trans (k.grows_pushLeased n debugger)).trans
      (.of_stack rfl (Nat.le_succ _) le_rfl le_rfl rfl)

theorem grows_run (h : Host) (events : List Event) : h.Grows (h.run events) := by
  induction events generalizing h with
  | nil => exact .refl h
  | cons e rest ih => exact (h.grows_apply e).trans (ih (h.apply e))

theorem inProcess_run (h : Host) (events : List Event) :
    (h.run events).engine.inProcess = h.engine.inProcess :=
  (h.grows_run events).inProcess

end Host

end SharedPrompt
