import SharedPrompt.Proofs.Aside
import SharedPrompt.Proofs.AtGates

/-!
# Changes that leave all calls where they are

Whatever a thread or a lease does, no task, no owner and no other thread is touched by it: only the
caller of the step puts the result back in its place.
-/

namespace SharedPrompt

/-- The tasks, the owners outside and the threads of a host are the same as before, and its engine
is in the same place. -/
structure Host.SameCalls (h h' : Host) : Prop where
  tasks : h'.tasks = h.tasks
  nextTask : h'.nextTask = h.nextTask
  permits : h'.permits = h.permits
  threads : h'.threads = h.threads
  nextThread : h'.nextThread = h.nextThread
  inProcess : h'.engine.inProcess = h.engine.inProcess

namespace Host

namespace SameCalls

theorem refl (h : Host) : h.SameCalls h := by constructor <;> rfl

theorem trans {a b c : Host} (hab : a.SameCalls b) (hbc : b.SameCalls c) : a.SameCalls c where
  tasks := hbc.tasks.trans hab.tasks
  nextTask := hbc.nextTask.trans hab.nextTask
  permits := hbc.permits.trans hab.permits
  threads := hbc.threads.trans hab.threads
  nextThread := hbc.nextThread.trans hab.nextThread
  inProcess := hbc.inProcess.trans hab.inProcess

end SameCalls

theorem Aside.sameCalls {h h' : Host} (ha : h.Aside h') : h.SameCalls h' where
  tasks := ha.tasks
  nextTask := ha.nextTask
  permits := ha.permits
  threads := ha.threads
  nextThread := ha.nextThread
  inProcess := by rw [ha.engine]

variable (h : Host)

theorem sameCalls_setStack (stack : PromptStack) : h.SameCalls { h with stack } := by
  constructor <;> rfl

theorem AtGates.sameCalls {h h' : Host} (ha : h.AtGates h') : h.SameCalls h' := by
  obtain ⟨gates, nextTurn, ready, rfl⟩ := ha
  constructor <;> rfl

theorem sameCalls_releaseGate (g : Nat) : h.SameCalls (h.releaseGate g) :=
  (h.atGates_releaseGate g).sameCalls

theorem sameCalls_releaseAll (gates : List Nat) : h.SameCalls (gates.foldl releaseGate h) :=
  (h.atGates_releaseAll gates).sameCalls

theorem sameCalls_releasePermit (p : Permit) : h.SameCalls (h.releasePermit p) :=
  (h.atGates_releasePermit p).sameCalls

end Host

namespace Leasing

theorem sameCalls_step (h : Host) (me : Nat) (l : Leasing) : h.SameCalls (l.step h me).1 :=
  (l.atGates_step h me).sameCalls

theorem sameCalls_abandon (h : Host) (l : Leasing) : h.SameCalls (l.abandon h) :=
  (l.atGates_abandon h).sameCalls

end Leasing

end SharedPrompt
