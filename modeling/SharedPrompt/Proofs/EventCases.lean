import SharedPrompt.Proofs.Shifts

/-!
# What an event comes to

An event polls a task or steps a thread, starts or drops a task, gives a permit back, tells of an
idle moment, or gives a new owner the permit of the prompt that it opens. All others are made of
shifts.
-/

namespace SharedPrompt

namespace Host

def afterPoll (h : Host) (t : Nat) : Poll Task TaskResult → Host
  | .blocked => h
  | .next task => h.setTask t task
  | .done r => h.finishTask t r

def addTask (h : Host) (task : Task) : Host :=
  { h with tasks := h.tasks ++ [(h.nextTask, task)], nextTask := h.nextTask + 1 }

def addOwner (h : Host) (p : Permit) : Host :=
  { h with nextTask := h.nextTask + 1, permits := h.permits ++ [(h.nextTask, p)] }

inductive Next (h : Host) : Event → Host → Prop where
  | plain {e : Event} {k : Host} (hs : ∀ c, Shifts (h, c) (k, c)) : Next h e k
  | polled {t : Nat} {bias : List Bool} {task : Task} {k : Host} {r : Poll Task TaskResult}
      (ht : h.task? t = some task) (hs : task.step h t bias = (k, r)) :
      Next h (.poll t bias) (k.afterPoll t r)
  | advanced {id : Nat} {t : Thread} {k : Host} {stack : List Activation}
      (ht : h.thread? id = some t) (hs : Activation.step h t.stack = some (k, stack)) :
      Next h (.advance id) (k.setThread id stack)
  | started (call : Start) : Next h (.start call) ((h.addTask call.task).wake h.nextTask)
  | dropped {t : Nat} {task : Task} (ht : h.task? t = some task) :
      Next h (.drop t) ((task.abandon h t).removeTask t)
  | released {owner : Nat} {p : Permit} (hp : h.permits.lookup owner = some p) :
      Next h (.release owner) ({ h with permits := h.permits.filter (·.1 ≠ owner) }.releasePermit p)
  | idle : Next h .idle (h.spawnThread [.notify h.subscriptions.subscribers])
  | pushed {k : Host} {n : Nat} {debugger : Bool} (hq : h.Quiet k) :
      Next h (.pushLeased debugger)
        ({ k with stack := k.stack.pushLeased n debugger }.addOwner
          ⟨(k.stack.pushLeased n debugger).top.gate, none, false⟩)

section
variable {h k : Host} {t : Nat} {task : Task}

theorem apply_poll {bias : List Bool} {r : Poll Task TaskResult} (ht : h.task? t = some task)
    (hs : task.step h t bias = (k, r)) : h.apply (.poll t bias) = k.afterPoll t r := by
  simp only [apply, stepTask, ht, hs]
  cases r <;> rfl

theorem apply_advance {id : Nat} {th : Thread} {stack : List Activation}
    (ht : h.thread? id = some th) (hs : Activation.step h th.stack = some (k, stack)) :
    h.apply (.advance id) = k.setThread id stack := by
  simp only [apply, stepThread, ht, hs]

theorem apply_drop (ht : h.task? t = some task) :
    h.apply (.drop t) = (task.abandon h t).removeTask t := by
  simp only [apply, dropTask, ht]

end

variable (h : Host)

theorem Next.same (e : Event) : h.Next e h := .plain fun _ => .refl

theorem next_apply (e : Event) : h.Next e (h.apply e) := by
  cases e with
  | poll t bias =>
    cases ht : h.task? t with
    | none =>
      simp only [apply, stepTask, ht]
      exact .same h _
    | some task =>
      rcases hs : task.step h t bias with ⟨k, r⟩
      rw [apply_poll ht hs]
      exact .polled ht hs
  | advance id =>
    cases ht : h.thread? id with
    | none =>
      simp only [apply, stepThread, ht]
      exact .same h _
    | some th =>
      rcases hs : Activation.step h th.stack with - | ⟨k, stack⟩
      · simp only [apply, stepThread, ht, hs]
        exact .same h _
      · rw [apply_advance ht hs]
        exact .advanced ht hs
  | start call => exact .started call
  | drop t =>
    cases ht : h.task? t with
    | none =>
      simp only [apply, dropTask, ht]
      exact .same h _
    | some task =>
      rw [apply_drop ht]
      exact .dropped ht
  | release owner =>
    simp only [apply, releaseOwned]
    split
    · rename_i hp
      exact .released hp
    · exact .same h _
  | idle => exact .idle
  | pushLeased debugger =>
    have hcreate := h.quiet_createPipeline .nested
    simp only [apply, pushLeasedPrompt]
    split <;> rename_i hr <;> rw [hr] at hcreate
    · exact .plain fun _ => Shifts.quiet hcreate
    · exact .pushed hcreate
  | _ => exact .plain fun c => h.apply_shifts c rfl

end Host

end SharedPrompt
