import SharedPrompt.Proofs.CrewMoves

/-!
# Workers and answers after a change

What the operations on a crew leave of a worker and of the answers.
-/

namespace SharedPrompt

namespace Worker

@[simp] theorem name_disown (w : Worker) : w.disown.name = w.name := rfl

@[simp] theorem owner_disown (w : Worker) : w.disown.owner = .gone := rfl

/-- What is left of a worker when the owners go that some units have. -/
def without (tickets : List Nat) (w : Worker) : Worker :=
  match w.owner with
  | .within t => if t ∈ tickets then w.disown else w
  | _ => w

@[simp] theorem name_without (tickets : List Nat) (w : Worker) : (w.without tickets).name = w.name := by
  unfold without
  split
  · split <;> rfl
  · rfl

@[simp] theorem running_without (tickets : List Nat) (w : Worker) :
    (w.without tickets).running = w.running := by
  unfold without
  split
  · split <;> rfl
  · rfl

@[simp] theorem without_nil (w : Worker) : w.without [] = w := by
  unfold without
  split
  · exact if_neg List.not_mem_nil
  · rfl

theorem without_cons (t : Nat) (tickets : List Nat) (w : Worker) :
    (w.without [t]).without tickets = w.without (t :: tickets) := by
  cases howner : w.owner with
  | within s =>
    by_cases hs : s = t
    · subst hs
      have hgone : w.without [s] = w.disown := by simp [without, howner]
      rw [hgone]
      simp [without, howner]
    · simp [without, howner, hs]
  | _ => simp [without, howner]

end Worker

def Message.ticket? : Message → Option Nat
  | work ticket .. => some ticket
  | shutdown => none

def workTickets (ms : List Message) : List Nat := ms.filterMap Message.ticket?

@[simp] theorem workTickets_nil : workTickets [] = [] := rfl

@[simp] theorem workTickets_work (ticket holder : Nat) (list : Work) (ms : List Message) :
    workTickets (.work ticket holder list :: ms) = ticket :: workTickets ms := rfl

@[simp] theorem workTickets_shutdown (ms : List Message) :
    workTickets (.shutdown :: ms) = workTickets ms := rfl

@[simp] theorem workTickets_append (ms ms' : List Message) :
    workTickets (ms ++ ms') = workTickets ms ++ workTickets ms' := List.filterMap_append

theorem mem_workTickets {ms : List Message} {t : Nat} :
    t ∈ workTickets ms ↔ ∃ holder list, .work t holder list ∈ ms := by
  simp only [workTickets, List.mem_filterMap]
  constructor
  · rintro ⟨m, hm, ht⟩
    cases m with
    | shutdown => cases ht
    | work ticket holder list =>
      cases ht
      exact ⟨holder, list, hm⟩
  · rintro ⟨holder, list, hm⟩
    exact ⟨_, hm, rfl⟩

namespace Crew

variable {c : Crew} {name : String} {w : Worker}

theorem name_of_worker? (h : c.worker? name = some w) : w.name = name := by
  simpa using List.find?_some h

theorem worker?_congr {d : Crew} (h : d.workers = c.workers) (name : String) :
    d.worker? name = c.worker? name := by
  rw [worker?, worker?, h]

def names (c : Crew) : List String := c.workers.map (·.name)

theorem exists_worker?_iff (c : Crew) (name : String) :
    (∃ w, c.worker? name = some w) ↔ name ∈ c.names := by
  rw [← Option.isSome_iff_exists, worker?, List.find?_isSome]
  simp [names]

private theorem names_map (c : Crew) {f : Worker → Worker} (hf : ∀ w, (f w).name = w.name) :
    ({ c with workers := c.workers.map f } : Crew).names = c.names := by
  simp only [names, List.map_map, Function.comp_def, hf]

/-- The worker of a name after all have been changed, each under its name. -/
private theorem worker?_map (c : Crew) {f : Worker → Worker} (hf : ∀ w, (f w).name = w.name)
    (name : String) :
    ({ c with workers := c.workers.map f } : Crew).worker? name = (c.worker? name).map f := by
  simp only [worker?, List.find?_map, Function.comp_def, hf]

theorem worker?_modifyWorker (c : Crew) {f : Worker → Worker} (hf : ∀ w, (f w).name = w.name)
    (other name : String) :
    (c.modifyWorker other f).worker? name =
      (c.worker? name).map fun w => if name = other then f w else w := by
  have hname (w : Worker) : (if w.name = other then f w else w).name = w.name := by
    split
    · exact hf w
    · rfl
  rw [modifyWorker, worker?_map c hname]
  refine Option.map_congr fun w hw => ?_
  rw [name_of_worker? hw]

theorem worker?_setWorker (c : Crew) (v : Worker) (name : String) :
    (c.setWorker v).worker? name = (c.worker? name).map fun w => if name = v.name then v else w := by
  have hname (w : Worker) : (if w.name = v.name then v else w).name = w.name := by
    split
    next h => exact h.symm
    next => rfl
  rw [setWorker, worker?_map c hname]
  refine Option.map_congr fun w hw => ?_
  rw [name_of_worker? hw]

theorem worker?_dropOwnerOf (c : Crew) (ticket : Nat) (name : String) :
    (c.dropOwnerOf ticket).worker? name = (c.worker? name).map (Worker.without [ticket]) := by
  have hwithout : (fun w : Worker => if w.owner = .within ticket then w.disown else w) =
      Worker.without [ticket] := by
    funext w
    cases howner : w.owner <;> simp [Worker.without, howner]
  rw [dropOwnerOf, hwithout, worker?_map c (Worker.name_without _)]

theorem names_modifyWorker (c : Crew) {f : Worker → Worker} (hf : ∀ w, (f w).name = w.name)
    (name : String) : (c.modifyWorker name f).names = c.names := by
  refine names_map c fun w => ?_
  split
  · exact hf w
  · rfl

@[simp] theorem names_setWorker (c : Crew) (v : Worker) : (c.setWorker v).names = c.names := by
  refine names_map c fun w => ?_
  split
  next h => exact h.symm
  next => rfl

@[simp] theorem names_dropOwnerOf (c : Crew) (ticket : Nat) :
    (c.dropOwnerOf ticket).names = c.names := by
  refine names_map c fun w => ?_
  split <;> rfl

@[simp] theorem names_reply (c : Crew) (ticket : Nat) (r : WorkResult) :
    (c.reply ticket r).names = c.names := rfl

@[simp] theorem worker?_reply (c : Crew) (ticket : Nat) (r : WorkResult) (name : String) :
    (c.reply ticket r).worker? name = c.worker? name := rfl

@[simp] theorem replies_setWorker (c : Crew) (w : Worker) : (c.setWorker w).replies = c.replies := rfl

@[simp] theorem replies_modifyWorker (c : Crew) (name : String) (f : Worker → Worker) :
    (c.modifyWorker name f).replies = c.replies := rfl

@[simp] theorem replies_dropOwnerOf (c : Crew) (ticket : Nat) :
    (c.dropOwnerOf ticket).replies = c.replies := rfl

theorem answer?_congr {d : Crew} (h : d.replies = c.replies) (t : Nat) : d.answer? t = c.answer? t := by
  rw [answer?, answer?, h]

@[simp] theorem length_reply (c : Crew) (ticket : Nat) (r : WorkResult) :
    (c.reply ticket r).replies.length = c.replies.length := List.length_modify ..

theorem answer?_reply (c : Crew) {ticket : Nat} (h : ticket < c.replies.length) (r : WorkResult)
    (t : Nat) :
    (c.reply ticket r).answer? t = (c.answer? t).or (if t = ticket then some r else none) := by
  unfold reply answer?
  rw [List.getElem?_modify]
  by_cases ht : t = ticket
  · subst ht
    simp [List.getElem?_eq_getElem h]
  · simp [Ne.symm ht, ht]

/-! ## Handing over a unit -/

def listens (c : Crew) (name : String) : Bool := (c.worker? name).any (·.phase ≠ .ended)

theorem replies_submit (c : Crew) (name : String) (holder : Option Nat) (list : Work) :
    (c.submit name holder list).2.replies =
      c.replies ++ [if c.listens name then none else some (.error .shutdown)] := by
  unfold submit listens
  cases c.worker? name with
  | none => rfl
  | some w =>
    by_cases hended : w.phase = .ended
    · simp [hended]
    · simp [hended, setWorker]

theorem worker?_submit (c : Crew) (other : String) (holder : Option Nat) (list : Work) (name : String) :
    (c.submit other holder list).2.worker? name = (c.worker? name).map fun w =>
      if name = other ∧ w.phase ≠ .ended then
        { w with inbox := w.inbox ++ [.work c.replies.length (holder.getD c.replies.length) list] }
      else w := by
  unfold submit
  cases hv : c.worker? other with
  | none =>
    change c.worker? name = _
    by_cases hname : name = other
    · subst hname
      rw [hv]
      rfl
    · simp [hname]
  | some v =>
    have hvname := name_of_worker? hv
    by_cases hended : v.phase = .ended
    · simp only [if_pos hended]
      change c.worker? name = _
      by_cases hname : name = other
      · subst hname
        simp [hv, hended]
      · simp [hname]
    · simp only [if_neg hended]
      rw [worker?_setWorker]
      change (c.worker? name).map _ = _
      by_cases hname : name = other
      · subst hname
        simp [hv, hended, hvname]
      · simp [hname, hvname]

@[simp] theorem names_submit (c : Crew) (worker : String) (holder : Option Nat) (list : Work) :
    (c.submit worker holder list).2.names = c.names := by
  unfold submit
  split
  · split
    · rfl
    · exact names_setWorker _ _
  · rfl

theorem barriers_submit (c : Crew) (worker : String) (holder : Option Nat) (list : Work) :
    (c.submit worker holder list).2.barriers = c.barriers := by
  unfold submit
  split
  · split <;> rfl
  · rfl

theorem trace_submit (c : Crew) (worker : String) (holder : Option Nat) (list : Work) :
    (c.submit worker holder list).2.trace = c.trace := by
  unfold submit
  split
  · split <;> rfl
  · rfl

/-! ## Leaving units undone -/

theorem names_discards (ms : List Message) (c : Crew) : (ms.foldl discard c).names = c.names := by
  induction ms generalizing c with
  | nil => rfl
  | cons m ms ih =>
    rw [List.foldl_cons, ih]
    cases m with
    | shutdown => rfl
    | work ticket holder list => exact names_dropOwnerOf _ _

theorem worker?_discards (ms : List Message) (c : Crew) (name : String) :
    (ms.foldl discard c).worker? name = (c.worker? name).map (Worker.without (workTickets ms)) := by
  induction ms generalizing c with
  | nil => simp [funext Worker.without_nil]
  | cons m ms ih =>
    rw [List.foldl_cons, ih]
    cases m with
    | shutdown => rfl
    | work ticket holder list =>
      rw [discard, worker?_reply, worker?_dropOwnerOf, Option.map_map]
      congr 1
      funext w
      exact Worker.without_cons ticket _ w

theorem length_discards (ms : List Message) (c : Crew) :
    (ms.foldl discard c).replies.length = c.replies.length := by
  induction ms generalizing c with
  | nil => rfl
  | cons m ms ih =>
    rw [List.foldl_cons, ih]
    cases m with
    | shutdown => rfl
    | work ticket holder list => exact length_reply _ _ _

/-- All units that are left undone are answered. -/
theorem answer?_discards (ms : List Message) (c : Crew) (h : ∀ s ∈ workTickets ms, s < c.replies.length)
    (t : Nat) :
    (ms.foldl discard c).answer? t = (c.answer? t).or
      (if t ∈ workTickets ms then some (.error .replyDropped) else none) := by
  induction ms generalizing c with
  | nil => simp
  | cons m ms ih =>
    rw [List.foldl_cons]
    cases m with
    | shutdown => exact ih c h
    | work ticket holder list =>
      rw [workTickets_work, List.forall_mem_cons] at h
      have hlength : (c.discard (.work ticket holder list)).replies.length = c.replies.length :=
        length_reply _ _ _
      have hanswer := answer?_reply (c.dropOwnerOf ticket) h.1 (.error .replyDropped) t
      rw [ih _ fun s hs => hlength ▸ h.2 s hs, discard, hanswer, Option.or_assoc, workTickets_work]
      congr 1
      by_cases ht : t = ticket <;> simp [ht]

end Crew

end SharedPrompt
