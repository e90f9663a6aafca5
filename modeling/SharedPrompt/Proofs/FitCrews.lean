import SharedPrompt.Proofs.ScriptEngines
import SharedPrompt.Proofs.Settling

/-!
# What stays true of all workers

No engine of a worker is ever set to refuse a pipeline by its number, an owner that a unit has taken
along is with a unit that has been handed over, and only a worker that has not been stopped has a
unit at work.
-/

namespace SharedPrompt

/-! ## Engines -/

theorem Engine.refused_setVariable (e : Engine) (name : String) (v : Value) :
    (e.setVariable name v).2.refused = e.refused := by
  unfold setVariable
  split <;> rfl

def UnitMove.engine? : UnitMove → Option Engine
  | goes engine .. | panics engine _ => some engine
  | _ => none

namespace Worker

variable {w : Worker} {barriers : List String} {n : Nat} {rest : Work} {doing : Doing}
  {m : UnitMove} {e engine : Engine}

private theorem refused_beginning (command : Command)
    (h : (e.beginning n rest command).engine? = some engine) : engine.refused = e.refused := by
  have hcreate := (e.like_create { pipelines := n } .current).refused
  unfold Engine.beginning at h
  split at h <;> rename_i heq <;> rw [heq] at hcreate
  · cases h
    exact hcreate
  · cases h
    exact (Engine.like_begin ..).refused.trans hcreate

private theorem refused_endingMove (o : Outcome)
    (h : (endingMove rest e o).engine? = some engine) : engine.refused = e.refused := by
  cases o <;> cases h <;> rfl

private theorem refused_commandMove? {inv : Invocation} {editing : Bool}
    (h : w.commandMove? barriers rest inv editing = some m) (hm : m.engine? = some engine) :
    engine.refused = w.engine.refused := by
  unfold commandMove? at h
  split at h
  · split at h
    · cases h
      exact (refused_endingMove _ hm).trans (Engine.like_finish ..).refused
    · cases h
  · split at h
    case h_6 =>
      cases h
      exact (refused_endingMove _ hm).trans (Engine.like_finish ..).refused
    case h_7 => cases h
    all_goals
      cases h
      cases hm
      rfl

private theorem refused_deedMove? {d : Deed} (h : w.deedMove? barriers n rest d = some m)
    (hm : m.engine? = some engine) : engine.refused = w.engine.refused := by
  cases d with
  | invoke command =>
    cases h
    exact refused_beginning _ hm
  | script editor text =>
    have hset := w.engine.refused_setVariable EditorView.variableName editor
    simp only [deedMove?] at h
    split at h <;> rename_i heq <;> rw [heq] at hset <;> cases h
    · cases hm
      exact hset
    · exact (refused_beginning _ hm).trans hset
  | set name v =>
    have hset := w.engine.refused_setVariable name v
    simp only [deedMove?] at h
    split at h <;> rename_i heq <;> rw [heq] at hset <;> cases h <;> cases hm <;> exact hset
  | submit name list =>
    simp only [deedMove?] at h
    split at h <;> cases h <;> cases hm
  | barrier name =>
    simp only [deedMove?] at h
    split at h <;> cases h
    cases hm
    rfl
  | _ =>
    cases h
    cases hm
    try rfl

theorem refused_of_move? (h : w.move? barriers n rest doing = some m)
    (hm : m.engine? = some engine) : engine.refused = w.engine.refused := by
  cases doing with
  | awaiting ticket =>
    cases h
    cases hm
  | command inv editing => exact refused_commandMove? h hm
  | deeds =>
    cases rest with
    | nil =>
      cases h
      cases hm
    | cons d rest => exact refused_deedMove? h hm

end Worker

/-! ## Workers -/

/-- What is always true of a worker, when so many tickets have been given. -/
structure Worker.Fit (tickets : Nat) (w : Worker) : Prop where
  refused : w.engine.refused = []
  lent : ∀ t, w.owner = .within t → t < tickets
  busy : w.running ≠ none → w.phase = .working

namespace Worker.Fit

variable {w w' : Worker} {n m : Nat}

theorem mono (h : w.Fit n) (hle : n ≤ m) : w.Fit m :=
  ⟨h.refused, fun t ht => Nat.lt_of_lt_of_le (h.lent t ht) hle, h.busy⟩

theorem of_same (h : w.Fit n) (hrefused : w'.engine.refused = w.engine.refused)
    (howner : w'.owner = w.owner) (hrunning : w'.running = w.running)
    (hphase : w'.phase = w.phase) : w'.Fit n :=
  ⟨hrefused.trans h.refused, fun t ht => h.lent t (howner ▸ ht),
    fun hbusy => hphase.trans (h.busy (hrunning ▸ hbusy))⟩

/-- The worker has had a turn at its unit. -/
theorem moved (h : w.Fit n) (hrunning : w.running ≠ none)
    (hrefused : w'.engine.refused = w.engine.refused) (howner : w'.owner = w.owner)
    (hphase : w'.phase = w.phase) : w'.Fit n :=
  ⟨hrefused.trans h.refused, fun t ht => h.lent t (howner ▸ ht),
    fun _ => hphase.trans (h.busy hrunning)⟩

/-- The worker has nothing at work. -/
theorem off (h : w.Fit n) (hrefused : w'.engine.refused = w.engine.refused)
    (howner : w'.owner = w.owner) (hrunning : w'.running = none) : w'.Fit n :=
  ⟨hrefused.trans h.refused, fun t ht => h.lent t (howner ▸ ht), fun hbusy => absurd hrunning hbusy⟩

theorem disown (h : w.Fit n) : w.disown.Fit n := ⟨h.refused, (fun _ ht => by cases ht), h.busy⟩

end Worker.Fit

namespace Crew

variable {c d : Crew} {w : Worker}

def Fit (c : Crew) : Prop := ∀ w ∈ c.workers, w.Fit c.replies.length

namespace Fit

theorem map (h : c.Fit) {f : Worker → Worker} (hf : ∀ w : Worker, w.Fit c.replies.length →
    (f w).Fit c.replies.length) : ({ c with workers := c.workers.map f } : Crew).Fit := by
  intro w hw
  obtain ⟨v, hv, rfl⟩ := List.mem_map.1 hw
  exact hf v (h v hv)

theorem setWorker (h : c.Fit) (hw : w.Fit c.replies.length) : (c.setWorker w).Fit :=
  h.map fun v hv => by split <;> assumption

theorem modifyWorker (h : c.Fit) (name : String) {f : Worker → Worker}
    (hf : ∀ w : Worker, w.Fit c.replies.length → (f w).Fit c.replies.length) :
    (c.modifyWorker name f).Fit :=
  h.map fun v hv => by split <;> [exact hf v hv; exact hv]

theorem dropOwnerOf (h : c.Fit) (ticket : Nat) : (c.dropOwnerOf ticket).Fit :=
  h.map fun v hv => by split <;> [exact hv.disown; exact hv]

theorem reply (h : c.Fit) (ticket : Nat) (r : WorkResult) : (c.reply ticket r).Fit := by
  intro w hw
  rw [length_reply]
  exact h w hw

theorem addReply (h : c.Fit) (r : Option WorkResult) :
    ({ c with replies := c.replies ++ [r] } : Crew).Fit :=
  fun w hw => (h w hw).mono (by simp)

theorem submit (h : c.Fit) (name : String) (holder : Option Nat) (list : Work) :
    (c.submit name holder list).2.Fit := by
  unfold Crew.submit
  split
  · rename_i w hw
    have hfit := h w (List.mem_of_find?_eq_some hw)
    split
    · exact h.addReply _
    · refine (h.addReply none).setWorker (Worker.Fit.mono (n := c.replies.length) ?_ (by simp))
      exact hfit.of_same rfl rfl rfl rfl
  · exact h.addReply _

theorem discards (h : c.Fit) (ms : List Message) : (ms.foldl discard c).Fit := by
  induction ms generalizing c with
  | nil => exact h
  | cons m ms ih =>
    refine ih ?_
    cases m with
    | shutdown => exact h
    | work ticket holder list => exact (h.dropOwnerOf ticket).reply ticket _

theorem finish (h : c.Fit) (hw : w.Fit c.replies.length) (hrunning : w.running ≠ none)
    (run : Running) (r : WorkResult) : (c.finish w run r).Fit := by
  unfold Crew.finish
  split
  · exact h.setWorker (hw.moved hrunning rfl rfl rfl)
  · refine reply (dropOwnerOf ?_ _) _ _
    exact h.setWorker (hw.moved hrunning rfl rfl rfl)

theorem carryOut (h : c.Fit) (hw : w.Fit c.replies.length) (hrunning : w.running ≠ none)
    {run : Running} {m : UnitMove}
    (hm : ∀ engine, m.engine? = some engine → engine.refused = w.engine.refused)
    (hd : c.carryOut w run m = some d) : d.Fit := by
  cases m with
  | goes engine started rest more doing =>
    cases hd
    exact Fit.setWorker (c := { c with trace := c.trace.begun started }) h
      (hw.moved hrunning (hm _ rfl) rfl rfl)
  | enters rest inner =>
    cases hd
    exact h.setWorker (hw.moved hrunning rfl rfl rfl)
  | handsOver name inner rest =>
    cases hd
    have hle : c.replies.length ≤ (c.submit name (some run.holder) inner).2.replies.length := by
      rw [length_submit]
      exact Nat.le_succ _
    have hmoved := h.submit name (some run.holder) inner
    exact hmoved.setWorker ((hw.mono hle).moved hrunning rfl rfl rfl)
  | hears ticket =>
    obtain ⟨r, -, rfl⟩ := Option.map_eq_some_iff.1 hd
    exact h.setWorker (hw.moved hrunning rfl rfl rfl)
  | dropsOwner rest =>
    cases hd
    refine dropOwnerOf ?_ _
    exact h.setWorker (hw.moved hrunning rfl rfl rfl)
  | returns =>
    cases hd
    exact h.finish hw hrunning _ _
  | panics engine p =>
    cases hd
    have hpanics : ({ w with engine } : Worker).Fit c.replies.length :=
      hw.of_same (hm _ rfl) rfl rfl rfl
    exact Fit.finish (c := { c with trace := c.trace.notice (.unitPanicked p.message) }) h hpanics
      hrunning _ _

theorem step {name : String} (h : c.Fit) (hd : c.step name = some d) : d.Fit := by
  obtain ⟨w, hw, hstep⟩ := Option.bind_eq_some_iff.1 hd
  have hfit := h w (List.mem_of_find?_eq_some hw)
  cases hrun : w.running with
  | some run =>
    rw [c.stepWorker_running w run hrun] at hstep
    obtain ⟨m, hm, hcarry⟩ := Option.bind_eq_some_iff.1 hstep
    exact h.carryOut hfit (by simp [hrun]) (fun _ => Worker.refused_of_move? hm) hcarry
  | none =>
    unfold stepWorker at hstep
    rw [hrun] at hstep
    dsimp only at hstep
    split at hstep
    · cases hstep
    · cases hstep
      refine discards ?_ _
      exact h.setWorker (hfit.off rfl rfl hrun)
    · split at hstep <;> cases hstep
      exact h.setWorker (hfit.off rfl rfl rfl)
    · cases hstep
      exact h.setWorker (hfit.off rfl rfl rfl)
    · rename_i hphase _
      cases hstep
      exact h.setWorker ⟨hfit.refused, hfit.lent, fun _ => hphase⟩

theorem apply (h : c.Fit) (e : CrewEvent) : (c.apply e).Fit := by
  cases e with
  | submit name list => exact h.submit name none list
  | submitOwner name list =>
    have hlt : (c.submit name none list).1 < (c.submit name none list).2.replies.length := by
      rw [submit_ticket, length_submit]
      exact Nat.lt_succ_self _
    refine (h.submit name none list).modifyWorker name fun w hw => ?_
    split
    · exact ⟨hw.refused, fun t ht => by cases ht; exact hlt, hw.busy⟩
    · exact hw
  | dropOwner name =>
    exact h.modifyWorker name fun w hw => by split <;> [exact hw.disown; exact hw]
  | client name => exact h.modifyWorker name fun w hw => hw.of_same rfl rfl rfl rfl
  | dropClient name => exact h.modifyWorker name fun w hw => hw.of_same rfl rfl rfl rfl
  | openBarrier name => exact h
  | failing name switch on => exact h.modifyWorker name fun w hw => hw.of_same rfl rfl rfl rfl
  | turn name =>
    change ((c.step name).getD c).Fit
    cases hd : c.step name with
    | none => exact h
    | some d => exact h.step hd

theorem run (h : c.Fit) (events : List CrewEvent) : (c.run events).Fit := by
  induction events generalizing c with
  | nil => exact h
  | cons e rest ih => exact ih (h.apply e)

theorem steps (h : c.Fit) (hd : c.Steps d) : d.Fit := by
  induction hd with
  | refl => exact h
  | tail _ hnext ih =>
    obtain ⟨name, hstep⟩ := exists_step_of_next? hnext
    exact ih.step hstep

end Fit

/-- No turn brings or takes a worker. -/
theorem Steps.names (h : c.Steps d) : d.names = c.names := by
  induction h with
  | refl => rfl
  | @tail c₁ d _ hnext ih =>
    obtain ⟨name, hstep⟩ := exists_step_of_next? hnext
    have hturn : c₁.apply (.turn name) = d := by rw [apply, hstep, Option.getD_some]
    rw [← ih, ← hturn, names_apply]

end Crew

end SharedPrompt
