import SharedPrompt.Proofs.IdleTurns

/-!
# The order of requests

Each call draws a turn when it is made, and later calls draw later turns. The requests that idle
moments take out of the slot are those of calls in this order: whoever has the turn was called after
all whose requests were taken, and before all that still wait.
-/

namespace SharedPrompt

def callings (log : List Note) : List (Waiter × Job) := log.filterMap Note.called?

def pickups (log : List Note) : List Parked := log.filterMap Note.took?

def Stake.seeks : Stake → Bool
  | call _ (.queued _ _) => true
  | call _ (.install _) => true
  | _ => false

/-- A call that comes after all whose requests were taken, and before all that wait. -/
structure NextCall (slot : IdleSlot) (log : List Note) (served : List (Waiter × Job))
    (c : Waiter × Job) : Prop where
  called : c ∈ callings log
  after : ∀ v ∈ served, v.1.turn < c.1.turn
  before : ∀ w ∈ slot.turn.line, c.1.turn < w.turn

/-- The calls whose requests were taken were called in this order. Whoever has the turn and whose
request was not taken comes next. -/
structure InOrder (slot : IdleSlot) (turn : Nat) (s : Multiset Stake) (log : List Note)
    (served : List (Waiter × Job)) : Prop where
  sorted : (callings log).Pairwise fun c d => c.1.turn < d.1.turn
  recent : ∀ c ∈ callings log, c.1.turn < turn
  called : ∀ c ∈ served, c ∈ callings log
  ordered : served.Pairwise fun c d => c.1.turn < d.1.turn
  line : ∀ c ∈ served, ∀ w ∈ slot.turn.line, c.1.turn < w.turn
  taken : List.Forall₂ (fun c q => .parked c.1.task q ∈ log ∧ q.job = c.2) served (pickups log)
  queued : ∀ t w job, .call t (.queued w job) ∈ s → w.task = t ∧ (w, job) ∈ callings log
  installing : ∀ t job, .call t (.install job) ∈ s →
    ∃ w, w.task = t ∧ NextCall slot log served (w, job)
  pending : ∀ q, slot.pending = some q →
    ∃ w, .parked w.task q ∈ log ∧ NextCall slot log served (w, q.job)

theorem callings_concat (log : List Note) (d : Note) :
    callings (log ++ [d]) = callings log ++ d.called?.toList := by
  rw [callings, List.filterMap_append, callings]
  cases hd : d.called? <;> simp [hd]

theorem pickups_concat (log : List Note) (d : Note) :
    pickups (log ++ [d]) = pickups log ++ d.took?.toList := by
  rw [pickups, List.filterMap_append, pickups]
  cases hd : d.took? <;> simp [hd]

namespace InOrder

variable {slot slot' : IdleSlot} {turn turn' : Nat} {s s' : Multiset Stake} {log : List Note}
  {served : List (Waiter × Job)} {t : Nat} {job : Job} {x : Stake}

theorem nil : InOrder {} 0 0 [] [] where
  sorted := .nil
  recent c hc := absurd hc List.not_mem_nil
  called c hc := absurd hc List.not_mem_nil
  ordered := .nil
  line c hc := absurd hc List.not_mem_nil
  taken := .nil
  queued t w job hx := absurd hx (Multiset.notMem_zero _)
  installing t job hx := absurd hx (Multiset.notMem_zero _)
  pending q hq := by cases hq

/-- Fewer wait, and no request or call has come. -/
theorem mono (hi : InOrder slot turn s log served)
    (hline : ∀ w ∈ slot'.turn.line, w ∈ slot.turn.line)
    (hpending : ∀ q, slot'.pending = some q → slot.pending = some q) (hturn : turn ≤ turn')
    (hs : ∀ x ∈ s', x.seeks = true → x ∈ s) : InOrder slot' turn' s' log served := by
  have hnext {c : Waiter × Job} (hc : NextCall slot log served c) : NextCall slot' log served c :=
    ⟨hc.called, hc.after, fun w hw => hc.before w (hline w hw)⟩
  exact ⟨hi.sorted, fun c hc => (hi.recent c hc).trans_le hturn, hi.called, hi.ordered,
    fun c hc w hw => hi.line c hc w (hline w hw), hi.taken,
    fun t w job hx => hi.queued t w job (hs _ hx rfl),
    fun t job hx => (hi.installing t job (hs _ hx rfl)).imp fun w hw => ⟨hw.1, hnext hw.2⟩,
    fun q hq => (hi.pending q (hpending q hq)).imp fun w hw => ⟨hw.1, hnext hw.2⟩⟩

theorem taken_mono (hi : InOrder slot turn s log served) (d : Note) :
    List.Forall₂ (fun c q => .parked c.1.task q ∈ log ++ [d] ∧ q.job = c.2) served (pickups log) :=
  hi.taken.imp fun _ _ hc => ⟨List.mem_append_left _ hc.1, hc.2⟩

/-- What is noted otherwise does not matter. -/
theorem note {d : Note} (hi : InOrder slot turn s log served) (hcalled : d.called? = none)
    (htook : d.took? = none) : InOrder slot turn s (log ++ [d]) served := by
  have hcallings : callings (log ++ [d]) = callings log := by simp [callings_concat, hcalled]
  have hpickups : pickups (log ++ [d]) = pickups log := by simp [pickups_concat, htook]
  have hnext {c : Waiter × Job} (hc : NextCall slot log served c) :
      NextCall slot (log ++ [d]) served c := ⟨hcallings ▸ hc.called, hc.after, hc.before⟩
  refine ⟨hcallings ▸ hi.sorted, hcallings ▸ hi.recent, hcallings ▸ hi.called, hi.ordered, hi.line,
    hpickups ▸ hi.taken_mono d, hcallings ▸ hi.queued, fun t job hx => ?_, fun q hq => ?_⟩
  · exact (hi.installing t job hx).imp fun w hw => ⟨hw.1, hnext hw.2⟩
  · exact (hi.pending q hq).imp fun w hw => ⟨List.mem_append_left _ hw.1, hnext hw.2⟩

/-- A call is made. If it has the turn at once, nobody waits. -/
theorem join (hi : InOrder slot turn s log served) (hturn : InTurn slot turn s) (t : Nat)
    (job : Job) (call : IdleCall)
    (hcall : call = .queued ⟨t, turn⟩ job ∨
      call = .install job ∧ (slot.turn.join ⟨t, turn⟩).1 = true) :
    InOrder { slot with turn := (slot.turn.join ⟨t, turn⟩).2 } (turn + 1) ({.call t call} + s)
      (log ++ [.called ⟨t, turn⟩ job]) served := by
  have hcallings : callings (log ++ [.called ⟨t, turn⟩ job]) = callings log ++ [(⟨t, turn⟩, job)] :=
    callings_concat _ _
  have hpickups : pickups (log ++ [.called ⟨t, turn⟩ job]) = pickups log := by
    simp [pickups_concat, Note.took?]
  have hlast : (⟨t, turn⟩, job) ∈ callings (log ++ [.called ⟨t, turn⟩ job]) := by simp [hcallings]
  have hold {c : Waiter × Job} (hc : c ∈ callings log) :
      c ∈ callings (log ++ [.called ⟨t, turn⟩ job]) := hcallings ▸ List.mem_append_left _ hc
  -- Whoever waits now waited before, or draws the turn that is drawn now.
  have hbefore {c : Waiter × Job} (hc : c ∈ callings log)
      (hline : ∀ w ∈ slot.turn.line, c.1.turn < w.turn) :
      ∀ w ∈ (slot.turn.join ⟨t, turn⟩).2.line, c.1.turn < w.turn := by
    intro w hw
    rcases TicketGate.mem_line_join hw with hw | rfl
    · exact hline w hw
    · exact hi.recent c hc
  have hnext {c : Waiter × Job} (hc : NextCall slot log served c) :
      NextCall { slot with turn := (slot.turn.join ⟨t, turn⟩).2 }
        (log ++ [.called ⟨t, turn⟩ job]) served c :=
    ⟨hold hc.called, hc.after, hbefore hc.called hc.before⟩
  refine ⟨?_, fun c hc => ?_, fun c hc => hold (hi.called c hc), hi.ordered,
    fun c hc => hbefore (hi.called c hc) (hi.line c hc), hpickups ▸ hi.taken_mono _,
    fun t' w job' hx => ?_, fun t' job' hx => ?_, fun q hq => ?_⟩
  · rw [hcallings, List.pairwise_append]
    refine ⟨hi.sorted, List.pairwise_singleton _ _, fun c hc d hd => ?_⟩
    rw [List.mem_singleton.1 hd]
    exact hi.recent c hc
  · rw [hcallings, List.mem_append, List.mem_singleton] at hc
    rcases hc with hc | rfl
    · exact Nat.lt_succ_of_lt (hi.recent c hc)
    · exact Nat.lt_succ_self _
  · rcases Multiset.mem_add.1 hx with hx | hx
    · obtain ⟨rfl, rfl⟩ := Stake.call.inj (Multiset.mem_singleton.1 hx)
      rcases hcall with hcall | ⟨hcall, -⟩ <;> cases hcall
      exact ⟨rfl, hlast⟩
    · exact (hi.queued t' w job' hx).imp_right hold
  · rcases Multiset.mem_add.1 hx with hx | hx
    · obtain ⟨rfl, rfl⟩ := Stake.call.inj (Multiset.mem_singleton.1 hx)
      rcases hcall with hcall | ⟨hcall, htaken⟩ <;> cases hcall
      refine ⟨⟨t', turn⟩, rfl, hlast, fun c hc => hi.recent c (hi.called c hc), fun w hw => ?_⟩
      rw [hturn.gate.line_of_join htaken] at hw
      cases hw
    · exact (hi.installing t' job' hx).imp fun w hw => ⟨hw.1, hnext hw.2⟩
  · exact (hi.pending q hq).imp fun w hw => ⟨List.mem_append_left _ hw.1, hnext hw.2⟩

/-- It is the turn of the call that has waited longest. -/
theorem collect {w : Waiter} (hi : InOrder slot turn ({.call t (.queued w job)} + s) log served)
    (hturn : InTurn slot turn ({.call t (.queued w job)} + s)) {gate : Gate}
    (hc : slot.turn.collect? w = some gate) :
    InOrder { slot with turn := gate } turn ({.call t (.install job)} + s) log served := by
  obtain ⟨hw, hafter⟩ := hturn.gate.line_of_collect hc
  have hline : ∀ v ∈ gate.line, v ∈ slot.turn.line := fun v hv => by
    rw [TicketGate.line_collect hc] at hv
    exact List.mem_of_mem_erase hv
  obtain ⟨htask, hcalled⟩ := hi.queued t w job (by simp)
  have hi' : InOrder { slot with turn := gate } turn s log served :=
    hi.mono hline (fun _ hq => hq) le_rfl fun x hx _ => Multiset.mem_add.2 (.inr hx)
  refine { hi' with
    queued := fun t' w' job' hx => ?_, installing := fun t' job' hx => ?_ }
  · rcases Multiset.mem_add.1 hx with hx | hx
    · cases Multiset.mem_singleton.1 hx
    · exact hi'.queued t' w' job' hx
  · rcases Multiset.mem_add.1 hx with hx | hx
    · cases Multiset.mem_singleton.1 hx
      exact ⟨w, htask, hcalled, fun c hc => hi.line c hc w hw, hafter⟩
    · exact hi'.installing t' job' hx

/-- The call whose turn it is leaves its request in the slot. -/
theorem park (hi : InOrder slot turn ({.call t (.install job)} + s) log served) (id ρ next : Nat) :
    InOrder { slot with pending := some ⟨id, job, ρ⟩, nextId := next } turn
      ({.call t (.parked id ρ)} + s) (log ++ [.parked t ⟨id, job, ρ⟩]) served := by
  obtain ⟨w, rfl, hnext⟩ := hi.installing t job (by simp)
  have hseek : ∀ x ∈ {.call w.task (.parked id ρ)} + s, x.seeks = true →
      x ∈ ({.call w.task (.install job)} + s : Multiset Stake) := fun x hx hseeks => by
    rcases Multiset.mem_add.1 hx with hx | hx
    · rw [Multiset.mem_singleton.1 hx] at hseeks
      cases hseeks
    · exact Multiset.mem_add.2 (.inr hx)
  have hi' : InOrder slot turn ({.call w.task (.parked id ρ)} + s)
      (log ++ [.parked w.task ⟨id, job, ρ⟩]) served :=
    (hi.mono (fun _ hv => hv) (fun _ hq => hq) le_rfl hseek).note rfl rfl
  have hsame {c : Waiter × Job} (hc : NextCall slot (log ++ [.parked w.task ⟨id, job, ρ⟩]) served c) :
      NextCall { slot with pending := some ⟨id, job, ρ⟩, nextId := next }
        (log ++ [.parked w.task ⟨id, job, ρ⟩]) served c := ⟨hc.called, hc.after, hc.before⟩
  refine { hi' with
    installing := fun t' job' hx => (hi'.installing t' job' hx).imp fun v hv => ⟨hv.1, hsame hv.2⟩
    pending := fun q hq => ?_ }
  obtain rfl := Option.some.inj hq
  refine ⟨w, by simp, ?_, hnext.after, hnext.before⟩
  simpa [callings_concat, Note.called?] using hnext.called

/-- The request in the slot is taken. -/
theorem take (hi : InOrder slot turn s log served) (hturn : InTurn slot turn s) {q : Parked}
    (hq : slot.pending = some q) :
    ∃ c, InOrder { slot with pending := none } turn s (log ++ [.took q]) (served ++ [c]) := by
  obtain ⟨w, hparked, hnext⟩ := hi.pending q hq
  have hcallings : callings (log ++ [.took q]) = callings log := by
    simp [callings_concat, Note.called?]
  have hpickups : pickups (log ++ [.took q]) = pickups log ++ [q] := pickups_concat _ _
  refine ⟨(w, q.job), hcallings ▸ hi.sorted, hcallings ▸ hi.recent, fun c hc => ?_, ?_,
    fun c hc => ?_, ?_, hcallings ▸ hi.queued, fun t job hx => ?_, fun q' hq' => by cases hq'⟩
  · rw [hcallings]
    rcases List.mem_append.1 hc with hc | hc
    · exact hi.called c hc
    · rw [List.mem_singleton.1 hc]
      exact hnext.called
  · refine List.pairwise_append.2 ⟨hi.ordered, List.pairwise_singleton _ _, fun c hc d hd => ?_⟩
    rw [List.mem_singleton.1 hd]
    exact hnext.after c hc
  · rcases List.mem_append.1 hc with hc | hc
    · exact hi.line c hc
    · rw [List.mem_singleton.1 hc]
      exact hnext.before
  · rw [hpickups]
    exact List.rel_append (hi.taken_mono _)
      (.cons ⟨List.mem_append_left _ hparked, rfl⟩ .nil)
  · -- The call whose turn it is has left its request already.
    obtain ⟨t', hparked'⟩ := hturn.pending q hq
    obtain ⟨s', rfl⟩ := Multiset.exists_cons_of_mem hx
    rw [← Multiset.singleton_add] at hturn
    obtain ⟨t'', heq⟩ := hturn.eq_of_pending rfl hq
    cases heq

/-- The calls whose requests were taken are among those that were made, in the same order. -/
theorem sublist (hi : InOrder slot turn s log served) : served.Sublist (callings log) :=
  sublist_of_turns hi.ordered hi.sorted hi.called

end InOrder

end SharedPrompt
