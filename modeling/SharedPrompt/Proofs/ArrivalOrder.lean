import SharedPrompt.Proofs.Beginnings

/-!
# One at a time, in the order of arrival

While no prompt is opened over the bottom, commands and readers run one at a time. The engine begins
them in the order in which their executions have arrived at the bottom prompt. Whoever goes away
before its turn is passed over.
-/

namespace SharedPrompt

/-- Somebody who has arrived is next to be begun: after all that were, and before all that wait. -/
structure Host.Foremost (h : Host) (past : List Event) (served : List Waiter)
    (q : Waiter) : Prop where
  arrived : q ∈ h.arrivals past
  after : ∀ v ∈ served, v.turn < q.turn
  before : ∀ w ∈ ((h.run past).stack.gate 0).line, q.turn < w.turn

/-- The executions whose commands were begun in a run, in this order, with the turns of their
arrivals. Whoever holds the ticket and is still to be begun comes next. -/
structure Served (h : Host) (past : List Event) (served : List Waiter) : Prop where
  begun : (h.beginnings past).map (h.sender? past) = served.map fun w => some w.task
  arrived : ∀ w ∈ served, w ∈ h.arrivals past
  sorted : served.Pairwise fun v w => v.turn < w.turn
  line : ∀ v ∈ served, ∀ w ∈ ((h.run past).stack.gate 0).line, v.turn < w.turn
  owners : ∀ t run, (h.run past).execution? t = some run → run.owns = true →
    ∃ q, h.Foremost past served q ∧ q.task = t
  errands : ∀ th ∈ (h.run past).threads, ∀ a ∈ th.stack, a.isUnbegun = true →
    ∃ q, h.Foremost past served q ∧ h.sender? past th.id = some q.task
  sent_lt : ∀ s ∈ h.sendings past, s.1 < (h.run past).nextThread

namespace Served

variable {h : Host} {past : List Event} {served : List Waiter}

/-- A turn before all turns in the line stays so, since later ones are drawn later. -/
theorem line_concat (ha : Arrived h past) (e : Event) {q : Waiter} (hq : q ∈ h.arrivals past)
    (hline : ∀ w ∈ ((h.run past).stack.gate 0).line, q.turn < w.turn) :
    ∀ w ∈ ((h.run (past ++ [e])).stack.gate 0).line, q.turn < w.turn := by
  intro w hw
  rw [h.run_concat] at hw
  rcases ((h.run past).grows_apply e).line 0 w hw with hw | hw
  · exact hline w hw
  · exact (ha.recent q hq).trans_le hw

theorem foremost_concat (ha : Arrived h past) (e : Event) {q : Waiter}
    (hq : h.Foremost past served q) : h.Foremost (past ++ [e]) served q where
  arrived := Arrived.mem_concat.2 (.inl hq.arrived)
  after := hq.after
  before := line_concat ha e hq.arrived hq.before

theorem sent_lt_concat (hs : Served h past served) (hsingle : (h.run past).Single) (e : Event) :
    ∀ s ∈ h.sendings (past ++ [e]), s.1 < (h.run (past ++ [e])).nextThread := by
  intro s hmem
  rw [h.run_concat]
  rw [h.sendings_concat, List.mem_append, Option.mem_toList] at hmem
  rcases hmem with hmem | hmem
  · exact (hs.sent_lt s hmem).trans_le ((h.run past).grows_apply e).nextThread
  · obtain ⟨heq, hlt⟩ := Host.sending?_eq_some hsingle hmem
    rwa [heq]

theorem begun_concat (hs : Served h past served) (e : Event) :
    (h.beginnings past).map (h.sender? (past ++ [e])) = served.map fun w => some w.task := by
  rw [← hs.begun]
  refine List.map_congr_left fun id hid => ?_
  have hmem : h.sender? past id ∈ served.map fun w => some w.task :=
    hs.begun ▸ List.mem_map_of_mem hid
  obtain ⟨w, -, hw⟩ := List.mem_map.1 hmem
  rw [← hw]
  exact Host.sender?_concat hw.symm e

/-- An execution that has taken the ticket comes next. -/
theorem owners_concat (hs : Served h past served) (ha : Arrived h past)
    (hsingle : (h.run past).Single) (e : Event) (t : Nat) (run : Execution)
    (hrun : (h.run (past ++ [e])).execution? t = some run) (howns : run.owns = true) :
    ∃ q, h.Foremost (past ++ [e]) served q ∧ q.task = t := by
  have hold {before : Execution} (hbefore : (h.run past).execution? t = some before)
      (hwas : before.owns = true) :
      ∃ q, h.Foremost (past ++ [e]) served q ∧ q.task = t :=
    (hs.owners t before hbefore hwas).imp fun q hq => ⟨foremost_concat ha e hq.1, hq.2⟩
  rw [h.run_concat] at hrun
  rcases Host.execution?_apply hsingle.kept.numbered hrun with
    hsame | ⟨job, rfl⟩ | ⟨bias, before, k, rfl, hbefore, hturn, hf⟩
  · exact hold hsame howns
  · cases howns
  · cases hturn.progress hsingle hbefore with
    | unasked _ hnot =>
      rw [Execution.hasAsked_of_owns howns] at hnot
      cases hnot
    | same heq => exact hold hbefore (heq ▸ howns)
    | joined purpose job hpurpose _ heq =>
      rw [heq] at howns
      cases purpose with
      | line held => cases hpurpose
      | _ => cases howns
    | taken hnot _ hline _ =>
      have harrival := Host.arrival?_poll hbefore hnot hrun (Execution.hasAsked_of_owns howns)
      refine ⟨⟨t, (h.run past).nextTurn⟩, ⟨Arrived.mem_concat.2 (.inr harrival), ?_, ?_⟩, rfl⟩
      · exact fun v hv => ha.recent v (hs.arrived v hv)
      · intro w hw
        rw [h.run_concat, hf.stack, hline] at hw
        cases hw
    | collected w purpose job hpurpose heq _ hw hline =>
      rw [heq] at hbefore
      obtain ⟨harrived, htask⟩ := ha.waiting t 0 w purpose job hbefore hpurpose
      refine ⟨w, ⟨Arrived.mem_concat.2 (.inl harrived), fun v hv => hs.line v hv w hw, ?_⟩, htask⟩
      intro v hv
      rw [h.run_concat, hf.stack] at hv
      exact hline v hv
    | onward hwas _ => exact hold hbefore hwas
    | sent _ _ _ heq =>
      rw [heq] at howns
      cases howns

/-- An errand that is still to be begun is that of the execution that has sent it. -/
theorem errands_concat (hs : Served h past served) (ha : Arrived h past)
    (hsingle : (h.run past).Single) (e : Event) (th : Thread)
    (hth : th ∈ (h.run (past ++ [e])).threads) (a : Activation) (hmem : a ∈ th.stack)
    (hun : a.isUnbegun = true) :
    ∃ q, h.Foremost (past ++ [e]) served q ∧ h.sender? (past ++ [e]) th.id = some q.task := by
  have hold {th' : Thread} (hth' : th' ∈ (h.run past).threads) (hid : th'.id = th.id)
      {b : Activation} (hb : b ∈ th'.stack) (hun : b.isUnbegun = true) :
      ∃ q, h.Foremost (past ++ [e]) served q ∧ h.sender? (past ++ [e]) th.id = some q.task :=
    (hs.errands th' hth' b hb hun).imp fun q hq =>
      ⟨foremost_concat ha e hq.1, Host.sender?_concat (hid ▸ hq.2) e⟩
  rw [h.run_concat] at hth
  cases Host.threads_apply hsingle.kept.numbered hth with
  | same hth => exact hold hth rfl hmem hun
  | stepped ht hstep =>
    obtain ⟨b, hb, hbun⟩ := Activation.unbegun_step hstep hmem hun
    exact hold (List.mem_of_find?_eq_some ht) (by simpa using List.find?_some ht) hb hbun
  | idle rest =>
    rw [List.mem_singleton.1 hmem] at hun
    cases hun
  | @sent t bias permit job hexec hafter =>
    obtain ⟨q, hq, htask⟩ := hs.owners t _ hexec rfl
    refine ⟨q, foremost_concat ha _ hq, ?_⟩
    have hsending : (h.run past).sending? (.poll t bias) = some ((h.run past).nextThread, t) := by
      simp only [Host.sending?, hexec, hafter]
    have hnone : (h.sendings past).lookup (h.run past).nextThread = none := by
      rw [List.lookup_eq_none_iff]
      intro s hmem
      simpa using (hs.sent_lt s hmem).ne'
    rw [Host.sender?, h.sendings_concat, hsending, List.lookup_append, hnone, Option.none_or,
      Option.toList_some, List.lookup_cons_self, htask]

/-- As long as no command is begun, the same ones have been begun. -/
theorem pass (hs : Served h past served) (ha : Arrived h past) (hsingle : (h.run past).Single)
    {e : Event} (hnone : (h.run past).beginning? e = none) : Served h (past ++ [e]) served where
  begun := by
    rw [h.beginnings_concat, hnone, Option.toList_none, List.append_nil]
    exact hs.begun_concat e
  arrived w hw := Arrived.mem_concat.2 (.inl (hs.arrived w hw))
  sorted := hs.sorted
  line v hv := line_concat ha e (hs.arrived v hv) (hs.line v hv)
  owners := hs.owners_concat ha hsingle e
  errands := hs.errands_concat ha hsingle e
  sent_lt := hs.sent_lt_concat hsingle e

/-- A command that is begun is the next one, and holds the ticket so that nobody else comes next. -/
theorem begins (hs : Served h past served) (ha : Arrived h past) (hsingle : (h.run past).Single)
    {e : Event} (hsingle' : (h.run (past ++ [e])).Single) {id : Nat}
    (hbeginning : (h.run past).beginning? e = some id) :
    ∃ q, Served h (past ++ [e]) (served ++ [q]) := by
  obtain ⟨-, work, ⟨th, hth, rfl, hlock⟩, th', hth', hcalled⟩ :=
    Host.beginning?_eq_some hsingle.kept.numbered hbeginning
  obtain ⟨q, hq, hsender⟩ := hs.errands th hth _ hlock rfl
  rw [← h.run_concat] at hth'
  have hheld := hsingle'.activation_held hth' hcalled rfl
  refine ⟨q, ?_, ?_, ?_, ?_, ?_, ?_, hs.sent_lt_concat hsingle e⟩
  · rw [h.beginnings_concat, hbeginning, Option.toList_some, List.map_append, List.map_append,
      hs.begun_concat, List.map_singleton, List.map_singleton, Host.sender?_concat hsender]
  · intro w hw
    rcases List.mem_append.1 hw with hw | hw
    · exact Arrived.mem_concat.2 (.inl (hs.arrived w hw))
    · rw [List.mem_singleton.1 hw]
      exact Arrived.mem_concat.2 (.inl hq.arrived)
  · refine List.pairwise_append.2 ⟨hs.sorted, List.pairwise_singleton _ _, fun v hv w hw => ?_⟩
    rw [List.mem_singleton.1 hw]
    exact hq.after v hv
  · intro v hv
    rcases List.mem_append.1 hv with hv | hv
    · exact line_concat ha e (hs.arrived v hv) (hs.line v hv)
    · rw [List.mem_singleton.1 hv]
      exact line_concat ha e hq.arrived hq.before
  · intro t run hrun howns
    have hnone := hsingle'.kept.not_both
      (add_le_add (Host.execution_le hrun) (Host.activation_le hth' hcalled))
      (hsingle'.execution_held hrun howns)
    omega
  · intro th'' hth'' a hmem hun
    obtain ⟨p, hp⟩ := Activation.exists_underPermit hun
    have hne : a ≠ .errand .called work := by
      rintro rfl
      cases hun
    have hnone := hsingle'.kept.not_both
      (Host.activation_add_activation_le hth' hth'' hcalled hmem hne) hheld
    have hsome := hsingle'.activation_held hth'' hmem hp
    omega

theorem nil (htasks : h.tasks = []) (hthreads : h.threads = []) : Served h [] [] where
  begun := rfl
  arrived w hw := absurd hw List.not_mem_nil
  sorted := .nil
  line v hv := absurd hv List.not_mem_nil
  owners t run hrun := by
    rw [show h.run [] = h from rfl, Host.execution?, Host.task?, htasks] at hrun
    cases hrun
  errands th hth := by
    rw [show h.run [] = h from rfl, hthreads] at hth
    cases hth
  sent_lt s hs := absurd hs List.not_mem_nil

/-- Those who were begun are among those who have arrived, in the same order. -/
theorem sublist (hs : Served h past served) (ha : Arrived h past) :
    served.Sublist (h.arrivals past) :=
  sublist_of_turns hs.sorted ha.sorted hs.arrived

end Served

namespace Host

variable {h : Host}

/-- As long as a run has opened no prompt, all that was begun in it was served in turn. -/
theorem exists_served (hk : h.WellKept) (hin : h.engine.inProcess = true) (htasks : h.tasks = [])
    (hthreads : h.threads = []) {past : List Event} (hnone : (h.run past).stack.gates.length = 2) :
    Arrived h past ∧ ∃ served, Served h past served := by
  induction past using List.reverseRecOn with
  | nil => exact ⟨.nil htasks, [], .nil htasks hthreads⟩
  | append_singleton past e ih =>
    have hsingle' := Single.of_run hk hin hnone
    have hbefore := gates_before hk (List.prefix_append past [e]) hnone
    have hsingle := Single.of_run hk hin hbefore
    obtain ⟨ha, served, hs⟩ := ih hbefore
    refine ⟨ha.concat hsingle e hsingle'.kept, ?_⟩
    cases hbeginning : (h.run past).beginning? e with
    | none => exact ⟨served, hs.pass ha hsingle hbeginning⟩
    | some id =>
      obtain ⟨q, hq⟩ := hs.begins ha hsingle hsingle' hbeginning
      exact ⟨_, hq⟩

end Host

/-- In a run in the engine's process that opens no prompt over the bottom, at most one command is
running at any moment, and nobody in a line waits for a call that is gone. No execution arrives
twice, and what runs for an execution has been begun. The executions whose commands the engine
has begun, in the order in which it has, are some of those that have arrived at the bottom
prompt, in the order of their arrival. -/
theorem Host.begun_in_order_of_arrival (native follows : Bool) (engine : Engine)
    (console : Console Waiter) (hin : engine.inProcess = true) (past : List Event)
    (hnone : ((Host.established native follows engine console).run past).stack.gates.length = 2) :
    let start := Host.established native follows engine console
    (∀ before, before <+: past →
      (start.run before).invocations.length ≤ 1 ∧ (start.run before).Moving) ∧
    ((start.arrivals past).map Waiter.task).Nodup ∧
    (∀ th ∈ (start.run past).threads, ∀ work, .execution work ∈ Activation.invocations th.stack →
      th.id ∈ start.beginnings past) ∧
    ∃ order : List Nat, (start.beginnings past).map (start.sender? past) = order.map some ∧
      order.Sublist ((start.arrivals past).map Waiter.task) := by
  intro start
  have hk : start.WellKept := WellKept.established native follows engine console
  have hcalls := sameCalls_established native follows engine console
  have hin' : start.engine.inProcess = true := hcalls.inProcess.trans hin
  obtain ⟨ha, served, hs⟩ := exists_served hk hin' hcalls.tasks hcalls.threads hnone
  have hshaped (before : List Event) :=
    (Chronicled.established native follows engine console before).errands
  refine ⟨fun before hbefore => ?_, ha.once, fun th hth work hwork => ?_,
    served.map Waiter.task, ?_, (hs.sublist ha).map _⟩
  · have hsingle := Single.of_run hk hin' (gates_before hk hbefore hnone)
    exact ⟨hsingle.length_invocations_le (hshaped before), hsingle.moving⟩
  · rcases (hshaped past th hth).origin_cases hwork with ⟨work', heq, hcalled⟩ | ⟨permit, heq⟩
    · exact mem_beginnings hk hcalls.threads past th hth work' hcalled
    · cases heq
  · rw [hs.begun, List.map_map]
    rfl

/-- Two commands and a reader arrive. The second command is dropped in line, and the reader follows
the first one. -/
def Host.droppedInLine : List Event :=
  [.start (.run ⟨.script "a", {}, 0, 0⟩ none), .poll 0 [], .poll 0 [], .poll 0 [], .poll 0 [],
    .start (.run ⟨.script "b", {}, 1, 1⟩ none), .poll 1 [], .poll 1 [], .poll 1 [],
    .start (.run ⟨.readLine, .reading, 2, 2⟩ none), .poll 2 [], .poll 2 [], .poll 2 [], .drop 1] ++
    List.replicate 8 (.advance 0) ++
    [.poll 2 [], .poll 2 [], .poll 2 [], .advance 1, .advance 1]

theorem Host.begun_in_order_of_arrival_droppedInLine :
    ((Host.established true false {} {}).run droppedInLine).stack.gates.length = 2 ∧
      ((Host.established true false {} {}).beginnings droppedInLine).map
        ((Host.established true false {} {}).sender? droppedInLine) = [some 0, some 2] ∧
      ∃ order : List Nat, order.map some = [some 0, some 2] ∧ order.Sublist [0, 1, 2] := by
  have hnone : ((Host.established true false {} {}).run droppedInLine).stack.gates.length = 2 := by
    decide +kernel
  have harrivals : ((Host.established true false {} {}).arrivals droppedInLine).map Waiter.task =
      [0, 1, 2] := by
    decide +kernel
  have hbegun : ((Host.established true false {} {}).beginnings droppedInLine).map
      ((Host.established true false {} {}).sender? droppedInLine) = [some 0, some 2] := by
    decide +kernel
  have horder := (begun_in_order_of_arrival true false {} {} rfl droppedInLine hnone).2.2.2
  rw [hbegun, harrivals] at horder
  exact ⟨hnone, hbegun, horder.imp fun _ h => ⟨h.1.symm, h.2⟩⟩

end SharedPrompt
