import SharedPrompt.Proofs.SchedulerOrder

/-!
# Shutting down a worker

However units are handed over, clients dropped and owners dropped, every unit is answered once, and
its answer tells whether it was done. Of the units in an inbox those are done that came in before the
message that the owner leaves.
-/

namespace SharedPrompt

namespace Worker.Accounts

variable {received taken before after : List Message} {w : Worker}

theorem countP_le (h : w.Accounts received taken) : received.countP Message.isShutdown ≤ 1 := by
  rw [h.owner]
  split <;> omega

/-- A worker takes nothing that lies behind the message of its owner. -/
theorem le_before (h : w.Accounts received taken) (hreceived : received = before ++ .shutdown :: after) :
    taken <+: before ++ [.shutdown] := by
  have hle : before ++ [.shutdown] <+: received := ⟨after, by simp [hreceived]⟩
  obtain htaken | hpast := List.prefix_or_prefix_of_prefix h.le hle
  · exact htaken
  by_cases hphase : w.phase = .working
  · exact absurd (hpast.subset (by simp)) (h.working hphase)
  obtain ⟨-, before', rfl⟩ := h.stopped hphase
  obtain heq | hlt := List.prefix_concat_iff.1 hpast
  · rw [heq]
  · have htwo := (h.le.sublist.countP_le (p := Message.isShutdown)).trans h.countP_le
    have hone := hlt.sublist.countP_le (p := Message.isShutdown)
    simp only [List.countP_append, List.countP_singleton, Message.isShutdown, if_true] at htwo hone
    omega

/-- A worker with nothing to do has taken all that lies before that message. -/
theorem eq_before (h : w.Accounts received taken) (hreceived : received = before ++ .shutdown :: after)
    (hidle : w.phase = .ended ∨ w.phase = .working ∧ w.inbox = []) : taken = before ++ [.shutdown] := by
  obtain hphase | ⟨hphase, hinbox⟩ := hidle
  · obtain ⟨-, before', rfl⟩ := h.stopped (by simp [hphase])
    obtain heq | hlt := List.prefix_concat_iff.1 (h.le_before hreceived)
    · exact heq
    · have hcount := h.countP_le
      have hone := hlt.sublist.countP_le (p := Message.isShutdown)
      rw [hreceived] at hcount
      simp only [List.countP_append, List.countP_cons, List.countP_nil, Message.isShutdown, if_true]
        at hcount hone
      omega
  · have hall := h.kept (by simp [hphase])
    rw [hinbox, List.append_nil] at hall
    exact absurd (by rw [hall, hreceived]; simp) (h.working hphase)

end Worker.Accounts

namespace Crew

variable {c : Crew} {past : List CrewEvent} {name : String} {before after : List Message}

/-- An inbox with a message of an owner is that of a worker. -/
theorem exists_worker?_of_inflow (h : c.inflow name past = before ++ .shutdown :: after) :
    ∃ w, (c.run past).worker? name = some w := by
  have hnone : ∀ d e, d.worker? name = none → received name d e = [] := by
    intro d e hw
    simp [received, hw]
  have hmem : Message.shutdown ∈ c.during (received name) past := by
    change _ ∈ c.inflow name past
    simp [h]
  exact (exists_worker?_run c past name).2 (exists_worker?_of_during hnone hmem)

theorem IsNew.notBehind (hc : c.IsNew) (h : c.inflow name past = before ++ .shutdown :: after) :
    c.outflow name past <+: before ++ [.shutdown] := by
  obtain ⟨w, hw⟩ := exists_worker?_of_inflow h
  exact ((hc.books_run past).accounts name w hw).le_before h

/-- At rest a worker has taken all that lay before the message of its owner. -/
theorem IsNew.drained (hc : c.IsNew) (hrests : (c.run past).Rests)
    (h : c.inflow name past = before ++ .shutdown :: after) :
    c.outflow name past = before ++ [.shutdown] ∨ (c.run past).Stalls name := by
  obtain ⟨w, hw⟩ := exists_worker?_of_inflow h
  cases hrun : w.running with
  | some run => exact .inr (hrests.stalls hw hrun)
  | none => exact .inl (((hc.books_run past).accounts name w hw).eq_before h (hrests.idle hw hrun))

/-- What a worker has taken was handed to it. -/
theorem IsNew.handed (hc : c.IsNew) {t : Nat} (ht : t ∈ workTickets (c.outflow name past)) :
    ∃ s, (c.submissions past)[t]? = some s ∧ s.worker = name := by
  obtain ⟨holder, list, hm⟩ := mem_workTickets.1 ht
  obtain ⟨s, hs, hname, -⟩ :=
    (hc.books_run past).sent name t holder list ((hc.outflow_le name past).subset hm)
  exact ⟨s, hs, hname⟩

theorem IsNew.takenOnce (hc : c.IsNew) (name : String) (past : List CrewEvent) :
    (workTickets (c.outflow name past)).Nodup := by
  have hincreasing := (hc.books_run past).increasing name
  have hsub := (hc.outflow_le name past).sublist.filterMap Message.ticket?
  exact (hincreasing.sublist hsub).imp Nat.ne_of_lt

structure Resolved (c : Crew) (past : List CrewEvent) : Prop where
  /-- No unit is answered twice, -/
  once : ((c.answered past).map Prod.fst).Nodup ∧
    ∀ t r, (c.run past).answer? t = some r ↔ (t, r) ∈ c.answered past
  /-- and an answer is final. -/
  final : ∀ t r future, (c.run past).answer? t = some r → (c.run (past ++ future)).answer? t = some r
  /-- No unit is taken twice, nor by anybody but the worker that it was handed to. -/
  takenOnce : ∀ name, (workTickets (c.outflow name past)).Nodup ∧
    ∀ t ∈ workTickets (c.outflow name past), ∃ s, (c.submissions past)[t]? = some s ∧ s.worker = name
  /-- The answer is a value or a panic if and only if the unit was taken, -/
  outcome : ∀ t s r, (c.submissions past)[t]? = some s → (c.run past).answer? t = some r →
    (IsOutcome r ↔ t ∈ workTickets (c.outflow s.worker past))
  /-- and then it is what the unit comes to. -/
  value : ∀ t s w r, (c.submissions past)[t]? = some s → (c.run past).worker? s.worker = some w →
    (c.run past).answer? t = some r → IsOutcome r →
      ∃ e e', Comes w.name w.thread (Thrown w.name past) (c.Told past) e s.list r e'
  /-- It is a refusal if and only if the unit was not taken and never will be. -/
  refusal : ∀ t s r, (c.submissions past)[t]? = some s → (c.run past).answer? t = some r →
    (IsRefusal r ↔ ∀ future, t ∉ workTickets (c.outflow s.worker (past ++ future)))
  /-- Nothing is taken that lies behind the message of an owner. -/
  notBehind : ∀ name before after, c.inflow name past = before ++ .shutdown :: after →
    c.outflow name past <+: before ++ [.shutdown]
  /-- A unit that is handed to its own worker is done in place, whatever lies in the inbox. -/
  inPlace : ∀ w run inner rest, (c.run past).worker? w.name = some w → w.running = some run →
    run.frame.doing = .deeds → run.frame.rest = .submit w.name inner :: rest → ∀ future,
      c.InPlace w.name past run { run.frame with rest } inner w.engine (.turn w.name :: future)
  /-- If every worker gets its turn again and again, every unit is answered in the end, and all that
  lay before the message of an owner is taken, unless a worker is in the middle of a unit that waits. -/
  settled : ∀ schedule, c.Fair schedule → ∃ n, ∀ m, n ≤ m →
    (∀ t s, (c.submissions (past ++ turns schedule m))[t]? = some s →
      (∃ r, (c.run (past ++ turns schedule m)).answer? t = some r) ∨
        (c.run (past ++ turns schedule m)).Stalls s.worker) ∧
    ∀ name before after, c.inflow name (past ++ turns schedule m) = before ++ .shutdown :: after →
      c.outflow name (past ++ turns schedule m) = before ++ [.shutdown] ∨
        (c.run (past ++ turns schedule m)).Stalls name

/-- In a crew whose workers have just been started, however its units are handed over and its owners
and clients dropped, every unit is answered once, and truly. -/
theorem units_resolved (specs : List (String × Behavior × WorkerOptions)) (past : List CrewEvent) :
    (hired specs).Resolved past := by
  have hc := isNew_hired specs
  have hb := hc.books_run past
  exact {
    once := ⟨hb.once, hb.answers⟩
    final := fun t r future hanswer => hc.answer_append hanswer future
    takenOnce := fun name => ⟨hc.takenOnce name past, fun t ht => hc.handed ht⟩
    outcome := fun t s r hs hanswer => hc.isOutcome_iff hs hanswer
    value := fun t s w r hs hw hanswer hr =>
      (hc.own hs hw hanswer).resolve_right fun h => h.2.not_isOutcome hr
    refusal := fun t s r hs hanswer => hc.isRefusal_iff hs hanswer
    notBehind := fun name before after h => hc.notBehind h
    inPlace := fun w run inner rest hw hrun hdoing hrest future =>
      hc.inPlace hw hrun hdoing hrest future
    settled := fun schedule hfair =>
      let ⟨n, hn⟩ := hc.answered past hfair
      ⟨n, fun m hm => ⟨(hn m hm).2, fun name before after h => hc.drained (hn m hm).1 h⟩⟩ }

/-- A unit drops the owner of its worker while another one waits behind it, and then hands over one
in place. Two more come too late: one is left in the inbox, one is refused. -/
def ownerInside : List CrewEvent :=
  [.submit "w" [.thread], .submitOwner "w" [.dropOwner, .submit "w" [.place]], .submit "w" [.place]] ++
    List.replicate 5 (.turn "w") ++ .submit "w" [.thread] :: List.replicate 9 (.turn "w") ++
      [.submit "w" [.thread]]

theorem units_resolved_ownerInside :
    (List.range 5).map (solo.run ownerInside).answer? =
        [some (.ok [.thread WorkerOptions.threadName]), some (.ok [.nested (.ok [.place true false])]),
          some (.ok [.place true false]), some (.error .replyDropped), some (.error .shutdown)] ∧
      ∀ future, 3 ∉ workTickets (solo.outflow "w" (ownerInside ++ future)) := by
  have hs : (solo.submissions ownerInside)[3]? = some ⟨"w", none, [.thread]⟩ := by rfl
  have hanswer : (solo.run ownerInside).answer? 3 = some (.error .replyDropped) := by rfl
  have hresolved : solo.Resolved ownerInside := units_resolved [("w", [], {})] ownerInside
  exact ⟨by rfl, (hresolved.refusal 3 _ _ hs hanswer).1 (.inr rfl)⟩

end Crew

end SharedPrompt
