import SharedPrompt.Proofs.SerialUnits

/-!
# What becomes of a unit

A unit that has been handed to a worker is refused, waits in the inbox, is at work, has been done or
has been left undone. Its answer tells which.
-/

namespace SharedPrompt

namespace Crew

variable {c : Crew} {name : String} {w : Worker} {past : List CrewEvent} {e : CrewEvent} {t : Nat}
  {s : Submission}

/-! ## Refused units -/

/-- A unit that has been handed over was so before the last event, or in it. -/
theorem Books.submission_cases (hb : c.Books past) (hs : (c.submissions (past ++ [e]))[t]? = some s) :
    (c.submissions past)[t]? = some s ∨
      t = (c.run past).replies.length ∧ (c.run past).submission? e = some s := by
  rw [submissions_concat] at hs
  by_cases hlt : t < (c.submissions past).length
  · rw [List.getElem?_append_left hlt] at hs
    exact .inl hs
  · rw [List.getElem?_append_right (Nat.le_of_not_lt hlt)] at hs
    cases hsubmission : (c.run past).submission? e with
    | none => simp [hsubmission] at hs
    | some s' =>
      rw [hsubmission, Option.toList_some, List.getElem?_singleton] at hs
      split at hs
      · refine .inr ⟨?_, hs⟩
        rw [hb.tickets]
        omega
      · cases hs

theorem listens_iff {d : Crew} :
    d.listens name = true ↔ ∃ w, d.worker? name = some w ∧ w.phase ≠ .ended := by
  unfold listens
  cases d.worker? name <;> simp

/-- A unit comes into the inbox of a worker that listens. -/
theorem mem_received {d : Crew} (hs : d.submission? e = some s) (hlistens : d.listens s.worker = true) :
    d.replies.length ∈ workTickets (d.received s.worker e) := by
  obtain ⟨w, hw, hphase⟩ := listens_iff.1 hlistens
  have haccepted : w.accepted d.replies.length (d.submission? e) = [s.message d.replies.length] := by
    rw [hs, Worker.accepted, name_of_worker? hw, if_pos ⟨rfl, hphase⟩]
  simp [received, hw, haccepted, Submission.message]

theorem Books.lt_of_received (hb : c.Books past) (ht : t ∈ workTickets (c.inflow name past)) :
    t < (c.run past).replies.length := by
  obtain ⟨holder, list, hm⟩ := mem_workTickets.1 ht
  obtain ⟨s, hs, -⟩ := hb.sent name t holder list hm
  rw [hb.tickets]
  exact (List.getElem?_eq_some_iff.1 hs).1

/-- A worker that has ended does nothing any more. -/
theorem IsNew.ended_concat (hc : c.IsNew) (past : List CrewEvent) (e : CrewEvent)
    (h : ∀ w, (c.run past).worker? name = some w → w.phase = .ended) :
    ∀ w, (c.run (past ++ [e])).worker? name = some w → w.phase = .ended := by
  intro w' hw'
  rw [run_concat] at hw'
  obtain ⟨w, hw⟩ := exists_worker?_of_apply hw'
  have ha := (hc.books_run past).accounts name w hw
  obtain ⟨w₁, w'', hacts, hw'', hhears, -⟩ := view hw ha.steady e
  obtain rfl : w'' = w' := Option.some.inj (hw''.symm.trans hw')
  have hphase := h w hw
  have hidle : w.running = none := (ha.stopped (by simp [hphase])).1
  rw [hhears.phase]
  generalize (c.run past).taken name e = took at hacts
  generalize (c.run past).answers name e = gave at hacts
  cases hacts with
  | rests => exact hphase
  | takes _ hworking _ => simp [hphase] at hworking
  | stops _ hworking _ => simp [hphase] at hworking
  | forsaken _ hworking _ _ => simp [hphase] at hworking
  | closes _ _ => rfl
  | moves hrun _ _ => simp [hidle] at hrun
  | ends hrun _ _ => simp [hidle] at hrun

/-- A unit that has been handed over comes into an inbox, or is refused there and then, because the
worker has ended. -/
theorem IsNew.received_or_refused (hc : c.IsNew) (past : List CrewEvent)
    (hs : (c.submissions past)[t]? = some s) :
    t ∈ workTickets (c.inflow s.worker past) ∨
      (c.run past).answer? t = some (.error .shutdown) ∧
        (∀ name, t ∉ workTickets (c.inflow name past)) ∧
        ∀ w, (c.run past).worker? s.worker = some w → w.phase = .ended := by
  induction past using List.reverseRecOn with
  | nil => cases hs
  | append_singleton past e ih =>
    have hb := hc.books_run past
    simp only [inflow_concat, workTickets_append, List.mem_append, not_or]
    obtain hold | ⟨rfl, hnew⟩ := hb.submission_cases hs
    · refine (ih hold).imp .inl fun ⟨hanswer, hnot, hended⟩ =>
        ⟨hb.answer_concat hanswer, fun name => ⟨hnot name, fun ht => ?_⟩,
          hc.ended_concat past e hended⟩
      obtain ⟨holder, list, hm⟩ := mem_workTickets.1 ht
      have hlt := (List.getElem?_eq_some_iff.1 hold).1
      rw [← hb.tickets, (exists_of_received hm).1] at hlt
      exact absurd hlt (Nat.lt_irrefl _)
    · by_cases hlistens : (c.run past).listens s.worker = true
      · exact .inl (.inr (mem_received hnew hlistens))
      · refine .inr ⟨(hb.answers_concat _ _).2 ?_, fun name => ⟨fun ht => ?_, fun ht => ?_⟩,
          hc.ended_concat past e fun w hw => ?_⟩
        · rw [answered_concat, resolutions, hnew, refusal, if_neg hlistens]
          simp
        · exact absurd (hb.lt_of_received ht) (Nat.lt_irrefl _)
        · obtain ⟨holder, list, hm⟩ := mem_workTickets.1 ht
          obtain ⟨-, s', hs', rfl, -, hlistens'⟩ := exists_of_received hm
          rw [Option.some.inj (hnew.symm.trans hs')] at hlistens
          exact hlistens hlistens'
        · by_contra hphase
          exact hlistens (listens_iff.2 ⟨w, hw, hphase⟩)

/-! ## Units that are left undone -/

/-- A unit that its worker has not taken before it ended has been answered all the same. -/
theorem IsNew.left_undone (hc : c.IsNew) (past : List CrewEvent)
    (hw : (c.run past).worker? name = some w) (hphase : w.phase = .ended)
    (ht : t ∈ workTickets (c.inflow name past)) (hnot : t ∉ workTickets (c.outflow name past)) :
    (c.run past).answer? t = some (.error .replyDropped) := by
  induction past using List.reverseRecOn generalizing w with
  | nil => cases ht
  | append_singleton past e ih =>
    have hb := hc.books_run past
    rw [run_concat] at hw
    obtain ⟨v, hv⟩ := exists_worker?_of_apply hw
    have ha := hb.accounts name v hv
    obtain ⟨w₁, w', hacts, hw', hhears, hended⟩ := view hv ha.steady e
    obtain rfl : w' = w := Option.some.inj (hw'.symm.trans hw)
    have hphase : w₁.phase = .ended := hhears.phase.symm.trans hphase
    rw [inflow_concat, hended hphase, List.append_nil] at ht
    rw [outflow_concat, workTickets_append, List.mem_append, not_or] at hnot
    have hbusy : ∀ run, v.running = some run → v.phase ≠ .ended := fun run hrun hended => by
      simp [(ha.stopped (by simp [hended])).1] at hrun
    generalize (c.run past).taken name e = took at hacts hnot
    generalize hgave : (c.run past).answers name e = gave at hacts
    cases hacts with
    | rests => exact hb.answer_concat (ih hv hphase ht hnot.1)
    | takes hrun hworking hinbox => simp [hworking] at hphase
    | stops hrun hworking hinbox => cases hphase
    | forsaken hrun hworking hinbox hforsaken => cases hphase
    | closes hrun hleaving =>
      have hanswer : (t, .error .replyDropped) ∈ (c.run past).answers name e := by
        rw [hgave]
        rw [← ha.kept (by simp [hleaving]), workTickets_append, List.mem_append] at ht
        exact List.mem_map.2 ⟨t, ht.resolve_left hnot.1, rfl⟩
      refine (hb.answers_concat _ _).2 ?_
      rw [answered_concat, List.mem_append]
      exact .inr (answers_subset _ hanswer)
    | moves hrun hmoves hs => exact absurd hphase (hbusy _ hrun)
    | ends hrun hends hbelow => exact absurd hphase (hbusy _ hrun)

/-! ## The fate of a unit -/

inductive Fate (c : Crew) (past : List CrewEvent) (t : Nat) (s : Submission) : Prop
  | refused (hanswer : (c.run past).answer? t = some (.error .shutdown))
      (hnot : t ∉ workTickets (c.outflow s.worker past))
      (hphase : ∀ w, (c.run past).worker? s.worker = some w → w.phase = .ended)
  | waits {w : Worker} (hw : (c.run past).worker? s.worker = some w) (hphase : w.phase ≠ .ended)
      (ht : t ∈ workTickets w.inbox) (hnot : t ∉ workTickets (c.outflow s.worker past))
      (hanswer : (c.run past).answer? t = none)
  | atWork {w : Worker} {run : Running} (hw : (c.run past).worker? s.worker = some w)
      (hrun : w.running = some run) (ht : run.ticket = t)
      (htaken : t ∈ workTickets (c.outflow s.worker past)) (hanswer : (c.run past).answer? t = none)
  | done {w : Worker} {r : WorkResult} {e e' : Engine}
      (hw : (c.run past).worker? s.worker = some w)
      (htaken : t ∈ workTickets (c.outflow s.worker past)) (hanswer : (c.run past).answer? t = some r)
      (hr : Comes w.name w.thread (Thrown w.name past) (c.Told past) e s.list r e')
  | leftUndone {w : Worker} (hw : (c.run past).worker? s.worker = some w) (hphase : w.phase = .ended)
      (hnot : t ∉ workTickets (c.outflow s.worker past))
      (hanswer : (c.run past).answer? t = some (.error .replyDropped))

/-- Workers keep their names. -/
theorem exists_worker?_run (c : Crew) (past : List CrewEvent) (name : String) :
    (∃ w, (c.run past).worker? name = some w) ↔ ∃ w, c.worker? name = some w := by
  rw [exists_worker?_iff, exists_worker?_iff, names_run]

/-- Only a worker leaves anything in its logs. -/
theorem exists_worker?_of_during {α : Type} {f : Crew → CrewEvent → List α}
    (hf : ∀ d e, d.worker? name = none → f d e = []) {a : α} (ha : a ∈ c.during f past) :
    ∃ w, c.worker? name = some w := by
  induction past using List.reverseRecOn with
  | nil => cases ha
  | append_singleton past e ih =>
    rw [during_concat, List.mem_append] at ha
    refine ha.elim ih fun ha => (exists_worker?_run c past name).1 ?_
    cases hw : (c.run past).worker? name with
    | none => simp [hf _ e hw] at ha
    | some w => exact ⟨w, rfl⟩

/-- What a worker has taken it has received, and in that order. -/
theorem IsNew.outflow_le (hc : c.IsNew) (name : String) (past : List CrewEvent) :
    c.outflow name past <+: c.inflow name past := by
  have hnone : ∀ d e, d.worker? name = none → taken name d e = [] := by
    intro d e hw
    cases e <;> simp [taken, hw]
  by_cases hempty : c.outflow name past = []
  · rw [hempty]
    exact List.nil_prefix
  · obtain ⟨m, hm⟩ := List.exists_mem_of_ne_nil _ hempty
    obtain ⟨w, hw⟩ := (exists_worker?_run c past name).2 (exists_worker?_of_during hnone hm)
    exact ((hc.books_run past).accounts name w hw).le

/-- A unit that has been taken is at work or has been done. -/
theorem IsNew.fate_of_taken (hc : c.IsNew) (past : List CrewEvent) (hs : (c.submissions past)[t]? = some s)
    (hw : (c.run past).worker? s.worker = some w) (htaken : t ∈ workTickets (c.outflow s.worker past)) :
    c.Fate past t s := by
  have hb := hc.books_run past
  have ha := hb.accounts s.worker w hw
  obtain ⟨w₀, hw₀⟩ := (exists_worker?_run c past s.worker).1 ⟨w, hw⟩
  obtain ⟨log, engine, hserial⟩ := hc.serial hw₀ past hw
  have hlog : ∀ d ∈ log, d.ticket = t → d.list = s.list → c.Fate past t s := by
    rintro d hd rfl hlist
    obtain ⟨e, e', hr⟩ := hserial.served.exists_comes d hd
    exact .done hw htaken (hserial.answered d hd) (hlist ▸ hr)
  obtain ⟨list, hmem, hlist⟩ :
      ∃ list, (t, list) ∈ worksOf (c.outflow s.worker past) ∧ list = s.list := by
    obtain ⟨holder, list, hm⟩ := mem_workTickets.1 htaken
    obtain ⟨s', hs', -, rfl⟩ := hb.sent s.worker t holder list (ha.le.subset hm)
    obtain rfl := Option.some.inj (hs.symm.trans hs')
    exact ⟨s.list, List.mem_filterMap.2 ⟨_, hm, rfl⟩, rfl⟩
  cases hrun : w.running with
  | none =>
    rw [(hserial.idle hrun).1] at hmem
    obtain ⟨d, hd, heq⟩ := List.mem_map.1 hmem
    obtain ⟨hticket, hlist'⟩ := Prod.mk.inj heq
    exact hlog d hd hticket (hlist'.trans hlist)
  | some run =>
    obtain ⟨list', hworks, -⟩ := hserial.busy run hrun
    rw [hworks, List.mem_append, List.mem_singleton] at hmem
    obtain hmem | heq := hmem
    · obtain ⟨d, hd, heq⟩ := List.mem_map.1 hmem
      obtain ⟨hticket, hlist'⟩ := Prod.mk.inj heq
      exact hlog d hd hticket (hlist'.trans hlist)
    · have ht : t = run.ticket := congrArg Prod.fst heq
      exact .atWork hw hrun ht.symm htaken (hb.pending s.worker w hw t (by simp [Worker.pending, hrun, ht]))

theorem IsNew.fate (hc : c.IsNew) (past : List CrewEvent) (hs : (c.submissions past)[t]? = some s) :
    c.Fate past t s := by
  have hb := hc.books_run past
  obtain hin | ⟨hanswer, hnot, hended⟩ := hc.received_or_refused past hs
  · obtain ⟨holder, list, hm⟩ := mem_workTickets.1 hin
    have hnone : ∀ d e, d.worker? s.worker = none → received s.worker d e = [] := by
      intro d e hw
      simp [received, hw]
    obtain ⟨w, hw⟩ := (exists_worker?_run c past s.worker).2 (exists_worker?_of_during hnone hm)
    have ha := hb.accounts s.worker w hw
    by_cases htaken : t ∈ workTickets (c.outflow s.worker past)
    · exact hc.fate_of_taken past hs hw htaken
    by_cases hphase : w.phase = .ended
    · exact .leftUndone hw hphase htaken (hc.left_undone past hw hphase hin htaken)
    · rw [← ha.kept hphase, workTickets_append, List.mem_append] at hin
      have ht := hin.resolve_left htaken
      exact .waits hw hphase ht htaken (hb.pending s.worker w hw t (by simp [Worker.pending, ht]))
  · refine .refused hanswer (fun ht => hnot s.worker ?_) hended
    obtain ⟨holder, list, hm⟩ := mem_workTickets.1 ht
    exact mem_workTickets.2 ⟨holder, list, (hc.outflow_le _ _).subset hm⟩

/-! ## What an answer tells -/

theorem submission_append (hs : (c.submissions past)[t]? = some s) (future : List CrewEvent) :
    (c.submissions (past ++ future))[t]? = some s := by
  rw [submissions, during_append]
  exact (List.getElem?_append_left (List.getElem?_eq_some_iff.1 hs).1).trans hs

/-- An answer is final. -/
theorem IsNew.answer_append (hc : c.IsNew) {r : WorkResult} (h : (c.run past).answer? t = some r)
    (future : List CrewEvent) : (c.run (past ++ future)).answer? t = some r := by
  induction future using List.reverseRecOn with
  | nil => rwa [List.append_nil]
  | append_singleton future e ih =>
    rw [← List.append_assoc]
    exact (hc.books_run _).answer_concat ih

def IsOutcome (r : WorkResult) : Prop :=
  (∃ entries, r = .ok entries) ∨ ∃ message, r = .error (.panicked message)

def IsRefusal (r : WorkResult) : Prop := r = .error .shutdown ∨ r = .error .replyDropped

theorem IsRefusal.not_isOutcome {r : WorkResult} (h : IsRefusal r) : ¬ IsOutcome r := by
  obtain rfl | rfl := h <;> rintro (⟨_, h⟩ | ⟨_, h⟩) <;> cases h

end Crew

/-- What a unit comes to by itself is an outcome. -/
theorem Comes.isOutcome {worker thread : String} {thrown : Prop}
    {told : String → Work → WorkResult → Prop} {e e' : Engine} {list : Work} {r : WorkResult}
    (h : Comes worker thread thrown told e list r e') : Crew.IsOutcome r := by
  obtain ⟨entries, rest, e₁, -, hcloses⟩ := h
  obtain rfl | ⟨p, rfl⟩ := hcloses.cases
  · exact .inl ⟨entries, rfl⟩
  · exact .inr ⟨p.message, rfl⟩

namespace Crew

variable {c : Crew} {past : List CrewEvent} {t : Nat} {s : Submission} {r : WorkResult}

/-- An answer is the outcome of a unit that was taken, or the refusal of one that was not. -/
theorem IsNew.answer_cases (hc : c.IsNew) (hs : (c.submissions past)[t]? = some s)
    (hanswer : (c.run past).answer? t = some r) :
    IsOutcome r ∧ t ∈ workTickets (c.outflow s.worker past) ∨
      IsRefusal r ∧ t ∉ workTickets (c.outflow s.worker past) := by
  cases hc.fate past hs with
  | refused h hnot _ => exact .inr ⟨.inl (Option.some.inj (hanswer.symm.trans h)), hnot⟩
  | waits hw hphase ht hnot h => simp [hanswer] at h
  | atWork hw hrun ht htaken h => simp [hanswer] at h
  | done hw htaken h hr =>
    obtain rfl := Option.some.inj (hanswer.symm.trans h)
    exact .inl ⟨hr.isOutcome, htaken⟩
  | leftUndone hw hphase hnot h => exact .inr ⟨.inr (Option.some.inj (hanswer.symm.trans h)), hnot⟩

/-- The answer of a unit is an outcome if and only if the unit was taken. -/
theorem IsNew.isOutcome_iff (hc : c.IsNew) (hs : (c.submissions past)[t]? = some s)
    (hanswer : (c.run past).answer? t = some r) :
    IsOutcome r ↔ t ∈ workTickets (c.outflow s.worker past) := by
  obtain ⟨hr, htaken⟩ | ⟨hr, hnot⟩ := hc.answer_cases hs hanswer
  · exact ⟨fun _ => htaken, fun _ => hr⟩
  · exact ⟨fun h => absurd h hr.not_isOutcome, fun h => absurd h hnot⟩

/-- The answer of a unit is a refusal if and only if the unit has not been taken and never will be. -/
theorem IsNew.isRefusal_iff (hc : c.IsNew) (hs : (c.submissions past)[t]? = some s)
    (hanswer : (c.run past).answer? t = some r) :
    IsRefusal r ↔ ∀ future, t ∉ workTickets (c.outflow s.worker (past ++ future)) := by
  constructor
  · intro hr future htaken
    have hanswer' := hc.answer_append hanswer future
    exact hr.not_isOutcome ((hc.isOutcome_iff (submission_append hs future) hanswer').2 htaken)
  · intro hnever
    obtain ⟨-, htaken⟩ | ⟨hr, -⟩ := hc.answer_cases hs hanswer
    · exact absurd htaken (by simpa using hnever [])
    · exact hr

end Crew

end SharedPrompt
