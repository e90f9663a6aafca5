import SharedPrompt.Proofs.CrewRest
import SharedPrompt.Proofs.InPlace
import SharedPrompt.Proofs.Repercussions

/-!
# The order of a worker's units

A worker does its units one at a time, in the order in which they were sent. One that a unit hands to
its own worker is done in place, to its end, before anything else. Everybody gets the answer of the
own unit, and a panic changes no other.
-/

namespace SharedPrompt

namespace Crew

structure UnitOrder (c : Crew) (past : List CrewEvent) : Prop where
  /-- What comes into an inbox is a unit that was handed to the worker, with its ticket. -/
  sent : ∀ name ticket holder list, .work ticket holder list ∈ c.inflow name past →
    ∃ s, (c.submissions past)[ticket]? = some s ∧ s.worker = name ∧ s.list = list
  /-- Every unit comes in, as long as the worker has an owner. -/
  arrives : ∀ t s w, (c.submissions past)[t]? = some s → (c.run past).worker? s.worker = some w →
    w.owner ≠ .gone → t ∈ workTickets (c.inflow s.worker past)
  /-- The units come in in the order in which they were handed over, and are taken in that order. -/
  order : ∀ name, (workTickets (c.inflow name past)).Pairwise (· < ·) ∧
    c.outflow name past <+: c.inflow name past
  /-- They are done one after another, each to its end before the next is begun. -/
  serial : ∀ w₀ w, c.worker? w.name = some w₀ → (c.run past).worker? w.name = some w →
    ∃ log engine, c.Serial past w₀.engine w (c.outflow w.name past) log engine
  /-- A unit that is handed to the worker of the unit at work is done in place. -/
  inPlace : ∀ w run inner rest, (c.run past).worker? w.name = some w → w.running = some run →
    run.frame.doing = .deeds → run.frame.rest = .submit w.name inner :: rest → ∀ future,
      c.InPlace w.name past run { run.frame with rest } inner w.engine (.turn w.name :: future)
  /-- The answer is what the unit comes to by itself: its value, or its own panic. -/
  own : ∀ t s w r, (c.submissions past)[t]? = some s → (c.run past).worker? s.worker = some w →
    (c.run past).answer? t = some r →
      (∃ e e', Comes w.name w.thread (Thrown w.name past) (c.Told past) e s.list r e') ∨
        w.owner = .gone ∧ IsRefusal r
  /-- A unit that panics might as well have returned, for all others but those that wait for it. -/
  panics : ∀ w run engine p, (c.run past).worker? w.name = some w → w.running = some run →
    (c.run past).nextMove? w run = some (.panics engine p) → ∀ future,
      (c.run past).Apart run (.ok run.frame.entries) (.error (.panicked p.message))
        ((c.run past).finish { w with engine } run (.ok run.frame.entries))
        (c.run (past ++ [.turn w.name])) future
  /-- If every worker gets its turn again and again, every unit is answered, unless its worker is in
  the middle of one that waits. -/
  answered : ∀ schedule, c.Fair schedule → ∃ n, ∀ m, n ≤ m → ∀ t s,
    (c.submissions (past ++ turns schedule m))[t]? = some s →
      (∃ r, (c.run (past ++ turns schedule m)).answer? t = some r) ∨
        (c.run (past ++ turns schedule m)).Stalls s.worker

variable {c : Crew} {past : List CrewEvent}

theorem IsNew.owner_of_ended (hc : c.IsNew) {name : String} {w : Worker}
    (hw : (c.run past).worker? name = some w) (hphase : w.phase = .ended) : w.owner = .gone :=
  (((hc.books_run past).accounts name w hw).steady (by simp [hphase])).1

/-- Nobody is refused as long as the worker has an owner. -/
theorem IsNew.arrives (hc : c.IsNew) {t : Nat} {s : Submission} {w : Worker}
    (hs : (c.submissions past)[t]? = some s) (hw : (c.run past).worker? s.worker = some w)
    (howner : w.owner ≠ .gone) : t ∈ workTickets (c.inflow s.worker past) := by
  refine (hc.received_or_refused past hs).resolve_right fun h => howner ?_
  exact hc.owner_of_ended hw (h.2.2 w hw)

/-- An answer is what the unit comes to by itself, or a refusal. -/
theorem IsNew.own (hc : c.IsNew) {t : Nat} {s : Submission} {w : Worker} {r : WorkResult}
    (hs : (c.submissions past)[t]? = some s) (hw : (c.run past).worker? s.worker = some w)
    (hanswer : (c.run past).answer? t = some r) :
    (∃ e e', Comes w.name w.thread (Thrown w.name past) (c.Told past) e s.list r e') ∨
      w.owner = .gone ∧ IsRefusal r := by
  cases hc.fate past hs with
  | refused h _ hended =>
    exact .inr ⟨hc.owner_of_ended hw (hended w hw), .inl (Option.some.inj (hanswer.symm.trans h))⟩
  | waits _ _ _ _ h => simp [hanswer] at h
  | atWork _ _ _ _ h => simp [hanswer] at h
  | done hw' _ h hr =>
    obtain rfl := Option.some.inj (hanswer.symm.trans h)
    obtain rfl := Option.some.inj (hw.symm.trans hw')
    exact .inl ⟨_, _, hr⟩
  | leftUndone hw' hphase _ h =>
    obtain rfl := Option.some.inj (hw.symm.trans hw')
    exact .inr ⟨hc.owner_of_ended hw hphase, .inr (Option.some.inj (hanswer.symm.trans h))⟩

/-- From any state on, every unit is answered in the end. -/
theorem IsNew.answered (hc : c.IsNew) (past : List CrewEvent) {schedule : Nat → String}
    (hfair : c.Fair schedule) :
    ∃ n, ∀ m, n ≤ m → (c.run (past ++ turns schedule m)).Rests ∧ ∀ t s,
      (c.submissions (past ++ turns schedule m))[t]? = some s →
        (∃ r, (c.run (past ++ turns schedule m)).answer? t = some r) ∨
          (c.run (past ++ turns schedule m)).Stalls s.worker := by
  have hfair' : (c.run past).Fair schedule := by
    intro name hname
    rw [names_run] at hname
    exact hfair name hname
  obtain ⟨n, hn⟩ := exists_rests (c.run past) hfair'
  refine ⟨n, fun m hm => ?_⟩
  have hrests : (c.run (past ++ turns schedule m)).Rests := by
    rw [run_append]
    exact hn m hm
  exact ⟨hrests, fun t s hs => hc.answered_at_rest hs hrests⟩

/-- In a crew whose workers have just been started, whatever happens, the units of each worker are
done in order, in place where they are handed over in place, and each with its own result. -/
theorem unit_order (specs : List (String × Behavior × WorkerOptions)) (past : List CrewEvent) :
    (hired specs).UnitOrder past := by
  have hc := isNew_hired specs
  have hb := hc.books_run past
  exact {
    sent := hb.sent
    arrives := fun t s w hs hw howner => hc.arrives hs hw howner
    order := fun name => ⟨hb.increasing name, hc.outflow_le name past⟩
    serial := fun w₀ w hw₀ hw => hc.serial hw₀ past hw
    inPlace := fun w run inner rest hw hrun hdoing hrest future =>
      hc.inPlace hw hrun hdoing hrest future
    own := fun t s w r hs hw hanswer => hc.own hs hw hanswer
    panics := fun w run engine p hw hrun hmove future => hc.panic_apart hw hrun hmove future
    answered := fun schedule hfair =>
      let ⟨n, hn⟩ := hc.answered past hfair
      ⟨n, fun m hm => (hn m hm).2⟩ }

def solo : Crew := hired [("w", [], {})]

/-- A unit hands one to its own worker that panics, and goes on. Another unit waits behind it. -/
def nestedPanic : List CrewEvent :=
  [.submit "w" [.submit "w" [.thread, .panic (.text "boom")], .thread], .submit "w" [.place]] ++
    List.replicate 9 (.turn "w")

theorem unit_order_nestedPanic :
    (solo.run nestedPanic).answer? 0 =
        some (.ok [.nested (.error (.panicked "boom")), .thread WorkerOptions.threadName]) ∧
      (solo.run nestedPanic).answer? 1 = some (.ok [.place true false]) ∧
      ∃ e e', Comes "w" WorkerOptions.threadName (Thrown "w" nestedPanic) (solo.Told nestedPanic) e
        [.submit "w" [.thread, .panic (.text "boom")], .thread]
        (.ok [.nested (.error (.panicked "boom")), .thread WorkerOptions.threadName]) e' := by
  have hworker : ((solo.run nestedPanic).worker? "w").map (fun w => (w.name, w.thread, w.owner)) =
      some ("w", WorkerOptions.threadName, .outside) := by decide +kernel
  obtain ⟨w, hw, hfields⟩ := Option.map_eq_some_iff.1 hworker
  obtain ⟨hname, hthread, howner⟩ : w.name = "w" ∧ w.thread = WorkerOptions.threadName ∧
      w.owner = .outside := by simpa using hfields
  have hs : (solo.submissions nestedPanic)[0]? =
      some ⟨"w", none, [.submit "w" [.thread, .panic (.text "boom")], .thread]⟩ := by rfl
  have hanswer : (solo.run nestedPanic).answer? 0 =
      some (.ok [.nested (.error (.panicked "boom")), .thread WorkerOptions.threadName]) := by rfl
  have horder : solo.UnitOrder nestedPanic := unit_order [("w", [], {})] nestedPanic
  refine ⟨hanswer, by rfl, ?_⟩
  obtain hr | ⟨hgone, -⟩ := horder.own 0 _ w _ hs hw hanswer
  · rwa [hname, hthread] at hr
  · cases howner.symm.trans hgone

end Crew

end SharedPrompt
