import SharedPrompt.Proofs.CrewAccounts
import SharedPrompt.Proofs.UnitsAtWork

/-!
# Units one after another

Whatever goes on around it, the engine of a worker and the answers that its units get are those of
the units done one after another in the order in which they were taken.
-/

namespace SharedPrompt

structure Done where
  ticket : Nat
  list : Work
  result : WorkResult

def worksOf (ms : List Message) : List (Nat × Work) :=
  ms.filterMap fun
    | .work ticket _ list => some (ticket, list)
    | .shutdown => none

@[simp] theorem worksOf_append (ms ms' : List Message) :
    worksOf (ms ++ ms') = worksOf ms ++ worksOf ms' := List.filterMap_append

/-- The units of a worker have been done one after another, from one engine to another. -/
inductive DoneInTurn (worker thread : String) (thrown : Prop)
    (told : String → Work → WorkResult → Prop) : Engine → List Done → Engine → Prop
  | nobody (e : Engine) : DoneInTurn worker thread thrown told e [] e
  | next {e₀ e e' : Engine} {log : List Done} {list : Work} {r : WorkResult}
      (h : DoneInTurn worker thread thrown told e₀ log e)
      (hr : Comes worker thread thrown told e list r e') (ticket : Nat) :
      DoneInTurn worker thread thrown told e₀ (log ++ [⟨ticket, list, r⟩]) e'
  | switched {e₀ e e' : Engine} {log : List Done} (h : DoneInTurn worker thread thrown told e₀ log e)
      (hs : e.Switched thrown e') : DoneInTurn worker thread thrown told e₀ log e'

namespace DoneInTurn

variable {worker thread : String} {thrown thrown' : Prop}
  {told told' : String → Work → WorkResult → Prop} {e e' : Engine} {log : List Done}

theorem mono (hthrown : thrown → thrown')
    (htold : ∀ other list r, told other list r → told' other list r)
    (h : DoneInTurn worker thread thrown told e log e') :
    DoneInTurn worker thread thrown' told' e log e' := by
  induction h with
  | nobody => exact .nobody _
  | next _ hr ticket ih => exact .next ih (hr.mono hthrown htold) ticket
  | switched _ hs ih => exact .switched ih (hs.mono hthrown)

/-- A unit that was served came to its result by itself. -/
theorem exists_comes (h : DoneInTurn worker thread thrown told e log e') :
    ∀ d ∈ log, ∃ e₁ e₂, Comes worker thread thrown told e₁ d.list d.result e₂ := by
  induction h with
  | nobody => intro d hd; cases hd
  | next _ hr ticket ih =>
    intro d hd
    obtain hd | hd := List.mem_append.1 hd
    · exact ih d hd
    · rw [List.mem_singleton.1 hd]
      exact ⟨_, _, hr⟩
  | switched _ _ ih => exact ih

end DoneInTurn

namespace Crew

variable {c : Crew} {name : String} {w : Worker} {past : List CrewEvent} {e : CrewEvent}

def Asked (c : Crew) (past : List CrewEvent) (ticket : Nat) (worker : String) (list : Work) : Prop :=
  ∃ s, (c.submissions past)[ticket]? = some s ∧ s.worker = worker ∧ s.list = list

def Told (c : Crew) (past : List CrewEvent) (worker : String) (list : Work) (r : WorkResult) : Prop :=
  ∃ ticket, c.Asked past ticket worker list ∧ (c.run past).answer? ticket = some r

theorem Asked.concat {ticket : Nat} {worker : String} {list : Work}
    (h : c.Asked past ticket worker list) : c.Asked (past ++ [e]) ticket worker list := by
  obtain ⟨s, hs, hworker, hlist⟩ := h
  refine ⟨s, ?_, hworker, hlist⟩
  rw [submissions, during_concat]
  exact (List.getElem?_append_left (List.getElem?_eq_some_iff.1 hs).1).trans hs

/-- An answer that was given stays. -/
theorem Books.answer_concat (hb : c.Books past) {t : Nat} {r : WorkResult}
    (h : (c.run past).answer? t = some r) : (c.run (past ++ [e])).answer? t = some r := by
  rw [hb.answers_concat, answered, during_concat, List.mem_append]
  exact .inl ((hb.answers t r).1 h)

theorem Books.told_concat (hb : c.Books past) {worker : String} {list : Work} {r : WorkResult}
    (h : c.Told past worker list r) : c.Told (past ++ [e]) worker list r := by
  obtain ⟨ticket, hasked, hanswer⟩ := h
  exact ⟨ticket, hasked.concat, hb.answer_concat hanswer⟩

def Thrown (name : String) (past : List CrewEvent) : Prop := ∃ e ∈ past, e.Throws name

theorem Thrown.concat (h : Thrown name past) : Thrown name (past ++ [e]) := by
  obtain ⟨d, hd, hthrows⟩ := h
  exact ⟨d, List.mem_append_left _ hd, hthrows⟩

/-- The units that a worker has taken were served one after another, but for the one at work. -/
structure Serial (c : Crew) (past : List CrewEvent) (e₀ : Engine) (w : Worker) (taken : List Message)
    (log : List Done) (engine : Engine) : Prop where
  served : DoneInTurn w.name w.thread (Thrown w.name past) (c.Told past) e₀ log engine
  answered : ∀ d ∈ log, (c.run past).answer? d.ticket = some d.result
  idle : w.running = none →
    worksOf taken = log.map (fun d => (d.ticket, d.list)) ∧ w.engine = engine
  busy : ∀ run, w.running = some run →
    ∃ list, worksOf taken = log.map (fun d => (d.ticket, d.list)) ++ [(run.ticket, list)] ∧
      run.Stands w.name w.thread (Thrown w.name past) (c.Told past) (c.Asked past) engine list
        w.engine

theorem Acts.same {s : Option Submission} {took : List Message} {gave : List (Nat × WorkResult)}
    {w₁ : Worker} (h : c.Acts s w took gave w₁) : w₁.name = w.name ∧ w₁.thread = w.thread := by
  cases h <;> exact ⟨rfl, rfl⟩

/-- Whoever hands over a unit gets the ticket of that unit. -/
theorem Books.asked_of_handsOver (hb : c.Books past) {run : Running} {other : String}
    {inner rest : Work} (hrun : w.running = some run)
    (hs : (c.run past).submission? e = (c.run past).submitting? w)
    (h : (c.run past).nextMove? w run = some (.handsOver other inner rest)) :
    c.Asked (past ++ [e]) (c.run past).replies.length other inner := by
  have hsubmitting : (c.run past).submission? e = some ⟨other, some run.holder, inner⟩ := by
    rw [hs, submitting?, coming?_running hrun, h]
    rfl
  refine ⟨⟨other, some run.holder, inner⟩, ?_, rfl, rfl⟩
  rw [submissions, during_concat, hsubmitting, hb.tickets]
  exact List.getElem?_concat_length

/-- What a worker answers is among all the answers of an event. -/
theorem answers_subset {d : Crew} : ∀ p ∈ d.answers name e, p ∈ d.resolutions e := by
  intro p hp
  refine List.mem_append.2 (.inr ?_)
  cases e with
  | turn other =>
    by_cases hname : other = name
    · rwa [answers, if_pos hname] at hp
    · rw [answers, if_neg hname] at hp
      cases hp
  | _ => cases hp

theorem Serial.concat {e₀ engine : Engine} {taken : List Message} {log : List Done}
    (h : c.Serial past e₀ w taken log engine) (hb : c.Books past) :
    c.Serial (past ++ [e]) e₀ w taken log engine where
  served := h.served.mono Thrown.concat fun _ _ _ => hb.told_concat
  answered d hd := hb.answer_concat (h.answered d hd)
  idle := h.idle
  busy run hrun := by
    obtain ⟨list, htaken, hstands⟩ := h.busy run hrun
    exact ⟨list, htaken,
      hstands.mono Thrown.concat (fun _ _ _ => hb.told_concat) fun _ _ _ => Asked.concat⟩

theorem Serial.acts {e₀ engine : Engine} {taken took : List Message} {log : List Done}
    {gave : List (Nat × WorkResult)} {w₁ : Worker}
    (h : c.Serial past e₀ w taken log engine) (hb : c.Books past)
    (hacts : (c.run past).Acts ((c.run past).submission? e) w took gave w₁)
    (hgave : ∀ p ∈ gave, p ∈ (c.run past).resolutions e) :
    ∃ log' engine', c.Serial (past ++ [e]) e₀ w₁ (taken ++ took) log' engine' := by
  have hconcat := h.concat (e := e) hb
  have hidle (hrun : w.running = none) := hconcat.idle hrun
  cases hacts with
  | rests => exact ⟨log, engine, by simpa using hconcat⟩
  | @takes ticket holder list inbox hrun hphase hinbox =>
    obtain ⟨htaken, hengine⟩ := hidle hrun
    refine ⟨log, engine, hconcat.served, hconcat.answered, fun hrun' => (by cases hrun'), ?_⟩
    rintro run ⟨⟩
    refine ⟨list, by rw [worksOf_append, htaken]; rfl, ?_⟩
    rw [← hengine]
    exact .begin ticket holder list w.engine
  | stops hrun hphase hinbox =>
    obtain ⟨htaken, hengine⟩ := hidle hrun
    refine ⟨log, engine, hconcat.served, hconcat.answered, fun _ => ⟨?_, hengine⟩,
      fun run hrun' => by simp [hrun] at hrun'⟩
    rw [worksOf_append, htaken]
    exact List.append_nil _
  | forsaken hrun hphase hinbox hforsaken =>
    rw [List.append_nil]
    exact ⟨log, engine, hconcat.served, hconcat.answered, fun _ => hidle hrun,
      fun run hrun' => by simp [hrun] at hrun'⟩
  | closes hrun hphase =>
    rw [List.append_nil]
    exact ⟨log, engine, hconcat.served, hconcat.answered, fun _ => hidle hrun,
      fun run hrun' => by simp [hrun] at hrun'⟩
  | @moves run engine' frame below hrun hmoves hs =>
    obtain ⟨list, htaken, hstands⟩ := hconcat.busy run hrun
    refine ⟨log, engine, hconcat.served, hconcat.answered, fun hrun' => (by cases hrun'), ?_⟩
    rintro run' ⟨⟩
    refine ⟨list, by rw [List.append_nil, htaken], ?_⟩
    exact hmoves.stands (fun t other inner r hasked hr => ⟨t, hasked, hb.answer_concat hr⟩)
      (fun other inner rest hmove => hb.asked_of_handsOver hrun hs hmove) hstands
  | @ends run engine' r hrun hends hbelow =>
    obtain ⟨list, htaken, hstands⟩ := hconcat.busy run hrun
    refine ⟨log ++ [⟨run.ticket, list, r⟩], engine',
      hconcat.served.next (hends.comes_of_stands hbelow hstands) run.ticket, ?_, ?_,
      fun run' hrun' => by cases hrun'⟩
    · intro d hd
      obtain hd | hd := List.mem_append.1 hd
      · exact hconcat.answered d hd
      · rw [List.mem_singleton.1 hd]
        refine (hb.answers_concat run.ticket r).2 ?_
        rw [Crew.answered, during_concat, List.mem_append]
        exact .inr (hgave _ (List.mem_singleton.2 rfl))
    · intro _
      rw [List.append_nil, htaken, List.map_append]
      exact ⟨rfl, rfl⟩

theorem Serial.hears {e₀ engine : Engine} {taken got : List Message} {log : List Done} {w' : Worker}
    (h : c.Serial past e₀ w taken log engine) (hhears : w.Hears (Thrown w.name past) got w') :
    ∃ engine', c.Serial past e₀ w' taken log engine' := by
  have hs := hhears.engine
  cases hrun : w.running with
  | none =>
    obtain ⟨htaken, hsame⟩ := h.idle hrun
    refine ⟨w'.engine, ?_, h.answered, fun _ => ⟨htaken, rfl⟩, fun run hrun' => ?_⟩
    · rw [hhears.name, hhears.thread]
      exact h.served.switched (hsame ▸ hs)
    · rw [hhears.running, hrun] at hrun'
      cases hrun'
  | some run =>
    obtain ⟨list, htaken, hstands⟩ := h.busy run hrun
    refine ⟨engine, ?_, h.answered, fun hrun' => ?_, fun run' hrun' => ?_⟩
    · rw [hhears.name, hhears.thread]
      exact h.served
    · rw [hhears.running, hrun] at hrun'
      cases hrun'
    · rw [hhears.running, hrun] at hrun'
      cases hrun'
      rw [hhears.name, hhears.thread]
      exact ⟨list, htaken, hstands.switched hs⟩

/-- At all times a worker has served the units that it has taken one after another. -/
theorem IsNew.serial (hc : c.IsNew) {w₀ : Worker} (hw₀ : c.worker? name = some w₀)
    (past : List CrewEvent) (hw : (c.run past).worker? name = some w) :
    ∃ log engine, c.Serial past w₀.engine w (c.outflow name past) log engine := by
  induction past using List.reverseRecOn generalizing w with
  | nil =>
    obtain rfl : w₀ = w := Option.some.inj (hw₀.symm.trans hw)
    have hrun := (hc.workers name w₀ hw₀).2.1
    exact ⟨[], w₀.engine, .nobody _, fun d hd => (by cases hd), fun _ => ⟨rfl, rfl⟩,
      fun run hrun' => by simp [hrun] at hrun'⟩
  | append_singleton past e ih =>
    have hb := hc.books_run past
    rw [run_concat] at hw
    obtain ⟨v, hv⟩ := exists_worker?_of_apply hw
    obtain ⟨log, engine, hserial⟩ := ih hv
    obtain ⟨w₁, w', hacts, hw', hhears, -⟩ := view hv (hb.accounts name v hv).steady e
    obtain rfl : w' = w := Option.some.inj (hw'.symm.trans hw)
    obtain ⟨log', engine', hserial'⟩ := hserial.acts hb hacts answers_subset
    have hname : w₁.name = name := hacts.same.1.trans (name_of_worker? hv)
    have hthrows : e.Throws name → Thrown w₁.name (past ++ [e]) := fun h =>
      ⟨e, by simp, hname ▸ h⟩
    obtain ⟨engine'', hserial''⟩ := hserial'.hears (hhears.mono hthrows)
    rw [outflow, during_concat]
    exact ⟨log', engine'', hserial''⟩

end Crew

end SharedPrompt
