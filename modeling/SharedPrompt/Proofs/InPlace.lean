import SharedPrompt.Proofs.SerialUnits

/-!
# Units in place

A unit that is handed to the worker of the unit at work is done on top of it. Until it comes to its
end the frames below stay as they are, and the worker takes nothing out of its inbox.
-/

namespace SharedPrompt

namespace Crew

variable {c : Crew} {name : String} {w : Worker} {run : Running} {past : List CrewEvent}
  {f : Frame} {inner : Work} {e₀ : Engine}

def Above (c : Crew) (past : List CrewEvent) (run : Running) (f : Frame) (inner : Work) (e₀ : Engine)
    (w : Worker) : Prop :=
  ∃ frame frames, w.running = some { run with frame, below := frames ++ f :: run.below } ∧
    Running.Stands w.name w.thread (Thrown w.name past) (c.Told past) (c.Asked past) e₀ inner
      { run with frame, below := frames } w.engine

/-- The unit has come to its end, and its answer is an entry of the frame that handed it over. -/
def Back (c : Crew) (past : List CrewEvent) (run : Running) (f : Frame) (inner : Work) (e₀ : Engine)
    (w : Worker) : Prop :=
  ∃ r, w.running = some { run with frame := { f with entries := f.entries ++ [.nested r] } } ∧
    Comes w.name w.thread (Thrown w.name past) (c.Told past) e₀ inner r w.engine

/-- A move above a frame stays above it, or is the end of what was above it. -/
private theorem Moves.above (run : Running) (f frame : Frame) (frames : List Frame) {engine : Engine}
    {frame' : Frame} {below' : List Frame}
    (h : c.Moves w { run with frame, below := frames ++ f :: run.below } engine frame' below') :
    (∃ frames', below' = frames' ++ f :: run.below ∧
      c.Moves w { run with frame, below := frames } engine frame' frames') ∨
    ∃ r, c.Ends w { run with frame, below := [] } engine r ∧ frames = [] ∧
      frame' = f.told r ∧ below' = run.below := by
  cases h with
  | goes h => exact .inl ⟨frames, rfl, .goes h⟩
  | enters h => exact .inl ⟨_ :: frames, rfl, .enters h⟩
  | handsOver h => exact .inl ⟨frames, rfl, .handsOver h⟩
  | hears h hr => exact .inl ⟨frames, rfl, .hears h hr⟩
  | dropsOwner h => exact .inl ⟨frames, rfl, .dropsOwner h⟩
  | @closes _ r g rest hends hbelow =>
    have hsame (below : List Frame) : c.Ends w { run with frame, below } engine r := by
      cases hends with
      | returns h => exact .returns h
      | panics h => exact .panics h
    cases frames with
    | nil =>
      obtain ⟨rfl, rfl⟩ := List.cons.inj hbelow
      exact .inr ⟨r, hsame [], rfl, rfl, rfl⟩
    | cons g' frames =>
      obtain ⟨rfl, rfl⟩ := List.cons.inj hbelow
      exact .inl ⟨frames, rfl, .closes (hsame _) rfl⟩

theorem Above.concat {e : CrewEvent} (h : c.Above past run f inner e₀ w) (hb : c.Books past) :
    c.Above (past ++ [e]) run f inner e₀ w := by
  obtain ⟨frame, frames, hrun, hstands⟩ := h
  exact ⟨frame, frames, hrun,
    hstands.mono Thrown.concat (fun _ _ _ => hb.told_concat) fun _ _ _ => Asked.concat⟩

/-- What the worker does itself while a unit is at work above is part of that unit. -/
theorem Above.acts {e : CrewEvent} {took : List Message} {gave : List (Nat × WorkResult)}
    {w₁ : Worker} (h : c.Above past run f inner e₀ w) (hf : f.doing = .deeds) (hb : c.Books past)
    (hacts : (c.run past).Acts ((c.run past).submission? e) w took gave w₁) :
    took = [] ∧
      (c.Above (past ++ [e]) run f inner e₀ w₁ ∨ c.Back (past ++ [e]) run f inner e₀ w₁) := by
  have habove := h.concat (e := e) hb
  obtain ⟨frame, frames, hrun, hstands⟩ := habove
  cases hacts with
  | rests => exact ⟨rfl, .inl (h.concat hb)⟩
  | @moves run' engine frame' below' hrun' hmoves hs =>
    obtain rfl := Option.some.inj (hrun.symm.trans hrun')
    refine ⟨rfl, ?_⟩
    obtain ⟨frames', rfl, hon⟩ | ⟨r, hends, rfl, rfl, rfl⟩ := hmoves.above run f frame frames
    · refine .inl ⟨frame', frames', rfl, hon.stands ?_ ?_ hstands⟩
      · exact fun t other inner r hasked hr => ⟨t, hasked, hb.answer_concat hr⟩
      · exact fun other inner rest hmove => hb.asked_of_handsOver hrun hs hmove
    · exact .inr ⟨r, by rw [f.told_of_deeds hf r], hends.comes_of_stands rfl hstands⟩
  | ends hrun' hends hbelow =>
    obtain rfl := Option.some.inj (hrun.symm.trans hrun')
    simp at hbelow
  | takes hrun' => simp [hrun] at hrun'
  | stops hrun' => simp [hrun] at hrun'
  | forsaken hrun' => simp [hrun] at hrun'
  | closes hrun' => simp [hrun] at hrun'

theorem Above.hears {got : List Message} {w' : Worker} (h : c.Above past run f inner e₀ w)
    (hhears : w.Hears (Thrown w.name past) got w') : c.Above past run f inner e₀ w' := by
  obtain ⟨frame, frames, hrun, hstands⟩ := h
  refine ⟨frame, frames, hhears.running.trans hrun, ?_⟩
  rw [hhears.name, hhears.thread]
  exact hstands.switched hhears.engine

theorem Back.hears {got : List Message} {w' : Worker} (h : c.Back past run f inner e₀ w)
    (hhears : w.Hears (Thrown w.name past) got w') : c.Back past run f inner e₀ w' := by
  obtain ⟨r, hrun, hcomes⟩ := h
  refine ⟨r, hhears.running.trans hrun, ?_⟩
  rw [hhears.name, hhears.thread]
  exact hcomes.switched hhears.engine

/-- A unit that is handed over in place is above the frame that handed it over, and the worker has
taken nothing since, until it is back. -/
def InPlace (c : Crew) (name : String) (past : List CrewEvent) (run : Running) (f : Frame)
    (inner : Work) (e₀ : Engine) (future : List CrewEvent) : Prop :=
  (∃ w, (c.run (past ++ future)).worker? name = some w ∧
    c.outflow name (past ++ future) = c.outflow name past ∧
    c.Above (past ++ future) run f inner e₀ w) ∨
  ∃ before, before <+: future ∧ ∃ w, (c.run (past ++ before)).worker? name = some w ∧
    c.outflow name (past ++ before) = c.outflow name past ∧
    c.Back (past ++ before) run f inner e₀ w

theorem InPlace.concat {future : List CrewEvent} (hc : c.IsNew) (hf : f.doing = .deeds)
    (h : c.InPlace name past run f inner e₀ future) (e : CrewEvent) :
    c.InPlace name past run f inner e₀ (future ++ [e]) := by
  obtain ⟨w, hw, hout, habove⟩ | ⟨before, hle, h⟩ := h
  · have hb := hc.books_run (past ++ future)
    obtain ⟨w₁, w', hacts, hw', hhears, -⟩ := view hw (hb.accounts name w hw).steady e
    obtain ⟨htook, h⟩ := habove.acts hf hb hacts
    have hname : w₁.name = name := hacts.same.1.trans (name_of_worker? hw)
    have hthrows : e.Throws name → Thrown w₁.name (past ++ future ++ [e]) := fun h =>
      ⟨e, by simp, hname ▸ h⟩
    have hout' : c.outflow name (past ++ future ++ [e]) = c.outflow name past := by
      rw [← hout, outflow, during_concat, htook, List.append_nil]
      rfl
    have hw' : (c.run (past ++ future ++ [e])).worker? name = some w' := by rw [run_concat, hw']
    rw [List.append_assoc] at hw' hout' h hthrows
    obtain h | h := h
    · exact .inl ⟨w', hw', hout', h.hears (hhears.mono hthrows)⟩
    · exact .inr ⟨future ++ [e], List.prefix_rfl, w', hw', hout', h.hears (hhears.mono hthrows)⟩
  · exact .inr ⟨before, hle.trans (List.prefix_append _ _), h⟩

/-- The turn in which a unit hands one over to its own worker. -/
private theorem worker?_of_enters {d : Crew} {rest : Work} (hw : d.worker? name = some w)
    (hrun : w.running = some run) (hdoing : run.frame.doing = .deeds)
    (hrest : run.frame.rest = .submit name inner :: rest) :
    (d.apply (.turn name)).worker? name = some { w with running := some { run with
      frame := { rest := inner }, below := { run.frame with rest } :: run.below } } := by
  obtain rfl := name_of_worker? hw
  have hmove : d.nextMove? w run = some (.enters rest inner) := by
    simp [nextMove?, Worker.move?, Worker.deedMove?, hdoing, hrest]
  have hstep : d.stepWorker w = d.carryOut w run (.enters rest inner) := by
    rw [d.stepWorker_running w run hrun, hmove, Option.bind_some]
  simp [apply, step, hw, hstep, carryOut, worker?_setWorker]

/-- A unit that is handed to the worker of the unit at work runs to its end in place. -/
theorem IsNew.inPlace (hc : c.IsNew) {rest : Work} (hw : (c.run past).worker? name = some w)
    (hrun : w.running = some run) (hdoing : run.frame.doing = .deeds)
    (hrest : run.frame.rest = .submit name inner :: rest) (future : List CrewEvent) :
    c.InPlace name past run { run.frame with rest } inner w.engine (.turn name :: future) := by
  induction future using List.reverseRecOn with
  | nil =>
    have hstep := worker?_of_enters hw hrun hdoing hrest
    have htakes : (c.run past).taken name (.turn name) = [] := by
      simp [taken, hw, Worker.takes, hrun]
    refine .inl ⟨_, by rw [run_concat]; exact hstep, ?_, ?_⟩
    · rw [outflow, during_concat, htakes, List.append_nil]
      rfl
    · exact ⟨{ rest := inner }, [], rfl, inner, w.engine, .outermost, .deeds (.begun w.engine inner)⟩
  | append_singleton future e ih =>
    have hbelow : ({ run.frame with rest } : Frame).doing = .deeds := hdoing
    exact ih.concat hc hbelow e

end Crew

end SharedPrompt
