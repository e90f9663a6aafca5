import SharedPrompt.Proofs.Desk
import SharedPrompt.Proofs.ReadJobs

/-!
# Giving up a place in line

An execution that waits for its permit and whose token has fired gives up at the next poll that finds
it waiting. Until then it goes a few steps further at most, and all that time it touches nothing but
the lines it stands in.
-/

namespace SharedPrompt

namespace Host

/-- A change of a host that leaves the threads, the engine, the idle slot and the replies alone, and
fires no token. -/
structure Spares (h h' : Host) : Prop where
  desk : h'.desk = h.desk
  engine : h'.engine = h.engine
  fired : ∀ token, h'.tokens.isFired token = h.tokens.isFired token

namespace Spares

theorem refl (h : Host) : h.Spares h := ⟨rfl, rfl, fun _ => rfl⟩

theorem trans {a b c : Host} (hab : a.Spares b) (hbc : b.Spares c) : a.Spares c where
  desk := hbc.desk.trans hab.desk
  engine := hbc.engine.trans hab.engine
  fired token := (hbc.fired token).trans (hab.fired token)

theorem same {h h' : Host} (hdesk : h'.desk = h.desk) (hengine : h'.engine = h.engine)
    (htokens : h'.tokens = h.tokens) : h.Spares h' :=
  ⟨hdesk, hengine, fun token => by rw [htokens]⟩

end Spares

variable (h : Host)

theorem AtGates.spares {h h' : Host} (ha : h.AtGates h') : h.Spares h' :=
  .same ha.desk (ha.same Host.engine fun _ _ _ => rfl)
    (ha.same Host.tokens fun _ _ _ => rfl)

theorem spares_forgetToken (token task : Nat) : h.Spares (h.forgetToken token task) :=
  ⟨rfl, rfl, fun x => h.tokens.isFired_forget token task x⟩

theorem spares_clearActive (id : Nat) : h.Spares (ReadCall.clearActive h id) := by
  unfold ReadCall.clearActive
  split
  · split <;> exact .same rfl rfl rfl
  · exact .refl h

end Host

/-! ## How long an execution waits -/

/-- How many polls a call for a permit takes at most until it has the permit or is found waiting. -/
def Leasing.polls : Leasing → Nat
  | choose _ => 5
  | ask _ .main => 4
  | wait _ _ .main => 3
  | ask _ _ => 2
  | wait _ _ _ => 1

def Execution.polls : Execution → Nat
  | start _ => 6
  | leasing l _ => l.polls
  | _ => 0

namespace Leasing

variable {h k : Host} {me : Nat}

theorem polls_pos (l : Leasing) : 0 < l.polls := by
  unfold polls
  split <;> decide

/-- Each step of a call for a permit brings it nearer to its end. -/
theorem polls_step {l l' : Leasing} (hs : l.step h me = (k, .next l')) : l'.polls < l.polls := by
  have hgranted (line gate : Nat) (purpose : Purpose) (h' : Host) {m : Nat}
      (hm : purpose = .main → 2 < m) (hs : (h', purpose.granted line gate) = (k, .next l')) :
      l'.polls < m := by
    cases purpose with
    | main =>
      cases hs
      exact hm rfl
    | command => cases hs
    | line held => cases hs
  cases l with
  | choose readLine =>
    cases readLine with
    | false =>
      cases hs
      simp [polls]
    | true =>
      simp only [step] at hs
      cases hs
      split <;> simp [polls]
  | ask g purpose =>
    simp only [step] at hs
    split at hs
    · refine hgranted _ _ purpose _ (fun hmain => ?_) hs
      rw [hmain]
      simp [polls]
    · cases hs
      cases purpose <;> simp [polls]
  | wait g w purpose =>
    simp only [step] at hs
    split at hs
    · refine hgranted _ _ purpose _ (fun hmain => ?_) hs
      rw [hmain]
      simp [polls]
    · cases hs

end Leasing

/-- What a step brings an execution to that waits for a permit and whose token has fired: it ends
without an answer of the engine, comes nearer to its permit, or has it. -/
inductive Execution.Left (run : Execution) (job : Job) : Poll Execution RunResult → Prop where
  | ended : Left run job (.done (.error .cancelled))
  | nearer (run' : Execution) (hjob : run'.job? = some job) (hpos : 0 < run'.polls)
      (hlt : run'.polls < run.polls) : Left run job (.next run')
  | granted (permit : Permit) : Left run job (.next (.granted permit job))

theorem Execution.left_step (h : Host) (me : Nat) (bias : List Bool) {run : Execution} {job : Job}
    (hjob : run.job? = some job) (hreads : job.options.readLine = true) (hpos : 0 < run.polls)
    (hfired : h.tokens.isFired job.token = true) :
    h.Spares (run.step h me bias).1 ∧ run.Left job (run.step h me bias).2 := by
  cases run with
  | start job' =>
    cases hjob
    have hpark : mustPark h job.options = false := by simp [mustPark, hreads]
    simp only [step, hpark, Bool.false_eq_true, if_false]
    refine ⟨.refl h, .nearer (.leasing (.choose job.options.readLine) job) rfl ?_ ?_⟩
    · simp [polls, Leasing.polls]
    · simp [polls, Leasing.polls]
  | idle call token => cases hjob
  | leasing l job' =>
    cases hjob
    have hgive (k : Host) : k.Spares (l.abandon (k.forgetToken job.token me)) :=
      (k.spares_forgetToken job.token me).trans (l.atGates_abandon _).spares
    have hstep := (l.atGates_step h me).spares
    rcases hs : l.step h me with ⟨k, p⟩
    rw [hs] at hstep
    have hkfired : k.tokens.isFired job.token = true := by rw [hstep.fired, hfired]
    cases heager : bias.headD false with
    | true =>
      simp only [step, Host.orFired, heager, hfired, Bool.and_self, if_true]
      exact ⟨hgive h, .ended⟩
    | false =>
      simp only [step, Host.orFired, heager, Bool.false_and, Bool.false_eq_true, if_false, hs]
      cases p with
      | blocked =>
        simp only [Poll.map, hkfired, if_true]
        exact ⟨hstep.trans (hgive k), .ended⟩
      | next l' =>
        exact ⟨hstep, .nearer (.leasing l' job) rfl l'.polls_pos (Leasing.polls_step hs)⟩
      | done permit => exact ⟨hstep.trans (k.spares_forgetToken _ _), .granted permit⟩
  | granted permit job' => cases hpos
  | running reply => cases hjob

end SharedPrompt
