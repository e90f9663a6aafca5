import SharedPrompt.Proofs.Growth
import SharedPrompt.Proofs.Histories
import SharedPrompt.Proofs.TicketConservation

/-!
# Which way a command goes

In its first step an execution looks whether a reader in the engine's process has the line. If so it
goes to the idle slot, and otherwise to the gate of the prompt on top. It does not look again. A
reader that is already in line at that gate may have the line by the time the ticket of the gate is
free, and then the command waits behind the reader.
-/

namespace SharedPrompt

namespace Execution

def hasChosen : Execution → Bool
  | start _ => false
  | _ => true

def isParked : Execution → Bool
  | idle _ _ => true
  | _ => false

/-- The job of an execution that has gone to a gate, until a thread has it. -/
def leasedJob? : Execution → Option Job
  | leasing _ job => some job
  | granted _ job => some job
  | _ => none

def choice (h : Host) (job : Job) : Execution :=
  if mustPark h job.options then .idle (.start job) job.token
  else .leasing (.choose job.options.readLine) job

theorem isParked_choice (h : Host) (job : Job) :
    (choice h job).isParked = mustPark h job.options := by
  unfold choice
  split
  next hpark => exact hpark.symm
  next hpark => exact (Bool.eq_false_iff.2 hpark).symm

theorem leasedJob?_choice {h : Host} {job job' : Job}
    (hjob : (choice h job).leasedJob? = some job') : job' = job := by
  unfold choice at hjob
  split at hjob
  · cases hjob
  · exact (Option.some.inj hjob).symm

/-- An execution that has chosen goes on the same way with the same job. -/
theorem Turn.sameWay {h k : Host} {t : Nat} {before run : Execution}
    (ht : before.Turn h t k (some run)) (hchosen : before.hasChosen = true) :
    run.isParked = before.isParked ∧ ∀ job ∈ run.leasedJob?, job ∈ before.leasedJob? := by
  generalize hafter : some run = after at ht
  cases ht with
  | giveUp l job hk ha => cases hafter
  | dispatch permit job ha =>
    cases hafter
    exact ⟨rfl, fun job hjob => by cases hjob⟩
  | lease l job ha =>
    cases hafter
    cases (l.step h t).2 <;> exact ⟨rfl, fun job hjob => hjob⟩
  | aside ha hw =>
    cases hw with
    | ended => cases hafter
    | same =>
      cases hafter
      exact ⟨rfl, fun job hjob => hjob⟩
    | park job => cases hchosen
    | lease job => cases hchosen
    | idle call call' token =>
      cases hafter
      exact ⟨rfl, fun job hjob => by cases hjob⟩

end Execution

/-- In a run of `past` from `h`, the task `t` chooses after `before` which way its job goes. -/
structure Chose (h : Host) (past : List Event) (t : Nat) (job : Job) (before : List Event) :
    Prop where
  fresh : (h.run before).execution? t = some (.start job)
  chosen : ∃ bias, before ++ [.poll t bias] <+: past ∧
    (h.run (before ++ [.poll t bias])).execution? t = some (Execution.choice (h.run before) job)

theorem Chose.mono {h : Host} {past past' : List Event} {t : Nat} {job : Job}
    {before : List Event} (hc : Chose h past t job before) (hle : past <+: past') :
    Chose h past' t job before where
  fresh := hc.fresh
  chosen := hc.chosen.imp fun _ hb => ⟨hb.1.trans hle, hb.2⟩

/-- All executions of a run that have chosen go the way that was open when they did. -/
def Routed (h : Host) (past : List Event) : Prop :=
  ∀ t run, (h.run past).execution? t = some run → run.hasChosen = true →
    ∃ job before, Chose h past t job before ∧
      run.isParked = Execution.mustPark (h.run before) job.options ∧
      ∀ job' ∈ run.leasedJob?, job' = job

namespace Routed

variable {h : Host} {past : List Event}

theorem concat (hr : Routed h past) (hn : (h.run past).Numbered) (e : Event) :
    Routed h (past ++ [e]) := by
  intro t run hrun hchosen
  have hrun' := hrun
  rw [h.run_concat] at hrun'
  cases Host.executionAfter hn hrun' with
  | same hsame =>
    obtain ⟨job, before, hc, hway⟩ := hr t run hsame hchosen
    exact ⟨job, before, hc.mono (List.prefix_append _ _), hway⟩
  | begun job hstart =>
    rw [hstart] at hchosen
    cases hchosen
  | @stepped bias b before k _ hbefore hafter ha _ =>
    by_cases hwas : before.hasChosen = true
    · obtain ⟨job, first, hc, hpark, hjob⟩ := hr t before hbefore hwas
      have hturn := (before.turn (h.run past) t b).thenAside ha
      rw [hafter] at hturn
      obtain ⟨hsame, hleased⟩ := hturn.sameWay hwas
      exact ⟨job, first, hc.mono (List.prefix_append _ _), hsame.trans hpark,
        fun job' hjob' => hjob job' (hleased job' hjob')⟩
    · -- This is the first step.
      obtain ⟨job, rfl⟩ : ∃ job, before = .start job := by
        cases before with
        | start job => exact ⟨job, rfl⟩
        | _ => exact absurd rfl hwas
      obtain rfl : Execution.choice (h.run past) job = run := Option.some.inj hafter
      exact ⟨job, past, ⟨hbefore, bias, List.prefix_rfl, hrun⟩,
        Execution.isParked_choice _ job, fun job' hjob' => Execution.leasedJob?_choice hjob'⟩

theorem run (hk : h.WellKept) (htasks : h.tasks = []) (past : List Event) : Routed h past := by
  induction past using List.reverseRecOn with
  | nil =>
    intro t run hrun
    rw [show h.run [] = h from rfl, Host.execution?, Host.task?, htasks] at hrun
    cases hrun
  | append_singleton past e ih => exact ih.concat (hk.run past).numbered e

end Routed

/-- In the engine's process no reader has its permit while the ticket of the line prompt is in
place. -/
theorem Host.WellKept.no_reader {h : Host} (hk : h.WellKept) (hin : h.engine.inProcess = true)
    (hfree : h.lineBusy = false) {p : Permit} (hp : .permit p ∈ h.parts) : p.readLine = false := by
  rcases ((hk.balanced.known _ hp).proper hin p rfl) with ⟨g, hg, rfl | rfl⟩
  · rfl
  · have hheld : 0 < h.held 1 := Part.held_pos 1 hp List.mem_cons_self
    have hone := hk.one_ticket 1
    have hpos : 0 < h.free 1 := by
      rw [Host.free, ← hk.balanced.books.sound.line, List.length_pos_iff,
        ← List.isEmpty_eq_false_iff]
      exact hfree
    omega

/-- In the engine's process, every execution of an ordinary command that has chosen its way was
parked if the ticket of the line prompt was not in place at that moment, and was sent to the gate
of the prompt on top if it was. So a command that chooses while a reader has its permit is parked,
and a command that waits at a gate waits for no reader but one that has got its permit since. -/
theorem Host.parked_iff_lineBusy (native follows : Bool) (engine : Engine)
    (console : Console Waiter) (tokens : Tokens) (hin : engine.inProcess = true)
    (past : List Event) :
    let start : Host := { established native follows engine console with tokens }
    ∀ t run, (start.run past).execution? t = some run → run.hasChosen = true →
      ∃ job before, Chose start past t job before ∧ (∀ job' ∈ run.leasedJob?, job' = job) ∧
        (job.options.readLine = false →
          (run.isParked = true ↔ (start.run before).lineBusy = true) ∧
          (run.isParked = false →
            ∀ p, .permit p ∈ (start.run before).parts → p.readLine = false)) := by
  intro start t run hrun hchosen
  have hk : start.WellKept :=
    (WellKept.established native follows engine console).setTokens tokens
  have hcalls := sameCalls_established native follows engine console
  have hin' (events : List Event) : (start.run events).engine.inProcess = true := by
    rw [inProcess_run]
    exact hcalls.inProcess.trans hin
  obtain ⟨job, before, hc, hpark, hjob⟩ := Routed.run hk hcalls.tasks past t run hrun hchosen
  refine ⟨job, before, hc, hjob, fun hordinary => ?_⟩
  have hbusy : run.isParked = (start.run before).lineBusy := by
    simp only [hpark, Execution.mustPark, hordinary, hin' before, Bool.not_false, Bool.true_and,
      Bool.and_true]
  refine ⟨by rw [hbusy], fun hgate p hp => ?_⟩
  exact (hk.run before).no_reader (hin' before) (hbusy.symm.trans hgate) hp

/-- A reader and a command wait behind a command. When that is over, the reader has the line, and a
third command comes. -/
def Host.commandBehindReader : List Event :=
  [.start (.run ⟨.script "a", {}, 0, 0⟩ none), .poll 0 [], .poll 0 [], .poll 0 [], .poll 0 [],
    .start (.run ⟨.readLine, .reading, 1, 1⟩ none), .poll 1 [], .poll 1 [], .poll 1 [],
    .start (.run ⟨.script "b", {}, 2, 2⟩ none), .poll 2 [], .poll 2 [], .poll 2 []] ++
    List.replicate 8 (.advance 0) ++
    [.poll 1 [], .poll 1 [], .start (.run ⟨.script "c", {}, 3, 3⟩ none), .poll 3 []]

theorem Host.parked_iff_lineBusy_commandBehindReader :
    let start : Host := { established true false {} {} with tokens := {} }
    ∃ job before, Chose start commandBehindReader 3 job before ∧
      (job.options.readLine = false → (start.run before).lineBusy = true) := by
  obtain ⟨job, before, hc, -, hway⟩ := parked_iff_lineBusy true false {} {} {} rfl
    commandBehindReader 3 (.idle (.start ⟨.script "c", {}, 3, 3⟩) 3) rfl rfl
  exact ⟨job, before, hc, fun hordinary => (hway hordinary).1.1 rfl⟩

/-- The reader has the ticket that the second command waits for, and the third command is parked. -/
theorem Host.commandBehindReader_waits :
    let h := (Host.established true false {} {}).run commandBehindReader
    .permit ⟨1, some 0, true⟩ ∈ h.parts ∧
      h.execution? 2 = some (.leasing (.wait 0 ⟨2, 2⟩ .command) ⟨.script "b", {}, 2, 2⟩) ∧
      h.execution? 3 = some (.idle (.start ⟨.script "c", {}, 3, 3⟩) 3) := by
  have hparts : ((Host.established true false {} {}).run commandBehindReader).parts =
      {.permit ⟨1, some 0, true⟩, .lease (.wait 0 ⟨2, 2⟩ .command)} := rfl
  exact ⟨by simp [hparts], rfl, rfl⟩

end SharedPrompt
