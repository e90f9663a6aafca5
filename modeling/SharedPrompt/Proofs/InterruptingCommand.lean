import SharedPrompt.Proofs.IdleOverlap
import SharedPrompt.Proofs.StoppedReads

/-!
# Commands that interrupt a read

A command that is to interrupt a read looks whether the line is taken. If it is, the command aborts
what is being read and waits for the end of it before it goes on. If it is not, the command goes on at
once, and a read from the console goes on as well, for that does not take the line.
-/

namespace SharedPrompt

def CommandCall.AfterRead (job : Job) : CommandCall → Prop
  | start _ => False
  | aborting _ job' => job' = job
  | exiting _ job' => job' = job
  | running _ => True

theorem CommandCall.afterRead_step {call : CommandCall} {job : Job} (hc : call.AfterRead job)
    (h : Host) (me : Nat) (bias : List Bool) :
    (call.step h me bias).2.Meets (fun call' => call'.AfterRead job) fun _ => True := by
  cases call with
  | start job' => exact hc.elim
  | aborting abort job' =>
    simp only [step]
    cases (abort.step h me bias).2 <;> first | exact hc | trivial
  | exiting exit job' =>
    simp only [step]
    cases (exit.step h me).2 <;> first | exact hc | trivial
  | running run =>
    simp only [step]
    cases (run.step h me bias).2 <;> trivial

namespace Host

def HandsOver (h : Host) (c : Nat) (bias : List Bool) (job : Job) (sink : Option Nat) : Prop :=
  (∃ call, h.task? c = some (.command call sink) ∧ ∀ run, call ≠ .running run) ∧
    (h.apply (.poll c bias)).task? c = some (.command (.running (.start job)) sink)

/-- What a command does with the reads that are in progress after `past`, when it takes its first
step. -/
structure Interrupts (start : Host) (past : List Event) (c : Nat) (job : Job) (sink : Option Nat)
    (bias : List Bool) : Prop where
  /-- If nobody has the line, no read is in the line editor. The command is handed over at once, and
  reads from the console go on. -/
  free : (start.run past).lineBusy = false →
    (start.run past).HandsOver c bias job sink ∧ (∀ t ρ, ¬ (start.run past).InEditor t ρ) ∧
      (∀ t, (start.run (past ++ [.poll c bias])).keysOf? t = (start.run past).keysOf? t) ∧
        (start.run (past ++ [.poll c bias])).tokens = (start.run past).tokens
  /-- If somebody has it, the reads are over when the command is handed over, and they were stopped
  by an abort on the way. -/
  busy : (start.run past).lineBusy = true → ∀ later bias',
    (start.run (past ++ .poll c bias :: later)).HandsOver c bias' job sink →
      start.ReadsOver past (.poll c bias :: later ++ [.poll c bias']) ∧
        ∃ before b rest, .poll c bias :: later = before ++ .poll c b :: rest ∧
          start.Stopped (past ++ before) (.poll c b :: rest ++ [.poll c bias'])

section
variable {h : Host} {c : Nat} {job : Job} {sink : Option Nat}

/-- Whoever hands a command over after interrupting a read sees the end of it. -/
theorem HandsOver.seesEnd {bias : List Bool} (hh : h.HandsOver c bias job sink)
    (hafter : ∀ call, h.task? c = some (.command call sink) → call.AfterRead job) :
    h.SeesEnd c := by
  obtain ⟨⟨call, ht, hnot⟩, hover⟩ := hh
  have hcall := hafter call ht
  rcases hs : (Task.command call sink).step h c bias with ⟨k, r⟩
  rw [task?_poll ht hs] at hover
  cases call with
  | start job' => exact hcall.elim
  | running run => exact absurd rfl (hnot run)
  | aborting abort job' =>
    obtain ⟨-, hr⟩ := Prod.mk.inj hs
    simp only [CommandCall.step] at hr
    subst hr
    cases hp : (abort.step h c bias).2 <;> rw [hp] at hover <;> cases hover
  | exiting exit job' =>
    obtain ⟨-, hr⟩ := Prod.mk.inj hs
    simp only [CommandCall.step] at hr
    subst hr
    refine ⟨_, exit, ht, rfl, ?_⟩
    cases hp : (exit.step h c).2 <;> rw [hp] at hover <;> cases hover

/-- Until the command is handed over, it is after the read that it interrupts. -/
theorem course_afterRead (hk : h.WellKept) {call : CommandCall}
    (ht : h.task? c = some (.command call sink)) (hcall : call.AfterRead job)
    (events : List Event) :
    (h.run events).Course c fun task =>
      ∃ call', task = .command call' sink ∧ call'.AfterRead job := by
  refine ((Course.of_task hk.numbered ht ⟨_, rfl, hcall⟩).run hk events
    (R := fun _ => True) ?_).1
  rintro before b _ - - ⟨call', rfl, hcall'⟩
  have hmeets := CommandCall.afterRead_step hcall' (h.run before) c b
  simp only [Task.step]
  apply Poll.Meets.map
  generalize (call'.step (h.run before) c b).2 = p at hmeets
  cases p with
  | blocked => trivial
  | next call'' => exact ⟨call'', rfl, hmeets⟩
  | done a => trivial

/-- A command that is about to begin an abort, and later sees the end of reads, has begun the abort
in between. -/
theorem SeesEnd.exists_abort (hk : h.WellKept)
    (ht : h.task? c = some (.command (.aborting .start job) sink)) {later : List Event}
    (hsees : (h.run later).SeesEnd c) :
    ∃ before b rest, later = before ++ .poll c b :: rest ∧
      (h.run before).task? c = some (.command (.aborting .start job) sink) := by
  have hlast : ¬ (h.run later).task? c = some (.command (.aborting .start job) sink) := by
    intro habort
    obtain ⟨task, exit, htask, hexit, -⟩ := hsees
    rw [habort] at htask
    cases htask
    cases hexit
  obtain ⟨before, e, -, ⟨rest, hrest⟩, hthere, hgone⟩ := exists_turning
    (P := fun events => (h.run events).task? c = some (.command (.aborting .start job) sink))
    List.nil_prefix ht hlast
  obtain ⟨b, rfl⟩ : ∃ b, e = .poll c b := by
    apply Event.exists_of_isPollOf
    by_contra hpoll
    rw [run_concat] at hgone
    by_cases hdrop : e = .drop c
    · subst hdrop
      -- Whoever drops the command leaves nobody to see the end.
      obtain ⟨task, exit, htask, -⟩ := hsees
      rw [← hrest, run_append, run_concat] at htask
      have hcourse := course_afterRead (hk.run before) hthere rfl []
      exact (hcourse.drop.run ((hk.run before).apply _) rest (R := fun _ => True)
        fun _ _ _ _ _ hq => hq.elim).1.holds task htask
    · exact hgone (task?_apply_of_ne (hk.run before) hthere (by simpa using hpoll) hdrop)
  exact ⟨before, b, rest, by simp [← hrest], hthere⟩

theorem command_start_step (h : Host) (c : Nat) (sink : Option Nat)
    (interrupt : job.options.interrupt = true) (bias : List Bool) :
    (Task.command (.start job) sink).step h c bias =
      (h, .next (.command (if h.lineBusy then .aborting .start job else .running (.start job))
        sink)) := by
  simp only [Task.step, CommandCall.step, interrupt, Bool.true_and]
  rfl

end

/-- A command that is to interrupt a read, and finds the line taken, is handed over when no read with
the line editor is in progress, and in a host that is not native no read from the console that took
keys. If it finds the line free, it is handed over at once, and then the reads from the console go
on. -/
theorem interrupting_command_ends_reads (native follows : Bool) (engine : Engine)
    (console : Console Waiter) (tokens : Tokens) (past : List Event) (c : Nat) (job : Job)
    (sink : Option Nat) (bias : List Bool) (interrupt : job.options.interrupt = true) :
    let start : Host := { established native follows engine console with tokens }
    (start.run past).task? c = some (.command (.start job) sink) →
      start.Interrupts past c job sink bias := by
  intro start ht
  have hf : start.Fresh := fresh_established native follows engine console tokens
  have hreader : start.reader = {} :=
    congrArg Prod.fst (keyboard_established native follows engine console)
  have hk := hf.kept.run past
  have hs := command_start_step (start.run past) c sink interrupt bias
  have hfirst := task?_poll ht hs
  have happly := apply_poll ht hs
  rw [← run_concat] at hfirst happly
  constructor
  · intro hfree
    rw [hfree] at hfirst happly
    refine ⟨⟨⟨_, ht, fun run heq => by cases heq⟩, ?_⟩, fun t ρ hin => ?_, fun t => ?_, ?_⟩
    · rw [← run_concat]
      exact hfirst
    · have hbusy := (hin.lineTaken hf c).lineBusy hk ht
      rw [hfree] at hbusy
      cases hbusy
    · by_cases hne : t = c
      · subst hne
        rw [keysOf?, keysOf?, consoleOf?, consoleOf?, hfirst, ht]
        rfl
      · rw [keysOf?, run_concat, (keyboardTurn_poll bias ht).others t hne, keysOf?]
    · rw [happly]
      rfl
  · intro hbusy later bias' hover
    rw [hbusy] at hfirst
    have hsplit : past ++ .poll c bias :: later = past ++ [.poll c bias] ++ later := by simp
    have hk' := hf.kept.run (past ++ [.poll c bias])
    have hsees : (start.run (past ++ .poll c bias :: later)).SeesEnd c := by
      apply hover.seesEnd
      intro call hcall
      rw [hsplit, run_append] at hcall
      obtain ⟨call', heq, hafter⟩ := (course_afterRead hk' hfirst rfl later).holds _ hcall
      cases heq
      exact hafter
    refine ⟨hsees.readsOver hf hreader bias', ?_⟩
    have habort := hsees
    rw [hsplit, run_append] at habort
    obtain ⟨before, b, rest, rfl, hthere⟩ := SeesEnd.exists_abort hk' hfirst habort
    refine ⟨.poll c bias :: before, b, rest, rfl, ?_⟩
    rw [← List.cons_append, ← List.append_assoc] at hsees
    refine hsees.stopped hf hreader (.inr ⟨job, sink, ?_⟩) bias'
    rw [List.append_cons, run_append]
    exact hthere

def interrupting : Job := ⟨.script "c", { interrupt := true }, 1, 0⟩

/-- The line editor reads a line when such a command comes. -/
def editorInterrupted : List Event :=
  .start (.read true 0) :: List.replicate 7 (.poll 0 []) ++
    [.advance 0, .advance 0, .start (.command interrupting none)]

/-- The command begins an abort, and meanwhile a line is typed. -/
def interruptionEnded : List Event :=
  [.poll 1 [], .typeLine "x"] ++ List.replicate 4 (.advance 0) ++ List.replicate 8 (.poll 1 [])

/-- The read is not in the editor any more when the command is handed over. -/
theorem interrupting_command_ends_reads_inEditor :
    (oneToken.run editorInterrupted).InEditor 0 0 ∧
      (oneToken.run (editorInterrupted ++ .poll 1 [] :: interruptionEnded)).HandsOver 1 []
        interrupting none ∧
      oneToken.ReadsOver editorInterrupted (.poll 1 [] :: interruptionEnded ++ [.poll 1 []]) := by
  have hin : (oneToken.run editorInterrupted).InEditor 0 0 :=
    ⟨⟨_, rfl, rfl⟩, _, List.mem_singleton_self _, ⟨⟨1, some 0, true⟩, 1,
      ⟨.readLine, .reading, 0, 1⟩, 0⟩, List.mem_cons_of_mem _ (List.mem_singleton_self _), rfl⟩
  have hover : (oneToken.run (editorInterrupted ++ .poll 1 [] :: interruptionEnded)).HandsOver 1 []
      interrupting none := ⟨⟨_, rfl, fun run heq => by cases heq⟩, rfl⟩
  exact ⟨hin, hover, ((interrupting_command_ends_reads true false {} {} { all := [.fresh] }
    editorInterrupted 1 interrupting none [] rfl rfl).busy rfl interruptionEnded [] hover).1⟩

/-- A read takes keys in a host that is not native when such a command comes. The engine runs it. -/
def keysInterrupted : List Event :=
  .start (.read true 0) :: List.replicate 4 (.poll 0 []) ++
    .start (.command interrupting none) :: List.replicate 6 (.poll 1 []) ++
    List.replicate 8 (.advance 0) ++ [.poll 1 []]

/-- The read goes on, and nothing has been done to stop it. -/
theorem keysInterrupted_goOn :
    let h := consoleOnly.run keysInterrupted
    (consoleOnly.run (keysInterrupted.take 6)).keysOf? 0 = some 1 ∧
      consoleOnly.results keysInterrupted = [(1, .ran (.ok [.str "c"]) none)] ∧
      h.keysOf? 0 = some 1 ∧ h.tokens.isFired 1 = false :=
  ⟨rfl, rfl, rfl, rfl⟩

end Host

end SharedPrompt
