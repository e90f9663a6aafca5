import SharedPrompt.Proofs.AbortTarget
import SharedPrompt.Proofs.GivingUp
import SharedPrompt.Proofs.LineTaken

/-!
# A read that is cancelled while another one holds the line

The read looks at two things when it is polled, its execution and its caller's token. If it looks at
its execution first, it gives up its place in line and nobody else feels anything. If it looks at the
token first, it runs an abort, which is not about this read but about the one in progress.
-/

namespace SharedPrompt

namespace Host

/-- The read `x` is under way, and its execution waits for the line. -/
def Queued (h : Host) (x : EditorRead) : Prop :=
  ∃ run, 0 < run.polls ∧ h.task? x.task = some (.read (.reading run x.id x.caller x.own))

end Host

/-- The task `t` is not dropped, and whenever it is polled it looks at its execution first. -/
structure ExecutionFirst (t : Nat) (future : List Event) : Prop where
  first : ∀ bias, .poll t bias ∈ future → bias.headD false = false
  kept : .drop t ∉ future

theorem ExecutionFirst.tail {t : Nat} {e : Event} {future : List Event}
    (hf : ExecutionFirst t (e :: future)) : ExecutionFirst t future where
  first bias hmem := hf.first bias (List.mem_cons_of_mem _ hmem)
  kept hmem := hf.kept (List.mem_cons_of_mem _ hmem)

theorem ExecutionFirst.replicate (t n : Nat) : ExecutionFirst t (List.replicate n (.poll t [])) where
  first bias hmem := by
    cases List.eq_of_mem_replicate hmem
    rfl
  kept hmem := by cases List.eq_of_mem_replicate hmem

theorem Execution.polls_le (run : Execution) : run.polls ≤ 6 := by
  cases run with
  | leasing l job =>
    change l.polls ≤ 6
    unfold Leasing.polls
    split <;> decide
  | start job => exact le_rfl
  | _ => exact Nat.zero_le 6

theorem Execution.exists_job {run : Execution} (hpos : 0 < run.polls) :
    ∃ job, run.job? = some job := by
  cases run with
  | start job => exact ⟨job, rfl⟩
  | leasing l job => exact ⟨job, rfl⟩
  | _ => cases hpos

namespace Host

variable {h : Host} {x : EditorRead} {run : Execution}

/-! ## One poll -/

/-- The caller's token of the read `x` has fired, and its own with it. -/
structure Cancelled (h : Host) (x : EditorRead) (run : Execution) : Prop where
  task : h.task? x.task = some (.read (.reading run x.id x.caller x.own))
  job : ∀ job, run.job? = some job → job.options.readLine = true ∧ job.token = x.own
  caller : h.tokens.isFired x.caller = true
  own : h.tokens.isFired x.own = true

theorem spares_afterPoll (k : Host) (t : Nat) (r : Poll Task TaskResult) :
    k.Spares (k.afterPoll t r) := by
  rcases r with _ | _ | (_ | _ | _ | _ | _) <;> exact .same rfl rfl rfl

/-- A cancelled read that looks at its execution first ends with an empty line or comes nearer to
its end, unless it gets its permit. -/
theorem Cancelled.poll (hc : h.Cancelled x run) (hpos : 0 < run.polls) {bias : List Bool}
    (hfirst : bias.headD false = false) :
    let k := h.apply (.poll x.task bias)
    h.Spares k ∧ ((x.task, .line (.ok "")) ∈ k.finished ∨
      (∃ run', k.Cancelled x run' ∧ 0 < run'.polls ∧ run'.polls < run.polls) ∨
      ∃ permit job, job.options.readLine = true ∧
        k.execution? x.task = some (.granted permit job)) := by
  intro k
  obtain ⟨job, hjob⟩ := Execution.exists_job hpos
  obtain ⟨hreads, htoken⟩ := hc.job job hjob
  have hfired : h.tokens.isFired job.token = true := by rw [htoken, hc.own]
  obtain ⟨hspares, hleft⟩ := run.left_step h x.task bias.tail hjob hreads hpos hfired
  let task : Task := .read (.reading run x.id x.caller x.own)
  -- The execution goes on, and so does the task.
  have hnext {k₀ : Host} {run' : Execution} (hs : run.step h x.task bias.tail = (k₀, .next run')) :
      k = k₀.afterPoll x.task (.next (.read (.reading run' x.id x.caller x.own))) ∧
        k.task? x.task = some (.read (.reading run' x.id x.caller x.own)) := by
    have hstep : task.step h x.task bias =
        (k₀, .next (.read (.reading run' x.id x.caller x.own))) := by
      simp only [task, Task.step, ReadCall.step, hfirst, Bool.false_and, Bool.false_eq_true,
        if_false, hs]
      rfl
    exact ⟨apply_poll hc.task hstep, task?_poll hc.task hstep⟩
  rcases hs : run.step h x.task bias.tail with ⟨k₀, p⟩
  rw [hs] at hspares hleft
  cases hleft with
  | ended =>
    have hstep : task.step h x.task bias =
        (ReadCall.clearActive (k₀.forgetToken x.caller x.task) x.id, .done (.line (.ok ""))) := by
      simp only [task, Task.step, ReadCall.step, hfirst, Bool.false_and, Bool.false_eq_true,
        if_false, hs]
      rfl
    have hk : k = _ := apply_poll hc.task hstep
    rw [hk]
    constructor
    · exact ((hspares.trans (k₀.spares_forgetToken _ _)).trans (spares_clearActive _ _)).trans
        (spares_afterPoll _ _ _)
    · left
      simp [afterPoll, finishTask]
  | nearer run' hjob' hpos' hlt =>
    obtain ⟨hk, htask⟩ := hnext hs
    have hsame : h.Spares k := by
      rw [hk]
      exact hspares.trans (spares_afterPoll _ _ _)
    refine ⟨hsame, .inr (.inl ⟨run', ?_, hpos', hlt⟩)⟩
    constructor
    · exact htask
    · intro job' hsome
      rw [hjob'] at hsome
      exact hc.job job' (hjob.trans hsome)
    · rw [hsame.fired, hc.caller]
    · rw [hsame.fired, hc.own]
  | granted permit =>
    obtain ⟨hk, htask⟩ := hnext hs
    constructor
    · rw [hk]
      exact hspares.trans (spares_afterPoll _ _ _)
    · right
      right
      refine ⟨permit, job, hreads, ?_⟩
      rw [execution?, htask]
      rfl

/-! ## All other events -/

theorem Cancelled.apply (hc : h.Cancelled x run) (hk : h.WellKept) {e : Event}
    (hpoll : e.isPollOf x.task = false) (hdrop : e ≠ .drop x.task) :
    (h.apply e).Cancelled x run := by
  have hsteps := steps_tokens_apply hk.numbered e
  constructor
  · exact task?_apply_of_ne hk hc.task hpoll hdrop
  · exact hc.job
  · exact hsteps.isFired hc.caller
  · exact hsteps.isFired hc.own

/-! ## Runs -/

/-- In a run of `future` after `past`, the read `x` ends with an empty line, and its polls until then
spare the host. -/
structure LeavesLine (start : Host) (x : EditorRead) (past future : List Event) : Prop where
  ends : (x.task, .line (.ok "")) ∈ (start.run (past ++ future)).finished
  spares : ∀ mid bias, mid ++ [.poll x.task bias] <+: future →
    (start.run (past ++ mid)).Spares ((start.run (past ++ mid)).apply (.poll x.task bias))

theorem LeavesLine.cons {start : Host} {past future : List Event} {e : Event}
    (hl : start.LeavesLine x (past ++ [e]) future)
    (he : ∀ bias, e = .poll x.task bias →
      (start.run past).Spares ((start.run past).apply e)) :
    start.LeavesLine x past (e :: future) := by
  constructor
  · rw [List.append_cons]
    exact hl.ends
  · intro mid bias hle
    cases mid with
    | nil =>
      obtain ⟨rfl, -⟩ := List.cons_prefix_cons.1 hle
      rw [List.append_nil]
      exact he bias rfl
    | cons d mid =>
      obtain ⟨rfl, hrest⟩ := List.cons_prefix_cons.1 hle
      rw [List.append_cons]
      exact hl.spares mid bias hrest

/-- A cancelled read that looks at its execution first leaves the line, which somebody else holds,
within as many polls as the execution waits for at most. -/
theorem Cancelled.leaves {start : Host} (hkept : start.WellKept) (htasks : start.tasks = [])
    (hthreads : start.threads = []) {past future : List Event}
    (hc : (start.run past).Cancelled x run) (hpos : 0 < run.polls)
    (hfirst : ExecutionFirst x.task future)
    (htaken : ∀ mid, mid <+: future → (start.run (past ++ mid)).LineTaken x.task)
    (hcount : run.polls ≤ future.countP (Event.isPollOf x.task)) :
    ∃ mid, mid <+: future ∧ start.LeavesLine x past mid := by
  induction future generalizing past run with
  | nil => exact absurd hcount (Nat.not_le.2 hpos)
  | cons e future ih =>
    have hgoes {run' : Execution} (hc' : ((start.run past).apply e).Cancelled x run')
        (hpos' : 0 < run'.polls)
        (hcount' : run'.polls ≤ future.countP (Event.isPollOf x.task))
        (he : ∀ bias, e = .poll x.task bias → (start.run past).Spares ((start.run past).apply e)) :
        ∃ mid, mid <+: e :: future ∧ start.LeavesLine x past mid := by
      rw [← run_concat] at hc'
      obtain ⟨mid, hle, hleaves⟩ := ih hc' hpos' hfirst.tail (fun mid hle => by
        rw [← List.append_cons]
        exact htaken _ (List.cons_prefix_cons.2 ⟨rfl, hle⟩)) hcount'
      exact ⟨e :: mid, List.cons_prefix_cons.2 ⟨rfl, hle⟩, hleaves.cons he⟩
    rw [List.countP_cons] at hcount
    by_cases hpoll : e.isPollOf x.task = true
    · obtain ⟨bias, rfl⟩ := Event.exists_of_isPollOf hpoll
      rw [if_pos hpoll] at hcount
      obtain ⟨hspares, hended | ⟨run', hc', hpos', hlt⟩ | ⟨permit, job, hreads, hrun⟩⟩ :=
        hc.poll hpos (hfirst.first bias (List.mem_cons_self ..))
      · refine ⟨[.poll x.task bias], List.cons_prefix_cons.2 ⟨rfl, List.nil_prefix⟩, ?_⟩
        constructor
        · rw [run_concat]
          exact hended
        · intro mid bias' hle
          obtain rfl : mid = [] := by
            have := hle.length_le
            simpa using this
          obtain ⟨heq, -⟩ := List.cons_prefix_cons.1 hle
          rw [List.append_nil, heq]
          exact hspares
      · exact hgoes hc' hpos' (by omega) fun _ _ => hspares
      · rw [← run_concat] at hrun
        have hlease := lease_of_granted hkept htasks hthreads hreads hrun
        have hone : [.poll x.task bias] <+: .poll x.task bias :: future :=
          List.cons_prefix_cons.2 ⟨rfl, List.nil_prefix⟩
        exact absurd hlease ((htaken _ hone).not_granted (hkept.run _) hrun)
    · rw [if_neg hpoll] at hcount
      have hkeep := hc.apply (hkept.run past) (by simpa using hpoll) fun heq =>
        hfirst.kept (heq ▸ List.mem_cons_self ..)
      apply hgoes hkeep hpos hcount
      rintro bias rfl
      simp [Event.isPollOf] at hpoll

/-! ## What the token of a caller fires -/

/-- The token of a caller fires the tokens of its own reads and of no others. -/
theorem ReadsKept.isFired_fireToken {first : Nat} {entries : List EditorRead}
    (hk : h.ReadsKept first entries) {caller : Nat} (hcaller : caller < first) {y : EditorRead}
    (hy : y ∈ entries) (hfirst : y.caller < first) :
    (h.fireToken caller).tokens.isFired y.own = true ↔
      h.tokens.isFired y.own = true ∨ y.caller = caller := by
  rw [tokens_fireToken, Tokens.isFired_fire, Tokens.family_eq, List.mem_append, List.mem_reverse,
    List.mem_singleton]
  obtain ⟨hlow, hlt⟩ := hk.owns y hy
  have hderived := hk.derived y hy hfirst
  constructor
  · rintro (hfired | ⟨-, hmem | hown, -⟩)
    · exact .inl hfired
    · rcases hderived with hderived | hfired
      · exact .inr (hk.parted.one _ _ _ hderived hmem)
      · exact .inl hfired
    · omega
  · rintro (hfired | rfl)
    · exact .inl hfired
    · rcases hderived with hderived | hfired
      · by_cases hfired : h.tokens.isFired y.caller = true
        · exact .inl (hk.leads.fired y.caller hfirst hfired y.own hderived)
        · exact .inr ⟨by simpa using hfired, .inl hderived, hlt⟩
      · exact .inl hfired

theorem Queued.cancelled {n : Nat} {entries : List EditorRead} (hq : h.Queued x)
    (hk : h.ReadsKept n entries) (htold : h.ReadsTold entries) (hcaller : x.caller < n)
    (hfired : h.tokens.isFired x.caller = true) :
    ∃ run, h.Cancelled x run ∧ 0 < run.polls := by
  obtain ⟨run, hpos, htask⟩ := hq
  obtain ⟨hx, hjob⟩ := htold _ _ _ _ _ htask
  refine ⟨run, ⟨htask, hjob, hfired, ?_⟩, hpos⟩
  rcases hk.derived x hx hcaller with hderived | hown
  · exact hk.leads.fired x.caller hcaller hfired x.own hderived
  · exact hown

/-! ## A read that looks at the token first -/

def Stopping (h : Host) (x : EditorRead) : Prop :=
  ∃ run, h.task? x.task = some (.read (.stopping (some .start) (some run) none x.id x.caller))

theorem Queued.stopping (hq : h.Queued x) (hfired : h.tokens.isFired x.caller = true)
    {bias : List Bool} (heager : bias.headD false = true) :
    (h.apply (.poll x.task bias)).Stopping x := by
  obtain ⟨run, -, htask⟩ := hq
  let next : Task := .read (.stopping (some .start) (some run) none x.id x.caller)
  have hstep : (Task.read (.reading run x.id x.caller x.own)).step h x.task bias =
      (h.forgetToken x.caller x.task, .next next) := by
    simp only [Task.step, ReadCall.step, heager, hfired, Bool.and_self, if_true]
    rfl
  exact ⟨run, task?_poll htask hstep⟩

/-- The abort that a read begins when it is stopped is the same as that of anybody else. -/
theorem Stopping.poll (hs : h.Stopping x) (hnative : h.native = true) (hbusy : h.lineBusy = true)
    (bias : List Bool) : ∃ run abort, (AbortCall.begin h).2 = .next abort ∧
      (h.apply (.poll x.task bias)).tokens = (AbortCall.begin h).1.tokens ∧
      (h.apply (.poll x.task bias)).task? x.task =
        some (.read (.stopping (some abort) (some run) none x.id x.caller)) := by
  obtain ⟨run, htask⟩ := hs
  obtain ⟨abort, hbegin⟩ : ∃ abort, (AbortCall.begin h).2 = .next abort := by
    simp only [AbortCall.begin, hnative, hbusy, Bool.not_true, Bool.false_eq_true, if_false]
    split <;> exact ⟨_, rfl⟩
  have hstep : (Task.read (.stopping (some .start) (some run) none x.id x.caller)).step h x.task
      bias = ((AbortCall.begin h).1,
        .next (.read (.stopping (some abort) (some run) none x.id x.caller))) := by
    rcases hb : AbortCall.begin h with ⟨k, p⟩
    rw [hb] at hbegin
    obtain rfl : p = .next abort := hbegin
    simp only [Task.step, ReadCall.step, AbortCall.step, hb]
    rfl
  refine ⟨run, abort, hbegin, ?_, task?_poll htask hstep⟩
  rw [apply_poll htask hstep]
  rfl

theorem reverting_begin (hnative : h.native = true) (hcancel : h.engine.cancellable = false)
    (hbusy : h.lineBusy = true) : ∃ job,
      (AbortCall.begin h).2 = .next (.reverting (.start job) (.choose true)) ∧
        job.command = .revertLine := by
  refine ⟨(AbortCall.revert h).1, ?_, rfl⟩
  simp only [AbortCall.begin, hnative, hbusy, hcancel]
  cases h.editor.active <;> rfl

/-! ## The whole -/

/-- What becomes of a read that its caller gives up while somebody else has the line, and of the
others. The callers have the tokens below `n`. -/
structure GivenUp (start : Host) (n : Nat) (past : List Event) (x : EditorRead) : Prop where
  /-- The token of the caller fires the tokens of this caller's reads and of no others. -/
  fires : ∀ y ∈ start.entries past, y.caller < n →
    (((start.run past).fireToken x.caller).tokens.isFired y.own = true ↔
      (start.run past).tokens.isFired y.own = true ∨ y.caller = x.caller)
  /-- A read in line that looks at its execution first leaves the line without waiting for it. -/
  leaves : (start.run past).Queued x → (start.run past).tokens.isFired x.caller = true →
    ∀ future, ExecutionFirst x.task future → 6 ≤ future.countP (Event.isPollOf x.task) →
      (∀ mid, mid <+: future → (start.run (past ++ mid)).LineTaken x.task) →
        ∃ mid, mid <+: future ∧ start.LeavesLine x past mid
  /-- One that looks at the token first begins an abort. -/
  stops : (start.run past).Queued x → (start.run past).tokens.isFired x.caller = true →
    ∀ bias mid, bias.headD false = true →
      (∀ e ∈ mid, e.isPollOf x.task = false ∧ e ≠ .drop x.task) →
        (start.run (past ++ .poll x.task bias :: mid)).Stopping x
  /-- The abort stops the read that was entered last, whoever has the line. -/
  aborts : (start.run past).Stopping x → (start.run past).lineBusy = true →
    (start.run past).engine.cancellable = true →
      ∀ bias, ∀ y ∈ start.entries past, y.caller < n →
        (start.run past).readOf? y.task = some y.id →
          (((start.run past).apply (.poll x.task bias)).tokens.isFired y.own = true ↔
            (start.run past).tokens.isFired y.own = true ∨ (start.entries past).getLast? = some y)
  /-- A line editor that does not observe tokens is to be told to give up its line. -/
  reverts : (start.run past).Stopping x → (start.run past).lineBusy = true →
    (start.run past).engine.cancellable = false → ∀ bias, ∃ run job,
      ((start.run past).apply (.poll x.task bias)).task? x.task = some (.read (.stopping
        (some (.reverting (.start job) (.choose true))) (some run) none x.id x.caller)) ∧
        job.command = .revertLine
  /-- A read that clears the line for itself looks at no token: it goes on with that as long as
  somebody else has the line and the editor has not been told to give it up. -/
  clears : (start.run past).task? x.task = some (.read (.clearing .start x.caller)) →
    ∀ future, .drop x.task ∉ future →
      (∀ mid, mid <+: future → (start.run (past ++ mid)).LineTaken x.task ∧
        ¬ (start.run (past ++ mid)).Answered x.task) →
          (start.run (past ++ future)).Clearing x.task x.caller

/-- A read that is given up by its caller while it waits in line for another one ends with an empty
line within six polls, and does nothing to the other, if it looks at its execution first each time.
If it looks at the token first, it aborts the read in progress, by its token or in an idle moment.
And one that has not been entered goes on clearing the line until the other one has ended or been
told to. -/
theorem read_given_up (follows : Bool) (engine : Engine) (console : Console Waiter) (n : Nat)
    (past : List Event) (x : EditorRead) (hcaller : x.caller < n) :
    let start : Host := { established true follows engine console with tokens := callersTokens n }
    start.GivenUp n past x := by
  intro start
  have hcalls := sameCalls_established true follows engine console
  have hkept : start.WellKept :=
    (WellKept.established true follows engine console).setTokens (callersTokens n)
  have hreads : (start.run past).ReadsKept n (start.entries past) :=
    ReadsKept.run hkept (.established true follows engine console n) past
  have htold : (start.run past).ReadsTold (start.entries past) :=
    ReadsTold.run hkept hcalls.tasks past
  have hnative : (start.run past).native = true :=
    (editor_run_established follows engine console n past).1
  constructor
  · intro y hy hfirst
    exact hreads.isFired_fireToken hcaller hy hfirst
  · intro hqueued hfired future hfirst hcount htaken
    obtain ⟨run, hcancelled, hpos⟩ := hqueued.cancelled hreads htold hcaller hfired
    exact hcancelled.leaves hkept hcalls.tasks hcalls.threads hpos hfirst htaken
      (run.polls_le.trans hcount)
  · intro hqueued hfired bias mid heager hmid
    obtain ⟨run, htask⟩ := hqueued.stopping hfired heager
    refine ⟨run, ?_⟩
    rw [List.append_cons, run_append, run_concat]
    exact task?_run_of_ne ((hkept.run past).apply _) htask hmid
  · intro hstopping hbusy hcancel bias y hy hfirst hread
    obtain ⟨-, -, -, htokens, -⟩ := hstopping.poll hnative hbusy bias
    rw [htokens]
    exact hreads.isFired_begin hnative hcancel hbusy hy hfirst hread
  · intro hstopping hbusy hcancel bias
    obtain ⟨job, hbegin, hrevert⟩ := reverting_begin hnative hcancel hbusy
    obtain ⟨run, abort, habort, -, htask⟩ := hstopping.poll hnative hbusy bias
    rw [hbegin] at habort
    cases habort
    exact ⟨run, job, htask, hrevert⟩
  · intro htask future hdrop htaken
    have hclearing : (start.run past).Clearing x.task x.caller := ⟨.start, htask, trivial⟩
    rw [run_append]
    apply hclearing.run (hkept.run past) _ hdrop
    · intro mid hle
      rw [← run_append]
      exact htaken mid hle
    · intro future
      rw [← run_append]
      exact (editor_run_established follows engine console n (past ++ future)).1

/-- Two reads are entered while the line is free. The first one takes it, and the caller of the
second one gives up. -/
def givenUpInLine : List Event :=
  [.start (.read true 0), .start (.read true 1), .poll 0 [], .poll 0 [], .poll 1 [], .poll 1 []] ++
    List.replicate 5 (.poll 0 []) ++ [.advance 0, .advance 0, .fire 1]

/-- The second read leaves the line to the first one. -/
theorem read_given_up_inLine :
    ((withEditor 2).run givenUpInLine).Editing ⟨0, 1, 0, 2⟩ 0 ∧
      ∃ mid, mid <+: List.replicate 6 (.poll 1 []) ∧
        (withEditor 2).LeavesLine ⟨1, 2, 1, 3⟩ givenUpInLine mid := by
  have hediting : ((withEditor 2).run givenUpInLine).Editing ⟨0, 1, 0, 2⟩ 0 :=
    ⟨⟨⟨1, some 0, true⟩, 1, ⟨.readLine, .reading, 0, 2⟩, 0⟩, _, true, [], rfl, rfl, ⟨0, rfl⟩, rfl⟩
  have hqueued : ((withEditor 2).run givenUpInLine).Queued ⟨1, 2, 1, 3⟩ := ⟨_, by decide, rfl⟩
  have htaken : ∀ mid ∈ (List.replicate 6 (Event.poll 1 [])).inits,
      ((withEditor 2).run (givenUpInLine ++ mid)).LineTaken 1 := by decide +kernel
  refine ⟨hediting, ?_⟩
  apply (read_given_up false { cancellable := true, behavior := [("a", [.barrier "g"])] } {} 2
    givenUpInLine ⟨1, 2, 1, 3⟩ (by decide)).leaves hqueued rfl _
    (.replicate 1 6) (by decide)
  intro mid hle
  exact htaken mid ((List.mem_inits _ _).2 hle)

/-- A host for callers with `n` tokens, whose line editor does not observe its token. -/
def unobserving (n : Nat) : Host :=
  { established true false {} {} with tokens := callersTokens n }

/-- The first read has the line, and the second one has left a request to give it up in the idle slot
when its caller gives up. -/
def givenUpClearing : List Event :=
  .start (.read true 0) :: List.replicate 7 (.poll 0 []) ++ [.advance 0, .advance 0] ++
    .start (.read true 1) :: List.replicate 6 (.poll 1 []) ++ [.fire 1]

/-- The second read does not end, and an idle moment ends the first one for it. -/
theorem givenUpClearing_ends_first :
    let h := (unobserving 2).run givenUpClearing
    let told := (unobserving 2).run (givenUpClearing ++ .idle :: List.replicate 12 (.advance 1))
    h.Editing ⟨0, 1, 0, 2⟩ 0 ∧ h.tokens.isFired 1 = true ∧ h.finished = [] ∧
      (∀ bias, h.apply (.poll 1 bias) = h) ∧
      (0, .line (.ok "")) ∈
        (told.run (List.replicate 5 (.advance 0) ++ [.poll 0 []])).finished := by
  have hediting : ((unobserving 2).run givenUpClearing).Editing ⟨0, 1, 0, 2⟩ 0 :=
    ⟨⟨⟨1, some 0, true⟩, 1, ⟨.readLine, .reading, 0, 2⟩, 0⟩, _, true, [], rfl, rfl, ⟨0, rfl⟩, rfl⟩
  have hwaits (bias : List Bool) : ((unobserving 2).run givenUpClearing).apply (.poll 1 bias) =
      (unobserving 2).run givenUpClearing :=
    match bias with
    | [] => rfl
    | true :: _ => rfl
    | false :: _ => rfl
  have htold : ((unobserving 2).run
      (givenUpClearing ++ .idle :: List.replicate 12 (.advance 1))).Editing ⟨0, 1, 0, 2⟩ 0 :=
    ⟨⟨⟨1, some 0, true⟩, 1, ⟨.readLine, .reading, 0, 2⟩, 0⟩, _, true, [], rfl, rfl, ⟨0, rfl⟩, rfl⟩
  exact ⟨hediting, rfl, rfl, hwaits, htold.ends_of_lines rfl⟩

end Host

end SharedPrompt
