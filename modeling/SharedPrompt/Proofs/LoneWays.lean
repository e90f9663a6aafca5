import SharedPrompt.Proofs.LoneRuns

/-!
# The way of one command

A command that one caller has run, with nobody else about, comes from one stage to the next on its
way: by the polls of its task, and by the steps of the thread that has got it. At each stage somebody
can go on, so that it comes to its end.
-/

namespace SharedPrompt

/-! ## How far it is to the end -/

def Execution.toGo (m : Nat) : Execution → Nat
  | start _ => m + 40
  | leasing (.choose _) _ => m + 39
  | leasing _ _ => m + 38
  | granted _ _ => m + 37
  | running _ => 1
  | idle (.start _) _ => m + 39
  | idle (.queued _ _) _ => m + 38
  | idle (.install _) _ => m + 37
  | idle (.parked _ _) _ => 1

def Activation.toGo (m : Nat) : List Activation → Nat
  | .errand .start _ :: _ | .serve (.openPrompt _) :: _ => m + 15
  | .errand .lock _ :: _ | .serve (.lock _ _ _) :: _ => m + 14
  | .command inv :: _ => inv.rest.length + 8
  | .errand (.unlock _) _ :: _ | .serve (.answer _ _ _ _) :: _ => 7
  | .errand (.release _) _ :: _ | .serve (.unlock _ _) :: _ => 6
  | .errand (.releaseMain _) _ :: _ | .serve (.release _) :: _ => 5
  | .errand (.answer _) _ :: _ | .serve .closePrompt :: _ => 4
  | _ => 0

/-- Only what a thread does at the moment counts. -/
theorem Activation.toGo_append {m : Nat} {work : List Activation} (hne : work ≠ [])
    (below : List Activation) : toGo m (work ++ below) = toGo m work := by
  obtain ⟨a, rest, rfl⟩ := List.exists_cons_of_ne_nil hne
  cases a with
  | errand phase _ => cases phase <;> rfl
  | serve phase => cases phase <;> rfl
  | _ => rfl

/-- A bound for what is left to do for a command of `m` actions: for its caller, for the thread that
has got it, and for an idle moment. -/
def toGo (m : Nat) (run : Option Execution) (work : Option (List Activation)) (d : Doings) : Nat :=
  run.elim 0 (Execution.toGo m) + work.elim 0 (Activation.toGo m) +
    if d.slot.pending.isSome then m + 20 else 0

theorem toGo_lt {m : Nat} {run run' : Option Execution} {work work' : Option (List Activation)}
    {d d' : Doings} (hpending : d'.slot.pending = d.slot.pending)
    (hlt : run'.elim 0 (Execution.toGo m) + work'.elim 0 (Activation.toGo m) <
      run.elim 0 (Execution.toGo m) + work.elim 0 (Activation.toGo m)) :
    toGo m run' work' d' < toGo m run work d := by
  rw [toGo, toGo, hpending]
  exact Nat.add_lt_add_right hlt _

def Activation.barrier? : List Activation → Option String
  | .command inv :: _ =>
    match inv.rest with
    | .barrier name :: _ => some name
    | _ => none
  | _ => none

/-! ## Ways -/

/-- What is said of an execution, of the thread that works for it and of what has come of it. -/
abbrev Way := Option Execution → Option (List Activation) → Doings → Prop

namespace Host

structure Beside (h k : Host) : Prop where
  setting : k.setting = h.setting
  threads : k.threads = h.threads
  nextThread : k.nextThread = h.nextThread

theorem Beside.refl (h : Host) : h.Beside h := ⟨rfl, rfl, rfl⟩

/-- A step of the execution of a caller keeps to the way and brings it nearer to its end, if it need
not wait for others. -/
inductive OnWay (before h : Host) (sink : Option Nat) (m : Nat) (way : Way) (run : Execution)
    (work : Option (List Activation)) : Host → Poll Execution RunResult → Prop
  | stays {k : Host} (hk : h.Beside k) (hd : k.doings = h.doings)
      (hwait : work ≠ none ∨ h.slot.pending ≠ none) : OnWay before h sink m way run work k .blocked
  | goes {k : Host} (hk : h.Beside k) {run' : Execution} (hway : way (some run') work k.doings)
      (hlt : toGo m (some run') work k.doings < toGo m (some run) work h.doings) :
    OnWay before h sink m way run work k (.next run')
  | sends {k : Host} (hk : h.Beside k) (hnone : work = none) {run' : Execution}
      {stack : List Activation} (hne : stack ≠ []) (hway : way (some run') (some stack) k.doings)
      (hlt : toGo m (some run') (some stack) k.doings < toGo m (some run) none h.doings) :
    OnWay before h sink m way run work (k.spawnThread stack) (.next run')
  | ends {k : Host} (hk : h.Beside k) {r : RunResult}
      (hway : way none work { k.doings with
        finished := k.finished ++ [(before.nextTask, .ran r sink)] })
      (hlt : toGo m none work k.doings < toGo m (some run) work h.doings) :
    OnWay before h sink m way run work k (.done r)

/-- All that a caller and the threads that work for it do is on the way `way`, and leads to its
end. -/
structure Leading (before : Host) (sink : Option Nat) (m : Nat) (way : Way) : Prop where
  poll : ∀ h run work bias, h.setting = before.setting → way (some run) work h.doings →
    before.OnWay h sink m way run work (run.step h before.nextTask bias).1
      (run.step h before.nextTask bias).2
  work : ∀ h run work below, h.setting = before.setting → way run (some work) h.doings →
    (Activation.step h (work ++ below) = none ∧
        ∃ name, Activation.barrier? work = some name ∧ h.barriers.contains name = false) ∨
      ∃ k work', Activation.step h (work ++ below) = some (k, work' ++ below) ∧
        k.setting = h.setting ∧ way run (stackOf work') k.doings ∧
        toGo m run (stackOf work') k.doings < toGo m run (some work) h.doings
  take : ∀ run work d q, way run work d → d.slot.pending = some q →
    work = none ∧ way run (some [.serve (.openPrompt q)])
      { d with slot := { d.slot with pending := none } }
  served : ∀ run work d q, way run work d → d.slot.pending = some q →
    before.console.keyAvailable = false ∧ before.subscriptions.subscribers ≠ []
  busy : ∀ run work d, way run (some work) d → 0 < Activation.toGo m work

def Rested (before h : Host) : Prop := ∀ i, before.Spare i (h.lane i)

structure At (before : Host) (sink : Option Nat) (way : Way) (run : Option Execution)
    (worker : Option (Nat × List Activation)) (h : Host) : Prop where
  calm : before.Calm
  setting : h.setting = before.setting
  way : way run (worker.map Prod.snd) h.doings
  staffed : h.Staffed before worker
  task : h.task? before.nextTask = run.map fun run => .command (.running run) sink

section
variable {before : Host} {sink : Option Nat} {m : Nat} {way : Way} {run : Option Execution}
  {worker : Option (Nat × List Activation)} {h k : Host}

theorem Spare.toGo_eq_zero {i : Nat} {stack : List Activation} (m : Nat) (hc : before.Calm)
    (hfree : before.Free i) (hs : before.Spare i (some stack)) : Activation.toGo m stack = 0 := by
  generalize hl : some stack = l at hs
  cases hs with
  | same =>
    rcases hfree with hi | ⟨inv, below, hedit⟩
    · cases hl.trans (hc.lane_eq_none hi)
    · obtain rfl := Option.some.inj (hl.trans hedit)
      rfl
  | _ =>
    obtain rfl := Option.some.inj hl
    rfl

namespace At

theorem started (hc : before.Calm) {job : Job} (hway : way (some (.start job)) none before.doings) :
    before.At sink way (some (.start job)) none (before.apply (.start (.run job sink))) := by
  let grown := before.addTask (.command (.running (.start job)) sink)
  have haside := grown.aside_wake before.nextTask
  have happly : before.apply (.start (.run job sink)) = grown.wake before.nextTask := rfl
  rw [happly]
  refine ⟨hc, grown.setting_wake _, ?_, ?_, ?_⟩
  · rw [doings_wake]
    exact hway
  · exact (Staffed.of_setting hc).of_threads haside.threads haside.nextThread
  · rw [task?, haside.tasks]
    exact task?_addTask_self hc.numbered _

theorem turned (ha : before.At sink way run worker h) {i : Nat} {d : Doings}
    {stack : List Activation} (ht : h.Turned k i d stack)
    {worker' : Option (Nat × List Activation)} (hway : way run (worker'.map Prod.snd) d)
    (hstaff : k.Staffed before worker') : before.At sink way run worker' k :=
  ⟨ha.calm, ht.setting.trans ha.setting, ht.doings ▸ hway, hstaff, (ht.task? _).trans ha.task⟩

/-- The caller's task is polled. -/
theorem poll {run : Execution} (ha : before.At sink way (some run) worker h)
    (hl : before.Leading sink m way) (bias : List Bool) :
    ∃ run' worker', before.At sink way run' worker' (h.apply (.poll before.nextTask bias)) ∧
      (toGo m run' (worker'.map Prod.snd) (h.apply (.poll before.nextTask bias)).doings <
          toGo m (some run) (worker.map Prod.snd) h.doings ∨
        worker ≠ none ∨ h.slot.pending ≠ none) := by
  obtain ⟨k, r, hrun⟩ : ∃ k r, run.step h before.nextTask bias = (k, r) := ⟨_, _, rfl⟩
  have hstep := hl.poll h run _ bias ha.setting ha.way
  rw [hrun] at hstep
  have hpoll : (Task.command (.running run) sink).step h before.nextTask bias =
      (k, (r.map CommandCall.running id).map (.command · sink) (.ran · sink)) := by
    simp only [Task.step, CommandCall.step, hrun]
  have hself := task?_poll ha.task hpoll
  rw [apply_poll ha.task hpoll] at hself ⊢
  cases hstep with
  | stays hk hd hwait =>
    refine ⟨some run, worker, ⟨ha.calm, hk.setting.trans ha.setting, hd.symm ▸ ha.way,
      ha.staffed.of_threads hk.threads hk.nextThread, hself⟩, .inr (hwait.imp_left fun hw hnone => ?_)⟩
    rw [hnone] at hw
    exact hw rfl
  | @goes _ hk run' hway hlt =>
    exact ⟨some run', worker, ⟨ha.calm, hk.setting.trans ha.setting, hway,
      ha.staffed.of_threads hk.threads hk.nextThread, hself⟩, .inl hlt⟩
  | @sends k' hk hnone run' stack hne hway hlt =>
    obtain rfl := Option.map_eq_none_iff.1 hnone
    have hsent := (ha.staffed.of_threads hk.threads hk.nextThread).sent ha.calm hne
    exact ⟨some run', some (k'.nextThread, stack), ⟨ha.calm, hk.setting.trans ha.setting, hway,
      hsent.of_threads rfl rfl, hself⟩, .inl hlt⟩
  | @ends _ hk r' hway hlt =>
    exact ⟨none, worker, ⟨ha.calm, hk.setting.trans ha.setting, hway,
      ha.staffed.of_threads hk.threads hk.nextThread, hself⟩, .inl hlt⟩

/-- The thread that has got the command goes on, unless it stops at a barrier. -/
theorem work {i : Nat} {work : List Activation} (ha : before.At sink way run (some (i, work)) h)
    (hl : before.Leading sink m way) :
    (h.apply (.advance i) = h ∧
        ∃ name, Activation.barrier? work = some name ∧ h.barriers.contains name = false) ∨
      ∃ worker', before.At sink way run worker' (h.apply (.advance i)) ∧
        toGo m run (worker'.map Prod.snd) (h.apply (.advance i)).doings <
          toGo m run (some work) h.doings := by
  obtain ⟨hfree, hne, below, hbelow, hlane⟩ := ha.staffed.busy i work rfl
  rcases hl.work h run work below ha.setting ha.way with
    ⟨hnone, hclosed⟩ | ⟨k, work', hstep, hk, hway, hlt⟩
  · exact .inl ⟨advance_of_blocked hlane hnone, hclosed⟩
  · have ht := turned_advance hlane hstep hk
    refine .inr ?_
    rw [ht.doings]
    by_cases hdone : work' = []
    · subst hdone
      exact ⟨none, ha.turned ht hway (ha.staffed.done ht hbelow), hlt⟩
    · rw [stackOf, if_neg hdone] at hway hlt
      refine ⟨some (i, work'), ha.turned ht hway (ha.staffed.works ?_ ht hfree hdone hbelow), hlt⟩
      rintro j w hw
      exact (congrArg Prod.fst (Option.some.inj hw)).symm

/-- Another thread takes the request that waits for an idle moment. -/
theorem take (ha : before.At sink way run worker h) (hl : before.Leading sink m way) {i : Nat}
    (hfree : before.Free i) {q : Parked} (hq : h.slot.pending = some q) {below : List Activation}
    (hbelow : before.Spare i (stackOf below))
    (ht : h.Turned k i { h.doings with slot := { h.slot with pending := none } }
      (.serve (.openPrompt q) :: below)) :
    worker = none ∧ before.At sink way run (some (i, [.serve (.openPrompt q)])) k := by
  obtain ⟨hnone, htaken⟩ := hl.take run _ _ q ha.way hq
  obtain rfl := Option.map_eq_none_iff.1 hnone
  refine ⟨rfl, ha.turned ht htaken ?_⟩
  exact ha.staffed.works (fun j w hw => by cases hw) ht hfree (List.cons_ne_nil _ _) hbelow

/-- All events in which nobody else has a part keep to the way. -/
theorem apply (ha : before.At sink way run worker h) (hl : before.Leading sink m way) {e : Event}
    (he : before.Own e) : ∃ run' worker', before.At sink way run' worker' (h.apply e) := by
  cases e with
  | poll t bias =>
    obtain rfl : t = before.nextTask := he
    cases run with
    | none =>
      have hsame : h.apply (.poll before.nextTask bias) = h := by
        simp only [Host.apply, stepTask, ha.task, Option.map_none]
      exact ⟨none, worker, hsame.symm ▸ ha⟩
    | some run =>
      obtain ⟨run', worker', hat, -⟩ := ha.poll hl bias
      exact ⟨run', worker', hat⟩
  | advance i =>
    by_cases hworker : ∃ work, worker = some (i, work)
    · obtain ⟨work, rfl⟩ := hworker
      rcases ha.work hl with ⟨hsame, -⟩ | ⟨worker', hat, -⟩
      · exact ⟨run, some (i, work), hsame.symm ▸ ha⟩
      · exact ⟨run, worker', hat⟩
    · have hother (work : List Activation) : worker ≠ some (i, work) :=
        fun hw => hworker ⟨work, hw⟩
      rcases (ha.staffed.spare i hother).advance ha.calm ha.setting he with
        hsame | ⟨stack, ht, hspare⟩ | ⟨q, below, hpending, hbelow, ht⟩
      · exact ⟨run, worker, hsame.symm ▸ ha⟩
      · exact ⟨run, worker, ha.turned ht ha.way (ha.staffed.spares hother ht hspare)⟩
      · exact ⟨run, _, (ha.take hl he hpending hbelow ht).2⟩
  | idle => exact ⟨run, worker, ha.calm, ha.setting, ha.way, ha.staffed.idle ha.calm, ha.task⟩
  | barrier name isOpen =>
    exact ⟨run, worker, ha.calm, ha.setting, ha.way, ha.staffed.of_threads rfl rfl, ha.task⟩
  | _ => exact he.elim

theorem run_of_own (ha : before.At sink way run worker h) (hl : before.Leading sink m way)
    {events : List Event} (hown : ∀ e ∈ events, before.Own e) :
    ∃ run' worker', before.At sink way run' worker' (h.run events) := by
  induction events generalizing h run worker with
  | nil => exact ⟨run, worker, ha⟩
  | cons e rest ih =>
    obtain ⟨run', worker', hat⟩ := ha.apply hl (hown e List.mem_cons_self)
    rw [run_cons]
    exact ih hat fun e' he' => hown e' (List.mem_cons_of_mem e he')

/-- When no thread has more to do than to tell of an idle moment, none has anything to do for the
caller. -/
theorem unmanned (ha : before.At sink way run worker h) (hl : before.Leading sink m way)
    (hrested : before.Rested h) : worker = none := by
  cases worker with
  | none => rfl
  | some worker =>
    obtain ⟨i, work⟩ := worker
    obtain ⟨hfree, hne, below, -, hlane⟩ := ha.staffed.busy i work rfl
    have hspare := hrested i
    rw [hlane] at hspare
    have hidle := hspare.toGo_eq_zero m ha.calm hfree
    have hbusy := hl.busy _ _ _ ha.way
    rw [Activation.toGo_append hne] at hidle
    exact absurd hidle hbusy.ne'

/-! ## Coming to the end -/

theorem alive {run : Execution} (ha : before.At sink way (some run) worker h) : h.alive = true := by
  have hmem : (before.nextTask, Task.command (.running run) sink) ∈ h.tasks :=
    mem_of_lookup ha.task
  have hany : (h.tasks.any fun t => Task.usesPrompts t.2) = true :=
    List.any_eq_true.2 ⟨_, hmem, rfl⟩
  rw [Host.alive, hany, Bool.or_true, Bool.true_or]

/-- A thread that has nothing to do with the command takes a step that changes nothing else. -/
theorem spares (ha : before.At sink way run none h) {i : Nat} {stack stack' : List Activation}
    (hlane : h.lane i = some stack) (hstep : Activation.step h stack = some (h, stack'))
    (hspare : before.Spare i (stackOf stack')) :
    before.At sink way run none (h.apply (.advance i)) ∧
      (h.apply (.advance i)).doings = h.doings ∧ (h.apply (.advance i)).lane i = stackOf stack' := by
  have ht := turned_advance hlane hstep rfl
  have hnone (work : List Activation) : none ≠ some (i, work) := nofun
  exact ⟨ha.turned ht ha.way (ha.staffed.spares hnone ht hspare), ht.doings, ht.lane⟩

/-- A new idle moment comes to the request that waits for one, and takes it. -/
theorem serve {run : Execution} (ha : before.At sink way (some run) worker h)
    (hl : before.Leading sink m way) {q : Parked} (hq : h.slot.pending = some q) :
    let k := h.run [.idle, .advance h.nextThread, .advance h.nextThread, .advance h.nextThread]
    ∃ worker', before.At sink way (some run) worker' k ∧
      toGo m (some run) (worker'.map Prod.snd) k.doings <
        toGo m (some run) (worker.map Prod.snd) h.doings := by
  intro k
  obtain ⟨hkeys, hsubscribed⟩ := hl.served _ _ _ q ha.way hq
  obtain rfl := Option.map_eq_none_iff.1 (hl.take _ _ _ q ha.way hq).1
  have hfree : before.Free h.nextThread := .inl ha.staffed.next
  have hlane : before.lane h.nextThread = none := ha.calm.lane_eq_none ha.staffed.next
  have hsubscribers : h.subscriptions.subscribers = before.subscriptions.subscribers :=
    congrArg Setting.subscribers ha.setting
  obtain ⟨s, rest, hrest⟩ := List.exists_cons_of_ne_nil hsubscribed
  -- The thread tells of the idle moment, looks for the request, and takes it.
  have htold : before.At sink way (some run) none (h.apply .idle) :=
    ⟨ha.calm, ha.setting, ha.way, ha.staffed.idle ha.calm, ha.task⟩
  have hnotify : (h.apply .idle).lane h.nextThread = some [.notify (s :: rest)] := by
    rw [Host.apply, lane_spawnThread_self (ha.staffed.fresh _ le_rfl), hsubscribers, hrest]
  have hstepNotify : Activation.step (h.apply .idle) [.notify (s :: rest)] =
      some (h.apply .idle, [.serve .look, .notify rest]) := by
    simp only [Activation.step, htold.alive, if_true]
  have hspareLook := Spare.look hfree rest
  rw [hlane] at hspareLook
  obtain ⟨hlooks, hlooksDoings, hlook⟩ := htold.spares hnotify hstepNotify hspareLook
  set looking := (h.apply .idle).apply (.advance h.nextThread)
  have hpending : looking.slot.pending = some q := (congrArg (·.slot.pending) hlooksDoings).trans hq
  have hnokeys : looking.console.keyAvailable = false :=
    (congrArg Setting.keys hlooks.setting).trans hkeys
  have hstepLook : Activation.step looking [.serve .look, .notify rest] =
      some (looking, [.serve .take, .notify rest]) := by
    simp [Activation.step, Activation.stepServing, hpending, hnokeys]
  have hspareTake := Spare.take hfree rest
  rw [hlane] at hspareTake
  obtain ⟨htakes, htakesDoings, htake⟩ := hlooks.spares hlook hstepLook hspareTake
  set taking := looking.apply (.advance h.nextThread)
  have htaken : taking.slot.pending = some q := (congrArg (·.slot.pending) htakesDoings).trans hpending
  have hstepTake : Activation.step taking [.serve .take, .notify rest] =
      some ({ taking with slot := { taking.slot with pending := none } },
        [.serve (.openPrompt q), .notify rest]) := by
    simp [Activation.step, Activation.stepServing, htaken]
  have hspareNotify : before.Spare h.nextThread (stackOf [.notify rest]) := by
    have hspare := Spare.notify hfree rest
    rwa [hlane] at hspare
  have ht := turned_advance htake hstepTake rfl
  obtain ⟨-, hserves⟩ := htakes.take hl hfree htaken hspareNotify ht
  refine ⟨_, hserves, ?_⟩
  have hdoings : k.doings = { h.doings with slot := { h.slot with pending := none } } := by
    refine ht.doings.trans ?_
    have hslot : taking.slot = h.slot := congrArg Doings.slot (htakesDoings.trans hlooksDoings)
    change ({ taking.doings with slot := { taking.slot with pending := none } } : Doings) = _
    rw [hslot, htakesDoings, hlooksDoings]
    rfl
  have hwaits : h.doings.slot.pending = some q := hq
  rw [hdoings, toGo, toGo, hwaits]
  simp [Activation.toGo]

/-- As long as the command is not at its end, somebody can bring it nearer to it. -/
theorem progress (ha : before.At sink way run worker h) (hl : before.Leading sink m way)
    (hlive : run ≠ none ∨ worker ≠ none) :
    ∃ events : List Event, (∀ e ∈ events, before.Own e) ∧
      ∃ run' worker', before.At sink way run' worker' (h.run events) ∧
        toGo m run' (worker'.map Prod.snd) (h.run events).doings <
          toGo m run (worker.map Prod.snd) h.doings := by
  cases worker with
  | some worker =>
    obtain ⟨i, work⟩ := worker
    have hfree : before.Free i := (ha.staffed.busy i work rfl).1
    rcases ha.work hl with ⟨-, name, hname, -⟩ | ⟨worker', hat, hlt⟩
    · -- The barrier opens first.
      let opened := h.apply (.barrier name true)
      have hopened : before.At sink way run (some (i, work)) opened :=
        ⟨ha.calm, ha.setting, ha.way, ha.staffed.of_threads rfl rfl, ha.task⟩
      rcases hopened.work hl with ⟨-, name', hname', hclosed⟩ | ⟨worker', hat, hlt⟩
      · obtain rfl := Option.some.inj (hname.symm.trans hname')
        have hcontains : opened.barriers.contains name = true := by
          simp [opened, Host.apply, setBarrier]
        cases hcontains.symm.trans hclosed
      · exact ⟨[.barrier name true, .advance i], by simp [Own, hfree], run, worker', hat, hlt⟩
    · exact ⟨[.advance i], by simpa [Own] using hfree, run, worker', hat, hlt⟩
  | none =>
    cases run with
    | none => simp at hlive
    | some run =>
      obtain ⟨run', worker', hat, hlt | hbusy | hpending⟩ := ha.poll hl []
      · exact ⟨[.poll before.nextTask []], by simp [Own], run', worker', hat, hlt⟩
      · exact absurd rfl hbusy
      · obtain ⟨q, hq⟩ := Option.ne_none_iff_exists'.1 hpending
        have hfree : before.Free h.nextThread := .inl ha.staffed.next
        obtain ⟨worker', hat, hlt⟩ := ha.serve hl hq
        exact ⟨_, by simp [Own, hfree], some run, worker', hat, hlt⟩

theorem rested (ha : before.At sink way run none h) : before.Rested h :=
  fun i => ha.staffed.spare i fun work hw => by cases hw

/-- The command can be brought to its end with nobody else about. -/
theorem finishes (ha : before.At sink way run worker h) (hl : before.Leading sink m way) :
    ∃ events : List Event, (∀ e ∈ events, before.Own e) ∧
      before.At sink way none none (h.run events) := by
  generalize hgo : toGo m run (worker.map Prod.snd) h.doings = n
  induction n using Nat.strong_induction_on generalizing h run worker with
  | _ n ih =>
    by_cases hend : run = none ∧ worker = none
    · obtain ⟨rfl, rfl⟩ := hend
      exact ⟨[], nofun, ha⟩
    · obtain ⟨events, hown, run', worker', hat, hlt⟩ :=
        ha.progress hl ((not_and_or.1 hend).imp id id)
      obtain ⟨later, hlater, hdone⟩ := ih _ (hgo ▸ hlt) hat rfl
      refine ⟨events ++ later, fun e he => (List.mem_append.1 he).elim (hown e) (hlater e), ?_⟩
      rwa [run_append]

end At

end

end Host

end SharedPrompt
