import SharedPrompt.Proofs.Arrivals
import SharedPrompt.Proofs.OffReads

/-!
# The reads that have been entered

A read of the line editor is entered before its execution begins, and from then on it counts as the
latest one until it ends or another one is entered. When the latest read ends, none counts as the
latest, whichever reads are still under way.
-/

namespace SharedPrompt

/-- A read of the line editor as it was entered: by which task, under which name, and with which
token of its own, derived from that of its caller. -/
structure EditorRead where
  task : Nat
  id : Nat
  caller : Nat
  own : Nat
  deriving DecidableEq

/-! ## What the step of a task does to the reads -/

def ReadCall.id? : ReadCall → Option Nat
  | reading _ id _ _ => some id
  | stopping _ _ _ id _ => some id
  | _ => none

def ReadCall.entering? : ReadCall → Option Nat
  | enter token => some token
  | _ => none

namespace Task

def readId? : Task → Option Nat
  | read call => call.id?
  | _ => none

def entering? : Task → Option Nat
  | read call => call.entering?
  | _ => none

end Task

def Poll.readId? (before : ReadCall) : Poll ReadCall ReadCall.Answer → Option Nat
  | blocked => before.id?
  | next call => call.id?
  | done _ => none

/-- What a call that enters a read for `entering` next does to the reads, where it has `before`
under way and then `after`. -/
inductive ReadStep (h k : Host) : (entering before after : Option Nat) → Prop where
  | off (id : Option Nat) (ho : h.OffReads k) : ReadStep h k none id id
  | enter (token : Nat) (hk : k = (ReadCall.enterRead h token).1) :
      ReadStep h k (some token) none (some h.editor.nextId)
  | leave {k' : Host} (id : Nat) (ho : h.OffReads k') (hk : k = ReadCall.clearActive k' id) :
      ReadStep h k none (some id) none

namespace ReadCall

variable (h : Host) (me : Nat) (bias : List Bool)

theorem readStep_finish {k k' : Host} (ho : h.OffReads k) (id token : Nat) (r : RunResult)
    {p : Poll ReadCall Answer} (hs : finish k id token r = (k', p)) (before : ReadCall) :
    ReadStep h k' none (some id) (p.readId? before) := by
  cases hs
  exact .leave id ho rfl

theorem readStep_stepRun (run : Execution) (id token : Nat) {k : Host} {p : Poll ReadCall Answer}
    (hs : stepRun h me bias run id token = (k, p)) {before : ReadCall}
    (hbefore : before.id? = some id) : ReadStep h k none (some id) (p.readId? before) := by
  have hrun := run.offReads_step h me bias
  simp only [stepRun] at hs
  split at hs <;> rename_i hr <;> rw [hr] at hrun
  · cases hs
    rw [Poll.readId?, hbefore]
    exact .off _ hrun
  · cases hs
    exact .off _ hrun
  · exact readStep_finish h hrun id token _ hs before

theorem readStep_stopping (abort : Option AbortCall) (run : Option Execution)
    (result : Option RunResult) (id token : Nat) {k : Host} {p : Poll ReadCall Answer}
    (hs : (stopping abort run result id token).step h me bias = (k, p)) :
    ReadStep h k none (some id) (p.readId? (stopping abort run result id token)) := by
  cases abort with
  | none =>
    cases run with
    | none =>
      cases result with
      | none =>
        cases hs
        exact .off _ (.refl h)
      | some r => exact readStep_finish h (.refl h) id token r hs _
    | some run => exact readStep_stepRun h me bias run id token hs rfl
  | some abort =>
    have habort := abort.offReads_step h me bias
    simp only [step] at hs
    split at hs <;> rename_i hr <;> rw [hr] at habort
    · cases hs
      exact .off _ habort
    · cases hs
      exact .off _ habort
    · cases run with
      | none =>
        cases hs
        exact .off _ habort
      | some run =>
        rename_i h'
        have hrun := run.offReads_step h' me bias.tail
        dsimp only at hs
        split at hs <;> rename_i hr' <;> rw [hr'] at hrun <;> cases hs
        · exact .off _ (habort.trans hrun)
        · exact .off _ (habort.trans hrun)
        · exact .off _ (habort.trans hrun)

theorem readStep (call : ReadCall) {k : Host} {p : Poll ReadCall Answer}
    (hs : call.step h me bias = (k, p)) :
    ReadStep h k call.entering? call.id? (p.readId? call) := by
  cases call with
  | start commandLine token =>
    simp only [step] at hs
    split at hs
    · cases hs
      exact .off none (.refl h)
    · split at hs
      · cases hs
        exact .off none (.refl h)
      · cases hs
        split
        · exact .off none (.refl h)
        · exact .off none (.refl h)
  | console call =>
    have hcall := call.offReads_step h me bias
    simp only [step] at hs
    obtain ⟨rfl, rfl⟩ := Prod.mk.inj hs
    generalize (call.step h me bias).2 = r
    cases r <;> exact .off none hcall
  | clearing abort token =>
    have habort := abort.offReads_step h me bias
    simp only [step] at hs
    obtain ⟨rfl, rfl⟩ := Prod.mk.inj hs
    generalize (abort.step h me bias).2 = r
    cases r <;> exact .off none habort
  | enter token =>
    simp only [step] at hs
    obtain ⟨rfl, rfl⟩ := Prod.mk.inj hs
    exact .enter token rfl
  | reading run id token own =>
    have hstop := h.offReads_forgetToken token me
    have hrun := run.offReads_step h me bias.tail
    simp only [step] at hs
    split at hs
    · cases hs
      exact .off _ hstop
    · split at hs <;> rename_i hr <;> rw [hr] at hrun
      · split at hs <;> cases hs
        · exact .off _ (hrun.trans (Host.offReads_forgetToken _ _ _))
        · exact .off _ (hrun.trans (Host.offReads_awaitToken _ _ _))
      · cases hs
        exact .off _ hrun
      · exact readStep_finish h (hrun.trans (Host.offReads_forgetToken _ _ _)) id token _ hs _
  | stopping abort run result id token =>
    exact readStep_stopping h me bias abort run result id token hs

theorem readStep_abandon (call : ReadCall) :
    ReadStep h (call.abandon h me) none call.id? none := by
  cases call with
  | start commandLine token => exact .off none (.refl h)
  | console call => exact .off none (call.offReads_abandon h me)
  | clearing abort token => exact .off none (abort.offReads_abandon h)
  | enter token => exact .off none (.refl h)
  | reading run id token own =>
    exact .leave id ((run.offReads_abandon h me).trans (Host.offReads_forgetToken _ _ _)) rfl
  | stopping abort run result id token =>
    have habort : h.OffReads (abort.elim h fun a => a.abandon h) := by
      cases abort with
      | none => exact .refl h
      | some abort => exact abort.offReads_abandon h
    cases run with
    | none => exact .leave id habort rfl
    | some run => exact .leave id (habort.trans (run.offReads_abandon _ me)) rfl

end ReadCall

namespace Task

variable (h : Host) (me : Nat)

/-- A call that has nothing to do with the line editor. -/
theorem readStep_map {σ α : Type} {k : Host} (ho : h.OffReads k) (p : Poll σ α) {task : Task}
    {f : σ → Task} {g : α → TaskResult} (htask : task.readId? = none)
    (hf : ∀ s, (f s).readId? = none) :
    ReadStep h k none none (((p.map f g).task? task).bind readId?) := by
  cases p with
  | blocked =>
    rw [Poll.map, Poll.task?, Option.bind_some, htask]
    exact .off none ho
  | next s =>
    rw [Poll.map, Poll.task?, Option.bind_some, hf]
    exact .off none ho
  | done a => exact .off none ho

theorem readStep (bias : List Bool) (task : Task) :
    ReadStep h (task.step h me bias).1 task.entering? task.readId?
      (((task.step h me bias).2.task? task).bind readId?) := by
  cases task with
  | read call =>
    rcases hp : call.step h me bias with ⟨k, p⟩
    have hcall := call.readStep h me bias hp
    simp only [step, hp]
    cases p <;> exact hcall
  | command call sink =>
    exact readStep_map h (call.offReads_step h me bias) _ rfl fun _ => rfl
  | idle call sink => exact readStep_map h (call.offReads_step h me) _ rfl fun _ => rfl
  | line call => exact readStep_map h (call.offReads_step h me bias) _ rfl fun _ => rfl
  | abort call => exact readStep_map h (call.offReads_step h me bias) _ rfl fun _ => rfl
  | exit call => exact readStep_map h (call.offReads_step h me) _ rfl fun _ => rfl
  | lease call => exact readStep_map h (call.offReads_step h me) _ rfl fun _ => rfl
  | key call => exact readStep_map h (call.offReads_step h me bias) _ rfl fun _ => rfl

theorem readStep_abandon (task : Task) : ReadStep h (task.abandon h me) none task.readId? none := by
  cases task with
  | read call => exact call.readStep_abandon h me
  | command call sink => exact .off none (call.offReads_abandon h me)
  | idle call sink => exact .off none (call.offReads_abandon h)
  | line call => exact .off none (call.offReads_abandon h me)
  | abort call => exact .off none (call.offReads_abandon h)
  | exit call => exact .off none (call.offReads_abandon h)
  | lease call => exact .off none (call.offReads_abandon h)
  | key call => exact .off none (call.offReads_abandon h me)

end Task

/-! ## What an event does to the reads -/

/-- What counts as the latest read when the read `id` has ended. -/
def EditorReads.without (r : EditorReads) (id : Nat) : EditorReads :=
  if r.active.map Prod.fst = some id then { r with active := none } else r

theorem ReadCall.reads_clearActive (h : Host) (id : Nat) :
    (clearActive h id).reads = (h.editor.without id, h.reads.2) := by
  unfold clearActive EditorReads.without
  cases hactive : h.editor.active with
  | none => rfl
  | some r =>
    by_cases hr : r.1 = id
    · simp [hr, Host.reads]
    · simp [hr, Host.reads]

theorem ReadCall.clearActive_eq (h : Host) (id : Nat) :
    clearActive h id = { h with editor := (clearActive h id).editor } := by
  unfold clearActive
  split
  · split <;> rfl
  · rfl

def Event.ofTask : Event → Bool
  | .poll .. | .start _ | .drop _ => true
  | _ => false

namespace Host

variable (h : Host)

theorem offReads_setThread (id : Nat) (stack : List Activation) :
    h.OffReads (h.setThread id stack) := by
  unfold setThread
  split <;> exact .same rfl rfl

theorem offReads_teardown : h.OffReads h.teardown := by
  have hfold (k : Host) (l : List Nat) : k.OffReads (l.foldl (fun h _ =>
      h.notice (.resubscribeFailed (.subscribe "idle" Engine.injected))) k) := by
    induction l generalizing k with
    | nil => exact .refl k
    | cons _ rest ih => exact (ih _).after rfl rfl
  exact (hfold _ _).after rfl rfl

theorem offReads_apply {e : Event} (he : e.ofTask = false) : h.OffReads (h.apply e) := by
  have hcreate := h.offReads_createPipeline .nested
  cases e with
  | poll t bias => cases he
  | start call => cases he
  | drop t => cases he
  | advance id =>
    simp only [apply, stepThread]
    split
    · exact .refl h
    · split
      · exact .refl h
      next hs => exact (Activation.offReads_step hs).trans (offReads_setThread _ _ _)
  | release owner =>
    simp only [apply, releaseOwned]
    split
    · exact (offReads_releasePermit _ _).after rfl rfl
    · exact .refl h
  | fire token => exact h.offReads_fireToken token
  | key k => exact h.offReads_pushKey k
  | teardown => exact h.offReads_teardown
  | enter kind => exact h.offReads_enterPrompt kind
  | leave => exact h.offReads_leavePrompt
  | push debugger =>
    simp only [apply, pushPrompt]
    split <;> rename_i hr <;> rw [hr] at hcreate
    · exact hcreate
    · exact hcreate.trans (.same rfl rfl)
  | pushLeased debugger =>
    simp only [apply, pushLeasedPrompt]
    split <;> rename_i hr <;> rw [hr] at hcreate
    · exact hcreate
    · exact hcreate.trans (.same rfl rfl)
  | lock pipeline =>
    simp only [apply]
    split <;> exact .same rfl rfl
  | _ => exact .same rfl rfl

theorem tasks_apply {e : Event} (he : e.ofTask = false) : (h.apply e).tasks = h.tasks := by
  obtain ⟨k, hk, hnext⟩ : ∃ k, h.apply e = k ∧ h.Next e k := ⟨_, rfl, h.next_apply e⟩
  rw [hk]
  cases hnext with
  | plain hs => exact (hs 0).sameCalls.tasks
  | polled _ _ => cases he
  | advanced _ hs => rw [setThread_eq, (Activation.step_shifts 0 hs).sameCalls.tasks]
  | started _ => cases he
  | dropped _ => cases he
  | released _ => exact (sameCalls_releasePermit _ _).tasks
  | idle => rfl
  | pushed hq => exact hq.tasks

def readOf? (h : Host) (t : Nat) : Option Nat := (h.task? t).bind Task.readId?

def enters? (h : Host) : Event → Option EditorRead
  | .poll t _ => ((h.task? t).bind Task.entering?).map fun caller =>
      ⟨t, h.editor.nextId, caller, h.tokens.all.length⟩
  | _ => none

/-- What an event does to the reads: nothing, or one is entered, or one ends. -/
inductive ReadTurn (h h' : Host) : Option EditorRead → Prop where
  | off (ho : h.OffReads h') (hsame : ∀ t, h'.readOf? t = h.readOf? t) : ReadTurn h h' none
  | entered (x : EditorRead) (hid : x.id = h.editor.nextId) (hown : x.own = h.tokens.all.length)
      (hreads : h'.reads = (⟨some (x.id, x.own), x.id + 1⟩, h.reads.2))
      (htokens : h'.tokens = (h.tokens.derive x.caller).2)
      (hnew : ∀ t, h'.readOf? t = if t = x.task then some x.id else h.readOf? t) :
      ReadTurn h h' (some x)
  | ended {t id : Nat} (hold : h.readOf? t = some id)
      (hreads : h'.reads = (h.editor.without id, h.reads.2)) (htokens : h.tokens.Steps h'.tokens)
      (hgone : ∀ u, h'.readOf? u = if u = t then none else h.readOf? u) : ReadTurn h h' none

variable {h}

/-- What one task does to the reads, an event does. -/
theorem readTurn_of_readStep {k h' : Host} {t : Nat} {entering before after : Option Nat}
    (hs : ReadStep h k entering before after) (hreads : h'.reads = k.reads)
    (htokens : h'.tokens = k.tokens) (hbefore : h.readOf? t = before)
    (hafter : ∀ u, h'.readOf? u = if u = t then after else h.readOf? u) :
    ReadTurn h h' (entering.map fun caller => ⟨t, h.editor.nextId, caller, h.tokens.all.length⟩) := by
  cases hs with
  | off id ho =>
    refine .off (ho.trans (.same hreads htokens)) fun u => ?_
    rw [hafter]
    split
    next hu => rw [hu, hbefore]
    next => rfl
  | enter token hk =>
    rw [hk] at hreads htokens
    refine .entered _ rfl rfl ?_ htokens hafter
    rw [hreads]
    simp only [ReadCall.enterRead, reads, deriveToken, newSink, Tokens.derive_fst]
  | leave id ho hk =>
    rw [hk] at hreads htokens
    refine .ended hbefore ?_ ?_ hafter
    · rw [hreads, ReadCall.reads_clearActive, ho.editor, ho.reads]
    · rw [htokens, ReadCall.clearActive_eq]
      exact ho.tokens

theorem readTurn_apply (hn : h.Numbered) (e : Event) : h.ReadTurn (h.apply e) (h.enters? e) := by
  have hoff (he : e.ofTask = false) : h.ReadTurn (h.apply e) none := by
    apply ReadTurn.off (h.offReads_apply he)
    intro t
    rw [readOf?, readOf?, task?, task?, h.tasks_apply he]
  have hsame : h.ReadTurn h none := .off (.refl h) fun _ => rfl
  cases e with
  | poll t bias =>
    cases ht : h.task? t with
    | none =>
      simp only [apply, stepTask, enters?, ht]
      exact hsame
    | some task =>
      have hread := task.readStep h t bias
      have htasks := (task.step_moves h t 0 bias).spawns.tasks
      rcases hs : task.step h t bias with ⟨k, r⟩
      rw [hs] at hread htasks
      rw [apply_poll ht hs, enters?, ht, Option.bind_some]
      have hk (u : Nat) : k.task? u = h.task? u := by rw [task?, htasks, task?]
      have hfiled : (k.afterPoll t r).reads = k.reads ∧ (k.afterPoll t r).tokens = k.tokens := by
        rcases r with _ | _ | (_ | _ | _ | _ | _) <;> exact ⟨rfl, rfl⟩
      refine readTurn_of_readStep hread hfiled.1 hfiled.2 (by rw [readOf?, ht, Option.bind_some])
        fun u => ?_
      · split
        next hu => rw [readOf?, hu, task?_afterPoll_self ((hk t).trans ht)]
        next hu => rw [readOf?, task?_afterPoll_ne _ hu, hk, readOf?]
  | drop t =>
    cases ht : h.task? t with
    | none =>
      simp only [apply, dropTask, ht]
      exact hsame
    | some task =>
      have hs := task.readStep_abandon h t
      have htasks := (task.abandon_moves h t 0).moves.spawns.tasks
      rw [apply_drop ht]
      refine readTurn_of_readStep hs rfl rfl (by rw [readOf?, ht, Option.bind_some]) fun u => ?_
      split
      next hu =>
        rw [readOf?, hu, task?, removeTask, lookup_remove_self]
        rfl
      next hu => rw [readOf?, task?, removeTask, lookup_remove_ne _ t hu, htasks, readOf?, task?]
  | start call =>
    have hwake := (h.addTask call.task).aside_wake h.nextTask
    refine .off ((offReads_wake _ _).after rfl rfl) fun t => ?_
    change ((h.addTask call.task).wake h.nextTask).readOf? t = _
    rw [readOf?, task?, hwake.tasks, ← task?]
    by_cases ht : t = h.nextTask
    · rw [ht, task?_addTask_self hn, readOf?, task?_nextTask hn]
      cases call <;> rfl
    · rw [task?_addTask_ne h _ ht, readOf?]
  | _ => exact hoff rfl

/-- An event does with the tokens what can be done with tokens. -/
theorem steps_tokens_apply (hn : h.Numbered) (e : Event) :
    h.tokens.Steps (h.apply e).tokens := by
  have hturn := readTurn_apply hn e
  generalize h.enters? e = d at hturn
  cases hturn with
  | off ho _ => exact ho.tokens
  | entered x _ _ _ htokens _ =>
    rw [htokens]
    exact .single (.derive _ _)
  | ended _ _ htokens _ => exact htokens

theorem steps_tokens_run (hk : h.WellKept) (past : List Event) :
    h.tokens.Steps (h.run past).tokens := by
  induction past using List.reverseRecOn with
  | nil => exact .refl
  | append_singleton past e ih =>
    rw [run_concat]
    exact ih.trans (steps_tokens_apply (hk.run past).numbered e)

end Host

end SharedPrompt
