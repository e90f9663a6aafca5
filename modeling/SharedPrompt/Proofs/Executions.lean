import SharedPrompt.Proofs.Numbered

/-!
# The execution inside a task

A command and a read each come to one execution. A step of such a task steps its execution, or
begins it, or has to do with leases only.
-/

namespace SharedPrompt

open Relation

namespace Task

def execution? : Task → Option Execution
  | command (.running run) _ => some run
  | read (.reading run _ _ _) => some run
  | read (.stopping _ run _ _ _) => run
  | _ => none

/-- Whether a task has come to its execution, be it over by now. -/
def hasBegun : Task → Bool
  | command (.running _) _ => true
  | read (.reading _ _ _ _) => true
  | read (.stopping _ _ _ _ _) => true
  | _ => false

/-- The execution that a poll of a task steps, with the words of the bias that are left for it. A
read that is being stopped steps its execution only while the stop is blocked. -/
def stepped? (h : Host) (me : Nat) (bias : List Bool) : Task → Option (Execution × List Bool)
  | command (.running run) _ => some (run, bias)
  | read (.reading run _ token _) =>
    if bias.headD false && h.tokens.isFired token then none else some (run, bias.tail)
  | read (.stopping none (some run) _ _ _) => some (run, bias)
  | read (.stopping (some stop) (some run) _ _ _) =>
    match (stop.step h me bias).2 with
    | .blocked => some (run, bias.tail)
    | _ => none
  | _ => none

end Task

theorem Task.hasBegun_of_execution? {task : Task} {run : Execution}
    (hrun : task.execution? = some run) : task.hasBegun = true := by
  unfold execution? at hrun
  split at hrun
  · rfl
  · rfl
  · rfl
  · cases hrun

def Poll.execution? (before : Task) : Poll Task TaskResult → Option Execution
  | blocked => before.execution?
  | next task => task.execution?
  | done _ => none

def Poll.hasBegun (before : Task) : Poll Task TaskResult → Bool
  | blocked => before.hasBegun
  | next task => task.hasBegun
  | done _ => true

def Poll.after (before : Execution) : Poll Execution RunResult → Option Execution
  | blocked => some before
  | next run => some run
  | done _ => none

/-! ## Calls that are blocked change nothing -/

theorem Leasing.step_blocked {h k : Host} {me : Nat} {l : Leasing}
    (hs : l.step h me = (k, .blocked)) : k = h := by
  have hgranted (line gate : Nat) (purpose : Purpose) : purpose.granted line gate ≠ .blocked := by
    intro hblocked
    cases purpose <;> cases hblocked
  cases l with
  | choose readLine => cases readLine <;> cases hs
  | ask g purpose =>
    simp only [step] at hs
    split at hs
    · exact absurd (Prod.mk.inj hs).2 (hgranted _ _ _)
    · cases hs
  | wait g w purpose =>
    simp only [step] at hs
    split at hs
    · exact absurd (Prod.mk.inj hs).2 (hgranted _ _ _)
    · exact (Prod.mk.inj hs).1.symm

theorem IdleCall.step_blocked {h k : Host} {me : Nat} {call : IdleCall}
    (hs : call.step h me = (k, .blocked)) : k = h := by
  cases call with
  | start job => cases hs
  | queued w job =>
    simp only [step] at hs
    split at hs
    · cases hs
    · exact (Prod.mk.inj hs).1.symm
  | install job => cases hs
  | parked id reply =>
    simp only [step] at hs
    split at hs
    · cases hs
    · exact (Prod.mk.inj hs).1.symm
    · cases hs

namespace AbortCall

theorem stepExit_blocked {h k : Host} {me : Nat} {call : IdleCall} {lease : Leasing}
    (hs : stepExit h me call lease = (k, .blocked)) : k = h := by
  simp only [stepExit] at hs
  split at hs
  · rename_i hr
    rw [← (Prod.mk.inj hs).1]
    exact Leasing.step_blocked hr
  · cases hs
  · cases hs

theorem stepRevert_blocked {h k : Host} {me : Nat} {call : IdleCall} {lease : Leasing}
    (hs : stepRevert h me call lease = (k, .blocked)) : k = h := by
  simp only [stepRevert] at hs
  split at hs
  · rename_i hr
    rw [← (Prod.mk.inj hs).1]
    exact IdleCall.step_blocked hr
  · cases hs
  · cases hs

theorem step_blocked {h k : Host} {me : Nat} {bias : List Bool} {abort : AbortCall}
    (hs : abort.step h me bias = (k, .blocked)) : k = h := by
  cases abort with
  | start =>
    simp only [step, begin] at hs
    split at hs
    · cases hs
    · split at hs
      · cases hs
      · split at hs <;> cases hs
  | exiting lease =>
    simp only [step] at hs
    split at hs
    · rename_i hr
      rw [← (Prod.mk.inj hs).1]
      exact Leasing.step_blocked hr
    · cases hs
    · cases hs
  | reverting call lease =>
    simp only [step] at hs
    split at hs
    · split at hs
      · rename_i hr
        rw [stepRevert_blocked hs, stepExit_blocked hr]
      · exact stepExit_blocked hs
    · split at hs
      · rename_i hr
        rw [stepExit_blocked hs, stepRevert_blocked hr]
      · exact stepRevert_blocked hs

end AbortCall

/-! ## Steps of tasks -/

inductive Task.Stepped (h : Host) (me : Nat) (bias : List Bool) (task : Task) (h' : Host)
    (r : Poll Task TaskResult) : Prop where
  /-- The task has no execution, or leaves it as it is. -/
  | aloof {F G : Multiset Part} (hm : LeaseMoves (h, F) (h', G))
      (hrun : r.execution? task = task.execution?)
      (hbegun : task.hasBegun = true → r.hasBegun task = true)
      (hnone : task.stepped? h me bias = none)
  | begun {F G : Multiset Part} (hm : LeaseMoves (h, F) (h', G)) (hbefore : task.execution? = none)
      (hfresh : task.hasBegun = false) (job : Job) (hrun : r.execution? task = some (.start job))
      (hnone : task.stepped? h me bias = none)
  | stepped (run : Execution) (b : List Bool) (hbefore : task.execution? = some run)
      (ha : (run.step h me b).1.Aside h')
      (hrun : r.execution? task = (run.step h me b).2.after run)
      (hbegun : r.hasBegun task = true) (hsome : task.stepped? h me bias = some (run, b))

namespace Task

variable (h : Host) (me : Nat) (bias : List Bool)

theorem Stepped.of_aside {h : Host} {me : Nat} {bias : List Bool} {task : Task} {h' : Host}
    {r : Poll Task TaskResult} (ha : h.Aside h') (hrun : r.execution? task = task.execution?)
    (hbegun : task.hasBegun = true → r.hasBegun task = true)
    (hnone : task.stepped? h me bias = none) : Stepped h me bias task h' r :=
  .aloof (LeaseMoves.aside (c := 0) ha) hrun hbegun hnone

theorem Stepped.of_step {h k : Host} {me : Nat} {bias b : List Bool} {task : Task} {h' : Host}
    {r : Poll Task TaskResult} {run : Execution} {x : Poll Execution RunResult}
    (hr : run.step h me b = (k, x)) (hbefore : task.execution? = some run) (ha : k.Aside h')
    (hrun : r.execution? task = x.after run) (hbegun : r.hasBegun task = true)
    (hsome : task.stepped? h me bias = some (run, b)) : Stepped h me bias task h' r := by
  refine .stepped run b hbefore ?_ ?_ hbegun hsome
  · rwa [hr]
  · rwa [hr]

private theorem begun_of_fresh {task : Task} {b : Bool} (hfresh : task.hasBegun = false)
    (hbegun : task.hasBegun = true) : b = true :=
  absurd (hfresh.symm.trans hbegun) Bool.false_ne_true

theorem stepped_command (call : CommandCall) (sink : Option Nat) :
    Stepped h me bias (command call sink) ((command call sink).step h me bias).1
      ((command call sink).step h me bias).2 := by
  cases call with
  | start job =>
    simp only [step, CommandCall.step, Poll.map]
    split
    · exact .of_aside (.refl h) rfl (begun_of_fresh rfl) rfl
    · exact .begun (LeaseMoves.aside (c := 0) (.refl h)) rfl rfl job rfl rfl
  | aborting abort job =>
    refine .aloof (abort.step_moves h me 0 bias) ?_ (begun_of_fresh rfl) rfl
    simp only [step, CommandCall.step]
    cases (abort.step h me bias).2 <;> rfl
  | exiting exit job =>
    have hm := exit.step_moves h me 0
    rcases hr : exit.step h me with ⟨k, r⟩
    rw [hr] at hm
    simp only [step, CommandCall.step, hr]
    cases r with
    | blocked => exact .aloof hm rfl (begun_of_fresh rfl) rfl
    | next exit' => exact .aloof hm rfl (begun_of_fresh rfl) rfl
    | done a => exact .begun hm rfl rfl job rfl rfl
  | running run =>
    refine .stepped run bias rfl (.refl _) ?_ ?_ rfl
    · simp only [step, CommandCall.step]
      cases (run.step h me bias).2 <;> rfl
    · simp only [step, CommandCall.step]
      cases (run.step h me bias).2 <;> rfl

theorem stepped_stopping (abort : Option AbortCall) (run : Option Execution)
    (result : Option RunResult) (id token : Nat) :
    Stepped h me bias (read (.stopping abort run result id token))
      ((read (.stopping abort run result id token)).step h me bias).1
      ((read (.stopping abort run result id token)).step h me bias).2 := by
  rcases abort with - | abort
  · rcases run with - | run
    · rcases result with - | result
      · exact .of_aside (.refl h) rfl (fun _ => rfl) rfl
      · exact .of_aside (ReadCall.aside_clearActive h id) rfl (fun _ => rfl) rfl
    · rcases hr : run.step h me bias with ⟨k, r⟩
      have hstep : (ReadCall.stopping none (some run) result id token).step h me bias
          = ReadCall.stepRun h me bias run id token := rfl
      simp only [step, hstep, ReadCall.stepRun, hr]
      cases r with
      | blocked => exact .of_step hr rfl (.refl k) rfl rfl rfl
      | next run' => exact .of_step hr rfl (.refl k) rfl rfl rfl
      | done a => exact .of_step hr rfl (ReadCall.aside_clearActive k id) rfl rfl rfl
  · have hm := abort.step_moves h me 0 bias
    have hstepped : (read (.stopping (some abort) run result id token)).stepped? h me bias =
        match (abort.step h me bias).2 with
        | .blocked => run.map (·, bias.tail)
        | _ => none := by
      cases run with
      | none => cases (abort.step h me bias).2 <;> rfl
      | some run => rfl
    rcases hr : abort.step h me bias with ⟨k, r⟩
    rw [hr] at hm hstepped
    simp only [step, ReadCall.step, hr]
    cases r with
    | next abort' => exact .aloof hm rfl (fun _ => rfl) hstepped
    | done a => exact .aloof hm rfl (fun _ => rfl) hstepped
    | blocked =>
      -- The halves of a read are stepped one at a time: the second from the same host.
      obtain rfl := AbortCall.step_blocked hr
      rcases run with - | run
      · exact .aloof hm rfl (fun _ => rfl) hstepped
      · rcases hr' : run.step k me bias.tail with ⟨k', r⟩
        simp only [hr']
        cases r <;> exact .of_step hr' rfl (.refl k') rfl rfl hstepped

theorem stepped_read (call : ReadCall) :
    Stepped h me bias (read call) ((read call).step h me bias).1
      ((read call).step h me bias).2 := by
  cases call with
  | start commandLine token =>
    refine .of_aside ?_ ?_ (begun_of_fresh rfl) rfl
    · simp only [step, ReadCall.step]
      split
      · exact .refl h
      · split <;> exact .refl h
    · simp only [step, ReadCall.step]
      split
      · rfl
      · split
        · rfl
        · split <;> rfl
  | console call =>
    refine .of_aside (call.aside_step h me bias) ?_ (begun_of_fresh rfl) rfl
    simp only [step, ReadCall.step]
    cases (call.step h me bias).2 <;> rfl
  | clearing abort token =>
    refine .aloof (abort.step_moves h me 0 bias) ?_ (begun_of_fresh rfl) rfl
    simp only [step, ReadCall.step]
    cases (abort.step h me bias).2 <;> rfl
  | enter token =>
    exact .begun (LeaseMoves.aside (c := 0) (ReadCall.aside_enterRead h token)) rfl rfl _ rfl rfl
  | reading run id token own =>
    simp only [step, ReadCall.step]
    split
    next heager =>
      exact .of_aside (h.aside_forgetToken token me) rfl (fun _ => rfl) (if_pos heager)
    next heager =>
      have hstepped : (read (.reading run id token own)).stepped? h me bias =
          some (run, bias.tail) :=
        if_neg heager
      rcases hr : run.step h me bias.tail with ⟨k, r⟩
      cases r with
      | blocked =>
        dsimp only
        split
        · exact .of_step hr rfl (k.aside_forgetToken token me) rfl rfl hstepped
        · exact .of_step hr rfl (k.aside_awaitToken token me) rfl rfl hstepped
      | next run' => exact .of_step hr rfl (.refl k) rfl rfl hstepped
      | done a =>
        exact .of_step hr rfl
          ((k.aside_forgetToken token me).trans (ReadCall.aside_clearActive _ id)) rfl rfl hstepped
  | stopping abort run result id token => exact stepped_stopping h me bias abort run result id token

/-- A step of a task steps its execution, begins it, or leaves it alone. -/
theorem stepped (task : Task) :
    Stepped h me bias task (task.step h me bias).1 (task.step h me bias).2 := by
  have hnone {σ α : Type} (r : Poll σ α) (a : σ → Task) (b : α → TaskResult) (before : Task)
      (hbefore : before.execution? = none) (ha : ∀ s, (a s).execution? = none) :
      (r.map a b).execution? before = before.execution? := by
    cases r with
    | blocked => rfl
    | next s => exact (ha s).trans hbefore.symm
    | done x => exact hbefore.symm
  cases task with
  | command call sink => exact stepped_command h me bias call sink
  | read call => exact stepped_read h me bias call
  | idle call sink =>
    exact .of_aside (call.aside_step h me) (hnone _ _ _ _ rfl fun _ => rfl) (begun_of_fresh rfl) rfl
  | line call =>
    exact .of_aside (call.aside_step h me bias) (hnone _ _ _ _ rfl fun _ => rfl)
      (begun_of_fresh rfl) rfl
  | abort call =>
    exact .aloof (call.step_moves h me 0 bias) (hnone _ _ _ _ rfl fun _ => rfl)
      (begun_of_fresh rfl) rfl
  | exit call =>
    exact .aloof (call.step_moves h me 0) (hnone _ _ _ _ rfl fun _ => rfl) (begun_of_fresh rfl) rfl
  | lease call =>
    exact .aloof (ReflTransGen.single (.advance h 0 me call)) (hnone _ _ _ _ rfl fun _ => rfl)
      (begun_of_fresh rfl) rfl
  | key call =>
    exact .of_aside (call.aside_step h me bias) (hnone _ _ _ _ rfl fun _ => rfl)
      (begun_of_fresh rfl) rfl

end Task

/-! ## Steps of executions -/

/-- An execution before a lease, or one that has no lease. -/
inductive Execution.Waits : Execution → Option Execution → Prop where
  | ended (run : Execution) : Waits run none
  | same (run : Execution) : Waits run (some run)
  | park (job : Job) : Waits (.start job) (some (.idle (.start job) job.token))
  | lease (job : Job) : Waits (.start job) (some (.leasing (.choose job.options.readLine) job))
  | idle (call call' : IdleCall) (token : Nat) : Waits (.idle call token) (some (.idle call' token))

def Poll.afterLease (l : Leasing) (job : Job) : Poll Leasing Permit → Execution
  | blocked => .leasing l job
  | next l' => .leasing l' job
  | done permit => .granted permit job

inductive Execution.Turn (h : Host) (me : Nat) : Execution → Host → Option Execution → Prop where
  | aside {run : Execution} {h' : Host} {after : Option Execution} (ha : h.Aside h')
      (hw : run.Waits after) : Turn h me run h' after
  | lease (l : Leasing) (job : Job) {h' : Host} (ha : (l.step h me).1.Aside h') :
      Turn h me (.leasing l job) h' (some ((l.step h me).2.afterLease l job))
  /-- The token has fired first. -/
  | giveUp (l : Leasing) (job : Job) {k h' : Host} (hk : h.Aside k) (ha : (l.abandon k).Aside h') :
      Turn h me (.leasing l job) h' none
  | dispatch (permit : Permit) (job : Job) {h' : Host}
      (ha : (h.dispatch me permit job).2.Aside h') :
      Turn h me (.granted permit job) h' (some (.running h.replies.length))

theorem Execution.Turn.thenAside {h k h' : Host} {me : Nat} {run : Execution}
    {after : Option Execution} (ht : run.Turn h me k after) (hk : k.Aside h') :
    run.Turn h me h' after := by
  cases ht with
  | aside ha hw => exact .aside (ha.trans hk) hw
  | lease l job ha => exact .lease l job (ha.trans hk)
  | giveUp l job ha ha' => exact .giveUp l job ha (ha'.trans hk)
  | dispatch permit job ha => exact .dispatch permit job (ha.trans hk)

namespace Execution

variable (h : Host) (me : Nat) (bias : List Bool)

private theorem turn_leasing (l : Leasing) (job : Job) :
    Turn h me (.leasing l job) ((leasing l job).step h me bias).1
      (((leasing l job).step h me bias).2.after (leasing l job)) := by
  have hgive (k : Host) (hk : h.Aside k) :
      Turn h me (.leasing l job) (l.abandon (k.forgetToken job.token me)) none :=
    .giveUp l job (hk.trans (Host.aside_forgetToken _ _ _)) (.refl _)
  by_cases heager : (bias.headD false && h.tokens.isFired job.token) = true
  · simp only [step, Host.orFired, heager, if_true]
    exact hgive h (.refl h)
  · simp only [step, Host.orFired, heager, Bool.false_eq_true, if_false]
    rcases hr : l.step h me with ⟨k, r⟩
    have hturn {h' : Host} (ha : k.Aside h') :
        Turn h me (.leasing l job) h' (some (r.afterLease l job)) := by
      have hlease : (l.step h me).1.Aside h' →
          Turn h me (.leasing l job) h' (some ((l.step h me).2.afterLease l job)) := .lease l job
      rw [hr] at hlease
      exact hlease ha
    cases r with
    | next l' => exact hturn (.refl k)
    | done permit => exact hturn (k.aside_forgetToken _ _)
    | blocked =>
      obtain rfl := Leasing.step_blocked hr
      simp only [Poll.map]
      by_cases hfired : k.tokens.isFired job.token = true
      · simp only [hfired, if_true]
        exact hgive k (.refl k)
      · simp only [hfired, Bool.false_eq_true, if_false]
        exact hturn (k.aside_awaitToken _ _)

/-- A step of an execution is one of the turns. -/
theorem turn (run : Execution) :
    Turn h me run (run.step h me bias).1 ((run.step h me bias).2.after run) := by
  cases run with
  | start job =>
    refine .aside (.refl h) ?_
    simp only [step, Poll.after]
    split
    · exact .park job
    · exact .lease job
  | idle call token =>
    have ha := Host.aside_orFired h me token (bias.headD false) call.abandon (.error .cancelled)
      (call.step · me) (call.aside_step h me) fun k => call.aside_abandon k
    refine .aside ha ?_
    simp only [step]
    cases (h.orFired me token (bias.headD false) call.abandon (.error .cancelled)
      (call.step · me)).2 with
    | blocked => exact .same _
    | next call' => exact .idle call call' token
    | done r => exact .ended _
  | leasing l job => exact turn_leasing h me bias l job
  | granted permit job => exact .dispatch permit job (.refl _)
  | running reply =>
    simp only [step]
    split
    · exact .aside (h.aside_closeReply reply) (.ended _)
    · exact .aside (.refl h) (.same _)

end Execution

end SharedPrompt
