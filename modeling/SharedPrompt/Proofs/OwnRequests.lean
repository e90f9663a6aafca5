import SharedPrompt.Proofs.EditorErrands

/-!
# What tasks ask for

A task makes requests and sends errands for the job of its caller, for that of a read, or, while it
stops a read, to make the line editor give up its line. So if the jobs of callers and of reads have
something in common, then all that is asked for has it, except by tasks that stop a read.
-/

namespace SharedPrompt

/-- What is asked for with a note is a job of `P`, or a request of somebody who stops a read. -/
def Note.Asks (P : Job → Prop) (stopping : Bool) : Note → Prop
  | sent _ _ job => P job
  | parked _ request => stopping = true ∨ P request.job
  | _ => True

theorem Note.Asks.orStopping {P : Job → Prop} {d : Note} (hd : d.Asks P false) (stopping : Bool) :
    d.Asks P stopping := by
  cases d with
  | parked t q => exact .inr (hd.resolve_left Bool.false_ne_true)
  | _ => exact hd

def AskedFor (P : Job → Prop) (log : List Note) (ρ : Nat) : Prop :=
  ∃ d ∈ log, d.opens = true ∧ d.reply? = some ρ ∧ d.Asks P false

section
variable (P : Job → Prop) (log : List Note)

def IdleCall.For : IdleCall → Prop
  | start job => P job
  | queued _ job => P job
  | install job => P job
  | parked _ reply => AskedFor P log reply

def Execution.For : Execution → Prop
  | start job => P job
  | idle call _ => call.For P log
  | leasing _ job => P job
  | granted _ job => P job
  | running reply => AskedFor P log reply

def CommandCall.For : CommandCall → Prop
  | start job => P job
  | aborting _ job => P job
  | exiting _ job => P job
  | running run => run.For P log

def ReadCall.For (call : ReadCall) : Prop := ∀ run, call.execution? = some run → run.For P log

/-- A task whose own calls, all but those that stop a read, are for jobs of `P`. -/
def Task.For : Task → Prop
  | command call _ => call.For P log
  | idle call _ => call.For P log
  | read call => call.For P log
  | _ => True

end

def Task.aborting : Task → Bool
  | command (.aborting _ _) _ => true
  | read (.clearing _ _) => true
  | read (.stopping (some _) _ _ _ _) => true
  | abort _ => true
  | _ => false

section
variable {P : Job → Prop} {log log' : List Note} {h k : Host} {me : Nat} {bias : List Bool}

theorem AskedFor.mono {ρ : Nat} (ha : AskedFor P log ρ) (hle : log ⊆ log') : AskedFor P log' ρ :=
  let ⟨d, hd, hall⟩ := ha
  ⟨d, hle hd, hall⟩

/-! ## Steps of calls -/

namespace IdleCall

theorem For.mono {call : IdleCall} (hc : call.For P log) (hle : log ⊆ log') : call.For P log' := by
  cases call with
  | parked id reply => exact AskedFor.mono hc hle
  | _ => exact hc

theorem asks_true {call : IdleCall} {d : Note} (hd : call.note? h me = some d) :
    d.Asks P true := by
  cases call with
  | start job => cases hd; trivial
  | queued w job => cases hd
  | install job => cases hd; exact .inl rfl
  | parked id reply =>
    simp only [note?] at hd
    split at hd <;> cases hd <;> trivial

theorem For.asks {call : IdleCall} (hc : call.For P log) {d : Note} (hd : call.note? h me = some d) :
    d.Asks P false := by
  cases call with
  | start job => cases hd; trivial
  | queued w job => cases hd
  | install job => cases hd; exact .inr hc
  | parked id reply =>
    simp only [note?] at hd
    split at hd <;> cases hd <;> trivial

theorem For.next {call call' : IdleCall} (hc : call.For P log)
    (hs : call.step h me = (k, .next call')) :
    call'.For P (log ++ (call.note? h me).toList) := by
  cases call with
  | start job =>
    obtain ⟨-, hnext⟩ := Prod.mk.inj hs
    rw [← Poll.next.inj hnext]
    split <;> exact hc
  | queued w job =>
    simp only [step] at hs
    split at hs <;> cases hs
    exact hc
  | install job =>
    cases hs
    exact ⟨_, List.mem_append_right _ (List.mem_singleton_self _), rfl, rfl, .inr hc⟩
  | parked id reply =>
    simp only [step] at hs
    split at hs <;> cases hs

end IdleCall

namespace Execution

theorem For.mono {run : Execution} (hr : run.For P log) (hle : log ⊆ log') : run.For P log' := by
  cases run with
  | idle call token => exact IdleCall.For.mono hr hle
  | running reply => exact AskedFor.mono hr hle
  | _ => exact hr

theorem For.asks {run : Execution} (hr : run.For P log) {d : Note}
    (hd : run.note? h me bias = some d) : d.Asks P false := by
  cases run with
  | idle call token =>
    simp only [note?] at hd
    split at hd
    · cases hd
    · exact IdleCall.For.asks hr hd
  | granted permit job => cases hd; exact hr
  | running reply =>
    simp only [note?] at hd
    split at hd <;> cases hd
    trivial
  | _ => cases hd

theorem For.next {run run' : Execution} (hr : run.For P log)
    (hs : run.step h me bias = (k, .next run')) :
    run'.For P (log ++ (run.note? h me bias).toList) := by
  cases run with
  | start job =>
    obtain ⟨-, hnext⟩ := Prod.mk.inj hs
    rw [← Poll.next.inj hnext]
    split <;> exact hr
  | idle call token =>
    obtain ⟨call', hnext, rfl⟩ := Poll.map_eq_next (Prod.mk.inj hs).2
    simp only [Host.orFired] at hnext
    simp only [note?]
    split at hnext
    · cases hnext
    next heager =>
      rw [if_neg heager]
      split at hnext
      · split at hnext <;> cases hnext
      next hcall =>
        cases hnext
        exact IdleCall.For.next hr hcall
      · cases hnext
  | leasing lease job =>
    simp only [step] at hs
    split at hs <;> cases hs <;> exact hr
  | granted permit job =>
    cases hs
    exact ⟨_, List.mem_append_right _ (List.mem_singleton_self _), rfl, rfl, hr⟩
  | running reply =>
    simp only [step] at hs
    split at hs <;> cases hs

end Execution

theorem AbortCall.asks_true {abort : AbortCall} {d : Note}
    (hd : abort.note? h me bias = some d) : d.Asks P true := by
  cases abort with
  | reverting call lease =>
    simp only [note?] at hd
    split at hd
    · exact IdleCall.asks_true hd
    · exact IdleCall.asks_true hd
    · cases hd
  | _ => cases hd

namespace ReadCall

theorem For.asks {call : ReadCall} (hc : call.For P log) {d : Note}
    (hd : call.note? h me bias = some d) : d.Asks P (Task.read call).aborting := by
  cases call with
  | clearing abort token => exact AbortCall.asks_true hd
  | reading run id token own =>
    simp only [note?] at hd
    split at hd
    · cases hd
    · exact (hc run rfl).asks hd
  | stopping abort run result id token =>
    rcases abort with - | abort
    · rcases run with - | run
      · cases hd
      · exact (hc run rfl).asks hd
    · simp only [note?] at hd
      split at hd
      · rcases run with - | run
        · cases hd
        · exact ((hc run rfl).asks hd).orStopping true
      · exact AbortCall.asks_true hd
  | _ => cases hd

theorem For.next (hread : ∀ job : Job, job.IsRead → P job) {call call' : ReadCall}
    (hc : call.For P log) (hs : call.step h me bias = (k, .next call')) :
    call'.For P (log ++ (call.note? h me bias).toList) := by
  intro run' hrun
  rcases execution?_step hs hrun with ⟨job, hjob, rfl⟩ | hold | ⟨run, b, k', hold, hstep, hnote⟩
  · exact hread job hjob
  · exact (hc run' hold).mono (List.subset_append_left _ _)
  · rw [hnote]
    exact (hc run hold).next hstep

end ReadCall

namespace CommandCall

theorem For.asks {call : CommandCall} (hc : call.For P log) (sink : Option Nat) {d : Note}
    (hd : call.note? h me bias = some d) : d.Asks P (Task.command call sink).aborting := by
  cases call with
  | aborting abort job => exact AbortCall.asks_true hd
  | running run => exact Execution.For.asks hc hd
  | _ => cases hd

theorem For.next {call call' : CommandCall} (hc : call.For P log)
    (hs : call.step h me bias = (k, .next call')) :
    call'.For P (log ++ (call.note? h me bias).toList) := by
  cases call with
  | start job =>
    obtain ⟨-, hnext⟩ := Prod.mk.inj hs
    rw [← Poll.next.inj hnext]
    split <;> exact hc
  | aborting abort job =>
    obtain ⟨-, hnext⟩ := Prod.mk.inj hs
    cases hr : (abort.step h me bias).2 <;> rw [hr] at hnext <;> cases hnext <;> exact hc
  | exiting exit job =>
    obtain ⟨-, hnext⟩ := Prod.mk.inj hs
    cases hr : (exit.step h me).2 <;> rw [hr] at hnext <;> cases hnext <;> exact hc
  | running run =>
    obtain ⟨rfl, hnext⟩ := Prod.mk.inj hs
    obtain ⟨run', hrun, rfl⟩ := Poll.map_eq_next hnext
    exact Execution.For.next hc (Prod.ext rfl hrun)

end CommandCall

namespace Task

theorem For.asks {task : Task} (ht : task.For P log) {d : Note} (hd : task.note? h me bias = some d) :
    d.Asks P task.aborting := by
  cases task with
  | command call sink => exact CommandCall.For.asks ht sink hd
  | idle call sink => exact IdleCall.For.asks ht hd
  | read call => exact ReadCall.For.asks ht hd
  | abort call => exact AbortCall.asks_true hd
  | _ => cases hd

theorem For.next (hread : ∀ job : Job, job.IsRead → P job) {task task' : Task}
    (ht : task.For P log) (hs : task.step h me bias = (k, .next task')) :
    task'.For P (log ++ (task.note? h me bias).toList) := by
  obtain ⟨rfl, hnext⟩ := Prod.mk.inj hs
  cases task with
  | command call sink =>
    obtain ⟨call', hcall, rfl⟩ := Poll.map_eq_next hnext
    exact CommandCall.For.next ht (Prod.ext rfl hcall)
  | idle call sink =>
    obtain ⟨call', hcall, rfl⟩ := Poll.map_eq_next hnext
    exact IdleCall.For.next ht (Prod.ext rfl hcall)
  | read call =>
    obtain ⟨call', hcall, rfl⟩ := Poll.map_eq_next hnext
    exact ReadCall.For.next hread ht (Prod.ext rfl hcall)
  | _ =>
    obtain ⟨call', -, rfl⟩ := Poll.map_eq_next hnext
    trivial

theorem For.mono {task : Task} (ht : task.For P log) (hle : log ⊆ log') : task.For P log' := by
  cases task with
  | command call sink =>
    cases call with
    | running run => exact Execution.For.mono ht hle
    | _ => exact ht
  | idle call sink => exact IdleCall.For.mono ht hle
  | read call => exact fun run hrun => (ht run hrun).mono hle
  | _ => trivial

/-- What a task that stops no read awaits was asked for a job of `P`. -/
theorem For.stake {task : Task} (ht : task.For P log) (hnot : task.aborting = false) {x : Stake}
    (hx : x ∈ task.stakes me) {ρ : Nat} (hρ : x.reply? = some ρ) : AskedFor P log ρ := by
  have hidle {call : IdleCall} (hc : call.For P log) (hρ : (Stake.call me call).reply? = some ρ) :
      AskedFor P log ρ := by
    cases call with
    | parked id reply => cases hρ; exact hc
    | _ => cases hρ
  have hrun {run : Execution} (hr : run.For P log) (hx : x ∈ run.stakes me) :
      AskedFor P log ρ := by
    cases run with
    | idle call token =>
      rw [List.mem_singleton.1 hx] at hρ
      exact hidle hr hρ
    | running reply =>
      rw [List.mem_singleton.1 hx] at hρ
      cases hρ
      exact hr
    | _ => cases hx
  cases task with
  | command call sink =>
    cases call with
    | aborting abort job => cases hnot
    | running run => exact hrun ht hx
    | _ => cases hx
  | idle call sink =>
    rw [List.mem_singleton.1 hx] at hρ
    exact hidle ht hρ
  | read call =>
    cases call with
    | clearing abort token => cases hnot
    | reading run id token own => exact hrun (ht run rfl) hx
    | stopping abort run result id token =>
      cases abort with
      | none =>
        cases run with
        | none => cases hx
        | some run => exact hrun (ht run rfl) hx
      | some abort => cases hnot
    | _ => cases hx
  | abort call => cases hnot
  | _ => cases hx

end Task

end

/-! ## In a run -/

def Start.job? : Start → Option Job
  | command job _ => some job
  | run job _ => some job
  | idle job _ => some job
  | _ => none

def Event.job? : Event → Option Job
  | start call => call.job?
  | _ => none

namespace Host

def unaborted (h : Host) : Bool := h.tasks.all fun t => !t.2.aborting

theorem aborting_eq_false {h : Host} (hu : h.unaborted = true) {t : Nat} {task : Task}
    (ht : (t, task) ∈ h.tasks) : task.aborting = false := by
  simpa using List.all_eq_true.1 hu _ ht

def TasksFor (P : Job → Prop) (h : Host) (log : List Note) : Prop :=
  ∀ t task, h.task? t = some task → task.For P log

variable {P : Job → Prop} {h : Host} {log : List Note}

theorem TasksFor.apply (hread : ∀ job : Job, job.IsRead → P job) (hall : h.TasksFor P log)
    (hn : h.Numbered) {e : Event} (he : ∀ job, e.job? = some job → P job) :
    (h.apply e).TasksFor P (log ++ (h.note? e).toList) := by
  intro t task' ht
  have hsame (ht : h.task? t = some task') : task'.For P (log ++ (h.note? e).toList) :=
    (hall t task' ht).mono (List.subset_append_left _ _)
  cases task?_apply hn ht with
  | same ht => exact hsame ht
  | started call _ hcall =>
    subst hcall
    cases call with
    | command job sink => exact he job rfl
    | run job sink => exact he job rfl
    | idle job sink => exact he job rfl
    | read commandLine token => exact fun run hrun => by cases hrun
    | _ => trivial
  | @polled bias task k r hbefore hs _ hafter =>
    cases r with
    | blocked =>
      cases hafter
      exact hsame hbefore
    | done r => cases hafter
    | next task'' =>
      cases hafter
      rw [note?, hbefore, Option.bind_some]
      exact (hall t task hbefore).next hread hs

/-- If the jobs of reads and of all callers are of `P`, then all tasks are for such jobs. -/
theorem Fresh.tasksFor {start : Host} (hf : start.Fresh)
    (hread : ∀ job : Job, job.IsRead → P job) {past : List Event}
    (hcalls : ∀ e ∈ past, ∀ job, e.job? = some job → P job) :
    (start.run past).TasksFor P (start.notes past) := by
  induction past using List.reverseRecOn with
  | nil =>
    intro t task ht
    rw [Host.run, List.foldl_nil, task?, hf.tasks] at ht
    cases ht
  | append_singleton past e ih =>
    rw [run_concat, notes_concat]
    refine (ih fun e' he' => hcalls e' (List.mem_append_left _ he')).apply hread
      (hf.kept.run past).numbered (hcalls e ?_)
    exact List.mem_append_right _ (List.mem_singleton_self e)

/-- What is asked for is a job of `P`, unless a task asks for it that stops a read. -/
theorem TasksFor.asks (hall : h.TasksFor P log) {e : Event} {d : Note} (hd : h.note? e = some d) :
    d.Asks P (!h.unaborted) := by
  cases e with
  | poll t bias =>
    obtain ⟨task, ht, hd⟩ := Option.bind_eq_some_iff.1 hd
    have hasks := (hall t task ht).asks hd
    cases hu : h.unaborted with
    | true => rwa [aborting_eq_false hu (mem_of_lookup ht)] at hasks
    | false =>
      cases haborting : task.aborting with
      | true => rwa [haborting] at hasks
      | false =>
        rw [haborting] at hasks
        exact hasks.orStopping true
  | advance id =>
    obtain ⟨th, -, hd⟩ := Option.bind_eq_some_iff.1 hd
    have hopens := Activation.opens_eq_false hd
    cases d with
    | sent t ρ job => cases hopens
    | parked t q => cases hopens
    | _ => trivial
  | _ => cases hd

/-- While no task stops a read, all that is awaited was asked for a job of `P`. -/
theorem TasksFor.stake (hall : h.TasksFor P log) (hn : h.Numbered) (hu : h.unaborted = true)
    {x : Stake} (hx : x ∈ h.stakes) {ρ : Nat} (hρ : x.reply? = some ρ) : AskedFor P log ρ := by
  obtain ⟨⟨t, task⟩, hmem, hx⟩ := mem_stakes.1 hx
  exact (hall t task (lookup_of_mem (List.nodup_append.1 hn.owners).1 hmem)).stake (aborting_eq_false hu hmem) hx hρ

end Host

end SharedPrompt
