import SharedPrompt.Proofs.Polls

/-!
# What becomes of a request

Each request for an idle moment and each errand has a reply of its own, and by that it is followed
from the task that makes it to the thread that has the engine run it, and back. What is noted of it
on the way is the course of its life: it waits in the idle slot, it is in the hands of a thread, the
engine has begun, there is an answer, and the call has returned.
-/

namespace SharedPrompt

inductive Note where
  /-- A call for an idle moment takes its place among the others. -/
  | called (waiter : Waiter) (job : Job)
  /-- The call whose turn it is leaves its request in the slot. -/
  | parked (task : Nat) (request : Parked)
  /-- An execution sends a thread with its job. -/
  | sent (task reply : Nat) (job : Job)
  /-- An idle moment takes the request out of the slot. -/
  | took (request : Parked)
  /-- The engine begins to run a job. -/
  | began (reply : Nat) (job : Job)
  /-- A thread finds the token of its job fired, and the engine does not begin. -/
  | refused (reply : Nat)
  /-- The engine is done with a job, or has failed to make a pipeline for it. -/
  | ended (reply : Nat) (result : RunResult)
  /-- A call returns with what has become of its job. -/
  | returned (task reply : Nat) (result : RunResult)

inductive Life.Phase where
  | waiting
  | unbegun
  | begun
  | settled (result : RunResult)
  | returned

structure Life where
  task : Nat
  /-- Whether it waits for an idle moment. -/
  idle : Bool
  job : Job
  phase : Life.Phase

namespace Note

def reply? : Note → Option Nat
  | called _ _ => none
  | parked _ request => some request.reply
  | sent _ reply _ => some reply
  | took request => some request.reply
  | began reply _ => some reply
  | refused reply => some reply
  | ended reply _ => some reply
  | returned _ reply _ => some reply

def called? : Note → Option (Waiter × Job)
  | called waiter job => some (waiter, job)
  | _ => none

def took? : Note → Option Parked
  | took request => some request
  | _ => none

def command? : Note → Option (Options × Command)
  | began _ job => some (job.options, job.command)
  | _ => none

def after : Note → Option Life → Option Life
  | called _ _, l => l
  | parked task request, _ => some ⟨task, true, request.job, .waiting⟩
  | sent task _ job, _ => some ⟨task, false, job, .unbegun⟩
  | took _, l => l.map ({ · with phase := .unbegun })
  | began _ _, l => l.map ({ · with phase := .begun })
  | refused _, l => l.map ({ · with phase := .settled (.error .cancelled) })
  | ended _ result, l => l.map ({ · with phase := .settled result })
  | returned _ _ _, l => l.map ({ · with phase := .returned })

def Allowed : Note → Option Life → Prop
  | called _ _, _ => True
  | parked _ _, l => l = none
  | sent _ _ _, l => l = none
  | took request, l => ∃ t, l = some ⟨t, true, request.job, .waiting⟩
  | began _ job, l => ∃ t idle, l = some ⟨t, idle, job, .unbegun⟩
  | refused _, l => ∃ t job, l = some ⟨t, false, job, .unbegun⟩
  | ended _ result, l => result ≠ .error .abandoned ∧ ∃ t idle job,
      l = some ⟨t, idle, job, .begun⟩ ∨
        idle = true ∧ l = some ⟨t, idle, job, .unbegun⟩ ∧ ∃ f, result = .error (.engine f)
  | returned task _ result, l => ∃ idle job, l = some ⟨task, idle, job, .settled result⟩

end Note

def Note.opens : Note → Bool
  | parked _ _ => true
  | sent _ _ _ => true
  | _ => false

theorem Note.opens_cases {d : Note} (hd : d.opens = true) :
    ∃ reply, d.reply? = some reply ∧ ∀ l, d.Allowed l → l = none := by
  cases d with
  | parked task q => exact ⟨_, rfl, fun _ hl => hl⟩
  | sent task ρ job => exact ⟨_, rfl, fun _ hl => hl⟩
  | _ => cases hd

/-- After something has been noted of a life, there is one. -/
theorem Note.Allowed.after_ne_none {d : Note} {l : Option Life} {reply : Nat}
    (hallowed : d.Allowed l) (hd : d.reply? = some reply) : d.after l ≠ none := by
  cases d with
  | called w job => cases hd
  | parked task q => exact Option.some_ne_none _
  | sent task ρ job => exact Option.some_ne_none _
  | took q =>
    obtain ⟨t, rfl⟩ := hallowed
    exact Option.some_ne_none _
  | began ρ job =>
    obtain ⟨t, idle, rfl⟩ := hallowed
    exact Option.some_ne_none _
  | refused ρ =>
    obtain ⟨t, job, rfl⟩ := hallowed
    exact Option.some_ne_none _
  | ended ρ r =>
    obtain ⟨-, t, idle, job, rfl | ⟨-, rfl, -⟩⟩ := hallowed
    · exact Option.some_ne_none _
    · exact Option.some_ne_none _
  | returned task ρ r =>
    obtain ⟨idle, job, rfl⟩ := hallowed
    exact Option.some_ne_none _

def given (log : List Note) : List (Options × Command) := log.filterMap Note.command?

theorem given_append (log : List Note) (d : Option Note) :
    given (log ++ d.toList) = given log ++ (d.bind Note.command?).toList := by
  rw [given, List.filterMap_append, given]
  cases d with
  | none => rfl
  | some d =>
    cases hd : d.command? <;> simp [hd]

def lifeOf (log : List Note) (reply : Nat) : Option Life :=
  log.foldl (fun l d => if d.reply? = some reply then d.after l else l) none

theorem lifeOf_concat (log : List Note) (d : Note) (reply : Nat) :
    lifeOf (log ++ [d]) reply =
      if d.reply? = some reply then d.after (lifeOf log reply) else lifeOf log reply := by
  simp [lifeOf]

theorem lifeOf_concat_self (log : List Note) {d : Note} {reply : Nat}
    (hd : d.reply? = some reply) : lifeOf (log ++ [d]) reply = d.after (lifeOf log reply) := by
  rw [lifeOf_concat, if_pos hd]

theorem lifeOf_concat_ne (log : List Note) {d : Note} {reply : Nat} (hd : d.reply? ≠ some reply) :
    lifeOf (log ++ [d]) reply = lifeOf log reply := by
  rw [lifeOf_concat, if_neg hd]

/-- A log in which everything that is noted of a life is a next step of it. -/
inductive Lawful : List Note → Prop where
  | nil : Lawful []
  | concat {log : List Note} {d : Note} (hlog : Lawful log)
      (hd : ∀ reply, d.reply? = some reply → d.Allowed (lifeOf log reply)) : Lawful (log ++ [d])

namespace Lawful

variable {log before : List Note} {d : Note} {reply : Nat} {l : Life}

theorem of_prefix (hlog : Lawful log) (hle : before <+: log) : Lawful before := by
  induction hlog with
  | nil => exact List.prefix_nil.1 hle ▸ .nil
  | concat hlog hd ih =>
    rcases List.prefix_concat_iff.1 hle with rfl | hle
    · exact .concat hlog hd
    · exact ih hle

theorem allowed (hlog : Lawful (log ++ [d])) (hd : d.reply? = some reply) :
    d.Allowed (lifeOf log reply) := by
  generalize hwhole : log ++ [d] = whole at hlog
  cases hlog with
  | nil => exact absurd hwhole (by simp)
  | concat _ hallowed =>
    obtain ⟨rfl, rfl⟩ := List.append_singleton_inj.1 hwhole
    exact hallowed reply hd

end Lawful

structure Life.Told (log : List Note) (reply : Nat) (l : Life) : Prop where
  parked : l.idle = true → ∃ q : Parked, q.reply = reply ∧ q.job = l.job ∧ .parked l.task q ∈ log
  sent : l.idle = false → .sent l.task reply l.job ∈ log
  took : l.idle = true → l.phase ≠ .waiting →
    ∃ q : Parked, q.reply = reply ∧ q.job = l.job ∧ .took q ∈ log
  waiting : l.phase = .waiting → ∀ q, .took q ∈ log → q.reply ≠ reply
  began : ∀ job, .began reply job ∈ log →
    job = l.job ∧ l.phase ≠ .waiting ∧ l.phase ≠ .unbegun ∧ .refused reply ∉ log
  begun : l.phase = .begun → .began reply l.job ∈ log
  settled : ∀ r, l.phase = .settled r → r ≠ .error .abandoned ∧
    (.ended reply r ∈ log ∧ (.began reply l.job ∈ log ∨ ∃ f, r = .error (.engine f)) ∨
      l.idle = false ∧ .refused reply ∈ log ∧ r = .error .cancelled)
  ended : ∀ r, .ended reply r ∈ log → l.phase = .settled r ∨ l.phase = .returned
  refused : .refused reply ∈ log → l.phase ≠ .waiting ∧ l.phase ≠ .unbegun ∧ l.phase ≠ .begun

def Untold (log : List Note) (reply : Nat) : Prop := ∀ d ∈ log, d.reply? ≠ some reply

section
variable {log : List Note} {d e : Note} {reply : Nat} {l : Life}

private theorem mem_of_other (hd : d.reply? ≠ some reply) (he : e.reply? = some reply)
    (hmem : e ∈ log ++ [d]) : e ∈ log := by
  rcases List.mem_append.1 hmem with hmem | hmem
  · exact hmem
  · exact absurd (List.mem_singleton.1 hmem ▸ he) hd

theorem Life.Told.other (ht : l.Told log reply) (hd : d.reply? ≠ some reply) :
    l.Told (log ++ [d]) reply where
  parked hidle := (ht.parked hidle).imp fun _ hq => ⟨hq.1, hq.2.1, List.mem_append_left _ hq.2.2⟩
  sent hidle := List.mem_append_left _ (ht.sent hidle)
  took hidle hp :=
    (ht.took hidle hp).imp fun _ hq => ⟨hq.1, hq.2.1, List.mem_append_left _ hq.2.2⟩
  waiting hp q hmem heq := ht.waiting hp q (mem_of_other hd (congrArg some heq) hmem) heq
  began job hmem :=
    have hnow := ht.began job (mem_of_other hd rfl hmem)
    ⟨hnow.1, hnow.2.1, hnow.2.2.1, fun hr => hnow.2.2.2 (mem_of_other hd rfl hr)⟩
  begun hp := List.mem_append_left _ (ht.begun hp)
  settled r hp := (ht.settled r hp).imp_right fun hr =>
    hr.imp (fun hr => ⟨List.mem_append_left _ hr.1, hr.2.imp_left (List.mem_append_left _)⟩)
      fun hr => ⟨hr.1, List.mem_append_left _ hr.2.1, hr.2.2⟩
  ended r hmem := ht.ended r (mem_of_other hd rfl hmem)
  refused hmem := ht.refused (mem_of_other hd rfl hmem)

/-- What is told of a life that begins. -/
theorem Untold.told (hu : Untold log reply) (hd : d.reply? = some reply)
    (hl : d.after none = some l) : l.Told (log ++ [d]) reply := by
  have hnew (e : Note) (he : e.reply? = some reply) (hmem : e ∈ log ++ [d]) : e = d := by
    rcases List.mem_append.1 hmem with hmem | hmem
    · exact absurd he (hu e hmem)
    · exact List.mem_singleton.1 hmem
  have hself : d ∈ log ++ [d] := by simp
  cases d with
  | parked task q =>
    cases hl
    cases hd
    constructor <;> grind [Note.reply?]
  | sent task ρ job =>
    cases hl
    cases hd
    constructor <;> grind [Note.reply?]
  | _ => cases hl

theorem Life.Told.next (ht : l.Told log reply) {l' : Life} (hd : d.reply? = some reply)
    (hl : d.after (some l) = some l') (hallowed : d.Allowed (some l)) :
    l'.Told (log ++ [d]) reply := by
  have hne : RunFault.cancelled ≠ .abandoned := by decide
  obtain ⟨hparked, hsent, htook, hwaiting, hbegan, hbegun, hsettled, hended, hrefused⟩ := ht
  cases d with
  | called w job => cases hd
  | parked task q => cases hallowed
  | sent task ρ job => cases hallowed
  | took q =>
    cases hd
    cases hl
    obtain ⟨t, hl⟩ := hallowed
    cases hl
    constructor <;> grind
  | began ρ job =>
    cases hd
    cases hl
    obtain ⟨t, idle, hl⟩ := hallowed
    cases hl
    constructor <;> grind
  | refused ρ =>
    cases hd
    cases hl
    obtain ⟨t, job, hl⟩ := hallowed
    cases hl
    constructor <;> grind
  | ended ρ r =>
    cases hd
    cases hl
    obtain ⟨hr, t, idle, job, hl | ⟨rfl, hl, f, rfl⟩⟩ := hallowed
    · cases hl
      constructor <;> grind
    · cases hl
      constructor <;> grind
  | returned task ρ r =>
    cases hd
    cases hl
    obtain ⟨idle, job, hl⟩ := hallowed
    cases hl
    constructor <;> grind

/-- A lawful log tells of every life as it is. -/
theorem Lawful.told (hlog : Lawful log) (reply : Nat) :
    (lifeOf log reply = none → Untold log reply) ∧
      ∀ l, lifeOf log reply = some l → l.Told log reply := by
  induction hlog with
  | nil => exact ⟨fun _ e he => absurd he List.not_mem_nil, fun l hl => by cases hl⟩
  | @concat log d hlog hd ih =>
    by_cases habout : d.reply? = some reply
    · rw [lifeOf_concat_self log habout]
      have hallowed := hd reply habout
      refine ⟨fun hnone => absurd hnone (hallowed.after_ne_none habout), fun l hl => ?_⟩
      cases hbefore : lifeOf log reply with
      | none =>
        rw [hbefore] at hl
        exact (ih.1 hbefore).told habout hl
      | some l₀ =>
        rw [hbefore] at hl hallowed
        exact (ih.2 l₀ hbefore).next habout hl hallowed
    · rw [lifeOf_concat_ne log habout]
      refine ⟨fun hnone e he => ?_, fun l hl => (ih.2 l hl).other habout⟩
      rcases List.mem_append.1 he with he | he
      · exact ih.1 hnone e he
      · rwa [List.mem_singleton.1 he]

/-- The engine never begins what was refused. -/
theorem Lawful.unbegun_of_refused (hlog : Lawful log) (hrefused : .refused reply ∈ log) (job : Job) :
    .began reply job ∉ log := by
  intro hbegan
  cases hlife : lifeOf log reply with
  | none => exact (hlog.told reply).1 hlife _ hbegan rfl
  | some l => exact (((hlog.told reply).2 l hlife).began job hbegan).2.2.2 hrefused

/-- No life begins twice. -/
theorem Lawful.eq_of_opens (hlog : Lawful log) (hd : d ∈ log) (he : e ∈ log)
    (hopens : d.opens = true) (hopens' : e.opens = true) (heq : d.reply? = e.reply?) : d = e := by
  induction hlog with
  | nil => exact absurd hd List.not_mem_nil
  | @concat log last hlog hlast ih =>
    have hnew {d : Note} (hd : d ∈ log) (hopens : last.opens = true) : d.reply? ≠ last.reply? := by
      obtain ⟨ρ, hρ, hnone⟩ := Note.opens_cases hopens
      exact fun heq => (hlog.told ρ).1 (hnone _ (hlast ρ hρ)) d hd (heq.trans hρ)
    simp only [List.mem_append, List.mem_singleton] at hd he
    rcases hd with hd | hd <;> rcases he with he | he
    · exact ih hd he
    · rw [he] at heq hopens'
      exact absurd heq (hnew hd hopens')
    · rw [hd] at heq hopens
      exact absurd heq.symm (hnew he hopens)
    · exact hd.trans he.symm

/-- The engine is done with a job once. -/
theorem Lawful.eq_of_ended (hlog : Lawful log) {r r' : RunResult} (hr : .ended reply r ∈ log)
    (hr' : .ended reply r' ∈ log) : r = r' := by
  induction hlog with
  | nil => exact absurd hr List.not_mem_nil
  | @concat log last hlog hlast ih =>
    have hnew {r r' : RunResult} (hold : .ended reply r ∈ log) : last ≠ .ended reply r' := by
      rintro rfl
      obtain ⟨-, t, idle, job, hlife⟩ := hlast reply rfl
      obtain ⟨p, hlife, hp⟩ : ∃ p, lifeOf log reply = some ⟨t, idle, job, p⟩ ∧
          (p = .begun ∨ p = .unbegun) := by
        rcases hlife with hlife | ⟨-, hlife, -⟩
        · exact ⟨_, hlife, .inl rfl⟩
        · exact ⟨_, hlife, .inr rfl⟩
      rcases ((hlog.told reply).2 _ hlife).ended r hold with heq | heq <;> rcases hp with rfl | rfl <;>
        cases heq
    simp only [List.mem_append, List.mem_singleton] at hr hr'
    rcases hr with hr | hr <;> rcases hr' with hr' | hr'
    · exact ih hr hr'
    · exact absurd hr'.symm (hnew hr)
    · exact absurd hr.symm (hnew hr')
    · cases hr.trans hr'.symm
      rfl

end

/-! ## Steps of tasks -/

section
variable (h : Host) (me : Nat) (bias : List Bool)

def IdleCall.note? : IdleCall → Option Note
  | start job => some (.called ⟨me, h.nextTurn⟩ job)
  | queued _ _ => none
  | install job => some (.parked me ⟨h.slot.nextId, job, h.replies.length⟩)
  | parked _ reply =>
    match h.replies[reply]? with
    | some (.sent r) => some (.returned me reply r)
    | some (.open_ _) => none
    | _ => some (.returned me reply (.error .abandoned))

def Execution.note? : Execution → Option Note
  | idle call token =>
    if bias.headD false && h.tokens.isFired token then none else call.note? h me
  | granted _ job => some (.sent me h.replies.length job)
  | running reply =>
    match h.replies[reply]? with
    | some (.sent r) => some (.returned me reply r)
    | _ => none
  | _ => none

/-- The lease is looked at first or second, and nothing is noted of the call when the lease is what
goes on. -/
def AbortCall.note? : AbortCall → Option Note
  | reverting call lease =>
    match bias.headD false, (stepExit h me call lease).2 with
    | true, .blocked | false, _ => call.note? h me
    | _, _ => none
  | _ => none

def ReadCall.note? : ReadCall → Option Note
  | clearing stop _ => stop.note? h me bias
  | reading run _ token _ =>
    if bias.headD false && h.tokens.isFired token then none else run.note? h me bias.tail
  | stopping none (some run) _ _ _ => run.note? h me bias
  | stopping (some stop) run _ _ _ =>
    match (stop.step h me bias).2 with
    | .blocked => run.elim none (·.note? h me bias.tail)
    | _ => stop.note? h me bias
  | _ => none

def CommandCall.note? : CommandCall → Option Note
  | aborting stop _ => stop.note? h me bias
  | running run => run.note? h me bias
  | _ => none

def Task.note? : Task → Option Note
  | command call _ => call.note? h me bias
  | idle call _ => call.note? h me
  | read call => call.note? h me bias
  | abort call => call.note? h me bias
  | _ => none

end

theorem IdleCall.note?_of_blocked {h k : Host} {me : Nat} {call : IdleCall}
    (hs : call.step h me = (k, .blocked)) : call.note? h me = none := by
  cases call with
  | start job => cases hs
  | queued w job => rfl
  | install job => cases hs
  | parked id reply =>
    simp only [step] at hs
    split at hs
    · cases hs
    · rename_i hr
      simp only [note?, hr]
    · cases hs

/-! ## Steps of threads -/

namespace Activation

variable (h : Host)

def outcome? : Activation → Option Outcome
  | command inv =>
    match inv.turn h.engine (h.tokens.isFired inv.token) h.barriers.contains with
    | .ended o => some o
    | _ => none
  | edit inv _ =>
    match h.engine.lines with
    | line :: _ => some (.values [.str line])
    | [] =>
      if h.engine.cancellable && h.tokens.isFired inv.token then some (.fault .cancelled) else none
  | _ => none

def client? : List Activation → Option Nat
  | .errand .called work :: _ => some work.reply
  | .serve (.called request _ _) :: _ => some request.reply
  | _ => none

def note? : List Activation → Option Note
  | .serve .take :: _ => h.slot.pending.map .took
  | .serve (.openPrompt request) :: _ =>
    match (h.createPipeline .nested).1 with
    | .error f => some (.ended request.reply (.error (.engine f)))
    | .ok _ => none
  | .serve (.lock request _ pipeline) :: _ =>
    if h.isLocked pipeline then none else some (.began request.reply request.job)
  | .errand .start work :: _ =>
    if h.tokens.isFired work.job.token then some (.refused work.reply) else none
  | .errand .lock work :: _ =>
    if h.isLocked work.pipeline then none else some (.began work.reply work.job)
  | a :: below => (a.outcome? h).bind fun o => (client? below).map fun reply => .ended reply o.result
  | [] => none

end Activation

namespace Host

def note? (h : Host) : Event → Option Note
  | .poll t bias => (h.task? t).bind fun task => task.note? h t bias
  | .advance id => (h.thread? id).bind fun t => Activation.note? h t.stack
  | _ => none

end Host

end SharedPrompt
