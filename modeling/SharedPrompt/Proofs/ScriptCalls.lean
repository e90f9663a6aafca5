import SharedPrompt.Proofs.FitCrews

/-!
# What a call of a script comes to

A worker at rest that is handed a script by a provider does it at once, to the end. Its answer is
what the script comes to on the worker's engine with the file on show, and of the engine the unit
changes nothing that another script could find.
-/

namespace SharedPrompt

/-! ## One turn of a command -/

def Turn.next? : Turn → Option Invocation
  | on inv | record _ inv | idle inv | enter _ inv | leave inv => some inv
  | ended _ | stuck => none

namespace Invocation

variable {isOpen : String → Bool}

/-- A command that comes to no barrier that is closed goes on or ends. -/
theorem turn_of_waits (inv : Invocation) (e : Engine) (h : waits isOpen inv.rest = false) :
    (∃ o, inv.turn e false isOpen = .ended o) ∨
      ∃ next, (inv.turn e false isOpen).next? = some next ∧ waits isOpen next.rest = false := by
  unfold turn
  cases hrest : inv.rest with
  | nil => exact .inl ⟨_, rfl⟩
  | cons a rest =>
    rw [hrest] at h
    cases a with
    | fail f => exact .inl ⟨_, rfl⟩
    | panic p => exact .inl ⟨_, rfl⟩
    | barrier name | barrierOrFired name =>
      obtain ⟨hopen, hwaits⟩ : isOpen name = true ∧ waits isOpen rest = false := by
        simpa [waits] using h
      exact .inr ⟨{ inv with rest }, by simp [hopen, Turn.next?], hwaits⟩
    | _ => exact .inr ⟨_, rfl, h⟩

/-- A command that goes on has less left, and comes to what it came to before. -/
theorem of_next? {inv next : Invocation} {e : Engine}
    (h : (inv.turn e false isOpen).next? = some next) :
    next.rest.length < inv.rest.length ∧
      e.outcome next.output next.rest = e.outcome inv.output inv.rest ∧
        next.counted = inv.counted := by
  have hshorter := inv.turn_shorter e false isOpen
  have houtcome := inv.turn_outcome e isOpen
  cases hturn : inv.turn e false isOpen <;> rw [hturn] at h hshorter houtcome <;> cases h <;>
    exact ⟨hshorter, houtcome⟩

end Invocation

namespace Worker

variable {barriers : List String} {inv : Invocation}

theorem commandMove?_of_next? (w : Worker) (rest : Work) {next : Invocation}
    (h : (inv.turn w.engine false barriers.contains).next? = some next) :
    w.commandMove? barriers rest inv false =
      some (.goes w.engine none rest [] (.command next false)) := by
  rw [commandMove?, if_neg Bool.false_ne_true]
  split <;> rename_i hturn <;> rw [hturn] at h <;> cases h <;> rfl

theorem commandMove?_of_ended (w : Worker) (rest : Work) {o : Outcome}
    (h : inv.turn w.engine false barriers.contains = .ended o) :
    w.commandMove? barriers rest inv false =
      some (endingMove rest (w.engine.finish inv false) o) := by
  rw [commandMove?, if_neg Bool.false_ne_true, h]

end Worker

/-! ## The turns of a worker without others -/

structure Worker.Idle (w : Worker) : Prop where
  running : w.running = none
  phase : w.phase = .working
  inbox : w.inbox = []
  kept : w.forsaken = false

def Worker.busy (v : Worker) (k : Nat) (frame : Frame) : Worker :=
  { v with running := some { ticket := k, holder := k, frame } }

namespace Crew

def sole (v : Worker) (barriers : List String) (replies : List (Option WorkResult))
    (trace : Trace) : Crew := { workers := [v], barriers, replies, trace }

variable {v v' : Worker} {barriers : List String} {replies : List (Option WorkResult)}
  {trace : Trace} {k : Nat}

theorem worker?_sole : (sole v barriers replies trace).worker? v.name = some v := by
  simp [sole, worker?]

theorem next?_sole :
    (sole v barriers replies trace).next? = (sole v barriers replies trace).stepWorker v := by
  have hstep : (sole v barriers replies trace).step v.name =
      (sole v barriers replies trace).stepWorker v := by rw [step, worker?_sole, Option.bind_some]
  rw [next?, ← hstep]
  change [v].findSome? (fun w => (sole v barriers replies trace).step w.name) = _
  cases hnext : (sole v barriers replies trace).step v.name <;> simp [List.findSome?, hnext]

theorem setWorker_sole (h : v'.name = v.name) :
    (sole v barriers replies trace).setWorker v' = sole v' barriers replies trace := by
  simp [sole, setWorker, h]

theorem dropOwnerOf_sole (h : v.owner ≠ .within k) :
    (sole v barriers replies trace).dropOwnerOf k = sole v barriers replies trace := by
  simp [sole, dropOwnerOf, h]

/-- The unit ends, and has nobody's owner with it. -/
theorem finish_sole (howner : v.owner ≠ .within k) (engine : Engine) (frame : Frame)
    (r : WorkResult) :
    (sole (v.busy k frame) barriers replies trace).finish { v.busy k frame with engine }
        { ticket := k, holder := k, frame } r =
      sole { v with engine, running := none } barriers
        (replies.modify k fun old => old.or (some r)) trace := by
  have hset : (sole (v.busy k frame) barriers replies trace).setWorker
      { v with engine, running := none } =
        sole { v with engine, running := none } barriers replies trace := setWorker_sole rfl
  have hdrop : (sole { v with engine, running := none } barriers replies trace).dropOwnerOf k =
      sole { v with engine, running := none } barriers replies trace := dropOwnerOf_sole howner
  change (((sole (v.busy k frame) barriers replies trace).setWorker
    { v with engine, running := none }).dropOwnerOf k).reply k r = _
  rw [hset, hdrop]
  rfl

variable {frame : Frame} {engine : Engine}

theorem next?_busy : (sole (v.busy k frame) barriers replies trace).next? =
    ((v.busy k frame).move? barriers trace.pipelines frame.rest frame.doing).bind
      ((sole (v.busy k frame) barriers replies trace).carryOut (v.busy k frame)
        { ticket := k, holder := k, frame }) :=
  next?_sole.trans (stepWorker_running _ (v.busy k frame) { ticket := k, holder := k, frame } rfl)

/-- The unit goes on. -/
theorem next?_goes {started : Option Command} {rest : Work} {more : List Entry} {doing : Doing}
    (h : (v.busy k frame).move? barriers trace.pipelines frame.rest frame.doing =
      some (.goes engine started rest more doing)) :
    (sole (v.busy k frame) barriers replies trace).next? =
      some (sole ({ v with engine }.busy k { rest, entries := frame.entries ++ more, doing })
        barriers replies (trace.begun started)) := by
  rw [next?_busy, h]
  exact congrArg some (setWorker_sole rfl)

def afterScript (v : Worker) (barriers : List String) (replies : List (Option WorkResult))
    (trace : Trace) (k : Nat) (r : Except EngineFault Outcome) : Crew :=
  sole { v with running := none } barriers
    (replies.modify k fun old => old.or (some (scriptAnswer r)))
    { trace with notices := trace.notices ++ scriptNotices r }

/-- Nothing is left to do. -/
theorem next?_done (howner : v.owner ≠ .within k) (entries : List Entry) :
    (sole (v.busy k { rest := [], entries }) barriers replies trace).next? =
      some (sole { v with running := none } barriers
        (replies.modify k fun old => old.or (some (.ok entries))) trace) := by
  rw [next?_busy]
  exact congrArg some (finish_sole howner v.engine _ _)

/-- The last turn of a command, and the end of its unit. -/
theorem steps_ending (howner : v.owner ≠ .within k) (hentries : frame.entries = []) {o : Outcome}
    (h : (v.busy k frame).move? barriers trace.pipelines frame.rest frame.doing =
      some (Worker.endingMove [] engine o)) :
    (sole (v.busy k frame) barriers replies trace).Steps
      (afterScript { v with engine } barriers replies trace k (.ok o)) := by
  have hlast {entry : Entry} {r : Except EngineFault Outcome}
      (hmove : Worker.endingMove [] engine o = .goes engine none [] [entry] .deeds)
      (hanswer : scriptAnswer r = .ok [entry]) (hnotices : scriptNotices r = []) :
      (sole (v.busy k frame) barriers replies trace).Steps
        (afterScript { v with engine } barriers replies trace k r) := by
    refine .head (next?_goes (h.trans (congrArg some hmove))) ?_
    rw [hentries, afterScript, hanswer, hnotices, List.append_nil]
    exact .head (next?_done (v := { v with engine }) howner [entry]) .refl
  cases o with
  | values vs => exact hlast rfl rfl rfl
  | fault f => exact hlast rfl rfl rfl
  | panicked p =>
    have hends : (sole (v.busy k frame) barriers replies
        (trace.notice (.unitPanicked p.message))).finish { v.busy k frame with engine }
          { ticket := k, holder := k, frame } (.error (.panicked p.message)) = _ :=
      finish_sole howner engine frame _
    refine .head ?_ .refl
    rw [next?_busy, h]
    exact congrArg some hends

/-- A turn after which the command goes on. -/
theorem next?_command {inv next : Invocation}
    (h : (inv.turn v.engine false barriers.contains).next? = some next) :
    (sole (v.busy k { rest := [], doing := .command inv false }) barriers replies trace).next? =
      some (sole (v.busy k { rest := [], doing := .command next false }) barriers replies
        trace) := by
  have hmove : (v.busy k { rest := [], doing := .command inv false }).move? barriers
      trace.pipelines [] (.command inv false) =
        some (.goes v.engine none [] [] (.command next false)) :=
    Worker.commandMove?_of_next? _ [] h
  exact next?_goes hmove

/-- The turns of a command, from its beginning to the end of its unit. -/
theorem steps_command (v : Worker) (replies : List (Option WorkResult)) (trace : Trace)
    (howner : v.owner ≠ .within k) (inv : Invocation)
    (hwaits : waits barriers.contains inv.rest = false) :
    (sole (v.busy k { rest := [], doing := .command inv false }) barriers replies trace).Steps
      (afterScript { v with engine := v.engine.finish inv false } barriers replies trace k
        (.ok (v.engine.outcome inv.output inv.rest))) := by
  induction hn : inv.rest.length using Nat.strong_induction_on generalizing inv with
  | _ n ih =>
    obtain ⟨o, hturn⟩ | ⟨next, hturn, hwaits⟩ := inv.turn_of_waits v.engine hwaits
    · have ho := inv.turn_outcome v.engine barriers.contains
      rw [hturn] at ho
      rw [ho]
      have hmove : (v.busy k { rest := [], doing := .command inv false }).move? barriers
          trace.pipelines [] (.command inv false) =
            some (Worker.endingMove [] (v.engine.finish inv false) o) :=
        Worker.commandMove?_of_ended _ [] hturn
      exact steps_ending howner rfl hmove
    · obtain ⟨hless, hsame, hcounted⟩ := Invocation.of_next? hturn
      have hrest := ih _ (hn ▸ hless) next hwaits rfl
      rw [hsame, Engine.finish, hcounted] at hrest
      exact .head (next?_command hturn) hrest

/-- The engine refuses to go on with a script. -/
theorem steps_fault (howner : v.owner ≠ .within k) {list : Work} {f : EngineFault}
    (h : (v.busy k { rest := list }).move? barriers trace.pipelines list .deeds =
      some (.goes engine none [] [.engineFault f] .deeds)) :
    (sole (v.busy k { rest := list }) barriers replies trace).Steps
      (afterScript { v with engine } barriers replies trace k (.error f)) := by
  have hnotices : scriptNotices (.error f) = [] := rfl
  refine .head (next?_goes h) ?_
  rw [afterScript, hnotices, List.append_nil]
  exact .head (next?_done (v := { v with engine }) howner _) .refl

/-- The turns of a unit from the beginning of a script. -/
theorem steps_ran (howner : v.owner ≠ .within k) {list : Work} {text : String}
    (h : (v.busy k { rest := list }).move? barriers trace.pipelines list .deeds =
      some (engine.beginning trace.pipelines [] (.script text)))
    (hwaits : ∀ o, engine.ran text = .ok o →
      waits barriers.contains (engine.actionsOf text) = false) :
    ∃ e' trace', engine.Like e' ∧ trace'.notices = trace.notices ∧
      (sole (v.busy k { rest := list }) barriers replies trace).Steps
        (afterScript { v with engine := e' } barriers replies trace' k (engine.ran text)) := by
  have hlike := engine.like_create { pipelines := trace.pipelines } .current
  have hbindings := engine.create_bindings { pipelines := trace.pipelines } .current
  unfold Engine.beginning at h
  unfold Engine.ran at hwaits ⊢
  obtain ⟨f, e₁, hcreate⟩ | ⟨e₁, hcreate⟩ := engine.create_cases .current
  · rw [hcreate] at h hlike ⊢
    exact ⟨e₁, trace, hlike, rfl, steps_fault howner h⟩
  · rw [hcreate] at h hlike hbindings hwaits ⊢
    let inv : Invocation :=
      { pipeline := trace.pipelines, command := .script text, sink := 0, token := 0
        rest := e₁.actionsOf text }
    let e₂ := (e₁.begin trace.pipelines (.script text) 0 0).1
    have hmove : (v.busy k { rest := list }).move? barriers trace.pipelines list .deeds =
        some (.goes e₂ (some (.script text)) [] [] (.command inv false)) := h
    have hlist : e₁.actionsOf text = engine.actionsOf text := hlike.actionsOf text
    have houtcome : e₂.outcome [] inv.rest = engine.outcome [] (engine.actionsOf text) := by
      refine (Engine.outcome_congr (fun name => ?_) _ _).trans (congrArg _ hlist)
      exact congrArg (List.lookup name) (((e₁.begin_command _ _ _ _).1).trans hbindings)
    have hclear : waits barriers.contains inv.rest = false :=
      (congrArg _ hlist).trans (hwaits _ rfl)
    have hrun := steps_command { v with engine := e₂ } replies (trace.begun (some (.script text)))
      howner inv hclear
    rw [houtcome] at hrun
    refine ⟨e₂.finish inv false, trace.begun (some (.script text)), ?_, rfl,
      .head (next?_goes hmove) hrun⟩
    exact hlike.trans ((e₁.like_begin _ _ _ _).trans (e₂.like_finish _ _))

/-- The turns of a unit that is one script, if no closed barrier is in its way. -/
theorem steps_script (v : Worker) (replies : List (Option WorkResult)) (trace : Trace)
    (howner : v.owner ≠ .within k) (editor : Value) (text : String)
    (hwaits : ∀ o, v.engine.script editor text = .ok o →
      waits barriers.contains (v.engine.actionsOf text) = false) :
    ∃ e' trace', v.engine.Like e' ∧ trace'.notices = trace.notices ∧
      (sole (v.busy k { rest := [.script editor text] }) barriers replies trace).Steps
        (afterScript { v with engine := e' } barriers replies trace' k
          (v.engine.script editor text)) := by
  have hlike := v.engine.like_setVariable editor
  have hmove : (v.busy k { rest := [.script editor text] }).move? barriers trace.pipelines
      [.script editor text] .deeds = v.deedMove? barriers trace.pipelines [] (.script editor text) :=
    rfl
  simp only [Worker.deedMove?] at hmove
  rw [Engine.script] at hwaits ⊢
  cases hset : v.engine.setVariable EditorView.variableName editor with
  | mk result e₁ =>
    rw [hset] at hlike hmove hwaits
    cases result with
    | error f => exact ⟨e₁, trace, hlike, rfl, steps_fault howner hmove⟩
    | ok u =>
      obtain ⟨e', trace', hlike', htrace, hsteps⟩ := steps_ran howner hmove fun o ho =>
        (congrArg _ (hlike.actionsOf text)).trans (hwaits o ho)
      exact ⟨e', trace', hlike.trans hlike', htrace, hsteps⟩

/-! ## Calls -/

variable {w : Worker}

theorem next?_idle (h : w.Idle) : (sole w barriers replies trace).next? = none := by
  rw [next?_sole]
  simp [stepWorker, h.running, h.phase, h.inbox, h.kept]

/-- The only worker of a crew at rest has ended or is idle, if it is not in the middle of a unit. -/
theorem ended_or_idle (h : (sole w barriers replies trace).next? = none) (hrun : w.running = none) :
    w.phase = .ended ∨ w.Idle := by
  rw [next?_sole] at h
  cases hphase : w.phase with
  | ended => exact .inl rfl
  | leaving => simp [stepWorker, hrun, hphase] at h
  | working =>
    refine .inr ?_
    cases hinbox : w.inbox with
    | nil =>
      refine ⟨hrun, hphase, hinbox, ?_⟩
      simpa [stepWorker, hrun, hphase, hinbox] using h
    | cons m inbox => cases m <;> simp [stepWorker, hrun, hphase, hinbox] at h

theorem submit_sole (hphase : w.phase ≠ .ended) (list : Work) :
    (sole w barriers replies trace).submit w.name none list = (replies.length,
      sole { w with inbox := w.inbox ++ [.work replies.length replies.length list] } barriers
        (replies ++ [none]) trace) := by
  have hset : (sole w barriers (replies ++ [none]) trace).setWorker
      { w with inbox := w.inbox ++ [.work replies.length replies.length list] } =
    sole { w with inbox := w.inbox ++ [.work replies.length replies.length list] } barriers
      (replies ++ [none]) trace := setWorker_sole rfl
  rw [← hset, submit, worker?_sole]
  exact if_neg hphase

/-- A worker at rest takes the unit that comes into its inbox. -/
theorem next?_takes (h : w.Idle) (k : Nat) (list : Work) :
    (sole { w with inbox := [.work k k list] } barriers replies trace).next? =
      some (sole (w.busy k { rest := list }) barriers replies trace) := by
  have hset : (sole { w with inbox := [.work k k list] } barriers replies trace).setWorker
      (w.busy k { rest := list }) = sole (w.busy k { rest := list }) barriers replies trace :=
    setWorker_sole rfl
  rw [next?_sole, ← hset]
  simp only [stepWorker, h.running, h.phase, Worker.busy, h.inbox]

/-- The answer to the call that came last. -/
theorem afterScript_last (hrun : v.running = none) (r : Except EngineFault Outcome) :
    afterScript v barriers (replies ++ [none]) trace replies.length r =
      sole v barriers (replies ++ [some (scriptAnswer r)])
        { trace with notices := trace.notices ++ scriptNotices r } := by
  have hreplies : (replies ++ [none]).modify replies.length
      (fun old => old.or (some (scriptAnswer r))) = replies ++ [some (scriptAnswer r)] := by
    simp [List.modify_eq_set_getElem?]
  rw [afterScript, hreplies, ← hrun]

/-- The call of a script by an idle worker. -/
theorem call_idle (trace : Trace) (h : w.Idle)
    (howner : ∀ t, w.owner = .within t → t < replies.length) (editor : Value) (text : String)
    (hwaits : ∀ o, w.engine.script editor text = .ok o →
      waits barriers.contains (w.engine.actionsOf text) = false) :
    let r := w.engine.script editor text
    ∃ e' trace', w.engine.Like e' ∧ trace'.notices = trace.notices ++ scriptNotices r ∧
      (sole w barriers replies trace).call w.name [.script editor text] = (scriptAnswer r,
        sole { w with engine := e' } barriers (replies ++ [some (scriptAnswer r)]) trace') := by
  intro r
  have howner : w.owner ≠ .within replies.length := fun hown => Nat.lt_irrefl _ (howner _ hown)
  obtain ⟨e', trace', hlike, hnotices, hsteps⟩ :=
    steps_script w (replies ++ [none]) trace howner editor text hwaits
  let message : Message := .work replies.length replies.length [.script editor text]
  have hsubmit : (sole w barriers replies trace).submit w.name none [.script editor text] =
      (replies.length, sole { w with inbox := [message] } barriers (replies ++ [none]) trace) := by
    rw [submit_sole (by simp [h.phase]), h.inbox]
    rfl
  have hidle : ({ w with engine := e' } : Worker).Idle := ⟨h.running, h.phase, h.inbox, h.kept⟩
  rw [afterScript_last (v := { w with engine := e' }) h.running] at hsteps
  have hsettle : (sole { w with inbox := [message] } barriers (replies ++ [none]) trace).settle
      patience = sole { w with engine := e' } barriers (replies ++ [some (scriptAnswer r)])
        { trace' with notices := trace'.notices ++ scriptNotices r } :=
    settle_eq (.head (next?_takes h _ _) hsteps) (next?_idle hidle)
  refine ⟨e', { trace' with notices := trace'.notices ++ scriptNotices r }, hlike,
    congrArg (· ++ scriptNotices r) hnotices, ?_⟩
  rw [call, hsubmit]
  simp only [hsettle]
  simp [answer?, sole]

/-- A worker that has ended refuses the call. -/
theorem call_ended (hended : w.phase = .ended) (hrun : w.running = none) (list : Work) :
    (sole w barriers replies trace).call w.name list =
      (.error .shutdown, sole w barriers (replies ++ [some (.error .shutdown)]) trace) := by
  have hsubmit : (sole w barriers replies trace).submit w.name none list =
      (replies.length, sole w barriers (replies ++ [some (.error .shutdown)]) trace) := by
    simp only [submit, worker?_sole, hended, if_true]
    rfl
  have hrests : (sole w barriers (replies ++ [some (.error .shutdown)]) trace).next? = none := by
    rw [next?_sole]
    simp [stepWorker, hrun, hended]
  rw [call, hsubmit]
  simp only [settle_eq .refl hrests]
  simp [answer?, sole]

theorem answer?_addReply (c : Crew) (t : Nat) :
    ({ c with replies := c.replies ++ [none] } : Crew).answer? t = c.answer? t := by
  unfold answer?
  rw [List.getElem?_append]
  split
  · rfl
  · rename_i h
    rw [List.getElem?_eq_none (Nat.le_of_not_lt h)]
    by_cases ht : t - c.replies.length = 0 <;> simp [ht]

/-- A worker that waits in the middle of a unit does not get to the call. -/
theorem call_busy (hrests : (sole w barriers replies trace).next? = none)
    (hphase : w.phase = .working) {run : Running} (hrun : w.running = some run) (list : Work) :
    (sole w barriers replies trace).call w.name list = (.error .replyDropped,
      sole { w with inbox := w.inbox ++ [.work replies.length replies.length list] } barriers
        (replies ++ [none]) trace) := by
  let w' : Worker := { w with inbox := w.inbox ++ [.work replies.length replies.length list] }
  have hsubmit : (sole w barriers replies trace).submit w.name none list =
      (replies.length, sole w' barriers (replies ++ [none]) trace) :=
    submit_sole (by simp [hphase]) list
  have hstays : (sole w' barriers (replies ++ [none]) trace).next? = none := by
    have hmove : (sole w' barriers (replies ++ [none]) trace).nextMove? w' run =
        (sole w barriers replies trace).nextMove? w run := rfl
    rw [next?_sole, stepWorker_running _ w run hrun] at hrests
    rw [next?_sole, stepWorker_running _ w' run hrun, hmove]
    cases hm : (sole w barriers replies trace).nextMove? w run with
    | none => rfl
    | some m =>
      rw [hm] at hrests
      cases m with
      | hears ticket =>
        have hanswer := (sole w barriers replies trace).answer?_addReply ticket
        have hnone : (sole w barriers replies trace).answer? ticket = none :=
          Option.map_eq_none_iff.1 hrests
        exact Option.map_eq_none_iff.2 (hanswer.trans hnone)
      | _ => cases hrests
  rw [call, hsubmit]
  simp only [settle_eq .refl hstays]
  simp [answer?, sole, w']

end Crew

/-! ## What providers put out -/

/-- What a script puts out on a worker at rest, with an editor on show. There is no answer if the
script comes to a closed barrier, or if the worker is in the middle of another unit, unless that is
the last one that it will do. -/
def Worker.puts? (w : Worker) (barriers : List String) (editor : Value) (text : String) :
    Option (Except ProviderFault (List Value)) :=
  let r := w.engine.script editor text
  if w.running.isSome then
    if w.inbox.any Message.isShutdown then some (.error (.worker .replyDropped)) else none
  else if w.phase = .ended then some (.error (.worker .shutdown))
  else if r.isOk && waits barriers.contains (w.engine.actionsOf text) then none
  else some (putOut r)

namespace Crew

def scriptPuts? (c : Crew) (worker : String) (editor : Value) (text : String) :
    Option (Except ProviderFault (List Value)) :=
  (c.worker? worker).elim (some (.error (.worker .shutdown))) fun w => w.puts? c.barriers editor text

/-- What the script of a provider puts out for a file. A file that cannot be shown is a fault at once. -/
def puts? (c : Crew) (worker : String) (p : ScriptProvider) (f : ScriptFile) :
    Option (Except ProviderFault (List Value)) :=
  match (EditorView.ofFile f).value with
  | .ok editor => c.scriptPuts? worker editor p.script
  | .error fault => some (.error fault)

structure Ready (worker : String) (c : Crew) : Prop where
  names : c.names = [worker]
  fit : c.Fit
  rests : c.next? = none

variable {c : Crew} {worker : String}

theorem exists_sole (h : c.names = [worker]) :
    ∃ (w : Worker) (barriers : List String) (replies : List (Option WorkResult)) (trace : Trace),
      w.name = worker ∧ c = sole w barriers replies trace := by
  obtain ⟨w, hworkers, hname⟩ := List.map_eq_singleton_iff.1 h
  exact ⟨w, c.barriers, c.replies, c.trace, hname, by rw [sole, ← hworkers]⟩

/-- A call leaves the crew at rest, whatever comes of it. -/
theorem Ready.call (h : c.Ready worker) (list : Work) : (c.call worker list).2.Ready worker where
  names := by
    rw [← h.names, ← names_submit c worker none list]
    exact (steps_settle _).names
  fit := (h.fit.submit worker none list).steps (steps_settle _)
  rests := rests_settle _

section Sole

variable {w : Worker} {barriers : List String} {replies : List (Option WorkResult)} {trace : Trace}

variable {editor : Value} {text : String} {r : Except ProviderFault (List Value)}

theorem scriptPuts?_sole (editor : Value) (text : String) :
    (sole w barriers replies trace).scriptPuts? w.name editor text = w.puts? barriers editor text := by
  rw [scriptPuts?, worker?_sole, Option.elim_some]
  rfl

theorem puts?_like {e' : Engine} (h : w.engine.Like e') (hrefused : w.engine.refused = [])
    (editor : Value) (text : String) :
    ({ w with engine := e' } : Worker).puts? barriers editor text = w.puts? barriers editor text := by
  rw [Worker.puts?, Worker.puts?, h.script hrefused, h.actionsOf]

/-- What the call of a script comes to: its answer, and a worker on which every script puts out what it
did before. -/
private def Calls (w : Worker) (barriers : List String) (replies : List (Option WorkResult))
    (trace : Trace) (editor : Value) (text : String) (r : Except ProviderFault (List Value)) : Prop :=
  ∃ wr d, (sole w barriers replies trace).call w.name [.script editor text] = (wr, d) ∧
    ScriptProvider.output wr = r ∧
      (∀ editor' text', d.scriptPuts? w.name editor' text' = w.puts? barriers editor' text') ∧
        d.trace.notices = trace.notices ++ unitNotices r

private theorem calls_ended (hended : w.phase = .ended) (hrun : w.running = none)
    (hputs : w.puts? barriers editor text = some r) : Calls w barriers replies trace editor text r := by
  have hr : some (.error (.worker .shutdown)) = some r := by
    simpa [Worker.puts?, hrun, hended] using hputs
  obtain rfl := Option.some.inj hr
  exact ⟨_, _, call_ended hended hrun _, rfl, scriptPuts?_sole, (List.append_nil _).symm⟩

private theorem calls_busy (hrests : (sole w barriers replies trace).next? = none)
    (hphase : w.phase = .working) {run : Running} (hrun : w.running = some run)
    (hputs : w.puts? barriers editor text = some r) : Calls w barriers replies trace editor text r := by
  have hr : (∃ m ∈ w.inbox, m.isShutdown = true) ∧ .error (.worker .replyDropped) = r := by
    simpa [Worker.puts?, hrun] using hputs
  obtain ⟨-, rfl⟩ := hr
  refine ⟨_, _, call_busy hrests hphase hrun _, rfl, fun editor' text' => ?_,
    (List.append_nil _).symm⟩
  refine (scriptPuts?_sole (w := { w with inbox := _ }) editor' text').trans ?_
  simp [Worker.puts?, hrun, Message.isShutdown]

private theorem calls_idle (hidle : w.Idle) (hfit : w.Fit replies.length)
    (hputs : w.puts? barriers editor text = some r) : Calls w barriers replies trace editor text r := by
  let result := w.engine.script editor text
  have hputs : (if (result.isOk && waits barriers.contains (w.engine.actionsOf text)) = true
      then none else some (putOut result)) = some r := by
    simpa [Worker.puts?, hidle.running, hidle.phase] using hputs
  by_cases hwaits : (result.isOk && waits barriers.contains (w.engine.actionsOf text)) = true
  · rw [if_pos hwaits] at hputs
    cases hputs
  · rw [if_neg hwaits] at hputs
    obtain rfl := Option.some.inj hputs
    obtain ⟨e', trace', hlike, hnotices, hcall⟩ :=
      call_idle trace hidle hfit.lent editor text fun o ho => by
        have hresult : result = .ok o := ho
        simpa [hresult, Except.isOk, Except.toBool] using hwaits
    refine ⟨_, _, hcall, output_scriptAnswer result, fun editor' text' => ?_, ?_⟩
    · refine (scriptPuts?_sole (w := { w with engine := e' }) editor' text').trans ?_
      exact puts?_like hlike hfit.refused editor' text'
    · rw [unitNotices_putOut]
      exact hnotices

end Sole

/-- The call of a script that comes to its end. -/
theorem Ready.call_script (h : c.Ready worker) {editor : Value} {text : String}
    {r : Except ProviderFault (List Value)} (hputs : c.scriptPuts? worker editor text = some r) :
    ∃ wr d, c.call worker [.script editor text] = (wr, d) ∧ ScriptProvider.output wr = r ∧
      d.Ready worker ∧ (∀ q g, d.puts? worker q g = c.puts? worker q g) ∧
      d.trace.notices = c.trace.notices ++ unitNotices r := by
  have hready := h.call [.script editor text]
  obtain ⟨w, barriers, replies, trace, rfl, rfl⟩ := exists_sole h.names
  have hfit : w.Fit replies.length := h.fit w (List.mem_singleton.2 rfl)
  rw [scriptPuts?_sole] at hputs
  have hcalls : Calls w barriers replies trace editor text r := by
    cases hrun : w.running with
    | some run => exact calls_busy h.rests (hfit.busy (by simp [hrun])) hrun hputs
    | none =>
      obtain hended | hidle := ended_or_idle h.rests hrun
      · exact calls_ended hended hrun hputs
      · exact calls_idle hidle hfit hputs
  obtain ⟨wr, d, hcall, houtput, hsame, hnotices⟩ := hcalls
  rw [hcall] at hready
  have hsame (q : ScriptProvider) (g : ScriptFile) : d.puts? w.name q g =
      (sole w barriers replies trace).puts? w.name q g := by
    rw [puts?, puts?]
    simp only [hsame, scriptPuts?_sole]
  exact ⟨wr, d, hcall, houtput, hready, hsame, hnotices⟩

/-! ## Notices -/

theorem stepWorker_notice (c : Crew) (n : Notice) (w : Worker) :
    (c.notice n).stepWorker w = none ↔ c.stepWorker w = none := by
  cases hrun : w.running with
  | none =>
    unfold stepWorker
    rw [hrun]
    dsimp only
    split <;> simp
  | some run =>
    have hmove : (c.notice n).nextMove? w run = c.nextMove? w run := rfl
    rw [stepWorker_running _ w run hrun, stepWorker_running _ w run hrun, hmove]
    cases c.nextMove? w run with
    | none => rfl
    | some m =>
      cases m with
      | hears ticket => simp [carryOut, answer?, notice]
      | _ => simp [carryOut]

theorem Ready.notice (h : c.Ready worker) (n : Notice) : (c.notice n).Ready worker where
  names := h.names
  fit := h.fit
  rests := by
    have hrests := h.rests
    rw [next?_eq_none_iff] at hrests ⊢
    intro name
    have hstep : (c.worker? name).bind c.stepWorker = none := hrests name
    change (c.worker? name).bind (c.notice n).stepWorker = none
    cases hw : c.worker? name with
    | none => rfl
    | some w =>
      rw [hw] at hstep
      exact (stepWorker_notice c n w).2 hstep

end Crew

end SharedPrompt
