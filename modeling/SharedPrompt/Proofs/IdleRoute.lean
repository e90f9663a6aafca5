import SharedPrompt.Proofs.LoneWays
import SharedPrompt.Proofs.PlainCommands

/-!
# A plain command that waits for an idle moment

While a reader in the engine's process holds the line, a command is left in the idle slot. The next
idle moment takes it from there and runs it in a prompt of its own, which is closed when the caller
has been answered.
-/

namespace SharedPrompt

theorem PromptStack.release_pushLeased (s : PromptStack) (pipeline : Nat) (debugger : Bool) :
    (s.pushLeased pipeline debugger).modifyGate s.gates.length TicketGate.release =
      s.push pipeline debugger := by
  have hgate : (s.push pipeline debugger).gate s.gates.length = .new "nested" := by
    simp [gate, push]
  have hleased : s.pushLeased pipeline debugger =
      (s.push pipeline debugger).modifyGate s.gates.length fun g => g.take?.getD g := rfl
  rw [hleased, modifyGate_modifyGate]
  exact modifyGate_of_eq (by rw [hgate]; rfl)

namespace Host

/-- A reader in the engine's process has the line and no key waits for it; the idle slot is free, and
a pipeline can be made that nobody has locked. -/
structure Lending (h : Host) : Prop where
  still : h.Still
  reads : (h.lineBusy && h.engine.inProcess) = true
  turn : h.slot.turn.isLeased = false
  keys : h.console.keyAvailable = false
  subscribed : h.subscriptions.subscribers ≠ []
  creates : (h.createPipeline .nested).1 = .ok h.trace.pipelines
  unlocked : h.isLocked h.trace.pipelines = false

section
variable (before : Host) (job : Job)

def idleRequest : Parked := ⟨before.slot.nextId, job, before.replies.length⟩

def idleWait : Execution := .idle (.parked before.slot.nextId before.replies.length) job.token

def idlePermit : Permit := { lease := before.stack.gates.length }

def slotTaken : IdleSlot := { before.slot with turn := { before.slot.turn with tickets := {} } }

def slotUsed : IdleSlot := { before.slot with nextId := before.slot.nextId + 1 }

def slotAwaiting : IdleSlot := { before.slotTaken with nextId := before.slot.nextId + 1 }

def inPrompt (stack : PromptStack) (d : Doings) : Doings :=
  { d with attempts := before.engine.attempts + 1, pipelines := before.trace.pipelines + 1, stack }

inductive Closing (texts : List String) : Option (List Activation) → Doings → Prop
  | unlocking : Closing texts (some [.serve (.unlock before.idlePermit before.trace.pipelines)])
      { before.inPrompt (before.stack.pushLeased before.trace.pipelines false)
          (before.doingsBy job texts) with
        locked := before.trace.pipelines :: before.locked }
  | releasing : Closing texts (some [.serve (.release before.idlePermit)])
      (before.inPrompt (before.stack.pushLeased before.trace.pipelines false)
        (before.doingsBy job texts))
  | closing : Closing texts (some [.serve .closePrompt])
      (before.inPrompt (before.stack.push before.trace.pipelines false) (before.doingsBy job texts))
  | left : Closing texts none
      (before.inPrompt { before.stack with gates := before.stack.gates ++ [.new "nested"] }
        (before.doingsBy job texts))

/-- How far a command that waits for an idle moment has come: who asks, who works, and what it has
come to for others. -/
inductive IdleWay (sink : Option Nat) (o : Outcome) (texts : List String) : Way
  | asking {run : Execution} (hrun : run = .start job ∨ run = .idle (.start job) job.token) :
    IdleWay sink o texts (some run) none before.doings
  | installing : IdleWay sink o texts (some (.idle (.install job) job.token)) none
      { before.doings with slot := before.slotTaken }
  | parked : IdleWay sink o texts (some (before.idleWait job)) none
      { before.doings with
        slot := { before.slotAwaiting with pending := some (before.idleRequest job) }
        replies := before.replies ++ [.open_ before.nextTask] }
  | taken : IdleWay sink o texts (some (before.idleWait job))
      (some [.serve (.openPrompt (before.idleRequest job))])
      { before.doings with
        slot := before.slotAwaiting
        replies := before.replies ++ [.open_ before.nextTask] }
  | opened : IdleWay sink o texts (some (before.idleWait job))
      (some [.serve (.lock (before.idleRequest job) before.idlePermit before.trace.pipelines)])
      { before.inPrompt (before.stack.pushLeased before.trace.pipelines false) before.doings with
        slot := before.slotAwaiting
        replies := before.replies ++ [.open_ before.nextTask] }
  | called {inv : Invocation} {told : List String}
      (hc : inv.Carries before.engine o texts job.sink told) :
    IdleWay sink o texts (some (before.idleWait job))
      (some [.command inv,
        .serve (.called (before.idleRequest job) before.idlePermit before.trace.pipelines)])
      { before.inPrompt (before.stack.pushLeased before.trace.pipelines false)
          (before.doingsBy job told) with
        slot := before.slotAwaiting
        replies := before.replies ++ [.open_ before.nextTask]
        locked := before.trace.pipelines :: before.locked }
  | answering : IdleWay sink o texts (some (before.idleWait job))
      (some [.serve (.answer (before.idleRequest job) before.idlePermit before.trace.pipelines
        o.result)])
      { before.inPrompt (before.stack.pushLeased before.trace.pipelines false)
          (before.doingsBy job texts) with
        slot := before.slotAwaiting
        replies := before.replies ++ [.open_ before.nextTask]
        locked := before.trace.pipelines :: before.locked }
  | answered {work : Option (List Activation)} {d : Doings} (hclosing : before.Closing job texts work d) :
    IdleWay sink o texts (some (before.idleWait job)) work
      { d with
        slot := before.slotAwaiting
        replies := before.replies ++ [.sent o.result]
        finished := before.finished }
  | ended {work : Option (List Activation)} {d : Doings} (hclosing : before.Closing job texts work d) :
    IdleWay sink o texts none work
      { d with
        slot := before.slotUsed
        replies := before.replies ++ [.closed]
        finished := before.finished ++ [(before.nextTask, .ran o.result sink)] }

end

section
variable {before : Host} {job : Job} {sink : Option Nat} {o : Outcome} {texts : List String}
  {actions : List Action}

/-- One pipeline is made as it would have been made at first. -/
theorem Lending.create (hl : before.Lending) {h : Host} (hset : h.setting = before.setting)
    (hattempts : h.engine.attempts = before.engine.attempts)
    (hpipelines : h.trace.pipelines = before.trace.pipelines) :
    ∃ k, h.createPipeline .nested = (.ok before.trace.pipelines, k) ∧ k.setting = h.setting ∧
      k.doings = before.inPrompt h.stack h.doings := by
  have hrefused : h.engine.refused = before.engine.refused := congrArg (·.engine.refused) hset
  have hfailures : h.engine.failures = before.engine.failures := congrArg (·.engine.failures) hset
  have hgranted : h.engine.refused.contains (h.engine.attempts + 1) = false ∧
      h.engine.failures.pipeline = false := by
    have hcreates := hl.creates
    rw [createPipeline, Engine.create] at hcreates
    rw [hrefused, hfailures, hattempts]
    cases hr : before.engine.refused.contains (before.engine.attempts + 1) <;>
      cases hf : before.engine.failures.pipeline <;> simp_all
  let k : Host := { h with
    engine := { h.engine with
      attempts := h.engine.attempts + 1
      created := h.engine.created ++ [.nested] }
    trace := { h.trace with pipelines := h.trace.pipelines + 1 }.call
      (.created h.trace.pipelines .nested) }
  have hcommands : k.commands = h.commands := by
    simp [k, commands, Trace.call, Call.command?]
  refine ⟨k, ?_, rfl, ?_⟩
  · simp only [createPipeline, Engine.create, hgranted, ← hpipelines]
    rfl
  · rw [doings, hcommands, inPrompt, ← hattempts, ← hpipelines]
    rfl

/-- A call that waits for an idle moment is polled while nobody stops it. -/
theorem idle_step (hb : before.Brings job actions) {h k : Host} (hset : h.setting = before.setting)
    {call : IdleCall} {r : Poll IdleCall RunResult} (hs : call.step h before.nextTask = (k, r))
    (hk : k.setting = h.setting) (bias : List Bool) :
    (Execution.idle call job.token).step h before.nextTask bias =
      ((k.besideToken before.nextTask job.token r).1,
        (k.besideToken before.nextTask job.token r).2.map (.idle · job.token) id) := by
  have hunfired := hb.unfired_of_setting hset
  have hstill := hb.unfired_of_setting (hk.trans hset)
  simp only [Execution.step]
  rw [orFired_of_unfired hs hunfired hstill]

/-- A command that waits for an idle moment is polled. -/
theorem IdleWay.poll (hl : before.Lending) (hturn : before.slot.turn.tickets = ⟨[()], [], []⟩)
    (hb : before.Brings job actions) {h : Host} (hset : h.setting = before.setting)
    {run : Execution} {work : Option (List Activation)} {d : Doings}
    (hway : before.IdleWay job sink o texts (some run) work d) (hd : h.doings = d)
    (m : Nat) (bias : List Bool) :
    before.OnWay h sink m (before.IdleWay job sink o texts) run work
      (run.step h before.nextTask bias).1 (run.step h before.nextTask bias).2 := by
  have hstays (hreplies : h.replies = before.replies ++ [.open_ before.nextTask])
      (hwait : work ≠ none ∨ h.slot.pending ≠ none) :
      before.OnWay h sink m (before.IdleWay job sink o texts) (before.idleWait job) work
        ((before.idleWait job).step h before.nextTask bias).1
        ((before.idleWait job).step h before.nextTask bias).2 := by
    have hstep : (IdleCall.parked before.slot.nextId before.replies.length).step h before.nextTask =
        (h, .blocked) := by
      simp only [IdleCall.step, reply_of_last hreplies]
    rw [idleWait, idle_step hb hset hstep rfl]
    exact .stays ⟨h.setting_awaitToken _ _, rfl, rfl⟩ rfl hwait
  cases hway with
  | asking hrun =>
    have hslot : h.slot = before.slot := congrArg Doings.slot hd
    rcases hrun with rfl | rfl
    · have hpark : Execution.mustPark h job.options = true := by
        rw [mustPark_of_setting hset (congrArg Doings.stack hd), Execution.mustPark, Bool.and_assoc,
          hl.reads, hb.ordinary]
        rfl
      simp only [Execution.step, hpark]
      exact .goes (.refl h) (hd ▸ .asking (.inr rfl)) (toGo_lt rfl (by simp [Execution.toGo]))
    · let k : Host := { (h.drawTurn before.nextTask).2 with slot := before.slotTaken }
      have hstep : (IdleCall.start job).step h before.nextTask = (k, .next (.install job)) := by
        have hjoin := TicketGate.join_of_tickets hturn (h.drawTurn before.nextTask).1
        rw [IdleCall.step]
        simp only [show (h.drawTurn before.nextTask).2.slot = before.slot from hslot, hjoin]
        rfl
      have hdoings : k.doings = { h.doings with slot := before.slotTaken } := rfl
      have hbeside : h.Beside k := ⟨rfl, rfl, rfl⟩
      rw [idle_step hb hset hstep rfl]
      refine OnWay.goes hbeside ?_ (toGo_lt ?_ (by simp [Execution.toGo]))
      · rw [hdoings, hd]
        exact .installing
      · rw [hdoings]
        exact (congrArg IdleSlot.pending hslot : h.slot.pending = before.slot.pending).symm
  | installing =>
    have hslot : h.slot = before.slotTaken := congrArg Doings.slot hd
    have hreplies : h.replies = before.replies := congrArg Doings.replies hd
    let k : Host := { h with
      replies := before.replies ++ [.open_ before.nextTask]
      slot := { before.slotAwaiting with pending := some (before.idleRequest job) } }
    have hstep : (IdleCall.install job).step h before.nextTask =
        (k, .next (.parked before.slot.nextId before.replies.length)) := by
      simp only [IdleCall.step, park, newReply, hslot, hreplies]
      rfl
    have hdoings : k.doings = { h.doings with
        replies := before.replies ++ [.open_ before.nextTask]
        slot := { before.slotAwaiting with pending := some (before.idleRequest job) } } := rfl
    have hbeside : h.Beside k := ⟨rfl, rfl, rfl⟩
    rw [idle_step hb hset hstep rfl]
    refine OnWay.goes hbeside ?_ ?_
    · rw [hdoings, hd]
      exact .parked
    · have hnone : h.doings.slot.pending = none :=
        (congrArg IdleSlot.pending hslot).trans hl.still.pending
      have hsome : k.doings.slot.pending = some (before.idleRequest job) := rfl
      rw [toGo, toGo, hnone, hsome]
      simp only [Option.elim_some, Option.elim_none, Execution.toGo, Option.isSome_some, if_true]
      omega
  | parked =>
    refine hstays (congrArg Doings.replies hd) (.inr ?_)
    rw [show h.slot = _ from congrArg Doings.slot hd]
    exact Option.some_ne_none _
  | @answered work d hclosing =>
    have hslot : h.slot = before.slotAwaiting := congrArg Doings.slot hd
    have hreplies : h.replies = before.replies ++ [.sent o.result] := congrArg Doings.replies hd
    let k := (h.closeReply before.replies.length).releaseTurn
    have hstep : (IdleCall.parked before.slot.nextId before.replies.length).step h before.nextTask =
        (k, .done o.result) := by
      -- An idle moment has emptied the slot, so that nothing is withdrawn.
      have hnone : (h.closeReply before.replies.length).slot.pending = none :=
        (congrArg IdleSlot.pending hslot).trans hl.still.pending
      simp only [IdleCall.step, reply_of_last hreplies, withdraw, hnone, k]
    have hsetting : k.setting = h.setting := setting_releaseTurn _
    have hdoings : (k.forgetToken job.token before.nextTask).doings =
        { d with
          slot := before.slotUsed
          replies := before.replies ++ [.closed]
          finished := before.finished } := by
      have hfreed : before.slotAwaiting.turn.release = before.slot.turn :=
        TicketGate.release_of_taken hturn
      have hslot' : { h.slot with turn := h.slot.turn.release } = before.slotUsed := by
        rw [hslot, hfreed]
        rfl
      rw [doings_forgetToken, doings_releaseTurn, doings_closeReply hreplies,
        show (h.closeReply before.replies.length).slot = h.slot from rfl, hslot', hd]
    have hbeside : h.Beside (k.forgetToken job.token before.nextTask) := by
      have haside := (h.closeReply before.replies.length).aside_releaseTurn
      exact ⟨(k.setting_forgetToken _ _).trans hsetting, haside.threads, haside.nextThread⟩
    rw [idleWait, idle_step hb hset hstep hsetting]
    refine OnWay.ends hbeside ?_ (toGo_lt ?_ (by simp [Execution.toGo]))
    · have hfinished : (k.forgetToken job.token before.nextTask).finished = before.finished :=
        congrArg Doings.finished hdoings
      rw [hfinished, hdoings]
      exact .ended (d := d) hclosing
    · have hpending := congrArg IdleSlot.pending hslot
      rw [hdoings]
      exact hpending.symm
  | _ => exact hstays (congrArg Doings.replies hd) (.inl (Option.some_ne_none _))

/-- The thread that has answered the caller goes on with closing the prompt. -/
theorem Closing.step {work : List Activation} {d : Doings}
    (hc : before.Closing job texts (some work) d) {h : Host} {slot : IdleSlot} {replies : List Reply}
    {finished : List (Nat × TaskResult)} (hd : h.doings = { d with slot, replies, finished })
    (m : Nat) (below : List Activation) :
    ∃ k work', Activation.step h (work ++ below) = some (k, work' ++ below) ∧
      k.setting = h.setting ∧ (stackOf work').elim 0 (Activation.toGo m) < Activation.toGo m work ∧
      ∃ d', before.Closing job texts (stackOf work') d' ∧
        k.doings = { d' with slot, replies, finished } := by
  have hstack : h.stack = d.stack := congrArg Doings.stack hd
  cases hc with
  | unlocking =>
    refine ⟨h.unlockPipeline before.trace.pipelines, [.serve (.release before.idlePermit)], rfl, rfl,
      by simp [stackOf, Activation.toGo], _, .releasing, ?_⟩
    have hlocked : h.locked.erase before.trace.pipelines = before.locked := by
      rw [show h.locked = before.trace.pipelines :: before.locked from congrArg Doings.locked hd,
        List.erase_cons_head]
    have hdoings : (h.unlockPipeline before.trace.pipelines).doings =
        { h.doings with locked := h.locked.erase before.trace.pipelines } := rfl
    rw [hdoings, hd, hlocked]
    rfl
  | releasing =>
    refine ⟨h.releaseGate before.stack.gates.length, [.serve .closePrompt], rfl,
      h.setting_releaseGate _, by simp [stackOf, Activation.toGo], _, .closing, ?_⟩
    have hpushed : h.stack.modifyGate before.stack.gates.length TicketGate.release =
        before.stack.push before.trace.pipelines false :=
      hstack ▸ before.stack.release_pushLeased _ _
    rw [doings_releaseGate, hd, hpushed]
    rfl
  | closing =>
    refine ⟨{ h with stack := h.stack.pop }, [], rfl, rfl, by simp [stackOf, Activation.toGo], _,
      .left, ?_⟩
    have hdoings : ({ h with stack := h.stack.pop } : Host).doings =
        { h.doings with stack := h.stack.pop } := rfl
    rw [hdoings, hd, hstack]
    rfl

/-- The thread that has got the command in an idle moment goes on. -/
theorem IdleWay.work (hl : before.Lending) (hb : before.Brings job actions)
    (ho : o = before.engine.outcome [] actions) (htexts : texts = errorTexts actions) {h : Host}
    (hset : h.setting = before.setting) {run : Option Execution} {work : List Activation}
    {d : Doings} (hway : before.IdleWay job sink o texts run (some work) d) (hd : h.doings = d)
    (below : List Activation) :
    (Activation.step h (work ++ below) = none ∧
        ∃ name, Activation.barrier? work = some name ∧ h.barriers.contains name = false) ∨
      ∃ k work', Activation.step h (work ++ below) = some (k, work' ++ below) ∧
        k.setting = h.setting ∧ before.IdleWay job sink o texts run (stackOf work') k.doings ∧
        toGo actions.length run (stackOf work') k.doings <
          toGo actions.length run (some work) h.doings := by
  cases hway with
  | taken =>
    obtain ⟨k, hcreate, hk, hdoings⟩ := hl.create hset (congrArg Doings.attempts hd)
      (congrArg Doings.pipelines hd)
    have hstack : k.stack = before.stack :=
      (congrArg Doings.stack hdoings).trans (congrArg Doings.stack hd)
    let opened : Host := { k with stack := before.stack.pushLeased before.trace.pipelines false }
    have hopened : opened.doings = before.inPrompt opened.stack h.doings := by
      have hstacked : opened.doings = { k.doings with stack := opened.stack } := rfl
      rw [hstacked, hdoings]
      rfl
    refine .inr ⟨opened, [.serve (.lock (before.idleRequest job) before.idlePermit
      before.trace.pipelines)], ?_, hk, ?_, toGo_lt (by rw [hopened]; rfl)
      (by simp [stackOf, Activation.toGo])⟩
    · simp only [List.cons_append, List.nil_append, Activation.step, Activation.stepServing, hcreate,
        hstack]
      rfl
    · rw [hopened, hd]
      exact .opened
  | opened =>
    obtain ⟨counted, hplan⟩ := hb.plan
    have hlocked : h.isLocked before.trace.pipelines = false :=
      (congrArg (fun d : Doings => d.locked.contains before.trace.pipelines) hd).trans hl.unlocked
    let locks := h.newToken.2.lockPipeline before.trace.pipelines
    have hset' : locks.setting = before.setting := h.setting_newToken.trans hset
    -- The engine is given a token that nobody else knows, in place of the caller's.
    let job' : Job := { job with token := h.newToken.1 }
    let waits : Activation :=
      .serve (.called (before.idleRequest job) before.idlePermit before.trace.pipelines)
    have hplan' : before.engine.plan job'.command = .actions counted actions := hplan
    obtain ⟨k, inv, hbegin, hrest, hc, hk, hdoings⟩ := Activation.begin_plain hset'
      before.trace.pipelines hplan' hb.plain (waits :: below)
    rw [← ho, ← htexts] at hc
    refine .inr ⟨k, [.command inv, waits], ?_, hk.trans h.setting_newToken, ?_,
      toGo_lt (by rw [hdoings]; rfl) (by simp [stackOf, Activation.toGo, hrest])⟩
    · simp only [List.cons_append, List.nil_append, Activation.step, Activation.stepServing]
      rw [hlocked, ← hbegin]
      rfl
    · have hcommands : locks.commands = before.commands := congrArg Doings.commands hd
      have hbefore : h.locked = before.locked := congrArg Doings.locked hd
      have hlocks : locks.doings =
          { h.doings with locked := before.trace.pipelines :: h.locked } := rfl
      have hway : before.IdleWay job sink _ _ _ _ _ := IdleWay.called hc
      rw [doingsBy_nil] at hway
      rw [hdoings, hlocks, hd, hcommands, hbefore]
      exact hway
  | @called inv told hc =>
    rcases Activation.step_plain hset hc (.inr ⟨before.idleRequest job,
        before.idlePermit, before.trace.pipelines, rfl⟩) below with
      ⟨hnone, name, rest, hrest, hclosed⟩ | ⟨k, inv', more, hstep, hc', hlt, hk, hdoings⟩ |
      ⟨k, hstep, rfl, hk, hdoings⟩
    · exact .inl ⟨hnone, name, by simp only [Activation.barrier?, hrest], hclosed⟩
    · refine .inr ⟨k, [.command inv', _], hstep, hk, ?_,
        toGo_lt (by rw [hdoings]) (by simpa [stackOf, Activation.toGo] using hlt)⟩
      have hway : before.IdleWay job sink o texts _ _ _ := IdleWay.called hc'
      rw [hdoings, hd, records_doingsBy_append (congrArg Doings.records hd)]
      exact hway
    · refine .inr ⟨k, [.serve (.answer (before.idleRequest job) before.idlePermit
        before.trace.pipelines o.result)], hstep, hk, ?_,
        toGo_lt (by rw [hdoings]) (by simp [stackOf, Activation.toGo])⟩
      rw [hdoings, hd]
      exact .answering
  | answering =>
    have hreplies : h.replies = before.replies ++ [.open_ before.nextTask] :=
      congrArg Doings.replies hd
    refine .inr ⟨h.sendReply before.replies.length o.result,
      [.serve (.unlock before.idlePermit before.trace.pipelines)], rfl, h.setting_sendReply _ _, ?_,
      toGo_lt (by rw [doings_sendReply hreplies]) (by simp [stackOf, Activation.toGo])⟩
    have hway : before.IdleWay job sink o texts _ _ _ := .answered .unlocking
    rw [doings_sendReply hreplies, hd]
    exact hway
  | @answered _ d hclosing =>
    obtain ⟨k, work', hstep, hk, hlt, d', hclosing', hdoings⟩ := hclosing.step hd actions.length below
    refine .inr ⟨k, work', hstep, hk, ?_, toGo_lt (by rw [hdoings, hd]) (Nat.add_lt_add_left hlt _)⟩
    rw [hdoings]
    exact .answered (d := d') hclosing'
  | @ended _ d hclosing =>
    obtain ⟨k, work', hstep, hk, hlt, d', hclosing', hdoings⟩ := hclosing.step hd actions.length below
    refine .inr ⟨k, work', hstep, hk, ?_, toGo_lt (by rw [hdoings, hd]) (Nat.add_lt_add_left hlt _)⟩
    rw [hdoings]
    exact .ended (d := d') hclosing'

theorem IdleWay.leading (hl : before.Lending) (hturn : before.slot.turn.tickets = ⟨[()], [], []⟩)
    (hb : before.Brings job actions) :
    before.Leading sink actions.length
      (before.IdleWay job sink (before.engine.outcome [] actions) (errorTexts actions)) where
  poll h run work bias hset hway := hway.poll hl hturn hb hset rfl _ bias
  work h run work below hset hway := hway.work hl hb rfl rfl hset rfl below
  take run work d q hway hq := by
    have hnone : before.slot.pending = none := hl.still.pending
    cases hway with
    | parked =>
      obtain rfl := Option.some.inj hq
      refine ⟨rfl, ?_⟩
      have hempty : { before.slotAwaiting with pending := none } = before.slotAwaiting := by
        rw [← hnone]
        rfl
      dsimp only
      rw [hempty]
      exact .taken
    | _ => cases hnone.symm.trans hq
  served run work d q hway hq := ⟨hl.keys, hl.subscribed⟩
  busy run work d hway := by
    cases hway with
    | answered hclosing => cases hclosing <;> simp [Activation.toGo]
    | ended hclosing => cases hclosing <;> simp [Activation.toGo]
    | _ => simp [Activation.toGo]

end

end Host

end SharedPrompt
