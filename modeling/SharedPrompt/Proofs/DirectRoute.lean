import SharedPrompt.Proofs.LoneWays
import SharedPrompt.Proofs.PlainCommands
import SharedPrompt.Proofs.WellKept

/-!
# A plain command that is executed at once

While no reader in the engine's process holds the line, and the prompt on top is free, a command takes
the ticket there, a thread runs it on the pipeline of that prompt, and the ticket is back in its place
before the caller gets the answer.
-/

namespace SharedPrompt

namespace PromptStack

variable {s : PromptStack}

def topTaken (s : PromptStack) : PromptStack :=
  s.modifyGate s.top.gate fun gate => { gate with tickets := {} }

theorem join_top (hg : (s.gate s.top.gate).tickets = ⟨[()], [], []⟩) (w : Waiter) :
    ((s.gate s.top.gate).join w).1 = true ∧
      (s.modifyGate s.top.gate fun _ => ((s.gate s.top.gate).join w).2) = s.topTaken := by
  rw [TicketGate.join_of_tickets hg]
  exact ⟨rfl, modifyGate_congr rfl⟩

theorem release_topTaken (hg : (s.gate s.top.gate).tickets = ⟨[()], [], []⟩) :
    s.topTaken.modifyGate s.top.gate TicketGate.release = s := by
  rw [topTaken, modifyGate_modifyGate]
  exact modifyGate_of_eq (TicketGate.release_of_taken hg)

end PromptStack

namespace Host

/-- The prompt on top is free, and no reader in the engine's process has the line. -/
structure Vacant (h : Host) : Prop where
  still : h.Still
  unread : (h.lineBusy && h.engine.inProcess) = false
  ticket : h.stack.isLeased h.stack.top.gate = false
  unlocked : h.isLocked h.stack.top.pipeline = false

section
variable (before : Host) (job : Job)

def directWork : Assignment :=
  ⟨⟨before.stack.top.gate, none, false⟩, before.stack.top.pipeline, job, before.replies.length⟩

/-- How far a command that is executed at once has come: who asks, who works, and what it has come to
for others. -/
inductive DirectWay (sink : Option Nat) (o : Outcome) (texts : List String) : Way
  | asking {run : Execution} (hrun : run = .start job ∨ run = .leasing (.choose false) job ∨
      run = .leasing (.ask before.stack.top.gate .command) job) :
    DirectWay sink o texts (some run) none before.doings
  | granted : DirectWay sink o texts (some (.granted (before.directWork job).permit job)) none
      { before.doings with stack := before.stack.topTaken }
  | sent {phase : Errand} (hphase : phase = .start ∨ phase = .lock) :
    DirectWay sink o texts (some (.running before.replies.length))
      (some [.errand phase (before.directWork job)])
      { before.doings with
        stack := before.stack.topTaken
        replies := before.replies ++ [.open_ before.nextTask] }
  | called {inv : Invocation} {told : List String}
      (hc : inv.Carries before.engine o texts job.sink told) :
    DirectWay sink o texts (some (.running before.replies.length))
      (some [.command inv, .errand .called (before.directWork job)])
      { before.doingsBy job told with
        stack := before.stack.topTaken
        replies := before.replies ++ [.open_ before.nextTask]
        locked := before.stack.top.pipeline :: before.locked }
  | unlocking : DirectWay sink o texts (some (.running before.replies.length))
      (some [.errand (.unlock o.result) (before.directWork job)])
      { before.doingsBy job texts with
        stack := before.stack.topTaken
        replies := before.replies ++ [.open_ before.nextTask]
        locked := before.stack.top.pipeline :: before.locked }
  | releasing : DirectWay sink o texts (some (.running before.replies.length))
      (some [.errand (.release o.result) (before.directWork job)])
      { before.doingsBy job texts with
        stack := before.stack.topTaken
        replies := before.replies ++ [.open_ before.nextTask] }
  | answering {phase : Errand} (hphase : phase = .releaseMain o.result ∨ phase = .answer o.result) :
    DirectWay sink o texts (some (.running before.replies.length))
      (some [.errand phase (before.directWork job)])
      { before.doingsBy job texts with replies := before.replies ++ [.open_ before.nextTask] }
  | answered : DirectWay sink o texts (some (.running before.replies.length)) none
      { before.doingsBy job texts with replies := before.replies ++ [.sent o.result] }
  | ended : DirectWay sink o texts none none
      { before.doingsBy job texts with
        replies := before.replies ++ [.closed]
        finished := before.finished ++ [(before.nextTask, .ran o.result sink)] }

end

section
variable {before : Host} {job : Job} {sink : Option Nat} {o : Outcome} {texts : List String}
  {actions : List Action}

theorem Vacant.tickets_top (hv : before.Vacant) (hk : before.WellKept) :
    (before.stack.gate before.stack.top.gate).tickets = ⟨[()], [], []⟩ :=
  (hk.balanced.books.gates before.stack.top.gate).tickets_eq hv.ticket

/-- A command that is executed at once is polled. -/
theorem DirectWay.poll (hv : before.Vacant) (hk : before.WellKept) (hb : before.Brings job actions)
    {h : Host} (hset : h.setting = before.setting) {run : Execution} {work : Option (List Activation)}
    {d : Doings} (hway : before.DirectWay job sink o texts (some run) work d) (hd : h.doings = d)
    (m : Nat) (bias : List Bool) :
    before.OnWay h sink m (before.DirectWay job sink o texts) run work
      (run.step h before.nextTask bias).1 (run.step h before.nextTask bias).2 := by
  have hunfired := hb.unfired_of_setting hset
  cases hway with
  | asking hrun =>
    have hstack : h.stack = before.stack := congrArg Doings.stack hd
    rcases hrun with rfl | rfl | rfl
    · have hpark : Execution.mustPark h job.options = false := by
        rw [mustPark_of_setting hset hstack, Execution.mustPark, Bool.and_assoc, hv.unread,
          Bool.and_false]
      simp only [Execution.step, hpark, hb.ordinary]
      exact .goes (.refl h) (hd ▸ .asking (.inr (.inl rfl)))
        (toGo_lt rfl (by simp [Execution.toGo]))
    · have hstep : (Execution.leasing (.choose false) job).step h before.nextTask bias =
          (h, .next (.leasing (.ask h.stack.top.gate .command) job)) := by
        simp only [Execution.step, Leasing.step]
        rw [orFired_of_unfired rfl hunfired hunfired]
        rfl
      rw [hstep, hstack]
      exact .goes (.refl h) (hd ▸ .asking (.inr (.inr rfl))) (toGo_lt rfl (by simp [Execution.toGo]))
    · -- The ticket is in its place, and so taken without waiting.
      let k : Host := { (h.drawTurn before.nextTask).2 with stack := before.stack.topTaken }
      have hjoin : (h.drawTurn before.nextTask).2.joinGate before.stack.top.gate
          (h.drawTurn before.nextTask).1 = (true, k) := by
        obtain ⟨hfirst, hsecond⟩ :=
          PromptStack.join_top (hv.tickets_top hk) (h.drawTurn before.nextTask).1
        rw [joinGate, show (h.drawTurn before.nextTask).2.stack = before.stack from hstack, hfirst,
          hsecond]
      have hstep : (Execution.leasing (.ask before.stack.top.gate .command) job).step h
          before.nextTask bias = (k.forgetToken job.token before.nextTask,
            .next (.granted ⟨before.stack.top.gate, none, false⟩ job)) := by
        let asks (h : Host) : Host × Poll Leasing (Option Permit) :=
          let r := (Leasing.ask before.stack.top.gate .command).step h before.nextTask
          (r.1, r.2.map id some)
        have hasks : asks h = (k, .done (some ⟨before.stack.top.gate, none, false⟩)) := by
          simp only [asks, Leasing.step, hjoin]
          rfl
        simp only [Execution.step]
        rw [orFired_of_unfired hasks hunfired hunfired]
        rfl
      rw [hstep]
      dsimp only
      have hbeside : h.Beside (k.forgetToken job.token before.nextTask) :=
        ⟨k.setting_forgetToken _ _, rfl, rfl⟩
      refine .goes hbeside ?_ (toGo_lt rfl (by simp [Execution.toGo]))
      have hdoings : (k.forgetToken job.token before.nextTask).doings =
          { h.doings with stack := before.stack.topTaken } := rfl
      rw [hdoings, hd]
      exact .granted
  | granted =>
    have hreplies : h.replies = before.replies := congrArg Doings.replies hd
    have hstack : h.stack = before.stack.topTaken := congrArg Doings.stack hd
    let k : Host := (h.newReply before.nextTask).2
    have hstep : (Execution.granted (before.directWork job).permit job).step h before.nextTask bias =
        (k.spawnThread [.errand .start (before.directWork job)],
          .next (.running before.replies.length)) := by
      simp only [Execution.step, dispatch, newReply, hreplies, hb.ordinary, k]
      rw [hstack]
      rfl
    rw [hstep]
    dsimp only
    have hbeside : h.Beside k := ⟨rfl, rfl, rfl⟩
    refine .sends hbeside rfl (List.cons_ne_nil _ _) ?_
      (toGo_lt rfl (by simp [Execution.toGo, Activation.toGo]; omega))
    have hdoings : k.doings = { h.doings with replies := h.replies ++ [.open_ before.nextTask] } := rfl
    rw [hdoings, hd, hreplies]
    exact .sent (.inl rfl)
  | answered =>
    have hreplies : h.replies = before.replies ++ [.sent o.result] := congrArg Doings.replies hd
    have hstep : (Execution.running before.replies.length).step h before.nextTask bias =
        (h.closeReply before.replies.length, .done o.result) := by
      simp only [Execution.step, reply_of_last hreplies]
    rw [hstep]
    dsimp only
    have hbeside : h.Beside (h.closeReply before.replies.length) := ⟨rfl, rfl, rfl⟩
    refine .ends hbeside ?_ (toGo_lt rfl (by simp [Execution.toGo]))
    have hfinished : (h.closeReply before.replies.length).finished = before.finished :=
      congrArg Doings.finished hd
    rw [hfinished, doings_closeReply hreplies, hd]
    exact .ended
  | _ =>
    have hreplies : h.replies = before.replies ++ [.open_ before.nextTask] :=
      congrArg Doings.replies hd
    simp only [Execution.step, reply_of_last hreplies]
    exact .stays (.refl h) rfl (.inl (Option.some_ne_none _))

/-- The thread that has got the command goes on. -/
theorem DirectWay.work (hv : before.Vacant) (hk : before.WellKept) (hb : before.Brings job actions)
    (ho : o = before.engine.outcome [] actions) (htexts : texts = errorTexts actions) {h : Host}
    (hset : h.setting = before.setting) {run : Option Execution} {work : List Activation}
    {d : Doings} (hway : before.DirectWay job sink o texts run (some work) d) (hd : h.doings = d)
    (below : List Activation) :
    (Activation.step h (work ++ below) = none ∧
        ∃ name, Activation.barrier? work = some name ∧ h.barriers.contains name = false) ∨
      ∃ k work', Activation.step h (work ++ below) = some (k, work' ++ below) ∧
        k.setting = h.setting ∧ before.DirectWay job sink o texts run (stackOf work') k.doings ∧
        toGo actions.length run (stackOf work') k.doings <
          toGo actions.length run (some work) h.doings := by
  have hunfired := hb.unfired_of_setting hset
  cases hway with
  | sent hphase =>
    rcases hphase with rfl | rfl
    · refine .inr ⟨h, [.errand .lock (before.directWork job)], ?_, rfl, hd ▸ .sent (.inr rfl),
        toGo_lt rfl (by simp [stackOf, Activation.toGo])⟩
      simp only [List.cons_append, List.nil_append, Activation.step, Activation.stepErrand,
        directWork, hunfired]
      rfl
    · obtain ⟨counted, hplan⟩ := hb.plan
      have hlocked : h.isLocked before.stack.top.pipeline = false :=
        (congrArg (fun d : Doings => d.locked.contains before.stack.top.pipeline) hd).trans hv.unlocked
      have hset' : (h.lockPipeline before.stack.top.pipeline).setting = before.setting := hset
      obtain ⟨k, inv, hbegin, hrest, hc, hk, hdoings⟩ := Activation.begin_plain hset'
        before.stack.top.pipeline hplan hb.plain (.errand .called (before.directWork job) :: below)
      rw [← ho, ← htexts] at hc
      refine .inr ⟨k, [.command inv, .errand .called (before.directWork job)], ?_, hk, ?_,
        toGo_lt (by rw [hdoings]; rfl) (by simp [stackOf, Activation.toGo, hrest])⟩
      · simp only [List.cons_append, List.nil_append, Activation.step, Activation.stepErrand]
        rw [show (before.directWork job).pipeline = before.stack.top.pipeline from rfl, hlocked,
          ← hbegin]
        rfl
      · have hlocks : (h.lockPipeline before.stack.top.pipeline).doings =
            { h.doings with locked := before.stack.top.pipeline :: h.locked } := rfl
        have hcommands : (h.lockPipeline before.stack.top.pipeline).commands = before.commands :=
          congrArg Doings.commands hd
        have hbefore : h.locked = before.locked := congrArg Doings.locked hd
        have hway : before.DirectWay job sink _ _ _ _ _ := DirectWay.called hc
        rw [doingsBy_nil] at hway
        rw [hdoings, hlocks, hd, hcommands, hbefore]
        exact hway
  | @called inv told hc =>
    rcases Activation.step_plain hset hc (.inl ⟨before.directWork job, rfl⟩) below with
      ⟨hnone, name, rest, hrest, hclosed⟩ | ⟨k, inv', more, hstep, hc', hlt, hk, hdoings⟩ |
      ⟨k, hstep, rfl, hk, hdoings⟩
    · exact .inl ⟨hnone, name, by simp only [Activation.barrier?, hrest], hclosed⟩
    · refine .inr ⟨k, [.command inv', .errand .called (before.directWork job)], hstep, hk, ?_,
        toGo_lt (by rw [hdoings]) (by simpa [stackOf, Activation.toGo] using hlt)⟩
      have hway : before.DirectWay job sink o texts _ _ _ := DirectWay.called hc'
      rw [hdoings, hd, records_doingsBy_append (congrArg Doings.records hd)]
      exact hway
    · refine .inr ⟨k, [.errand (.unlock o.result) (before.directWork job)], hstep, hk, ?_,
        toGo_lt (by rw [hdoings]) (by simp [stackOf, Activation.toGo])⟩
      rw [hdoings, hd]
      exact .unlocking
  | unlocking =>
    refine .inr ⟨h.unlockPipeline before.stack.top.pipeline,
      [.errand (.release o.result) (before.directWork job)], rfl, rfl, ?_,
      toGo_lt rfl (by simp [stackOf, Activation.toGo])⟩
    have hdoings : (h.unlockPipeline before.stack.top.pipeline).doings =
        { h.doings with locked := h.locked.erase before.stack.top.pipeline } := rfl
    have hlocked : h.locked.erase before.stack.top.pipeline = before.locked := by
      rw [show h.locked = before.stack.top.pipeline :: before.locked from congrArg Doings.locked hd,
        List.erase_cons_head]
    rw [hdoings, hd, hlocked]
    exact .releasing
  | releasing =>
    refine .inr ⟨h.releaseGate before.stack.top.gate,
      [.errand (.releaseMain o.result) (before.directWork job)], rfl, h.setting_releaseGate _, ?_,
      toGo_lt (by rw [doings_releaseGate]) (by simp [stackOf, Activation.toGo])⟩
    have hstack : h.stack.modifyGate before.stack.top.gate TicketGate.release = before.stack := by
      rw [show h.stack = before.stack.topTaken from congrArg Doings.stack hd]
      exact PromptStack.release_topTaken (hv.tickets_top hk)
    rw [doings_releaseGate, hd, hstack]
    exact .answering (.inl rfl)
  | answering hphase =>
    rcases hphase with rfl | rfl
    · exact .inr ⟨h, [.errand (.answer o.result) (before.directWork job)], rfl, rfl,
        hd ▸ .answering (.inr rfl), toGo_lt rfl (by simp [stackOf, Activation.toGo])⟩
    · have hreplies : h.replies = before.replies ++ [.open_ before.nextTask] :=
        congrArg Doings.replies hd
      refine .inr ⟨h.sendReply before.replies.length o.result, [], rfl, h.setting_sendReply _ _, ?_,
        toGo_lt (by rw [doings_sendReply hreplies])
          (by simp [stackOf, Activation.toGo])⟩
      rw [doings_sendReply hreplies, hd]
      exact .answered

theorem DirectWay.leading (hv : before.Vacant) (hk : before.WellKept)
    (hb : before.Brings job actions) :
    before.Leading sink actions.length
      (before.DirectWay job sink (before.engine.outcome [] actions) (errorTexts actions)) where
  poll h run work bias hset hway := hway.poll hv hk hb hset rfl _ bias
  work h run work below hset hway := hway.work hv hk hb rfl rfl hset rfl below
  take run work d q hway hq := by
    have hnone : before.slot.pending = none := hv.still.pending
    cases hway <;> cases hnone.symm.trans hq
  served run work d q hway hq := by
    have hnone : before.slot.pending = none := hv.still.pending
    cases hway <;> cases hnone.symm.trans hq
  busy run work d hway := by
    cases hway with
    | sent hphase => rcases hphase with rfl | rfl <;> simp [Activation.toGo]
    | answering hphase => rcases hphase with rfl | rfl <;> simp [Activation.toGo]
    | _ => simp [Activation.toGo]

end

end Host

end SharedPrompt
