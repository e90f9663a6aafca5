import SharedPrompt.Proofs.Desk
import SharedPrompt.Proofs.LatestRead

/-!
# Which read an abort stops

Whoever aborts the read in progress fires the token of the latest read, as far as that is still under
way. The read that holds the line can be another one: it was entered before the latest, while both
waited behind a command.
-/

namespace SharedPrompt

namespace Host

variable {h k : Host}

/-! ## A read that is stopped ends -/

theorem thread?_setThread_self {id : Nat} {t : Thread} (ht : k.thread? id = some t)
    {stack : List Activation} (hne : stack ≠ []) :
    (k.setThread id stack).thread? id = some ⟨id, stack⟩ := by
  have hset (threads : List Thread) (ht : threads.find? (·.id = id) = some t) :
      (threads.map fun u => if u.id = id then ⟨id, stack⟩ else u).find? (·.id = id) =
        some ⟨id, stack⟩ := by
    induction threads with
    | nil => cases ht
    | cons u rest ih =>
      by_cases hu : u.id = id
      · simp [hu]
      · rw [List.find?_cons_of_neg (by simpa using hu)] at ht
        rw [List.map_cons, if_neg hu, List.find?_cons_of_neg (by simpa using hu)]
        exact ih ht
  simp only [setThread, List.isEmpty_iff, hne, if_false]
  exact hset k.threads ht

/-- The thread `th` has `stack`, and the task of a read waits for the answer to `work`. -/
structure ReadsOn (h : Host) (x : EditorRead) (th : Nat) (work : Assignment)
    (stack : List Activation) : Prop where
  thread : h.thread? th = some ⟨th, stack⟩
  reply : ∃ u, h.replies[work.reply]? = some (.open_ u)
  task : h.task? x.task = some (.read (.reading (.running work.reply) x.id x.caller x.own))

def Editing (h : Host) (x : EditorRead) (th : Nat) : Prop :=
  ∃ work inv fresh below, inv.token = x.own ∧
    h.ReadsOn x th work (.edit inv fresh :: .errand .called work :: below)

namespace ReadsOn

variable {x : EditorRead} {th : Nat} {work : Assignment} {stack stack' : List Activation}

theorem advance (hr : h.ReadsOn x th work stack) (hs : Activation.step h stack = some (k, stack'))
    (hne : stack' ≠ []) (hdesk : k.desk = h.desk) :
    (h.apply (.advance th)).ReadsOn x th work stack' := by
  have hthreads : k.threads = h.threads := congrArg (·.2.2.1) hdesk
  have hreplies : k.replies = h.replies := congrArg (·.2.1) hdesk
  rw [apply_advance hr.thread hs]
  constructor
  · apply thread?_setThread_self _ hne
    · exact ⟨th, stack⟩
    · rw [thread?, hthreads]
      exact hr.thread
  · rw [setThread_eq, hreplies]
    exact hr.reply
  · rw [setThread_eq, task?, (Activation.step_shifts 0 hs).sameCalls.tasks]
    exact hr.task

/-- A thread that has come back from the line editor gives everything back and answers. -/
theorem answered {r : RunResult} {below : List Activation}
    (hr : h.ReadsOn x th work (.errand (.unlock r) work :: below)) :
    let h' := h.run (List.replicate 4 (.advance th))
    h'.replies[work.reply]? = some (.sent r) ∧
      h'.task? x.task = some (.read (.reading (.running work.reply) x.id x.caller x.own)) ∧
        h'.tokens = h.tokens := by
  let unlocked := h.apply (.advance th)
  let left := unlocked.apply (.advance th)
  let given := left.apply (.advance th)
  have hunlocked : unlocked.ReadsOn x th work (.errand (.release r) work :: below) :=
    hr.advance rfl (by simp) rfl
  have hleft : left.ReadsOn x th work (.errand (.releaseMain r) work :: below) :=
    hunlocked.advance rfl (by simp) (desk_releaseGate _ _)
  have hgiven : given.ReadsOn x th work (.errand (.answer r) work :: below) :=
    hleft.advance rfl (by simp) (desk_releaseAll _ _)
  have htokens : given.tokens = h.tokens := by
    have hgates {a b : Host} (hab : a.AtGates b) : b.tokens = a.tokens :=
      hab.same Host.tokens fun _ _ _ => rfl
    rw [show given = _ from apply_advance hleft.thread rfl, setThread_eq]
    refine (hgates (left.atGates_releaseAll _)).trans ?_
    rw [show left = _ from apply_advance hunlocked.thread rfl, setThread_eq]
    refine (hgates (unlocked.atGates_releaseGate _)).trans ?_
    rw [show unlocked = _ from apply_advance hr.thread rfl, setThread_eq]
    rfl
  obtain ⟨u, hu⟩ := hgiven.reply
  have hsent : given.apply (.advance th) = (given.sendReply work.reply r).setThread th below :=
    apply_advance hgiven.thread rfl
  intro h'
  have hrun : h' = given.apply (.advance th) := rfl
  have hlt := (List.getElem?_eq_some_iff.1 hu).1
  have hwake (k : Host) : (k.wake u).replies = k.replies := congrArg (·.2.1) (k.desk_wake u)
  have hkeep (k : Host) : (k.wake u).tokens = k.tokens :=
    (k.atGates_wake u).same Host.tokens fun _ _ _ => rfl
  rw [hrun, hsent, setThread_eq, sendReply, hu]
  refine ⟨?_, ?_, (hkeep _).trans htokens⟩
  · change (Host.wake _ u).replies[work.reply]? = _
    rw [hwake]
    simp [hlt]
  · rw [task?, (aside_wake _ u).tasks]
    exact hgiven.task

/-- A read whose command comes back ends with what it makes of the result. -/
theorem returns {r : RunResult} {below : List Activation}
    (hr : h.ReadsOn x th work (.errand (.unlock r) work :: below)) :
    (x.task, .line (ReadCall.interpret (h.tokens.isFired x.caller) r)) ∈
      (h.run (List.replicate 4 (.advance th) ++ [.poll x.task []])).finished := by
  obtain ⟨hreply, htask, htokens⟩ := hr.answered
  rw [run_concat, ← htokens]
  generalize h.run (List.replicate 4 (.advance th)) = h' at hreply htask
  have hfired : ((h'.closeReply work.reply).forgetToken x.caller x.task).tokens.isFired x.caller =
      h'.tokens.isFired x.caller := h'.tokens.isFired_forget _ _ _
  have hpoll : (Task.read (.reading (.running work.reply) x.id x.caller x.own)).step h' x.task [] =
      (ReadCall.clearActive ((h'.closeReply work.reply).forgetToken x.caller x.task) x.id,
        .done (.line (ReadCall.interpret (h'.tokens.isFired x.caller) r))) := by
    rw [← hfired]
    simp only [Task.step, ReadCall.step, Execution.step, hreply]
    rfl
  rw [apply_poll htask hpoll]
  simp [afterPoll, finishTask]

end ReadsOn

/-- A read whose token has fired ends with an empty line, without any line typed. -/
theorem Editing.ends {x : EditorRead} {th : Nat} (he : h.Editing x th)
    (hcancel : h.engine.cancellable = true) (hlines : h.engine.lines = [])
    (hfired : h.tokens.isFired x.own = true) : (x.task, .line (.ok "")) ∈
      (h.run (List.replicate 5 (.advance th) ++ [.poll x.task []])).finished := by
  obtain ⟨work, inv, fresh, below, htoken, hr⟩ := he
  have hedit : Activation.step h (.edit inv fresh :: .errand .called work :: below) =
      some ({ h with engine := h.engine.finish inv true },
        .errand (.unlock (.error (.script .cancelled))) work :: below) := by
    simp only [Activation.step, Activation.stepEdit, hlines, hcancel, htoken, hfired, Bool.and_self,
      if_true]
    rfl
  rw [List.replicate_succ, List.cons_append, run_cons]
  exact (hr.advance hedit (by simp) rfl).returns

/-- A read for which there is a line ends with that, or with an empty line if its caller's token has
fired. -/
theorem Editing.ends_of_line {x : EditorRead} {th : Nat} (he : h.Editing x th) {line : String}
    {rest : List String} (hlines : h.engine.lines = line :: rest) :
    (x.task, .line (.ok (if h.tokens.isFired x.caller then "" else line))) ∈
      (h.run (List.replicate 5 (.advance th) ++ [.poll x.task []])).finished := by
  obtain ⟨work, inv, fresh, below, -, hr⟩ := he
  have hedit : Activation.step h (.edit inv fresh :: .errand .called work :: below) =
      some ({ h with engine := { h.engine with lines := rest }.finish inv true },
        .errand (.unlock (.ok [.str line])) work :: below) := by
    simp only [Activation.step, Activation.stepEdit, hlines]
    rfl
  have htokens : (h.apply (.advance th)).tokens = h.tokens := by
    rw [apply_advance hr.thread hedit, setThread_eq]
  rw [List.replicate_succ, List.cons_append, run_cons, ← htokens]
  exact (hr.advance hedit (by simp) rfl).returns

/-- A read for which the editor gives up its line ends with an empty line. -/
theorem Editing.ends_of_lines {x : EditorRead} {th : Nat} (he : h.Editing x th) {rest : List String}
    (hlines : h.engine.lines = "" :: rest) : (x.task, .line (.ok "")) ∈
      (h.run (List.replicate 5 (.advance th) ++ [.poll x.task []])).finished := by
  simpa only [ite_self] using he.ends_of_line hlines

/-! ## What an abort fires -/

theorem tokens_fireToken (h : Host) (token : Nat) :
    (h.fireToken token).tokens = (h.tokens.fire token).1 := by
  have hwake (k : Host) (tasks : List Nat) : (k.wakeAll tasks).tokens = k.tokens := by
    induction tasks generalizing k with
    | nil => rfl
    | cons t rest ih =>
      refine (ih (k.wake t)).trans ?_
      unfold wake
      split <;> rfl
  exact hwake _ _

/-- The abort fires the token of the read that counts as the latest. -/
theorem tokens_begin (hnative : h.native = true) (hcancel : h.engine.cancellable = true)
    (hbusy : h.lineBusy = true) : (AbortCall.begin h).1.tokens =
      match h.editor.active with
      | some (_, own) => (h.tokens.fire own).1
      | none => h.tokens.new.2 := by
  simp only [AbortCall.begin, hnative, hbusy, hcancel]
  cases hactive : h.editor.active with
  | none => rfl
  | some latest => exact h.tokens_fireToken latest.2

/-- Of the reads under way for callers with tokens of their own, an abort stops the latest. -/
theorem ReadsKept.isFired_begin {first : Nat} {entries : List EditorRead}
    (hk : h.ReadsKept first entries) (hnative : h.native = true)
    (hcancel : h.engine.cancellable = true) (hbusy : h.lineBusy = true) {x : EditorRead}
    (hx : x ∈ entries) (hcaller : x.caller < first) (hread : h.readOf? x.task = some x.id) :
    (AbortCall.begin h).1.tokens.isFired x.own = true ↔
      h.tokens.isFired x.own = true ∨ entries.getLast? = some x := by
  rw [tokens_begin hnative hcancel hbusy, hk.active]
  cases hlast : h.lastUnderWay? entries with
  | none =>
    have hnot : entries.getLast? ≠ some x := by
      intro hget
      rw [lastUnderWay?_eq_some.2 ⟨hget, hread⟩] at hlast
      cases hlast
    simp only [Option.map_none, Tokens.isFired_new, hnot, or_false]
  | some y =>
    obtain ⟨hget, -⟩ := lastUnderWay?_eq_some.1 hlast
    have hy := List.mem_of_getLast? hget
    simp only [Option.map_some, Tokens.isFired_fire, Tokens.family_eq, List.mem_append,
      List.mem_reverse, List.mem_singleton]
    constructor
    · rintro (hfired | ⟨-, hmem | hown, -⟩)
      · exact .inl hfired
      · -- Nobody derives a read's own token from that of another read.
        rcases hk.derived x hx hcaller with hderived | hfired
        · have heq := hk.parted.one _ _ _ hmem hderived
          have hle := (hk.owns y hy).1
          omega
        · exact .inl hfired
      · rw [hk.eq_of_own hx hy hown]
        exact .inr hget
    · rintro (hfired | hlatest)
      · exact .inl hfired
      · obtain rfl : y = x := Option.some.inj (hget.symm.trans hlatest)
        by_cases hfired : h.tokens.isFired y.own = true
        · exact .inl hfired
        · exact .inr ⟨by simpa using hfired, .inr rfl, (hk.owns y hy).2⟩

theorem begin_frame (h : Host) :
    (AbortCall.begin h).1.desk = h.desk ∧ h.Aside (AbortCall.begin h).1 := by
  unfold AbortCall.begin
  split
  · exact ⟨h.desk_stopReader, h.aside_stopReader⟩
  · split
    · exact ⟨rfl, .refl h⟩
    · split
      next token _ _ => exact ⟨h.desk_fireToken token, h.aside_fireToken token⟩
      next => exact ⟨rfl, h.aside_newSink.trans (aside_newToken _)⟩

theorem Editing.begin {x : EditorRead} {th : Nat} (he : h.Editing x th) :
    (AbortCall.begin h).1.Editing x th ∧ (AbortCall.begin h).1.engine = h.engine := by
  obtain ⟨hdesk, haside⟩ := h.begin_frame
  obtain ⟨work, inv, fresh, below, htoken, hr⟩ := he
  refine ⟨⟨work, inv, fresh, below, htoken, ?_⟩, haside.engine⟩
  constructor
  · rw [thread?, haside.threads]
    exact hr.thread
  · rw [show (AbortCall.begin h).1.replies = h.replies from congrArg (·.2.1) hdesk]
    exact hr.reply
  · rw [task?, haside.tasks]
    exact hr.task

/-- An abort finds the line taken while a read is under way for a caller that made its own token. It
stops that read exactly if that one was entered last, whichever read holds the line. Where a thread
has the line editor read for it, a read that is stopped ends with an empty line, and no line need be
typed for that. -/
theorem abort_stops_latest (follows : Bool) (engine : Engine) (console : Console Waiter) (n : Nat)
    (past : List Event) (x : EditorRead) (hcancel : engine.cancellable = true)
    (hcaller : x.caller < n) :
    let start : Host := { established true follows engine console with tokens := callersTokens n }
    let h := start.run past
    let after := (AbortCall.begin h).1
    h.lineBusy = true → x ∈ start.entries past → h.readOf? x.task = some x.id →
      (after.tokens.isFired x.own = true ↔
        h.tokens.isFired x.own = true ∨ (start.entries past).getLast? = some x) ∧
      ∀ th, h.Editing x th → h.engine.lines = [] → after.tokens.isFired x.own = true →
        (x.task, .line (.ok "")) ∈
          (after.run (List.replicate 5 (.advance th) ++ [.poll x.task []])).finished := by
  intro start h after hbusy hx hread
  have hkept : start.WellKept :=
    (WellKept.established true follows engine console).setTokens (callersTokens n)
  have hreads : h.ReadsKept n (start.entries past) :=
    ReadsKept.run hkept (.established true follows engine console n) past
  obtain ⟨hnative, hlike⟩ := editor_run_established follows engine console n past
  have hobserves : h.engine.cancellable = true := hlike.trans hcancel
  refine ⟨hreads.isFired_begin hnative hobserves hbusy hx hcaller hread, ?_⟩
  intro th he hlines hfired
  obtain ⟨hediting, hengine⟩ := he.begin
  apply hediting.ends _ _ hfired
  · rw [hengine]
    exact hobserves
  · rw [hengine]
    exact hlines

/-- A host for callers with `n` tokens, whose line editor observes its token, and on whose engine
the command `a` waits for a barrier. -/
def withEditor (n : Nat) : Host :=
  { established true false { cancellable := true, behavior := [("a", [.barrier "g"])] } {} with
    tokens := callersTokens n }

/-- Two reads are entered while the line is free, and the second one takes it. -/
def secondReads : List Event :=
  [.start (.read true 0), .start (.read true 1), .poll 0 [], .poll 0 []] ++
    List.replicate 7 (.poll 1 []) ++ [.advance 0, .advance 0]

/-- An abort stops the second read, which ends. -/
theorem abort_stops_latest_secondReads :
    (withEditor 2).entries secondReads = [⟨0, 1, 0, 2⟩, ⟨1, 2, 1, 3⟩] ∧
      ((withEditor 2).run secondReads).Editing ⟨1, 2, 1, 3⟩ 0 ∧
      let after := (AbortCall.begin ((withEditor 2).run secondReads)).1
      (1, .line (.ok "")) ∈
        (after.run (List.replicate 5 (.advance 0) ++ [.poll 1 []])).finished := by
  have hentries : (withEditor 2).entries secondReads = [⟨0, 1, 0, 2⟩, ⟨1, 2, 1, 3⟩] := rfl
  have hediting : ((withEditor 2).run secondReads).Editing ⟨1, 2, 1, 3⟩ 0 :=
    ⟨⟨⟨1, some 0, true⟩, 1, ⟨.readLine, .reading, 1, 3⟩, 0⟩, _, true, [], rfl, rfl, ⟨1, rfl⟩, rfl⟩
  refine ⟨hentries, hediting, ?_⟩
  obtain ⟨hfires, hends⟩ := abort_stops_latest false
    { cancellable := true, behavior := [("a", [.barrier "g"])] } {} 2 secondReads ⟨1, 2, 1, 3⟩ rfl
    (by decide) rfl (by change _ ∈ (withEditor 2).entries secondReads; simp [hentries]) rfl
  exact hends 0 hediting rfl (hfires.2 (.inr (congrArg List.getLast? hentries)))

/-- Two reads wait behind a command. The second one is stopped by its caller, and when the command
ends the first one takes the line. -/
def firstReads : List Event :=
  .start (.run ⟨.script "a", {}, 0, 0⟩ none) :: List.replicate 4 (.poll 0 []) ++
    [.advance 0, .advance 0] ++ .start (.read true 1) :: List.replicate 5 (.poll 1 []) ++
    .start (.read true 2) :: List.replicate 5 (.poll 2 []) ++
    [.fire 2, .poll 2 [], .barrier "g" true] ++ List.replicate 6 (.advance 0) ++
    List.replicate 4 (.poll 1 []) ++ [.advance 1, .advance 1]

/-- An abort does not stop the first read, which holds the line, but asks for an idle moment. -/
theorem firstReads_not_stopped :
    let h := (withEditor 3).run firstReads
    h.lineBusy = true ∧ h.Editing ⟨1, 1, 1, 3⟩ 1 ∧
      (AbortCall.begin h).1.tokens.isFired 3 = false ∧
      ∃ job, (AbortCall.begin h).2 = .next (.reverting (.start job) (.choose true)) ∧
        job.command = .revertLine := by
  intro h
  have hediting : h.Editing ⟨1, 1, 1, 3⟩ 1 :=
    ⟨⟨⟨1, some 0, true⟩, 1, ⟨.readLine, .reading, 0, 3⟩, 1⟩, _, true, [], rfl, rfl, ⟨1, rfl⟩, rfl⟩
  exact ⟨rfl, hediting, rfl, _, rfl, rfl⟩

end Host

end SharedPrompt
