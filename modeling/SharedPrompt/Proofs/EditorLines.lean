import SharedPrompt.Proofs.DeskRuns

/-!
# The lines of the line editor

The line editor takes its lines from one buffer, oldest first. Into this buffer go the lines that are
typed, and an empty line each time when the engine begins the command that makes the editor give up
its line. So what was taken and what is still there are together what was put there, in order.
-/

namespace SharedPrompt

inductive BufferLine where
  | typed (line : String)
  /-- The empty line of a command that reverts the editor, run for a request or an errand. -/
  | reverted (reply : Nat)

def BufferLine.text : BufferLine → String
  | typed line => line
  | reverted _ => ""

/-! ## What the engine does with the buffer -/

namespace Engine

/-- The engine takes a command for one that makes the line editor give up its line. -/
def reverts (e : Engine) (command : Command) : Bool :=
  match e.plan command with
  | .revert => true
  | _ => false

theorem eq_revertLine_of_reverts {e : Engine} {command : Command}
    (hr : e.reverts command = true) : command = .revertLine := by
  cases command with
  | revertLine => rfl
  | readLine =>
    simp only [reverts, plan] at hr
    split at hr <;> rename_i hplan
    · split at hplan <;> cases hplan
    · cases hr
  | _ => cases hr

theorem lines_begin (e : Engine) (pipeline : Nat) (command : Command) (sink token : Nat) :
    (e.begin pipeline command sink token).1.lines =
      e.lines ++ if e.reverts command then [""] else [] := by
  simp only [begin, reverts]
  split <;> rename_i hplan <;> simp [hplan, typeLine]

theorem lines_finish (e : Engine) (inv : Invocation) (reading : Bool) :
    (e.finish inv reading).lines = e.lines := by
  simp only [finish]
  split <;> split <;> rfl

theorem lines_create (e : Engine) (t : Trace) (mode : PipelineMode) :
    (e.create t mode).2.1.lines = e.lines := by
  simp only [create]
  split
  · rfl
  · split <;> rfl

end Engine

def Note.fed? (e : Engine) : Note → Option BufferLine
  | began reply job => if e.reverts job.command then some (.reverted reply) else none
  | _ => none

/-- The line that the editor takes in a step, and the reply of the read that it takes it for. -/
def Activation.drawn? (h : Host) : List Activation → Option (Nat × String)
  | .edit _ _ :: below => h.engine.lines.head?.bind fun line => (client? below).map (·, line)
  | _ => none

namespace Host

def fed? (h : Host) : Event → Option BufferLine
  | .typeLine line => some (.typed line)
  | .advance id => (h.note? (.advance id)).bind (Note.fed? h.engine)
  | _ => none

def drawn? (h : Host) : Event → Option (Nat × String)
  | .advance id => (h.thread? id).bind fun t => Activation.drawn? h t.stack
  | _ => none

def fed (h : Host) (past : List Event) : List BufferLine :=
  h.engine.lines.map .typed ++ h.during fed? past

def drawn (h : Host) (past : List Event) : List (Nat × String) := h.during drawn? past

theorem fed_concat (h : Host) (past : List Event) (e : Event) :
    h.fed (past ++ [e]) = h.fed past ++ ((h.run past).fed? e).toList := by
  rw [fed, h.during_concat, fed, List.append_assoc]

theorem drawn_concat (h : Host) (past : List Event) (e : Event) :
    h.drawn (past ++ [e]) = h.drawn past ++ ((h.run past).drawn? e).toList :=
  h.during_concat _ past e

/-! ## Calls and prompts keep the buffer -/

theorem AtGates.engine {h k : Host} (ha : h.AtGates k) : k.engine = h.engine :=
  ha.same Host.engine fun _ _ _ => rfl

end Host

theorem Move.engine {a b : Host × Multiset Part} (hm : Move a b) : b.1.engine = a.1.engine := by
  cases hm with
  | lease hm =>
    cases hm with
    | aside c ha => exact ha.engine
    | begin h c readLine => rfl
    | advance h c me l => exact (l.atGates_step h me).engine
    | leave h c l => exact (l.atGates_abandon h).engine
    | giveBack h c p => exact (h.atGates_releasePermit p).engine
  | dispatch h c me p job => rfl

/-- Tasks leave the engine to the threads. -/
theorem Moves.engine {a b : Host × Multiset Part} (hm : Moves a b) :
    b.1.engine = a.1.engine := by
  induction hm with
  | refl => rfl
  | tail _ hlast ih => exact hlast.engine.trans ih

namespace Host

variable (h : Host)

theorem lines_createPipeline (mode : PipelineMode) :
    (h.createPipeline mode).2.engine.lines = h.engine.lines :=
  h.engine.lines_create h.trace mode

theorem lines_enterPrompt (kind : PromptKind) :
    (h.enterPrompt kind).engine.lines = h.engine.lines := by
  have hcreate := h.lines_createPipeline .nested
  unfold enterPrompt
  split
  · split <;> rename_i hr <;> rw [hr] at hcreate <;> exact hcreate
  · rfl

theorem lines_leavePrompt : h.leavePrompt.engine.lines = h.engine.lines := by
  unfold leavePrompt
  split
  · dsimp only
    split <;> rfl
  · rfl

theorem engine_teardown : h.teardown.engine = h.engine := by
  have hfold (k : Host) (l : List Nat) : (l.foldl (fun h _ =>
      h.notice (.resubscribeFailed (.subscribe "idle" Engine.injected))) k).engine = k.engine := by
    induction l generalizing k with
    | nil => rfl
    | cons s rest ih => exact ih _
  exact hfold _ _

end Host

/-! ## Threads -/

namespace Activation

variable {h k : Host} {below stack : List Activation}

/-- A step with the note `d` begins with what is in the buffer, and puts there what is noted. -/
def Feeds (h : Host) (d : Option Note) (k : Host) : Prop :=
  k.engine.lines = h.engine.lines ++ ((d.bind (Note.fed? h.engine)).toList.map BufferLine.text)

theorem Feeds.nothing {d : Option Note} (hk : k.engine.lines = h.engine.lines)
    (hd : d.bind (Note.fed? h.engine) = none) : Feeds h d k := by
  rw [Feeds, hd, hk]
  exact (List.append_nil _).symm

theorem Feeds.began {h' : Host} {pipeline : Nat} {job job' : Job}
    (hs : some (beginCommand h' pipeline job' below) = some (k, stack)) (reply : Nat)
    (hengine : h'.engine = h.engine) (hcommand : job'.command = job.command) :
    Feeds h (some (.began reply job)) k := by
  have hk : (beginCommand h' pipeline job' below).1 = k := congrArg Prod.fst (Option.some.inj hs)
  rw [Feeds, ← hk, Option.bind_some, Note.fed?]
  refine (Engine.lines_begin _ _ _ _ _).trans ?_
  rw [hengine, hcommand]
  cases h.engine.reverts job.command <;> rfl

theorem feeds_stepErrand {work : Assignment} {phase : Errand}
    (hs : stepErrand h work below phase = some (k, stack)) :
    Feeds h (note? h (.errand phase work :: below)) k := by
  cases phase with
  | start =>
    simp only [stepErrand] at hs
    simp only [note?]
    split at hs <;> rename_i hfired <;> cases hs
    · rw [if_pos hfired]
      exact .nothing rfl rfl
    · rw [if_neg hfired]
      exact .nothing rfl rfl
  | lock =>
    simp only [stepErrand] at hs
    simp only [note?]
    split at hs <;> rename_i hlocked
    · cases hs
    · rw [if_neg hlocked]
      exact .began hs work.reply rfl rfl
  | called => cases hs
  | unlock r => cases hs; exact .nothing rfl rfl
  | release r =>
    cases hs
    exact .nothing (congrArg Engine.lines (h.atGates_releaseGate _).engine) rfl
  | releaseMain r =>
    cases hs
    exact .nothing (congrArg Engine.lines (h.atGates_releaseAll _).engine) rfl
  | answer r =>
    cases hs
    exact .nothing (congrArg Engine.lines (h.aside_sendReply _ _).engine) rfl

theorem feeds_stepServing {phase : Serving} (hs : stepServing h below phase = some (k, stack)) :
    Feeds h (note? h (.serve phase :: below)) k := by
  cases phase with
  | look =>
    simp only [stepServing] at hs
    split at hs <;> cases hs <;> exact .nothing rfl rfl
  | take =>
    simp only [stepServing] at hs
    simp only [note?]
    split at hs <;> rename_i hq <;> rw [hq] <;> cases hs <;> exact .nothing rfl rfl
  | openPrompt request =>
    have hcreate := h.lines_createPipeline .nested
    simp only [stepServing] at hs
    simp only [note?]
    split at hs <;> rename_i hr <;> rw [hr] at hcreate ⊢ <;> cases hs
    · rename_i f k'
      refine .nothing ?_ rfl
      rw [((k'.notice (.idleFrameFailed f)).aside_sendReply _ _).engine]
      exact hcreate
    · exact .nothing hcreate rfl
  | lock request permit pipeline =>
    simp only [stepServing] at hs
    simp only [note?]
    split at hs <;> rename_i hlocked
    · cases hs
    · rw [if_neg hlocked]
      exact .began hs request.reply h.aside_newToken.engine rfl
  | called request permit pipeline => cases hs
  | answer request permit pipeline r =>
    cases hs
    exact .nothing (congrArg Engine.lines (h.aside_sendReply _ _).engine) rfl
  | unlock permit pipeline => cases hs; exact .nothing rfl rfl
  | release permit =>
    cases hs
    exact .nothing (congrArg Engine.lines (h.atGates_releasePermit permit).engine) rfl
  | closePrompt => cases hs; exact .nothing rfl rfl

theorem lines_endCommand (h : Host) (below : List Activation) (inv : Invocation) (editing : Bool)
    (o : Outcome) : (endCommand h inv editing o below).1.engine.lines = h.engine.lines := by
  have hfinish := h.engine.lines_finish inv editing
  cases hnotice : o.notice? inv.command with
  | none =>
    simp only [endCommand, hnotice]
    split
    · rw [(Host.aside_sendReply _ _ _).engine]
      exact hfinish
    · exact hfinish
  | some n =>
    simp only [endCommand, hnotice]
    split
    · rw [(Host.aside_sendReply _ _ _).engine]
      exact hfinish
    · exact hfinish

theorem fed?_of_invocation {a : Activation} (ha : a.kind = .invocation) :
    (note? h (a :: below)).bind (Note.fed? h.engine) = none := by
  rw [note?_of_invocation h ha]
  cases a.outcome? h <;> cases client? below <;> rfl

theorem lines_stepCommand {inv : Invocation} (hs : stepCommand h inv below = some (k, stack)) :
    k.engine.lines = h.engine.lines := by
  simp only [stepCommand] at hs
  split at hs
  case h_3 o _ =>
    have hend := lines_endCommand h below inv false o
    rwa [Option.some.inj hs] at hend
  all_goals cases hs
  case h_6 kind inv' _ => exact h.lines_enterPrompt kind
  case h_7 inv' _ => exact h.lines_leavePrompt
  all_goals rfl

/-- The editor takes the oldest line, if there is one. -/
theorem lines_stepEdit (h : Host) (inv : Invocation) (below : List Activation) :
    h.engine.lines = h.engine.lines.head?.toList ++ (stepEdit h inv below).1.engine.lines := by
  cases hlines : h.engine.lines with
  | cons line rest =>
    simp only [stepEdit, hlines]
    rw [lines_endCommand]
    rfl
  | nil =>
    simp only [stepEdit, hlines]
    split
    · rw [lines_endCommand, hlines]
      rfl
    · rw [hlines]
      rfl

/-- What is in the buffer before a step, and what is put there, is what is taken out, and what is in
the buffer after it. -/
theorem lines_step {P : Assignment → Prop} {t : List Activation} (hseated : Seated P t)
    (hs : step h t = some (k, stack)) :
    h.engine.lines ++ ((note? h t).bind (Note.fed? h.engine)).toList.map BufferLine.text =
      (drawn? h t).toList.map Prod.snd ++ k.engine.lines := by
  rcases t with - | ⟨a, below⟩
  · cases hs
  · cases a with
    | notify rest => rcases rest with - | ⟨s, rest⟩ <;> cases hs <;> exact List.append_nil _
    | serve phase => exact (feeds_stepServing hs).symm
    | errand phase work => exact (feeds_stepErrand hs).symm
    | direct pipeline called job reply => cases hseated.top _ rfl
    | command inv =>
      rw [fed?_of_invocation rfl, lines_stepCommand hs]
      exact List.append_nil _
    | edit inv fresh =>
      have hedit := lines_stepEdit h inv below
      rw [Option.some.inj hs] at hedit
      rw [fed?_of_invocation rfl, drawn?]
      obtain ⟨reply, hclient⟩ : ∃ reply, client? below = some reply := by
        rcases below_invocation hseated.chain hseated.base rfl with
          ⟨work, rest, rfl⟩ | ⟨request, permit, pipeline, rest, rfl⟩ <;> exact ⟨_, rfl⟩
      rw [hclient]
      refine (List.append_nil _).trans (hedit.trans ?_)
      cases h.engine.lines.head? <;> rfl

/-- Nothing is taken out by a thread that has to wait. -/
theorem drawn?_of_step_eq_none {t : List Activation} (hs : step h t = none) :
    drawn? h t = none := by
  unfold drawn?
  split
  · cases hs
  · rfl

end Activation

namespace Host

variable {h : Host}

theorem lines_advance {P : Assignment → Prop} (hshaped : h.Shaped P) (id : Nat) :
    h.engine.lines ++ (h.fed? (.advance id)).toList.map BufferLine.text =
      (h.drawn? (.advance id)).toList.map Prod.snd ++ (h.apply (.advance id)).engine.lines := by
  simp only [fed?, drawn?, note?]
  cases ht : h.thread? id with
  | none =>
    simp only [apply, stepThread, ht]
    exact List.append_nil _
  | some t =>
    rcases hs : Activation.step h t.stack with - | ⟨k, stack⟩
    · rw [Option.bind_some, Option.bind_some, Activation.note?_of_step_eq_none hs,
        Activation.drawn?_of_step_eq_none hs]
      simp only [apply, stepThread, ht, hs]
      exact List.append_nil _
    · have hstep := Activation.lines_step (hshaped t (List.mem_of_find?_eq_some ht)) hs
      rw [apply_advance ht hs, setThread_eq]
      exact hstep

/-- What an event takes out of the buffer is the oldest, and what it puts there is the latest. -/
theorem lines_apply {P : Assignment → Prop} (hshaped : h.Shaped P) (e : Event) :
    h.engine.lines ++ (h.fed? e).toList.map BufferLine.text =
      (h.drawn? e).toList.map Prod.snd ++ (h.apply e).engine.lines := by
  have hsame {k : Host} (hk : k.engine.lines = h.engine.lines) :
      h.engine.lines ++ [] = [] ++ k.engine.lines := by
    rw [hk]
    exact List.append_nil _
  cases e with
  | poll t bias =>
    cases ht : h.task? t with
    | none =>
      simp only [apply, stepTask, ht]
      exact hsame rfl
    | some task =>
      rcases hs : task.step h t bias with ⟨k, r⟩
      have hmoves := (task.step_moves h t 0 bias).engine
      rw [hs] at hmoves
      rw [apply_poll ht hs]
      have hk : (k.afterPoll t r).engine = k.engine := by
        rcases r with - | - | r
        · rfl
        · rfl
        · cases r <;> rfl
      exact hsame (congrArg Engine.lines (hk.trans hmoves))
  | advance id => exact lines_advance hshaped id
  | start call => exact hsame (congrArg Engine.lines (aside_wake _ _).engine)
  | drop t =>
    cases ht : h.task? t with
    | none =>
      simp only [apply, dropTask, ht]
      exact hsame rfl
    | some task =>
      rw [apply_drop ht]
      exact hsame (congrArg Engine.lines (task.abandon_moves h t 0).moves.engine)
  | release owner =>
    simp only [apply, releaseOwned]
    split
    · exact hsame (congrArg Engine.lines (atGates_releasePermit _ _).engine)
    · exact hsame rfl
  | fire token => exact hsame (congrArg Engine.lines (h.aside_fireToken token).engine)
  | key k => exact hsame (congrArg Engine.lines (h.aside_pushKey k).engine)
  | typeLine line => rfl
  | teardown => exact hsame (congrArg Engine.lines h.engine_teardown)
  | enter kind => exact hsame (h.lines_enterPrompt kind)
  | leave => exact hsame h.lines_leavePrompt
  | push debugger =>
    have hcreate := h.lines_createPipeline .nested
    simp only [apply, pushPrompt]
    split <;> rename_i hr <;> rw [hr] at hcreate <;> exact hsame hcreate
  | pushLeased debugger =>
    have hcreate := h.lines_createPipeline .nested
    simp only [apply, pushLeasedPrompt]
    split <;> rename_i hr <;> rw [hr] at hcreate <;> exact hsame hcreate
  | lock pipeline =>
    simp only [apply]
    split <;> exact hsame rfl
  | _ => exact hsame rfl

/-- In every run, what was put into the buffer is what was taken out of it and what is still there,
in this order. -/
theorem Fresh.lines_run {start : Host} (hf : start.Fresh) (past : List Event) :
    (start.fed past).map BufferLine.text =
      (start.drawn past).map Prod.snd ++ (start.run past).engine.lines := by
  induction past using List.reverseRecOn with
  | nil =>
    rw [fed, List.map_append, List.map_map]
    exact (List.append_nil _).trans (List.map_id _)
  | append_singleton past e ih =>
    have hshaped := (Chronicled.run hf.kept hf.tasks (congrArg (·.2.2.1) hf.desk) past).errands
    rw [fed_concat, drawn_concat, run_concat, List.map_append, List.map_append, ih,
      List.append_assoc, List.append_assoc, lines_apply hshaped e]

/-- The oldest line in the buffer is the first of what was put there that was not taken. -/
theorem Fresh.exists_fed {start : Host} (hf : start.Fresh) {past : List Event} {line : String}
    {rest : List String} (hlines : (start.run past).engine.lines = line :: rest) :
    ∃ b, (start.fed past)[(start.drawn past).length]? = some b ∧ b.text = line := by
  have hall := congrArg (·[(start.drawn past).length]?) (hf.lines_run past)
  simp only [hlines] at hall
  rw [List.getElem?_map, List.getElem?_append_right (by simp)] at hall
  simpa using hall

end Host

end SharedPrompt
