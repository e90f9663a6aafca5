import SharedPrompt.Proofs.Notes
import SharedPrompt.Proofs.Desk
import SharedPrompt.Proofs.Seated

/-!
# What threads do at the desk

A thread has in hand the errands that it was sent on and the requests that it has taken out of the
idle slot. A step of a thread brings at most one of these further: it takes a request, has the
engine begin, learns that the engine is done, or answers.
-/

namespace SharedPrompt

/-- A request or an errand, with what is to be done for it. -/
structure Affair where
  reply : Nat
  /-- Whether it waited for an idle moment. -/
  idle : Bool
  job : Job
  phase : Life.Phase

def Parked.affair (request : Parked) : Affair := ⟨request.reply, true, request.job, .waiting⟩

/-- What an affair goes on to, and what is noted of that. -/
inductive Affair.Goes : Affair → Note → Life.Phase → Prop where
  | took (request : Parked) : Goes request.affair (.took request) .unbegun
  | began (reply : Nat) (idle : Bool) (job : Job) :
      Goes ⟨reply, idle, job, .unbegun⟩ (.began reply job) .begun
  | refused (reply : Nat) (job : Job) :
      Goes ⟨reply, false, job, .unbegun⟩ (.refused reply) (.settled (.error .cancelled))
  | ended (reply : Nat) (idle : Bool) (job : Job) (r : RunResult) (hr : r ≠ .error .abandoned) :
      Goes ⟨reply, idle, job, .begun⟩ (.ended reply r) (.settled r)
  | failed (reply : Nat) (job : Job) (f : EngineFault) :
      Goes ⟨reply, true, job, .unbegun⟩ (.ended reply (.error (.engine f)))
        (.settled (.error (.engine f)))

def Host.unpark (h : Host) : Host := { h with slot := { h.slot with pending := none } }

def Host.giveCommand (h : Host) (pipeline : Nat) (job : Job) : Host :=
  { h with trace := h.trace.call (.started pipeline job.options job.command) }

theorem Host.commands_giveCommand (h : Host) (pipeline : Nat) (job : Job) :
    (h.giveCommand pipeline job).commands = h.commands ++ [(job.options, job.command)] := by
  simp [giveCommand, commands, Trace.call, Call.command?]

/-- What a thread may do at the desk, in the midst of other affairs `a`, and what is noted of it. -/
inductive Handled :
    Host × Multiset Affair → Host × Multiset Affair → Option Note → Prop where
  | off {h h' : Host} (a : Multiset Affair) (ho : h.OffDesk h') : Handled (h, a) (h', a) none
  | took {h h' : Host} (a : Multiset Affair) {q : Parked} (hq : h.slot.pending = some q)
      (ho : h.unpark.OffDesk h') :
      Handled (h, a) (h', {{ q.affair with phase := .unbegun }} + a) (some (.took q))
  | began {h h' : Host} (a : Multiset Affair) (reply : Nat) (idle : Bool) (pipeline : Nat)
      (job : Job) (ho : (h.giveCommand pipeline job).OffDesk h') :
      Handled (h, {⟨reply, idle, job, .unbegun⟩} + a) (h', {⟨reply, idle, job, .begun⟩} + a)
        (some (.began reply job))
  | went {h h' : Host} (a : Multiset Affair) {y : Affair} {d : Note} {p : Life.Phase} (hy : y.Goes d p)
      (htook : d.took? = none) (hgiven : d.command? = none) (ho : h.OffDesk h') :
      Handled (h, {y} + a) (h', {{ y with phase := p }} + a) (some d)
  | failed {h h' : Host} (a : Multiset Affair) (reply : Nat) (job : Job) (f : EngineFault)
      (ho : (h.sendReply reply (.error (.engine f))).OffDesk h') :
      Handled (h, {⟨reply, true, job, .unbegun⟩} + a) (h', a)
        (some (.ended reply (.error (.engine f))))
  | answered {h h' : Host} (a : Multiset Affair) (reply : Nat) (idle : Bool) (job : Job)
      (r : RunResult) (ho : (h.sendReply reply r).OffDesk h') :
      Handled (h, {⟨reply, idle, job, .settled r⟩} + a) (h', a) none

/-- The engine is given a command when it begins a job, and only then. -/
theorem Handled.commands {h h' : Host} {a a' : Multiset Affair} {d : Option Note}
    (hd : Handled (h, a) (h', a') d) :
    h'.commands = h.commands ++ (d.bind Note.command?).toList := by
  have hsend (reply : Nat) (r : RunResult) : (h.sendReply reply r).commands = h.commands :=
    (h.aside_sendReply reply r).commands
  cases hd with
  | off a ho => simp [ho.commands]
  | took a hq ho =>
    rw [ho.commands]
    exact (List.append_nil _).symm
  | began a reply idle pipeline job ho =>
    rw [ho.commands, h.commands_giveCommand]
    rfl
  | went a hy htook hgiven ho => simp [ho.commands, hgiven]
  | failed a reply job f ho =>
    rw [ho.commands, hsend]
    exact (List.append_nil _).symm
  | answered a reply idle job r ho => simp [ho.commands, hsend]

/-- The replies after an answer. Only somebody who waits is answered. -/
def Reply.answered (replies : List Reply) (reply : Nat) (r : RunResult) : List Reply :=
  match replies[reply]? with
  | some (.open_ _) => replies.set reply (.sent r)
  | _ => replies

theorem Reply.length_answered (replies : List Reply) (reply : Nat) (r : RunResult) :
    (answered replies reply r).length = replies.length := by
  unfold answered
  split
  · exact List.length_set
  · rfl

/-! ## Changes of a host off the desk -/

namespace Host

variable (h : Host)

theorem offDesk_releaseAll (gates : List Nat) : h.OffDesk (gates.foldl releaseGate h) :=
  (h.grows_releaseAll gates).offDesk (h.desk_releaseAll gates)

theorem desk_enterPrompt (kind : PromptKind) : (h.enterPrompt kind).desk = h.desk := by
  have hcreate := h.desk_createPipeline .nested
  unfold enterPrompt
  split
  · split <;> rename_i hr <;> rw [hr] at hcreate <;> exact hcreate
  · rfl

theorem desk_leavePrompt : h.leavePrompt.desk = h.desk := by
  unfold leavePrompt
  split
  · dsimp only
    split <;> rfl
  · rfl

theorem desk_sendReply (reply : Nat) (r : RunResult) :
    (h.sendReply reply r).desk =
      (h.slot, Reply.answered h.replies reply r, h.threads, h.commands) := by
  simp only [sendReply, Reply.answered]
  rcases h.replies[reply]? with - | r'
  · rfl
  · cases r' with
    | open_ task => exact desk_wake _ _
    | _ => rfl

/-- To answer is to do the same to all hosts of one desk. -/
theorem OffDesk.sendReply {h k : Host} (ho : h.OffDesk k) (reply : Nat) (r : RunResult) :
    (h.sendReply reply r).OffDesk (k.sendReply reply r) where
  desk := by rw [desk_sendReply, desk_sendReply, ho.slot, ho.replies, ho.threads, ho.commands]
  turns := by
    have hturn (h : Host) : (h.sendReply reply r).nextTurn = h.nextTurn := by
      unfold Host.sendReply
      split
      · unfold wake
        split <;> rfl
      · rfl
    rw [hturn, hturn]
    exact ho.turns

end Host

namespace Activation

def affair? : Activation → Option Affair
  | serve (.openPrompt q) => some ⟨q.reply, true, q.job, .unbegun⟩
  | serve (.lock q _ _) => some ⟨q.reply, true, q.job, .unbegun⟩
  | serve (.called q _ _) => some ⟨q.reply, true, q.job, .begun⟩
  | serve (.answer q _ _ r) => some ⟨q.reply, true, q.job, .settled r⟩
  | errand .start work => some ⟨work.reply, false, work.job, .unbegun⟩
  | errand .lock work => some ⟨work.reply, false, work.job, .unbegun⟩
  | errand .called work => some ⟨work.reply, false, work.job, .begun⟩
  | errand (.unlock r) work => some ⟨work.reply, false, work.job, .settled r⟩
  | errand (.release r) work => some ⟨work.reply, false, work.job, .settled r⟩
  | errand (.releaseMain r) work => some ⟨work.reply, false, work.job, .settled r⟩
  | errand (.answer r) work => some ⟨work.reply, false, work.job, .settled r⟩
  | _ => none

def affairs (stack : List Activation) : Multiset Affair := ↑(stack.filterMap affair?)

variable {a : Activation} {below : List Activation}

theorem affairs_cons_of_none (ha : a.affair? = none) : affairs (a :: below) = affairs below := by
  rw [affairs, List.filterMap_cons_none ha, affairs]

theorem affairs_cons_of_some {y : Affair} (ha : a.affair? = some y) :
    affairs (a :: below) = {y} + affairs below := by
  rw [affairs, List.filterMap_cons_some ha, affairs]
  rfl

/-! ## Steps -/

section
variable {h h' : Host} {stack' : List Activation} (F : Multiset Affair)

theorem affairs_beginCommand (k : Host) (pipeline : Nat) (job : Job) (below : List Activation) :
    affairs (beginCommand k pipeline job below).2 = affairs below := by
  simp only [beginCommand]
  split <;> exact affairs_cons_of_none rfl

theorem stepErrand_handled {work : Assignment} {phase : Errand}
    (hs : stepErrand h work below phase = some (h', stack')) :
    Handled (h, affairs (.errand phase work :: below) + F) (h', affairs stack' + F)
      (note? h (.errand phase work :: below)) := by
  cases phase with
  | start =>
    simp only [stepErrand] at hs
    simp only [note?]
    split at hs <;> rename_i hfired <;> cases hs
    · rw [if_pos hfired, affairs_cons_of_some rfl, affairs_cons_of_some rfl, add_assoc, add_assoc]
      exact .went _ (.refused work.reply work.job) rfl rfl (.refl h)
    · rw [if_neg hfired]
      exact .off _ (.refl h)
  | lock =>
    simp only [stepErrand] at hs
    simp only [note?]
    split at hs <;> rename_i hlocked
    · cases hs
    · have hbegin := affairs_beginCommand (h.lockPipeline work.pipeline) work.pipeline work.job
        (.errand .called work :: below)
      rw [Option.some.inj hs, affairs_cons_of_some rfl] at hbegin
      rw [if_neg hlocked, hbegin, affairs_cons_of_some rfl, add_assoc, add_assoc]
      cases hs
      exact .began _ work.reply false work.pipeline work.job ⟨rfl, le_rfl⟩
  | called => cases hs
  | unlock r => cases hs; exact .off _ ⟨rfl, le_rfl⟩
  | release r => cases hs; exact .off _ (h.offDesk_releaseAll [work.permit.lease])
  | releaseMain r => cases hs; exact .off _ (h.offDesk_releaseAll _)
  | answer r =>
    cases hs
    rw [affairs_cons_of_some rfl, add_assoc]
    exact .answered _ work.reply false work.job r (.refl _)

theorem stepServing_handled {phase : Serving}
    (hs : stepServing h below phase = some (h', stack')) :
    Handled (h, affairs (.serve phase :: below) + F) (h', affairs stack' + F)
      (note? h (.serve phase :: below)) := by
  cases phase with
  | look =>
    simp only [stepServing] at hs
    split at hs <;> cases hs <;> exact .off _ (.refl h)
  | take =>
    simp only [stepServing] at hs
    simp only [note?]
    split at hs <;> rename_i hq <;> rw [hq] <;> cases hs
    · exact .off _ (.refl h)
    · rw [affairs_cons_of_none rfl, affairs_cons_of_some rfl, add_assoc]
      exact .took _ hq (.refl _)
  | openPrompt request =>
    have hcreate : h.OffDesk (h.createPipeline .nested).2 := ⟨h.desk_createPipeline .nested, le_rfl⟩
    simp only [stepServing] at hs
    simp only [note?]
    split at hs <;> rename_i hr <;> rw [hr] at hcreate ⊢ <;> cases hs
    · rename_i f k
      rw [affairs_cons_of_some rfl, add_assoc]
      have hnotice : k.OffDesk (k.notice (.idleFrameFailed f)) := ⟨rfl, le_rfl⟩
      exact .failed _ request.reply request.job f ((hcreate.trans hnotice).sendReply _ _)
    · exact .off _ (hcreate.trans ⟨rfl, le_rfl⟩)
  | lock request permit pipeline =>
    simp only [stepServing] at hs
    simp only [note?]
    split at hs <;> rename_i hlocked
    · cases hs
    · have hbegin := affairs_beginCommand (h.newToken.2.lockPipeline pipeline) pipeline
        { request.job with token := h.newToken.1 } (.serve (.called request permit pipeline) :: below)
      rw [Option.some.inj hs, affairs_cons_of_some rfl] at hbegin
      rw [if_neg hlocked, hbegin, affairs_cons_of_some rfl, add_assoc, add_assoc]
      cases hs
      exact .began _ request.reply true pipeline request.job ⟨rfl, le_rfl⟩
  | called request permit pipeline => cases hs
  | answer request permit pipeline r =>
    cases hs
    rw [affairs_cons_of_some rfl, affairs_cons_of_none rfl, add_assoc]
    exact .answered _ request.reply true request.job r (.refl _)
  | unlock permit pipeline => cases hs; exact .off _ ⟨rfl, le_rfl⟩
  | release permit => cases hs; exact .off _ (h.offDesk_releaseAll _)
  | closePrompt => cases hs; exact .off _ ⟨rfl, le_rfl⟩

theorem note?_of_invocation (h : Host) (ha : a.kind = .invocation) :
    note? h (a :: below) =
      (a.outcome? h).bind fun o => (client? below).map fun reply => .ended reply o.result := by
  cases a <;> first | rfl | cases ha

/-- The engine leaves nothing unanswered. -/
theorem result_ne_abandoned (o : Outcome) : o.result ≠ .error .abandoned := by
  intro ho
  cases o <;> cases ho

theorem endCommand_handled {P : Assignment → Prop} (hseated : Seated P (a :: below))
    (ha : a.kind = .invocation) {o : Outcome} (houtcome : a.outcome? h = some o) {k : Host}
    (hk : h.OffDesk k) (inv : Invocation) (editing : Bool) :
    Handled (h, affairs (a :: below) + F) ((endCommand k inv editing o below).1,
      affairs (endCommand k inv editing o below).2 + F) (note? h (a :: below)) := by
  have hnone : a.affair? = none := by
    cases a <;> first | rfl | cases ha
  rw [note?_of_invocation h ha, houtcome, affairs_cons_of_none hnone]
  rcases below_invocation hseated.chain hseated.base ha with
    ⟨work, rest, rfl⟩ | ⟨request, permit, pipeline, rest, rfl⟩
  · simp only [endCommand, deliver]
    rw [affairs_cons_of_some rfl, affairs_cons_of_some rfl, add_assoc, add_assoc]
    refine .went _ (.ended work.reply false work.job _ (result_ne_abandoned o)) rfl rfl
      (hk.trans ?_)
    split <;> exact ⟨rfl, le_rfl⟩
  · simp only [endCommand, deliver]
    rw [affairs_cons_of_some rfl, affairs_cons_of_some rfl, add_assoc, add_assoc]
    refine .went _ (.ended request.reply true request.job _ (result_ne_abandoned o)) rfl rfl
      (hk.trans ?_)
    split <;> exact ⟨rfl, le_rfl⟩

theorem stepCommand_handled {P : Assignment → Prop} {inv : Invocation}
    (hseated : Seated P (.command inv :: below))
    (hs : stepCommand h inv below = some (h', stack')) :
    Handled (h, affairs (.command inv :: below) + F) (h', affairs stack' + F)
      (note? h (.command inv :: below)) := by
  -- Only the end of a command has to do with the desk.
  have hoff (hout : (command inv).outcome? h = none) (ho : h.OffDesk h')
      (hsame : affairs stack' = affairs below) :
      Handled (h, affairs (.command inv :: below) + F) (h', affairs stack' + F)
        (note? h (.command inv :: below)) := by
    rw [note?_of_invocation h rfl, hout, hsame]
    exact .off _ ho
  simp only [stepCommand] at hs
  cases hturn : inv.turn h.engine (h.tokens.isFired inv.token) h.barriers.contains with
  | ended o =>
    have houtcome : (command inv).outcome? h = some o := by simp only [outcome?, hturn]
    have hend := endCommand_handled F hseated rfl houtcome (.refl h) inv false
    rw [hturn] at hs
    rwa [Option.some.inj hs] at hend
  | stuck =>
    rw [hturn] at hs
    cases hs
  | enter kind inv' =>
    rw [hturn] at hs
    cases hs
    refine hoff (by simp only [outcome?, hturn]) ?_ (affairs_cons_of_none rfl)
    exact ⟨h.desk_enterPrompt kind, ((h.enterPrompt_shifts 0 kind).grows).nextTurn⟩
  | leave inv' =>
    rw [hturn] at hs
    cases hs
    refine hoff (by simp only [outcome?, hturn]) ?_ (affairs_cons_of_none rfl)
    exact ⟨h.desk_leavePrompt, ((h.leavePrompt_shifts 0).grows).nextTurn⟩
  | _ =>
    rw [hturn] at hs
    cases hs
    exact hoff (by simp only [outcome?, hturn]) ⟨rfl, le_rfl⟩ (affairs_cons_of_none rfl)

theorem stepEdit_handled {P : Assignment → Prop} {inv : Invocation} {fresh : Bool}
    (hseated : Seated P (.edit inv fresh :: below)) :
    Handled (h, affairs (.edit inv fresh :: below) + F)
      ((stepEdit h inv below).1, affairs (stepEdit h inv below).2 + F)
      (note? h (.edit inv fresh :: below)) := by
  have hend {o : Outcome} (hout : (edit inv fresh).outcome? h = some o) {k : Host}
      (hk : h.OffDesk k) := endCommand_handled F hseated rfl hout hk inv true
  cases hlines : h.engine.lines with
  | cons line rest =>
    simp only [stepEdit, hlines]
    exact hend (by simp only [outcome?, hlines]) ⟨rfl, le_rfl⟩
  | nil =>
    simp only [stepEdit, hlines]
    split
    next hfired => exact hend (by simp only [outcome?, hlines, hfired, if_true]) (.refl h)
    next hnot =>
      have hout : (edit inv fresh).outcome? h = none := by
        simp only [outcome?, hlines, hnot]
        rfl
      rw [note?_of_invocation h rfl, hout]
      exact .off _ (.refl h)

/-- Nothing is noted of a thread that has to wait. -/
theorem note?_of_step_eq_none {h : Host} {stack : List Activation} (hs : step h stack = none) :
    note? h stack = none := by
  rcases stack with - | ⟨a, below⟩
  · rfl
  · cases a with
    | notify rest => rfl
    | serve phase =>
      cases phase with
      | lock request permit pipeline =>
        simp only [step, stepServing] at hs
        split at hs
        next hlocked => exact if_pos hlocked
        next => cases hs
      | look =>
        simp only [step, stepServing] at hs
        split at hs <;> cases hs
      | take =>
        simp only [step, stepServing] at hs
        split at hs <;> cases hs
      | openPrompt request =>
        simp only [step, stepServing] at hs
        split at hs <;> cases hs
      | called request permit pipeline => rfl
      | _ => cases hs
    | errand phase work =>
      cases phase with
      | start =>
        simp only [step, stepErrand] at hs
        split at hs <;> cases hs
      | lock =>
        simp only [step, stepErrand] at hs
        split at hs
        next hlocked => exact if_pos hlocked
        next => cases hs
      | called => rfl
      | _ => cases hs
    | direct pipeline called job reply => rfl
    | command inv =>
      have hout : (command inv).outcome? h = none := by
        simp only [step, stepCommand] at hs
        simp only [outcome?]
        split at hs
        case h_4 hturn => rw [hturn]
        all_goals cases hs
      rw [note?_of_invocation h rfl, hout]
      rfl
    | edit inv fresh => cases hs

/-- A step of a thread brings at most one of its affairs further. -/
theorem step_handled {P : Assignment → Prop} {stack : List Activation} (hseated : Seated P stack)
    (hs : step h stack = some (h', stack')) :
    Handled (h, affairs stack + F) (h', affairs stack' + F) (note? h stack) := by
  rcases stack with - | ⟨a, below⟩
  · cases hs
  · cases a with
    | notify rest =>
      rcases rest with - | ⟨s, rest⟩ <;> cases hs
      · exact .off _ (.refl h)
      · split <;> exact .off _ (.refl h)
    | serve phase => exact stepServing_handled F hs
    | errand phase work => exact stepErrand_handled F hs
    | direct pipeline called job reply => cases hseated.top _ rfl
    | command inv => exact stepCommand_handled F hseated hs
    | edit inv fresh =>
      have hedit := stepEdit_handled (h := h) F hseated
      simp only [step, Option.some.injEq] at hs
      rwa [hs] at hedit

end

end Activation

end SharedPrompt
