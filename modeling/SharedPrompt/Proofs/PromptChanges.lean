import SharedPrompt.Proofs.Arrivals
import SharedPrompt.Proofs.AtGates

/-!
# How prompts come and go

The engine tells of the prompts that it opens and closes itself, owners outside open and close
some, and the request of an idle moment runs in one of its own. Each of them opens one on top or
closes the one on top; nothing else changes which prompts there are.
-/

namespace SharedPrompt

inductive PromptChange where
  | opened (prompt : Prompt)
  | closed
  deriving DecidableEq

namespace PromptChange

/-- The innermost prompt is the one that is closed, whoever opened it. -/
def apply (nested : List Prompt) : PromptChange → List Prompt
  | opened p => p :: nested
  | closed => nested.tail

def applyAll (nested : List Prompt) (changes : List PromptChange) : List Prompt :=
  changes.foldl apply nested

theorem applyAll_append (nested : List Prompt) (changes later : List PromptChange) :
    applyAll nested (changes ++ later) = applyAll (applyAll nested changes) later :=
  List.foldl_append

theorem applyAll_concat (nested : List Prompt) (changes : List PromptChange) (c : PromptChange) :
    applyAll nested (changes ++ [c]) = c.apply (applyAll nested changes) :=
  applyAll_append nested changes [c]

/-- What changes leave behind stands on what they have not reached of the prompts before them. -/
theorem exists_applyAll_eq (changes : List PromptChange) :
    ∃ reached, ∀ nested, applyAll nested changes = applyAll [] changes ++ nested.drop reached := by
  induction changes using List.reverseRecOn with
  | nil => exact ⟨0, fun nested => rfl⟩
  | append_singleton changes c ih =>
    obtain ⟨reached, hreached⟩ := ih
    cases c with
    | opened p =>
      refine ⟨reached, fun nested => ?_⟩
      rw [applyAll_concat, applyAll_concat, hreached]
      rfl
    | closed =>
      cases hleft : applyAll [] changes with
      | nil =>
        refine ⟨reached + 1, fun nested => ?_⟩
        rw [applyAll_concat, applyAll_concat, hreached, hleft]
        simp [apply]
      | cons p rest =>
        refine ⟨reached, fun nested => ?_⟩
        rw [applyAll_concat, applyAll_concat, hreached, hleft]
        rfl

/-- A prompt is opened, changes follow, and the innermost prompt is closed. That comes to the
changes alone exactly if they leave no prompt behind that was opened among them. -/
theorem tail_applyAll_cons_eq_iff {p : Prompt} {nested : List Prompt}
    {changes : List PromptChange} (hnodup : (applyAll (p :: nested) changes).Nodup) :
    (applyAll (p :: nested) changes).tail = applyAll nested changes ↔ applyAll [] changes = [] := by
  obtain ⟨reached, hreached⟩ := exists_applyAll_eq changes
  rw [hreached (p :: nested)] at hnodup ⊢
  rw [hreached nested]
  constructor
  · intro heq
    cases hleft : applyAll [] changes with
    | nil => rfl
    | cons q rest =>
      -- The newest of them is the one that was closed, so it cannot be there any more.
      rw [hleft, List.cons_append] at hnodup heq
      refine absurd ?_ (List.nodup_cons.1 hnodup).1
      rw [List.tail_cons] at heq
      rw [heq]
      exact List.mem_cons_self
  · intro hleft
    rw [hleft, List.nil_append, List.nil_append, List.tail_drop]
    rfl

end PromptChange

inductive EngineWord where
  | entered (kind : PromptKind)
  | left
  deriving DecidableEq

namespace Host

def prompts (h : Host) : Prompt × Prompt × List Prompt :=
  (h.stack.bottom, h.stack.line, h.stack.nested)

/-- Whether the engine's own prompts are followed, and for which open ones there is one on the
stack. -/
def tracker (h : Host) : Bool × List Bool := (h.follows, h.opened)

def nest (h : Host) : (Prompt × Prompt × List Prompt) × (Bool × List Bool) :=
  (h.prompts, h.tracker)

/-! ## Calls -/

theorem AtGates.nest {h h' : Host} (ha : h.AtGates h') : h'.nest = h.nest :=
  ha.same Host.nest fun _ _ _ => rfl

theorem Aside.nest {h h' : Host} (ha : h.Aside h') : h'.nest = h.nest := by
  rw [Host.nest, Host.prompts, Host.tracker, ha.stack, ha.follows, ha.opened]
  rfl

end Host

theorem Move.nest {a b : Host × Multiset Part} (hm : Move a b) : b.1.nest = a.1.nest := by
  cases hm with
  | lease hm =>
    cases hm with
    | aside c ha => exact ha.nest
    | begin h c readLine => rfl
    | advance h c me l => exact (l.atGates_step h me).nest
    | leave h c l => exact (l.atGates_abandon h).nest
    | giveBack h c p => exact (h.atGates_releasePermit p).nest
  | dispatch h c me p job => rfl

theorem Moves.nest {a b : Host × Multiset Part} (hm : Moves a b) : b.1.nest = a.1.nest := by
  induction hm with
  | refl => rfl
  | tail _ hlast ih => exact hlast.nest.trans ih

/-! ## Opening and closing -/

namespace Host

/-- A prompt that is opened now, unless the engine makes no pipeline for it. -/
def opening? (h : Host) (debugger : Bool) : Option PromptChange :=
  match (h.createPipeline .nested).1 with
  | .ok n => some (.opened ⟨n, h.stack.gates.length, debugger⟩)
  | .error _ => none

def entered? (h : Host) (kind : PromptKind) : Option PromptChange :=
  if h.follows && h.alive then h.opening? (kind == .debugger) else none

/-- What comes of the engine's word that it has closed its innermost prompt: nothing if none was
put on the stack for it. -/
def left? (h : Host) : Option PromptChange :=
  if h.follows && h.opened.headD false && h.alive then some .closed else none

end Host

def Activation.word? (h : Host) : List Activation → Option EngineWord
  | .command inv :: _ =>
    match inv.turn h.engine (h.tokens.isFired inv.token) h.barriers.contains with
    | .enter kind _ => some (.entered kind)
    | .leave _ => some .left
    | _ => none
  | _ => none

def Activation.change? (h : Host) : List Activation → Option PromptChange
  | .serve (.openPrompt _) :: _ => h.opening? false
  | .serve .closePrompt :: _ => some .closed
  | .command inv :: _ =>
    match inv.turn h.engine (h.tokens.isFired inv.token) h.barriers.contains with
    | .enter kind _ => h.entered? kind
    | .leave _ => h.left?
    | _ => none
  | _ => none

namespace Host

def word? (h : Host) : Event → Option EngineWord
  | .advance id => (h.thread? id).bind fun t => Activation.word? h t.stack
  | .enter kind => some (.entered kind)
  | .leave => some .left
  | _ => none

def change? (h : Host) : Event → Option PromptChange
  | .advance id => (h.thread? id).bind fun t => Activation.change? h t.stack
  | .enter kind => h.entered? kind
  | .leave => h.left?
  | .push debugger => h.opening? debugger
  | .pushLeased debugger => h.opening? debugger
  | .pop => some .closed
  | _ => none

def changes (h : Host) (events : List Event) : List PromptChange := h.during change? events

def promptsAfter (h : Host) (c : Option PromptChange) : Prompt × Prompt × List Prompt :=
  (h.prompts.1, h.prompts.2.1, PromptChange.applyAll h.prompts.2.2 c.toList)

def trackerAfter (h : Host) : Option EngineWord → Bool × List Bool
  | some (.entered kind) =>
    (h.follows, if h.follows && h.alive then (h.opening? (kind == .debugger)).isSome :: h.opened
      else h.opened)
  | some .left => (h.follows, if h.follows then h.opened.tail else h.opened)
  | none => h.tracker

def nestAfter (h : Host) (c : Option PromptChange) (w : Option EngineWord) :
    (Prompt × Prompt × List Prompt) × (Bool × List Bool) := (h.promptsAfter c, h.trackerAfter w)

theorem promptsAfter_congr {h k : Host} (hk : k.nest = h.nest) (c : Option PromptChange) :
    k.promptsAfter c = h.promptsAfter c := by
  rw [promptsAfter, promptsAfter, show k.prompts = h.prompts from congrArg Prod.fst hk]

theorem nestAfter_congr {h k : Host} (hk : k.nest = h.nest) (c : Option PromptChange) :
    k.nestAfter c none = h.nestAfter c none := by
  rw [nestAfter, nestAfter, promptsAfter_congr hk]
  exact congrArg (Prod.mk _) (congrArg Prod.snd hk)

section
variable (h : Host)

/-- The engine makes a pipeline for a prompt or not, and either way the prompts stay for now. -/
theorem opening?_cases (debugger : Bool) :
    (∃ n k, h.createPipeline .nested = (.ok n, k) ∧ k.nest = h.nest ∧
        h.opening? debugger = some (.opened ⟨n, k.stack.gates.length, debugger⟩)) ∨
      ∃ f k, h.createPipeline .nested = (.error f, k) ∧ k.nest = h.nest ∧
        h.opening? debugger = none := by
  rcases hcreate : h.createPipeline .nested with ⟨f | n, k⟩
  · exact .inr ⟨f, k, rfl, congrArg (·.2.nest) hcreate.symm, by rw [opening?, hcreate]⟩
  · have hstack : k.stack = h.stack := congrArg (·.2.stack) hcreate.symm
    exact .inl ⟨n, k, rfl, congrArg (·.2.nest) hcreate.symm, by rw [opening?, hcreate, hstack]⟩

theorem nest_enterPrompt (kind : PromptKind) :
    (h.enterPrompt kind).nest = h.nestAfter (h.entered? kind) (some (.entered kind)) := by
  simp only [enterPrompt, entered?, nestAfter, trackerAfter]
  split
  · obtain ⟨n, k, hcreate, hk, hopening⟩ | ⟨f, k, hcreate, hk, hopening⟩ :=
      h.opening?_cases (kind == .debugger) <;>
      have hfollows : k.follows = h.follows := congrArg (·.2.1) hk <;>
      have hopened : k.opened = h.opened := congrArg (·.2.2) hk <;>
      rw [hcreate, hopening, ← promptsAfter_congr hk, ← hfollows, ← hopened] <;> rfl
  · rfl

theorem nest_leavePrompt : h.leavePrompt.nest = h.nestAfter h.left? (some .left) := by
  have halive : { h with opened := h.opened.tail }.alive = h.alive := rfl
  simp only [leavePrompt, left?, halive, nestAfter, trackerAfter]
  cases hfollows : h.follows with
  | false => exact Prod.ext rfl (Prod.ext hfollows rfl)
  | true => cases h.opened.headD false <;> cases h.alive <;> rfl

theorem nest_pushPrompt (debugger : Bool) :
    (h.pushPrompt debugger).2.nest = h.nestAfter (h.opening? debugger) none := by
  unfold pushPrompt
  obtain ⟨n, k, hcreate, hk, hopening⟩ | ⟨f, k, hcreate, hk, hopening⟩ :=
    h.opening?_cases debugger <;>
    rw [hcreate, hopening, ← nestAfter_congr hk] <;> rfl

theorem nest_pushLeasedPrompt (debugger : Bool) :
    (h.pushLeasedPrompt debugger).2.nest = h.nestAfter (h.opening? debugger) none := by
  unfold pushLeasedPrompt
  obtain ⟨n, k, hcreate, hk, hopening⟩ | ⟨f, k, hcreate, hk, hopening⟩ :=
    h.opening?_cases debugger <;>
    rw [hcreate, hopening, ← nestAfter_congr hk] <;> rfl

theorem nest_teardown : h.teardown.nest = h.nest := by
  have hfold (k : Host) (l : List Nat) : (l.foldl (fun h _ =>
      h.notice (.resubscribeFailed (.subscribe "idle" Engine.injected))) k).nest = k.nest := by
    induction l generalizing k with
    | nil => rfl
    | cons s rest ih => exact ih _
  exact hfold _ _

end

end Host

/-! ## Threads -/

namespace Activation

variable {h k : Host} {below stack : List Activation}

theorem nest_endCommand (h : Host) (inv : Invocation) (editing : Bool) (o : Outcome)
    (below : List Activation) : (endCommand h inv editing o below).1.nest = h.nest := by
  cases hnotice : o.notice? inv.command
  all_goals
    simp only [endCommand, hnotice]
    split
    · exact (Host.aside_sendReply _ _ _).nest
    · rfl

theorem nest_stepErrand {work : Assignment} {phase : Errand}
    (hs : stepErrand h work below phase = some (k, stack)) : k.nest = h.nest := by
  cases phase with
  | start =>
    simp only [stepErrand] at hs
    split at hs <;> cases hs <;> rfl
  | lock =>
    simp only [stepErrand] at hs
    split at hs <;> cases hs
    rfl
  | called => cases hs
  | unlock r => cases hs; rfl
  | release r => cases hs; exact (h.atGates_releaseGate _).nest
  | releaseMain r => cases hs; exact (h.atGates_releaseAll _).nest
  | answer r => cases hs; exact (h.aside_sendReply _ _).nest

theorem nest_stepServing {phase : Serving}
    (hs : stepServing h below phase = some (k, stack)) :
    k.nest = h.nestAfter (change? h (.serve phase :: below)) none := by
  cases phase with
  | look =>
    simp only [stepServing] at hs
    split at hs <;> cases hs <;> rfl
  | take =>
    simp only [stepServing] at hs
    split at hs <;> cases hs <;> rfl
  | openPrompt request =>
    obtain ⟨n, k', hcreate, hk, hopening⟩ | ⟨f, k', hcreate, hk, hopening⟩ :=
      h.opening?_cases false <;>
      rw [stepServing, hcreate] at hs <;> cases hs <;>
      rw [change?, hopening, ← Host.nestAfter_congr hk]
    · rfl
    · exact (Host.aside_sendReply _ _ _).nest
  | lock request permit pipeline =>
    simp only [stepServing] at hs
    split at hs <;> cases hs
    rfl
  | called request permit pipeline => cases hs
  | answer request permit pipeline r => cases hs; exact (h.aside_sendReply _ _).nest
  | unlock permit pipeline => cases hs; rfl
  | release permit => cases hs; exact (h.atGates_releasePermit permit).nest
  | closePrompt => cases hs; rfl

theorem nest_stepCommand {inv : Invocation} (hs : stepCommand h inv below = some (k, stack)) :
    k.nest = h.nestAfter (change? h (.command inv :: below)) (word? h (.command inv :: below)) := by
  simp only [change?, word?]
  simp only [stepCommand] at hs
  split at hs <;> rename_i hturn <;> rw [hturn]
  case h_3 o =>
    have hend := nest_endCommand h inv false o below
    rwa [Option.some.inj hs] at hend
  all_goals cases hs
  case h_6 kind inv' => exact h.nest_enterPrompt kind
  case h_7 inv' => exact h.nest_leavePrompt
  all_goals rfl

theorem nest_stepEdit (h : Host) (below : List Activation) (inv : Invocation) :
    (stepEdit h inv below).1.nest = h.nest := by
  simp only [stepEdit]
  split
  · exact nest_endCommand _ inv true _ below
  · split
    · exact nest_endCommand h inv true _ below
    · rfl

/-- A step of a thread makes the change that it is noted for. -/
theorem nest_step {t : List Activation} (hs : step h t = some (k, stack)) :
    k.nest = h.nestAfter (change? h t) (word? h t) := by
  rcases t with - | ⟨a, below⟩
  · cases hs
  · cases a with
    | notify rest => rcases rest with - | ⟨s, rest⟩ <;> cases hs <;> rfl
    | serve phase => exact nest_stepServing hs
    | errand phase work => exact nest_stepErrand hs
    | direct pipeline called job reply =>
      cases called with
      | false =>
        simp only [step] at hs
        split at hs <;> cases hs
        rfl
      | true => cases hs
    | command inv => exact nest_stepCommand hs
    | edit inv fresh =>
      have hedit := nest_stepEdit h below inv
      rwa [Option.some.inj hs] at hedit

/-- A thread that cannot go on changes nothing and tells nothing. -/
theorem notes_of_step_eq_none {t : List Activation} (hs : step h t = none) :
    change? h t = none ∧ word? h t = none := by
  rcases t with - | ⟨a, below⟩
  · exact ⟨rfl, rfl⟩
  · cases a with
    | serve phase =>
      cases phase with
      | openPrompt request =>
        simp only [step, stepServing] at hs
        split at hs <;> cases hs
      | closePrompt => cases hs
      | _ => exact ⟨rfl, rfl⟩
    | command inv =>
      simp only [change?, word?]
      simp only [step, stepCommand] at hs
      split at hs <;> rename_i hturn
      case h_4 => rw [hturn]; exact ⟨rfl, rfl⟩
      all_goals cases hs
    | _ => exact ⟨rfl, rfl⟩

end Activation

namespace Host

/-- An event makes the change that it is noted for. -/
theorem nest_apply (h : Host) (e : Event) :
    (h.apply e).nest = h.nestAfter (h.change? e) (h.word? e) := by
  cases e with
  | poll t bias =>
    cases ht : h.task? t with
    | none => simp only [apply, stepTask, ht]; rfl
    | some task =>
      rcases hs : task.step h t bias with ⟨k, r⟩
      have hmoves := (task.step_moves h t 0 bias).nest
      rw [hs] at hmoves
      rw [apply_poll ht hs]
      cases r with
      | done a => cases a <;> exact hmoves
      | _ => exact hmoves
  | advance id =>
    cases ht : h.thread? id with
    | none => simp only [apply, stepThread, change?, word?, ht]; rfl
    | some t =>
      simp only [apply, stepThread, change?, word?, ht, Option.bind_some]
      split <;> rename_i hs
      · obtain ⟨hchange, hword⟩ := Activation.notes_of_step_eq_none hs
        rw [hchange, hword]
        rfl
      · rw [← Activation.nest_step hs, setThread]
        split <;> rfl
  | start call => exact (aside_wake _ _).nest
  | drop t =>
    cases ht : h.task? t with
    | none => simp only [apply, dropTask, ht]; rfl
    | some task =>
      rw [apply_drop ht]
      exact (task.abandon_moves h t 0).moves.nest
  | release owner =>
    simp only [apply, releaseOwned]
    split
    · exact (atGates_releasePermit _ _).nest
    · rfl
  | fire token => exact (h.aside_fireToken token).nest
  | key k => exact (h.aside_pushKey k).nest
  | teardown => exact h.nest_teardown
  | enter kind => exact h.nest_enterPrompt kind
  | leave => exact h.nest_leavePrompt
  | push debugger => exact h.nest_pushPrompt debugger
  | pushLeased debugger => exact h.nest_pushLeasedPrompt debugger
  | lock pipeline =>
    simp only [apply]
    split <;> rfl
  | _ => rfl

theorem prompts_apply (h : Host) (e : Event) :
    (h.apply e).prompts = h.promptsAfter (h.change? e) := congrArg Prod.fst (h.nest_apply e)

theorem tracker_apply (h : Host) (e : Event) :
    (h.apply e).tracker = h.trackerAfter (h.word? e) := congrArg Prod.snd (h.nest_apply e)

/-- The prompts after a run are what its changes make of those before it. -/
theorem prompts_run (h : Host) (events : List Event) :
    (h.run events).prompts = (h.prompts.1, h.prompts.2.1,
      PromptChange.applyAll h.prompts.2.2 (h.changes events)) := by
  induction events using List.reverseRecOn with
  | nil => rfl
  | append_singleton events e ih =>
    have hrun : h.run (events ++ [e]) = (h.run events).apply e := List.foldl_concat ..
    have hchanges : h.changes (events ++ [e]) =
        h.changes events ++ ((h.run events).change? e).toList := h.during_concat change? events e
    rw [hrun, prompts_apply, promptsAfter, ih, hchanges, PromptChange.applyAll_append]

end Host

end SharedPrompt
