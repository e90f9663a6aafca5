import SharedPrompt.Proofs.PromptChanges

/-!
# The engine's own prompts on the stack

The engine tells when it opens a prompt inside a command and when it closes its innermost one. The
host puts a prompt on the stack for each that it can make a pipeline for, and remembers for each
whether it did. While nobody else opens or closes prompts, the stack is that of the engine's open
prompts, without those that no pipeline could be made for.
-/

namespace SharedPrompt

structure EnginePrompt where
  kind : PromptKind
  /-- The pipeline that was made for it and the gate that guards it; none if none could be made. -/
  place : Option (Nat × Nat)
  deriving DecidableEq

def EnginePrompt.frame? (p : EnginePrompt) : Option Prompt :=
  p.place.map fun at_ => ⟨at_.1, at_.2, p.kind == .debugger⟩

namespace Host

def enginePrompt (h : Host) (kind : PromptKind) : EnginePrompt :=
  ⟨kind, match (h.createPipeline .nested).1 with
    | .ok n => some (n, h.stack.gates.length)
    | .error _ => none⟩

/-- The engine's open prompts after an event, innermost first. What it closes is the innermost. -/
def enginePromptsAfter (h : Host) (open_ : List EnginePrompt) (e : Event) : List EnginePrompt :=
  match h.word? e with
  | some (.entered kind) => h.enginePrompt kind :: open_
  | some .left => open_.tail
  | none => open_

def enginePrompts (h : Host) (open_ : List EnginePrompt) : List Event → List EnginePrompt
  | [] => open_
  | e :: rest => (h.apply e).enginePrompts (h.enginePromptsAfter open_ e) rest

/-- Nobody but the engine opens or closes prompts in a run, and when it does, somebody still uses
them. -/
def onlyEngine (h : Host) : List Event → Bool
  | [] => true
  | e :: rest =>
    (if (h.word? e).isSome then h.alive else (h.change? e).isNone) && (h.apply e).onlyEngine rest

def told? (h : Host) : EngineWord → Option PromptChange
  | .entered kind => h.entered? kind
  | .left => h.left?

end Host

theorem Activation.change?_of_word {h : Host} {t : List Activation} {w : EngineWord}
    (hw : word? h t = some w) : change? h t = h.told? w := by
  unfold word? at hw
  split at hw
  next inv below =>
    simp only [change?]
    split at hw <;> cases hw <;> rfl
  next => cases hw

namespace Host

theorem change?_of_word {h : Host} {e : Event} {w : EngineWord} (hw : h.word? e = some w) :
    h.change? e = h.told? w := by
  cases e with
  | advance id =>
    obtain ⟨t, ht, hword⟩ := Option.bind_eq_some_iff.1 hw
    rw [change?, ht, Option.bind_some]
    exact Activation.change?_of_word hword
  | enter kind => cases hw; rfl
  | leave => cases hw; rfl
  | _ => cases hw

theorem opening?_enginePrompt (h : Host) (kind : PromptKind) :
    h.opening? (kind == .debugger) = (h.enginePrompt kind).frame?.map .opened := by
  simp only [opening?, enginePrompt, EnginePrompt.frame?]
  cases (h.createPipeline .nested).1 <;> rfl

/-! ## Keeping step -/

/-- The stack holds the engine's open prompts that a pipeline could be made for, and for each of its
open prompts it is remembered whether it is one of them. -/
structure InStep (h : Host) (open_ : List EnginePrompt) : Prop where
  tracker : h.tracker = (true, open_.map (·.frame?.isSome))
  nested : h.stack.nested = open_.filterMap (·.frame?)

variable {h : Host} {open_ : List EnginePrompt} {e : Event}

theorem InStep.entered (hi : h.InStep open_) {kind : PromptKind}
    (hw : h.word? e = some (.entered kind)) (halive : h.alive = true) :
    (h.apply e).InStep (h.enginePrompt kind :: open_) := by
  have hfollows : h.follows = true := congrArg Prod.fst hi.tracker
  have hopened : h.opened = open_.map (·.frame?.isSome) := congrArg Prod.snd hi.tracker
  have hchange : h.change? e = (h.enginePrompt kind).frame?.map .opened := by
    rw [change?_of_word hw, told?, entered?, hfollows, halive, opening?_enginePrompt]
    rfl
  refine ⟨?_, ?_⟩
  · rw [tracker_apply, hw, trackerAfter, hfollows, halive, hopened, opening?_enginePrompt,
      Option.isSome_map]
    rfl
  · have hnested := congrArg (·.2.2) (h.prompts_apply e)
    rw [hchange] at hnested
    change (h.apply e).stack.nested = PromptChange.applyAll h.stack.nested _ at hnested
    rw [hnested, hi.nested]
    cases hframe : (h.enginePrompt kind).frame? <;>
      simp [hframe, PromptChange.applyAll, PromptChange.apply]

/-- The innermost prompt that the engine closes is the one on top, or was never put there. -/
theorem InStep.left (hi : h.InStep open_) (hw : h.word? e = some .left) (halive : h.alive = true) :
    (h.apply e).InStep open_.tail := by
  have hfollows : h.follows = true := congrArg Prod.fst hi.tracker
  have hopened : h.opened = open_.map (·.frame?.isSome) := congrArg Prod.snd hi.tracker
  refine ⟨?_, ?_⟩
  · rw [tracker_apply, hw, trackerAfter, hfollows, hopened, ← List.map_tail]
    rfl
  · have hnested := congrArg (·.2.2) (h.prompts_apply e)
    rw [change?_of_word hw, told?, left?, hfollows, halive, hopened] at hnested
    change (h.apply e).stack.nested = PromptChange.applyAll h.stack.nested _ at hnested
    rw [hnested, hi.nested]
    cases open_ with
    | nil => rfl
    | cons p rest =>
      cases hframe : p.frame? <;> simp [hframe, PromptChange.applyAll, PromptChange.apply]

theorem InStep.quiet (hi : h.InStep open_) (hw : h.word? e = none) (hc : h.change? e = none) :
    (h.apply e).InStep open_ := by
  refine ⟨?_, ?_⟩
  · rw [tracker_apply, hw]
    exact hi.tracker
  · have hnested := congrArg (·.2.2) (h.prompts_apply e)
    rw [hc] at hnested
    exact hnested.trans hi.nested

theorem InStep.apply (hi : h.InStep open_)
    (honly : (if (h.word? e).isSome then h.alive else (h.change? e).isNone) = true) :
    (h.apply e).InStep (h.enginePromptsAfter open_ e) := by
  unfold enginePromptsAfter
  cases hw : h.word? e with
  | none =>
    rw [hw] at honly
    exact hi.quiet hw (Option.isNone_iff_eq_none.1 honly)
  | some w =>
    rw [hw] at honly
    cases w with
    | entered kind => exact hi.entered hw honly
    | left => exact hi.left hw honly

theorem InStep.run (hi : h.InStep open_) {events : List Event} (honly : h.onlyEngine events = true) :
    (h.run events).InStep (h.enginePrompts open_ events) := by
  induction events generalizing h open_ with
  | nil => exact hi
  | cons e rest ih =>
    obtain ⟨hfirst, hrest⟩ := Bool.and_eq_true_iff.1 honly
    exact ih (hi.apply hfirst) hrest

/-- Taking an engine into use comes to two pipelines, for the bottom and the line prompt. -/
theorem establish_eq {h : Host} {follows : Bool} (hok : (h.establish follows).1 = .ok ()) :
    ∃ (k : Host) (main line : Nat), k.nest = h.nest ∧ (h.establish follows).2 = { k with
      stack := { k.stack with bottom := ⟨main, 0, false⟩, line := ⟨line, 1, false⟩ }
      subscriptions := k.subscriptions.subscribe 0
      follows } := by
  have hcreate (k : Host) : (k.createPipeline .current).2.nest = k.nest := rfl
  have hmain := hcreate h
  revert hok
  unfold establish
  split <;> rename_i hr <;> rw [hr] at hmain
  · intro hok
    cases hok
  · rename_i main k
    have hline := (hcreate k).trans hmain
    split <;> rename_i hr' <;> rw [hr'] at hline
    · intro hok
      cases hok
    · rename_i line k'
      split
      · intro hok
        cases hok
      · dsimp only
        split <;> intro hok
        · cases hok
        · exact ⟨k', main, line, hline, rfl⟩

/-- A host that has been taken into use follows the engine's prompts and knows of none yet. -/
theorem InStep.established {native : Bool} {engine : Engine} {console : Console Waiter}
    {tokens : Tokens} (hok : (establish { native, engine, console } true).1 = .ok ()) :
    let h : Host := { established native true engine console with tokens }
    h.InStep [] ∧ h.stack.bottom.debugger = false := by
  obtain ⟨k, main, line, hk, heq⟩ := establish_eq hok
  have hnested : k.stack.nested = [] := congrArg (·.1.2.2) hk
  have hopened : k.opened = [] := congrArg (·.2.2) hk
  rw [show Host.established native true engine console = _ from heq]
  exact ⟨⟨congrArg (Prod.mk true) hopened, hnested⟩, rfl⟩

/-- What can be seen of the stack while it keeps step with the engine's open prompts. -/
structure Mirrors (bottom : Prompt) (open_ : List EnginePrompt) (h : Host) : Prop where
  nested : h.stack.nested = open_.filterMap (·.frame?)
  level : h.stack.level = 1 + (open_.filter (·.place.isSome)).length
  inDebugger : h.stack.inDebugger =
    (open_.find? (·.place.isSome)).any fun p => p.kind == .debugger
  currentPipeline : h.stack.currentPipeline false =
    ((open_.findSome? (·.place)).map (·.1)).getD bottom.pipeline
  bottom : h.stack.bottom = bottom
  /-- The next word of the engine that it has closed a prompt takes away the prompt that was put on
  the stack for the innermost of its open ones, and nothing else. -/
  closes : ∀ e, h.word? e = some .left → h.alive = true →
    h.stack.nested = (open_.head?.bind (·.frame?)).toList ++ (h.apply e).stack.nested

/-- The prompt on top belongs to the innermost of the engine's open ones that has one. -/
private theorem head?_frames (open_ : List EnginePrompt) :
    (open_.filterMap (·.frame?)).head? = (open_.find? (·.place.isSome)).bind (·.frame?) ∧
      open_.findSome? (·.place) = (open_.find? (·.place.isSome)).bind (·.place) := by
  induction open_ with
  | nil => exact ⟨rfl, rfl⟩
  | cons p rest ih =>
    cases hplace : p.place with
    | none => simpa [EnginePrompt.frame?, hplace] using ih
    | some at_ => simp [EnginePrompt.frame?, hplace]

theorem InStep.mirrors (hi : h.InStep open_) (hbottom : h.stack.bottom.debugger = false) :
    Mirrors h.stack.bottom open_ h := by
  obtain ⟨hhead, hplace⟩ := head?_frames open_
  have htop : h.stack.top =
      ((open_.find? (·.place.isSome)).bind (·.frame?)).getD h.stack.bottom := by
    rw [PromptStack.top, hi.nested, hhead]
  refine ⟨hi.nested, ?_, ?_, ?_, rfl, fun e hw halive => ?_⟩
  · rw [PromptStack.level, hi.nested, List.length_filterMap_eq_countP, Nat.add_comm,
      ← List.countP_eq_length_filter]
    simp only [EnginePrompt.frame?, Option.isSome_map]
  · rw [PromptStack.inDebugger, htop]
    cases hfind : open_.find? (·.place.isSome) with
    | none => exact hbottom
    | some p =>
      have hsome := List.find?_some (p := fun q : EnginePrompt => q.place.isSome) hfind
      obtain ⟨at_, hat⟩ := Option.isSome_iff_exists.1 hsome
      simp [EnginePrompt.frame?, hat]
  · rw [PromptStack.currentPipeline, Bool.false_and, if_neg Bool.false_ne_true, htop, hplace]
    cases hfind : open_.find? (·.place.isSome) with
    | none => rfl
    | some p =>
      have hsome := List.find?_some (p := fun q : EnginePrompt => q.place.isSome) hfind
      obtain ⟨at_, hat⟩ := Option.isSome_iff_exists.1 hsome
      simp [EnginePrompt.frame?, hat]
  · rw [(hi.left hw halive).nested, hi.nested]
    cases open_ with
    | nil => rfl
    | cons p rest => cases hframe : p.frame? <;> simp [hframe]

/-- Whatever a host does besides, while only the engine opens and closes prompts: the stack has the
prompts that the engine has open, without those that no pipeline could be made for. -/
theorem engine_prompts_mirrored (native : Bool) (engine : Engine) (console : Console Waiter)
    (tokens : Tokens) (events : List Event)
    (hok : (establish { native, engine, console } true).1 = .ok ()) :
    let start : Host := { established native true engine console with tokens }
    start.onlyEngine events = true →
      Mirrors start.stack.bottom (start.enginePrompts [] events) (start.run events) := by
  intro start honly
  have hstart : start.InStep [] ∧ start.stack.bottom.debugger = false := InStep.established hok
  obtain ⟨hi, hbottom⟩ := hstart
  have hsame : (start.run events).stack.bottom = start.stack.bottom :=
    congrArg Prod.fst (start.prompts_run events)
  rw [← hsame]
  exact (hi.run honly).mirrors (by rw [hsame]; exact hbottom)

/-- Three prompts, the second of which no pipeline can be made for, and the two inner ones are
closed again. A call for the line editor comes in between. -/
def failedPrompt : List Event :=
  [.enter .nested, .enter .debugger, .start (.run ⟨.readLine, {}, 0, 0⟩ none), .enter .debugger,
    .poll 0 [], .leave, .leave]

theorem engine_prompts_mirrored_failedPrompt :
    let engine : Engine := { refused := [4] }
    let start : Host := { established true true engine {} with tokens := {} }
    (establish { native := true, engine, console := {} } true).1 = .ok () ∧
      start.onlyEngine failedPrompt = true ∧
      start.enginePrompts [] failedPrompt = [⟨.nested, some (2, 2)⟩] ∧
      Mirrors ⟨0, 0, false⟩ [⟨.nested, some (2, 2)⟩] (start.run failedPrompt) := by
  intro engine start
  have hok : (establish { native := true, engine, console := {} } true).1 = .ok () := rfl
  have honly : start.onlyEngine failedPrompt = true := by decide +kernel
  have hopen : start.enginePrompts [] failedPrompt = [⟨.nested, some (2, 2)⟩] := by decide +kernel
  have hmirrors := engine_prompts_mirrored true engine {} {} failedPrompt hok honly
  rw [hopen] at hmirrors
  exact ⟨hok, honly, hopen, hmirrors⟩

end Host

end SharedPrompt
