import SharedPrompt.Proofs.EditorFields
import SharedPrompt.Proofs.UnitValues
import SharedPrompt.Proofs.WorkerVariables

/-!
# Scripts and the engines that they run on

What a script comes to on an engine by itself, and what it can find out about the engine: what one
script leaves behind makes no difference to the next.
-/

namespace SharedPrompt

/-! ## Scripts by themselves -/

def waits (isOpen : String → Bool) : List Action → Bool
  | [] | .fail _ :: _ | .panic _ :: _ => false
  | .barrier name :: rest | .barrierOrFired name :: rest => !isOpen name || waits isOpen rest
  | .out _ :: rest | .record _ :: rest | .askFired :: rest | .enter _ :: rest | .leave :: rest
  | .idle :: rest | .get _ :: rest => waits isOpen rest

namespace Engine

def actionsOf (e : Engine) (text : String) : List Action :=
  (e.behavior.lookup text).getD [.out (.str text)]

def ran (e : Engine) (text : String) : Except EngineFault Outcome :=
  (e.create {} .current).1.map fun _ => e.outcome [] (e.actionsOf text)

def script (e : Engine) (editor : Value) (text : String) : Except EngineFault Outcome :=
  match e.setVariable EditorView.variableName editor with
  | (.error f, _) => .error f
  | (.ok (), e) => e.ran text

end Engine

/-- What scripts can find out about an engine, whatever editor they are shown. -/
structure Engine.Like (e e' : Engine) : Prop where
  behavior : e'.behavior = e.behavior
  failures : e'.failures = e.failures
  refused : e'.refused = e.refused
  others : ∀ name, name ≠ EditorView.variableName → e'.variable_ name = e.variable_ name

namespace Engine

variable {e e' e'' : Engine}

theorem Like.refl (e : Engine) : e.Like e := ⟨rfl, rfl, rfl, fun _ _ => rfl⟩

theorem Like.trans (h : e.Like e') (h' : e'.Like e'') : e.Like e'' where
  behavior := h'.behavior.trans h.behavior
  failures := h'.failures.trans h.failures
  refused := h'.refused.trans h.refused
  others name hname := (h'.others name hname).trans (h.others name hname)

theorem Like.actionsOf (h : e.Like e') (text : String) : e'.actionsOf text = e.actionsOf text := by
  rw [Engine.actionsOf, h.behavior, Engine.actionsOf]

theorem like_setVariable (e : Engine) (editor : Value) :
    e.Like (e.setVariable EditorView.variableName editor).2 := by
  unfold setVariable
  split
  · exact .refl e
  · exact ⟨rfl, rfl, rfl, fun name hname => Value.lookup_insertField_of_ne hname _ _⟩

theorem like_create (e : Engine) (t : Trace) (mode : PipelineMode) :
    e.Like (e.create t mode).2.1 := by
  unfold create
  dsimp only
  split
  · exact ⟨rfl, rfl, rfl, fun _ _ => rfl⟩
  · split <;> exact ⟨rfl, rfl, rfl, fun _ _ => rfl⟩

theorem like_begin (e : Engine) (pipeline : Nat) (command : Command) (sink token : Nat) :
    e.Like (e.begin pipeline command sink token).1 := by
  unfold begin
  split <;> exact ⟨rfl, rfl, rfl, fun _ _ => rfl⟩

theorem like_finish (e : Engine) (inv : Invocation) (reading : Bool) :
    e.Like (e.finish inv reading) := by
  unfold finish
  dsimp only
  split <;> split <;> exact ⟨rfl, rfl, rfl, fun _ _ => rfl⟩

theorem outcome_congr (h : ∀ name, e'.variable_ name = e.variable_ name) (output : List Value)
    (list : List Action) : e'.outcome output list = e.outcome output list := by
  induction list generalizing output with
  | nil => rfl
  | cons a rest ih =>
    cases a with
    | get name => rw [outcome, outcome, h, ih]
    | fail f => rfl
    | panic p => rfl
    | _ => exact ih _

theorem Like.ran (h : e.Like e') (hrefused : e.refused = [])
    (heditor : e'.variable_ EditorView.variableName = e.variable_ EditorView.variableName)
    (text : String) : e'.ran text = e.ran text := by
  have hcreate : (e'.create {} .current).1 = (e.create {} .current).1 := by
    simp only [create, h.refused, hrefused, h.failures, List.contains_nil]
    by_cases hfails : e.failures.pipeline = true <;> simp [hfails]
  have houtcome : e'.outcome [] (e'.actionsOf text) = e.outcome [] (e.actionsOf text) := by
    rw [h.actionsOf]
    refine outcome_congr (fun name => ?_) _ _
    by_cases hname : name = EditorView.variableName
    · rw [hname, heditor]
    · exact h.others name hname
  rw [Engine.ran, hcreate, houtcome, Engine.ran]

/-- A script comes to the same on engines that it cannot tell apart. -/
theorem Like.script (h : e.Like e') (hrefused : e.refused = []) (editor : Value) (text : String) :
    e'.script editor text = e.script editor text := by
  let bind (e : Engine) : Engine :=
    { e with bindings := Value.insertField EditorView.variableName editor e.bindings }
  have hlike : (bind e).Like (bind e') := by
    refine ⟨h.behavior, h.failures, h.refused, fun name hname => ?_⟩
    simp only [bind, variable_, Value.lookup_insertField_of_ne hname]
    exact h.others name hname
  have hran : (bind e').ran text = (bind e).ran text :=
    hlike.ran hrefused (by simp only [bind, variable_, Value.lookup_insertField]) text
  have hfailures := h.failures
  unfold Engine.script setVariable
  by_cases hfails : e.failures.setVariable = true
  · simp only [hfailures, hfails, if_true]
  · rw [if_neg (hfailures ▸ hfails), if_neg hfails]
    exact hran

end Engine

def scriptAnswer : Except EngineFault Outcome → WorkResult
  | .error f => .ok [.engineFault f]
  | .ok (.values vs) => .ok [.values vs]
  | .ok (.fault f) => .ok [.scriptFault f]
  | .ok (.panicked p) => .error (.panicked p.message)

def scriptNotices : Except EngineFault Outcome → List Notice
  | .ok (.panicked p) => [.unitPanicked p.message]
  | _ => []

/-- What a script puts out that has come to its end, or that has not come to begin. -/
def putOut : Except EngineFault Outcome → Except ProviderFault (List Value)
  | .error f => .error (.engine f)
  | .ok (.values vs) => .ok vs
  | .ok (.fault f) => .error (.script f)
  | .ok (.panicked p) => .error (.worker (.panicked p.message))

def unitNotices {β : Type} : Except ProviderFault β → List Notice
  | .error (.worker (.panicked message)) => [.unitPanicked message]
  | _ => []

theorem output_scriptAnswer (r : Except EngineFault Outcome) :
    ScriptProvider.output (scriptAnswer r) = putOut r := by
  obtain f | o := r
  · rfl
  · cases o <;> rfl

theorem unitNotices_putOut (r : Except EngineFault Outcome) :
    unitNotices (putOut r) = scriptNotices r := by
  obtain f | o := r
  · rfl
  · cases o <;> rfl

end SharedPrompt
