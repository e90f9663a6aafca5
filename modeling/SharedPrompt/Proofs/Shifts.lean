import Mathlib.Logic.Relation
import SharedPrompt.Proofs.Parts
import SharedPrompt.Proofs.SameCalls

/-!
# What a step of a thread can do

A thread works on one list of activations, with the parts of those. Whatever it does to the prompts
is made of a few shifts: it leaves them alone, opens or closes a prompt, or gives tickets back. The
owners outside do the same things with what they have.
-/

namespace SharedPrompt

open Relation

structure Host.Quiet (h h' : Host) : Prop extends h.SameCalls h' where
  stack : h'.stack = h.stack
  turns : h.nextTurn ≤ h'.nextTurn

namespace Host

namespace Quiet

theorem refl (h : Host) : h.Quiet h := by constructor <;> first | rfl | exact .refl h

theorem trans {a b c : Host} (hab : a.Quiet b) (hbc : b.Quiet c) : a.Quiet c where
  toSameCalls := hab.toSameCalls.trans hbc.toSameCalls
  stack := hbc.stack.trans hab.stack
  turns := hab.turns.trans hbc.turns

end Quiet

theorem Aside.quiet {h h' : Host} (ha : h.Aside h') : h.Quiet h' where
  toSameCalls := ha.sameCalls
  stack := ha.stack
  turns := ha.turns

end Host

/-- One elementary change that a thread or an owner makes, in the midst of other parts `c`. -/
inductive Shift : Host × Multiset Part → Host × Multiset Part → Prop where
  | quiet {h h' : Host} (c : Multiset Part) (hq : h.Quiet h') : Shift (h, c) (h', c)
  | push (h : Host) (c : Multiset Part) (pipeline : Nat) (debugger : Bool) :
      Shift (h, c) ({ h with stack := h.stack.push pipeline debugger }, c)
  | pushLeased (h : Host) (c : Multiset Part) (pipeline : Nat) (debugger : Bool) :
      Shift (h, c) ({ h with stack := h.stack.pushLeased pipeline debugger },
        {.permit { lease := h.stack.gates.length }} + c)
  | pop (h : Host) (c : Multiset Part) : Shift (h, c) ({ h with stack := h.stack.pop }, c)
  /-- The first ticket of a permit is given back. -/
  | giveFirst (h : Host) (c : Multiset Part) (p : Permit) :
      Shift (h, {.permit p} + c) (h.releaseGate p.lease, {.remnant p} + c)
  | giveRest (h : Host) (c : Multiset Part) (p : Permit) :
      Shift (h, {.remnant p} + c) (p.main.toList.foldl Host.releaseGate h, c)

abbrev Shifts (a b : Host × Multiset Part) : Prop := ReflTransGen Shift a b

theorem Shifts.quiet {h h' : Host} {c : Multiset Part} (hq : h.Quiet h') : Shifts (h, c) (h', c) :=
  .single (.quiet c hq)

theorem Shifts.thenQuiet {a : Host × Multiset Part} {h h' : Host} {c : Multiset Part}
    (hs : Shifts a (h, c)) (hq : h.Quiet h') : Shifts a (h', c) :=
  hs.tail (.quiet c hq)

theorem Shift.sameCalls {a b : Host × Multiset Part} (hs : Shift a b) : a.1.SameCalls b.1 := by
  cases hs with
  | quiet c hq => exact hq.toSameCalls
  | push h c pipeline debugger => exact h.sameCalls_setStack _
  | pushLeased h c pipeline debugger => exact h.sameCalls_setStack _
  | pop h c => exact h.sameCalls_setStack _
  | giveFirst h c p => exact h.sameCalls_releaseGate _
  | giveRest h c p => exact h.sameCalls_releaseAll _

theorem Shifts.sameCalls {a b : Host × Multiset Part} (hs : Shifts a b) : a.1.SameCalls b.1 := by
  induction hs with
  | refl => exact .refl _
  | tail _ hlast ih => exact ih.trans hlast.sameCalls

/-- A permit is given back in two shifts. -/
theorem Shifts.giveBack (h : Host) (c : Multiset Part) (p : Permit) :
    Shifts (h, {.permit p} + c) (h.releasePermit p, c) :=
  (ReflTransGen.single (.giveFirst h c p)).tail (.giveRest _ c p)

/-! ## Pipelines and prompts -/

namespace Host

variable (h : Host) (c : Multiset Part)

theorem quiet_setEngine {engine : Engine} (hin : engine.inProcess = h.engine.inProcess)
    (trace : Trace) : h.Quiet { h with engine, trace } :=
  ⟨⟨rfl, rfl, rfl, rfl, rfl, hin⟩, rfl, le_rfl⟩

theorem quiet_setLocked (locked : List Nat) : h.Quiet { h with locked } :=
  ⟨by constructor <;> rfl, rfl, le_rfl⟩

theorem quiet_lockPipeline (pipeline : Nat) : h.Quiet (h.lockPipeline pipeline) :=
  h.quiet_setLocked _

theorem quiet_setOpened (opened : List Bool) : h.Quiet { h with opened } :=
  ⟨by constructor <;> rfl, rfl, le_rfl⟩

theorem quiet_createPipeline (mode : PipelineMode) : h.Quiet (h.createPipeline mode).2 := by
  refine h.quiet_setEngine ?_ _
  unfold Engine.create
  dsimp only
  split
  · rfl
  · split <;> rfl

theorem enterPrompt_shifts (kind : PromptKind) : Shifts (h, c) (h.enterPrompt kind, c) := by
  have hcreate := h.quiet_createPipeline .nested
  unfold enterPrompt
  split
  · split <;> rename_i hr <;> rw [hr] at hcreate
    · exact Shifts.thenQuiet ((Shifts.quiet hcreate).tail (.push _ c _ _)) (quiet_setOpened _ _)
    · exact Shifts.quiet ((hcreate.trans (quiet_setOpened _ _)).trans (aside_notice _ _).quiet)
  · exact .refl

theorem leavePrompt_shifts : Shifts (h, c) (h.leavePrompt, c) := by
  have hopened := h.quiet_setOpened h.opened.tail
  simp only [leavePrompt]
  split
  · split
    · exact (Shifts.quiet hopened).tail (.pop _ c)
    · exact Shifts.quiet hopened
  · exact .refl

end Host

/-! ## Threads -/

namespace Activation

@[simp] theorem partsOf_nil : partsOf [] = 0 := rfl

@[simp] theorem partsOf_cons (a : Activation) (below : List Activation) :
    partsOf (a :: below) = a.parts + partsOf below := by
  simp [partsOf]

variable (h : Host) (F : Multiset Part) (below : List Activation)

theorem quiet_beginCommand (pipeline : Nat) (job : Job) :
    h.Quiet (beginCommand h pipeline job below).1 := by
  have hin : (h.engine.begin pipeline job.command job.sink job.token).1.inProcess =
      h.engine.inProcess := by
    unfold Engine.begin
    split <;> rfl
  exact h.quiet_setEngine hin _

theorem partsOf_beginCommand (pipeline : Nat) (job : Job) :
    partsOf (beginCommand h pipeline job below).2 = partsOf below := by
  simp only [beginCommand, partsOf_cons]
  split <;> simp [parts]

/-- Beginning a command under a lock. -/
theorem begin_shifts {h h' k : Host} {below stack' : List Activation} {pipeline : Nat} {job : Job}
    (hk : k.Quiet h) (hs : some (beginCommand h pipeline job below) = some (h', stack')) :
    Shifts (k, partsOf below + F) (h', partsOf stack' + F) := by
  have hquiet := quiet_beginCommand h below pipeline job
  have hparts := partsOf_beginCommand h below pipeline job
  rw [Option.some.inj hs] at hquiet hparts
  rw [hparts]
  exact Shifts.quiet (hk.trans hquiet)

@[simp] theorem partsOf_deliver (r : RunResult) : partsOf (deliver r below) = partsOf below := by
  unfold deliver
  split <;> simp [parts, Errand.parts, Serving.parts]

private theorem quiet_notice? (k : Host) (n? : Option Notice) :
    k.Quiet (match n? with
      | some n => k.notice n
      | none => k) := by
  cases n? with
  | none => exact .refl k
  | some n => exact (k.aside_notice n).quiet

theorem quiet_endCommand (inv : Invocation) (editing : Bool) (o : Outcome) :
    h.Quiet (endCommand h inv editing o below).1 := by
  have hfinish : h.Quiet { h with engine := h.engine.finish inv editing } := by
    refine h.quiet_setEngine ?_ _
    simp only [Engine.finish]
    split <;> split <;> rfl
  have hanswer (k : Host) (pipeline reply : Nat) (r : RunResult) :
      k.Quiet ((k.unlockPipeline pipeline).sendReply reply r) :=
    (k.quiet_setLocked _).trans (Host.aside_sendReply _ reply r).quiet
  simp only [endCommand]
  split
  · exact (hfinish.trans (quiet_notice? _ _)).trans (hanswer _ _ _ _)
  · exact hfinish.trans (quiet_notice? _ _)

@[simp] theorem partsOf_endCommand (inv : Invocation) (editing : Bool) (o : Outcome) :
    partsOf (endCommand h inv editing o below).2 = partsOf below := by
  simp only [endCommand]
  split
  · simp [parts]
  · exact partsOf_deliver below _

variable {h below} {h' : Host} {stack' : List Activation}

theorem stepErrand_shifts {work : Assignment} {phase : Errand}
    (hs : stepErrand h work below phase = some (h', stack')) :
    Shifts (h, partsOf (.errand phase work :: below) + F) (h', partsOf stack' + F) := by
  cases phase with
  | start =>
    simp only [stepErrand] at hs
    split at hs <;> cases hs <;> exact .refl
  | lock =>
    simp only [stepErrand] at hs
    split at hs
    · cases hs
    · have hbegin := begin_shifts F (h.quiet_lockPipeline _) hs
      exact hbegin
  | called => cases hs
  | unlock r =>
    cases hs
    exact Shifts.quiet (h.quiet_setLocked _)
  | release r =>
    cases hs
    simp only [partsOf_cons, parts, Errand.parts, add_assoc]
    exact .single (.giveFirst h _ work.permit)
  | releaseMain r =>
    cases hs
    simp only [partsOf_cons, parts, Errand.parts, add_assoc, zero_add]
    exact .single (.giveRest h _ work.permit)
  | answer r =>
    cases hs
    simp only [partsOf_cons, parts, Errand.parts, zero_add]
    exact Shifts.quiet (h.aside_sendReply _ _).quiet

theorem stepServing_shifts {phase : Serving} (hs : stepServing h below phase = some (h', stack')) :
    Shifts (h, partsOf (.serve phase :: below) + F) (h', partsOf stack' + F) := by
  cases phase with
  | look =>
    simp only [stepServing] at hs
    split at hs <;> cases hs <;>
      simp only [partsOf_cons, parts, Serving.parts, zero_add] <;> exact .refl
  | take =>
    simp only [stepServing] at hs
    split at hs <;> cases hs <;> simp only [partsOf_cons, parts, Serving.parts, zero_add]
    · exact .refl
    · exact Shifts.quiet (h.aside_setSlot _).quiet
  | openPrompt request =>
    have hcreate := h.quiet_createPipeline .nested
    simp only [stepServing] at hs
    split at hs <;> rename_i hr <;> rw [hr] at hcreate <;> cases hs
    · simp only [partsOf_cons, parts, Serving.parts, zero_add]
      exact Shifts.quiet (hcreate.trans
        ((Host.aside_notice _ _).trans (Host.aside_sendReply _ _ _)).quiet)
    · simp only [partsOf_cons, parts, Serving.parts, zero_add, add_assoc]
      exact (Shifts.quiet hcreate).tail (.pushLeased _ _ _ _)
  | lock request permit pipeline =>
    simp only [stepServing] at hs
    split at hs
    · cases hs
    · have hbegin := begin_shifts F (h.aside_newToken.quiet.trans (Host.quiet_lockPipeline _ _)) hs
      exact hbegin
  | called request permit pipeline => cases hs
  | answer request permit pipeline r =>
    cases hs
    exact Shifts.quiet (h.aside_sendReply _ _).quiet
  | unlock permit pipeline =>
    cases hs
    exact Shifts.quiet (h.quiet_setLocked _)
  | release permit =>
    cases hs
    simp only [partsOf_cons, parts, Serving.parts, add_assoc, zero_add]
    exact Shifts.giveBack h _ permit
  | closePrompt =>
    cases hs
    simp only [partsOf_cons, parts, Serving.parts, zero_add]
    exact .single (.pop h _)

theorem stepCommand_shifts {inv : Invocation} (hs : stepCommand h inv below = some (h', stack')) :
    Shifts (h, partsOf (.command inv :: below) + F) (h', partsOf stack' + F) := by
  simp only [partsOf_cons, parts, zero_add]
  simp only [stepCommand] at hs
  split at hs
  case h_3 o _ =>
    have hquiet := quiet_endCommand h below inv false o
    have hparts := partsOf_endCommand h below inv false o
    rw [Option.some.inj hs] at hquiet hparts
    rw [hparts]
    exact Shifts.quiet hquiet
  all_goals cases hs
  all_goals simp only [partsOf_cons, parts, zero_add]
  case h_1 => exact .refl
  case h_2 => exact Shifts.quiet ⟨by constructor <;> rfl, rfl, le_rfl⟩
  case h_5 => exact .refl
  case h_6 => exact h.enterPrompt_shifts _ _
  case h_7 => exact h.leavePrompt_shifts _

theorem stepEdit_shifts (inv : Invocation) (fresh : Bool) :
    Shifts (h, partsOf (.edit inv fresh :: below) + F)
      ((stepEdit h inv below).1, partsOf (stepEdit h inv below).2 + F) := by
  simp only [partsOf_cons, parts, zero_add]
  simp only [stepEdit]
  split
  · rw [partsOf_endCommand]
    exact Shifts.quiet ((h.quiet_setEngine (by rfl) _).trans (quiet_endCommand _ _ _ _ _))
  · split
    · rw [partsOf_endCommand]
      exact Shifts.quiet (quiet_endCommand _ _ _ _ _)
    · simp only [partsOf_cons, parts, zero_add]
      exact .refl

/-- A step of a thread is made of shifts. -/
theorem step_shifts {stack : List Activation} (hs : step h stack = some (h', stack')) :
    Shifts (h, partsOf stack + F) (h', partsOf stack' + F) := by
  rcases stack with - | ⟨a, below⟩
  · cases hs
  · cases a with
    | notify rest =>
      rcases rest with - | ⟨s, rest⟩ <;> cases hs
      · simp only [partsOf_cons, parts, zero_add]
        exact .refl
      · split <;> simp only [partsOf_cons, parts, Serving.parts, zero_add] <;> exact .refl
    | serve phase => exact stepServing_shifts F hs
    | errand phase work => exact stepErrand_shifts F hs
    | direct pipeline called job reply =>
      cases called with
      | false =>
        simp only [step] at hs
        split at hs
        · cases hs
        · have hbegin := begin_shifts F (h.quiet_lockPipeline _) hs
          exact hbegin
      | true => cases hs
    | command inv => exact stepCommand_shifts F hs
    | edit inv fresh =>
      simp only [step, Option.some.injEq] at hs
      have hedit : Shifts (h, partsOf (.edit inv fresh :: below) + F)
          ((stepEdit h inv below).1, partsOf (stepEdit h inv below).2 + F) :=
        stepEdit_shifts F inv fresh
      rwa [hs] at hedit

end Activation

/-! ## Events that concern no call -/

/-- An event that neither comes from a call or an owner nor brings one. -/
def Event.isPlain : Event → Bool
  | .poll .. | .advance _ | .start _ | .drop _ | .release _ | .idle | .pushLeased _ => false
  | _ => true

namespace Host

variable (h : Host)

theorem quiet_teardown : h.Quiet h.teardown := by
  have hset : h.Quiet { h with subscriptions := (h.subscriptions.teardown (fun _ => h.alive)
      (!h.engine.failures.subscribeIdle)).1 } := ⟨by constructor <;> rfl, rfl, le_rfl⟩
  have hfold (k : Host) (l : List Nat) : k.Quiet (l.foldl (fun h _ =>
      h.notice (.resubscribeFailed (.subscribe "idle" Engine.injected))) k) := by
    induction l generalizing k with
    | nil => exact .refl k
    | cons s rest ih => exact (k.aside_notice _).quiet.trans (ih _)
  exact hset.trans (hfold _ _)

theorem pushPrompt_shifts (c : Multiset Part) (debugger : Bool) :
    Shifts (h, c) ((h.pushPrompt debugger).2, c) := by
  have hcreate := h.quiet_createPipeline .nested
  unfold pushPrompt
  split <;> rename_i hr <;> rw [hr] at hcreate
  · exact Shifts.quiet hcreate
  · exact (Shifts.quiet hcreate).tail (.push _ c _ _)

/-- An event that concerns no call is made of shifts. -/
theorem apply_shifts (c : Multiset Part) {e : Event} (he : e.isPlain = true) :
    Shifts (h, c) (h.apply e, c) := by
  cases e with
  | poll task bias => cases he
  | advance thread => cases he
  | start call => cases he
  | drop task => cases he
  | release owner => cases he
  | idle => cases he
  | pushLeased debugger => cases he
  | fire token => exact Shifts.quiet (h.aside_fireToken token).quiet
  | key k => exact Shifts.quiet (h.aside_pushKey k).quiet
  | teardown => exact Shifts.quiet h.quiet_teardown
  | enter kind => exact h.enterPrompt_shifts c kind
  | leave => exact h.leavePrompt_shifts c
  | push debugger => exact h.pushPrompt_shifts c debugger
  | pop => exact .single (.pop h c)
  | lock pipeline =>
    simp only [apply]
    split
    · exact .refl
    · exact Shifts.quiet (h.quiet_lockPipeline pipeline)
  | unlock pipeline => exact Shifts.quiet (h.quiet_setLocked _)
  | typeLine line => exact Shifts.quiet (h.quiet_setEngine (by rfl) h.trace)
  | running pipeline on => exact Shifts.quiet (h.quiet_setEngine (by rfl) h.trace)
  | failing switch on => exact Shifts.quiet (h.quiet_setEngine (by rfl) h.trace)
  | barrier name isOpen => exact Shifts.quiet ⟨by constructor <;> rfl, rfl, le_rfl⟩
  | disown => exact Shifts.quiet ⟨by constructor <;> rfl, rfl, le_rfl⟩

end Host

end SharedPrompt
