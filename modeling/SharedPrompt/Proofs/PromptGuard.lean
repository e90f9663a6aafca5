import Mathlib.Algebra.Order.BigOperators.Group.List
import Mathlib.Data.List.Infix
import Mathlib.Data.Multiset.OrderedMonoid
import SharedPrompt.Proofs.Growth
import SharedPrompt.Proofs.Histories
import SharedPrompt.Proofs.TicketConservation

/-!
# Which tickets guard a command

A command runs on the pipeline of a prompt, under a permit for as long as it runs. The permit is
that of the prompt on top when the call began to wait, the pipeline that of the prompt on top when
the wait was over. So the permit guards the pipeline exactly if the same prompt is on top both
times.
-/

namespace SharedPrompt

def PromptStack.current (s : PromptStack) (readLine : Bool) : Prompt :=
  if readLine && s.nested.isEmpty then s.line else s.top

def Permit.Guards (p : Permit) (prompt : Prompt) : Prop := prompt.gate ∈ p.gates

instance (p : Permit) (prompt : Prompt) : Decidable (p.Guards prompt) :=
  inferInstanceAs (Decidable (_ ∈ _))

theorem PromptStack.pipeline_current (s : PromptStack) (readLine : Bool) :
    (s.current readLine).pipeline = s.currentPipeline readLine := by
  unfold current currentPipeline
  split <;> rfl

namespace Host

/-- A permit for the prompt on top guards the prompt of a later command if that is still the one on
top, or if a reader finds no prompt opened. A reader outside the engine's process has no other
way. -/
theorem permitFor_guards {before now : Host} (hbefore : before.stack.Sound) (hnow : now.stack.Sound)
    (readLine : Bool) :
    (before.permitFor readLine).Guards (now.stack.current readLine) ↔
      (readLine = true ∧ now.stack.nested = []) ∨
        ((readLine = false ∨ before.engine.inProcess = true) ∧
          now.stack.top.gate = before.stack.top.gate) := by
  have hline := hbefore.line
  cases readLine with
  | false => simp [Permit.Guards, permitFor, Permit.gates, PromptStack.current]
  | true =>
    rcases hnow.top_cases with ⟨hnested, htop⟩ | ⟨hnested, htop⟩
    · have hgate := hnow.line
      by_cases hin : before.engine.inProcess = true <;>
        simp [Permit.Guards, permitFor, Permit.gates, PromptStack.current, hnested, hin,
          hline, hgate]
    · have hne : now.stack.top.gate ≠ 1 := by omega
      by_cases hin : before.engine.inProcess = true <;>
        simp [Permit.Guards, permitFor, Permit.gates, PromptStack.current, hnested, hin, hline, hne]

variable {h : Host} {P : Assignment → Prop}

/-- A command that is running keeps the tickets that it runs under. -/
theorem Shaped.held_eq_one (hs : h.Shaped P) (hk : h.WellKept) {work : Assignment}
    (hwork : .execution work ∈ h.invocations) {g : Nat} (hg : g ∈ work.permit.gates) :
    h.held g = 1 := by
  have hle : ({.permit work.permit} : Multiset Part) ≤ h.parts :=
    (List.le_sum_of_mem (List.mem_map_of_mem hwork)).trans hs.parts_invocations_le
  have hheld : 0 < h.held g := Part.held_pos g (Multiset.singleton_le.1 hle) hg
  have hone := hk.one_ticket g
  omega

end Host

/-- Whatever happens to a host, a command that runs for an execution runs in the prompt that was
current when the execution was sent, and as long as it runs every ticket of its permit is held.
The ticket of that prompt is among them exactly if the prompt on top was the same when the
execution was sent as when it looked for the gate to wait at, or if it is a reader and no prompt
was open when it was sent; a reader outside the engine's process has the latter way only. -/
theorem Host.running_guarded_iff (native follows : Bool) (engine : Engine)
    (console : Console Waiter) (past : List Event) :
    let start := Host.established native follows engine console
    ∀ work, .execution work ∈ (start.run past).invocations →
      (∀ g ∈ work.permit.gates, (start.run past).held g = 1) ∧
      ∃ t looked sent, Sent start past work t looked sent ∧
        let before := (start.run looked).stack
        let now := (start.run sent).stack
        let readLine := work.job.options.readLine
        work.pipeline = (now.current readLine).pipeline ∧
        (work.permit.Guards (now.current readLine) ↔
          (readLine = true ∧ now.nested = []) ∨
            ((readLine = false ∨ engine.inProcess = true) ∧ now.top.gate = before.top.gate)) := by
  intro start work hwork
  have hkept (events : List Event) : (start.run events).WellKept :=
    (WellKept.established native follows engine console).run events
  have hin := (sameCalls_established native follows engine console).inProcess
  have hshaped := (Chronicled.established native follows engine console past).errands
  refine ⟨fun g hg => ?_, ?_⟩
  · exact hshaped.held_eq_one (hkept past) hwork hg
  · rcases hshaped.origin_cases hwork with ⟨work', heq, t, looked, sent, hsent⟩ | ⟨permit, heq⟩
    · obtain rfl := Origin.execution.inj heq
      refine ⟨t, looked, sent, hsent, ?_, ?_⟩
      · rw [hsent.pipeline, PromptStack.pipeline_current]
      · have hguards := permitFor_guards (hkept looked).balanced.books.sound
          (hkept sent).balanced.books.sound work.job.options.readLine
        rwa [← hsent.looked.permit, inProcess_run, hin] at hguards
    · cases heq

def Host.undisturbed : List Event :=
  .start (.run ⟨.script "a", {}, 0, 0⟩ none) :: List.replicate 4 (.poll 0 []) ++
    List.replicate 2 (.advance 0)

theorem Host.running_guarded_iff_undisturbed :
    let h := (Host.established true true {} {}).run undisturbed
    ∃ work, .execution work ∈ h.invocations ∧ work.pipeline = h.stack.top.pipeline ∧
      h.held h.stack.top.gate = 1 ∧ work.permit.Guards h.stack.top := by
  intro h
  let work : Assignment := ⟨⟨0, none, false⟩, 0, ⟨.script "a", {}, 0, 0⟩, 0⟩
  have hruns : h.invocations = [.execution work] := rfl
  have htop : ∀ events ∈ undisturbed.inits,
      ((established true true {} {}).run events).stack.top = h.stack.top := by decide +kernel
  have hwork : .execution work ∈ h.invocations := hruns ▸ List.mem_singleton_self _
  obtain ⟨hheld, t, looked, sent, hsent, -, hguards⟩ :=
    running_guarded_iff true true {} {} undisturbed work hwork
  obtain ⟨_, hle⟩ := hsent.within
  obtain ⟨_, hle'⟩ := hsent.looked.within
  have hle := (List.prefix_append _ _).trans hle
  have hnow := htop sent ((List.mem_inits _ _).2 hle)
  have hbefore := htop looked ((List.mem_inits _ _).2 (((List.prefix_append _ _).trans hle').trans hle))
  have hcurrent := hguards.2 (.inr ⟨.inl rfl, by rw [hnow, hbefore]⟩)
  exact ⟨work, hwork, rfl, hheld _ (List.mem_singleton_self _), hnow ▸ hcurrent⟩

/-- A command waits while a prompt is opened over the one that it waits for. -/
def Host.enteredWhileWaiting : List Event :=
  [.start (.run ⟨.script "a", {}, 0, 0⟩ none), .poll 0 [], .poll 0 [], .poll 0 [], .poll 0 [],
    .start (.run ⟨.script "b", {}, 1, 1⟩ none), .poll 1 [], .poll 1 [], .poll 1 [], .enter .nested,
    .advance 0, .advance 0, .advance 0, .advance 0, .advance 0, .advance 0,
    .poll 1 [], .poll 1 [], .advance 1, .advance 1]

/-- It then runs in the opened prompt, whose ticket it does not have. -/
theorem Host.enteredWhileWaiting_unguarded :
    let h := (Host.established true true {} {}).run enteredWhileWaiting
    ∃ work, .execution work ∈ h.invocations ∧ work.pipeline = h.stack.top.pipeline ∧
      h.stack.nested ≠ [] ∧ ¬ work.permit.Guards h.stack.top := by
  have hruns : ((established true true {} {}).run enteredWhileWaiting).invocations =
      [.execution ⟨⟨0, none, false⟩, 2, ⟨.script "b", {}, 1, 1⟩, 1⟩] := rfl
  exact ⟨_, hruns ▸ List.mem_singleton_self _, rfl, by decide, by decide⟩

end SharedPrompt
