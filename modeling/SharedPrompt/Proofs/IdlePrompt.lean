import SharedPrompt.Proofs.Cancelled
import SharedPrompt.Proofs.PromptChanges

/-!
# The prompt of an idle moment

A request served in an idle moment runs in a prompt of its own, which is opened for it and closed
after it. What is closed is the innermost prompt. That is as good as its own exactly if what has
happened meanwhile leaves no other prompt behind.
-/

namespace SharedPrompt

namespace Host

/-- Each prompt on the stack is there once. -/
theorem WellKept.nodup_nested {h : Host} (hk : h.WellKept) : h.stack.nested.Nodup :=
  hk.balanced.books.sound.sorted.imp fun hlt heq => by
    rw [heq] at hlt
    exact lt_irrefl _ hlt

/-- A thread opens a prompt for a request of an idle moment, and later it closes one. Whatever has
changed the prompts in between, that closes the innermost of them. The prompts are then those that
these changes alone would have made of the prompts before the idle moment, exactly if none of the
prompts opened in between is left. -/
theorem idle_prompt_closed_iff (native follows : Bool) (engine : Engine) (console : Console Waiter)
    (tokens : Tokens) (past meanwhile : List Event) (id : Nat) (request : Parked)
    (below : List Activation) (own : Prompt) :
    let start : Host := { established native follows engine console with tokens }
    let before := start.run past
    let opened := start.run (past ++ [.advance id])
    let closing := start.run (past ++ .advance id :: meanwhile)
    let changes := opened.changes meanwhile
    let alone := (before.stack.bottom, before.stack.line,
      PromptChange.applyAll before.stack.nested changes)
    before.thread? id = some ⟨id, .serve (.openPrompt request) :: below⟩ →
    before.opening? false = some (.opened own) →
    closing.thread? id = some ⟨id, .serve .closePrompt :: below⟩ →
      (closing.apply (.advance id)).prompts = (before.stack.bottom, before.stack.line,
        (PromptChange.applyAll (own :: before.stack.nested) changes).tail) ∧
      ((closing.apply (.advance id)).prompts = alone ↔ PromptChange.applyAll [] changes = []) := by
  intro start before opened closing changes alone hbefore hown hclosing
  have hkept : start.WellKept := (WellKept.established native follows engine console).setTokens tokens
  have hopen : start.run (past ++ [.advance id]) = before.apply (.advance id) :=
    List.foldl_concat ..
  have hclose : closing = opened.run meanwhile := by
    change start.run (past ++ .advance id :: meanwhile) = _
    rw [List.append_cons, run_append]
  have hopened : opened.prompts =
      (before.stack.bottom, before.stack.line, own :: before.stack.nested) := by
    change (start.run (past ++ [.advance id])).prompts = _
    rw [hopen, prompts_apply, change?, hbefore, Option.bind_some, Activation.change?, hown]
    rfl
  have hnested : closing.prompts = (before.stack.bottom, before.stack.line,
      PromptChange.applyAll (own :: before.stack.nested) changes) := by
    rw [hclose, prompts_run, hopened]
  have hafter : (closing.apply (.advance id)).prompts = (before.stack.bottom, before.stack.line,
      (PromptChange.applyAll (own :: before.stack.nested) changes).tail) := by
    rw [prompts_apply, change?, hclosing, Option.bind_some, Activation.change?, promptsAfter,
      hnested]
    rfl
  refine ⟨hafter, ?_⟩
  have hstack : closing.stack.nested = PromptChange.applyAll (own :: before.stack.nested) changes :=
    congrArg (·.2.2) hnested
  have hnodup : (PromptChange.applyAll (own :: before.stack.nested) changes).Nodup := by
    rw [← hstack]
    exact (hkept.run _).nodup_nested
  rw [hafter, ← PromptChange.tail_applyAll_cons_eq_iff hnodup]
  simp [alone]

def withCommand (actions : List Action) : Host :=
  { established true true { behavior := [("p", actions)] } {} with tokens := {} }

/-- The command is left for an idle moment, which takes it as far as the opening of its prompt. -/
def takenToPrompt : List Event :=
  [.start (.idle ⟨.script "p", {}, 0, 0⟩ 0), .poll 0 [], .poll 0 [], .idle,
    .advance 0, .advance 0, .advance 0]

/-- The engine opens a prompt inside the command and closes it again. -/
theorem idle_prompt_closed_entered_and_left :
    let start := withCommand [.enter .nested, .leave]
    let before := start.run takenToPrompt
    let closing := start.run (takenToPrompt ++ .advance 0 :: List.replicate 7 (.advance 0))
    let changes := (start.run (takenToPrompt ++ [.advance 0])).changes (List.replicate 7 (.advance 0))
    changes = [.opened ⟨3, 3, false⟩, .closed] ∧
      (closing.apply (.advance 0)).prompts = (before.stack.bottom, before.stack.line,
        PromptChange.applyAll before.stack.nested changes) := by
  have hbefore : ((withCommand [.enter .nested, .leave]).run takenToPrompt).thread? 0 = some ⟨0,
      [.serve (.openPrompt ⟨1, ⟨.script "p", {}, 0, 0⟩, 0⟩), .notify []]⟩ := rfl
  have hown : ((withCommand [.enter .nested, .leave]).run takenToPrompt).opening? false =
      some (.opened ⟨2, 2, false⟩) := rfl
  have hclosing : ((withCommand [.enter .nested, .leave]).run
      (takenToPrompt ++ .advance 0 :: List.replicate 7 (.advance 0))).thread? 0 =
        some ⟨0, [.serve .closePrompt, .notify []]⟩ := rfl
  have hchanges : ((withCommand [.enter .nested, .leave]).run (takenToPrompt ++ [.advance 0])).changes
      (List.replicate 7 (.advance 0)) = [.opened ⟨3, 3, false⟩, .closed] := by decide +kernel
  have hleft : PromptChange.applyAll [] (((withCommand [.enter .nested, .leave]).run
      (takenToPrompt ++ [.advance 0])).changes (List.replicate 7 (.advance 0))) = [] := by
    rw [hchanges]
    rfl
  have hiff := (idle_prompt_closed_iff true true { behavior := [("p", [.enter .nested, .leave])] } {} {}
    takenToPrompt (List.replicate 7 (.advance 0)) 0 _ _ ⟨2, 2, false⟩ hbefore hown hclosing).2
  exact ⟨hchanges, hiff.2 hleft⟩

/-- The engine opens a prompt inside the command and leaves it open: that prompt is closed in place
of the request's own, which stays. -/
theorem idle_prompt_closed_left_behind :
    let start := withCommand [.enter .debugger]
    let before := start.run takenToPrompt
    let closing := start.run (takenToPrompt ++ .advance 0 :: List.replicate 6 (.advance 0))
    let changes := (start.run (takenToPrompt ++ [.advance 0])).changes (List.replicate 6 (.advance 0))
    before.opening? false = some (.opened ⟨2, 2, false⟩) ∧ changes = [.opened ⟨3, 3, true⟩] ∧
      closing.thread? 0 = some ⟨0, [.serve .closePrompt, .notify []]⟩ ∧
      (closing.apply (.advance 0)).stack.nested = [⟨2, 2, false⟩] ∧
      PromptChange.applyAll before.stack.nested changes = [⟨3, 3, true⟩] := by
  have hopening : ((withCommand [.enter .debugger]).run takenToPrompt).opening? false =
      some (.opened ⟨2, 2, false⟩) := rfl
  have hchanges : ((withCommand [.enter .debugger]).run (takenToPrompt ++ [.advance 0])).changes
      (List.replicate 6 (.advance 0)) = [.opened ⟨3, 3, true⟩] := by decide +kernel
  have hclosing : ((withCommand [.enter .debugger]).run
      (takenToPrompt ++ .advance 0 :: List.replicate 6 (.advance 0))).thread? 0 =
        some ⟨0, [.serve .closePrompt, .notify []]⟩ := rfl
  have hnested : (((withCommand [.enter .debugger]).run
      (takenToPrompt ++ .advance 0 :: List.replicate 6 (.advance 0))).apply
        (.advance 0)).stack.nested = [⟨2, 2, false⟩] := rfl
  refine ⟨hopening, hchanges, hclosing, hnested, ?_⟩
  rw [hchanges]
  rfl

end Host

end SharedPrompt
