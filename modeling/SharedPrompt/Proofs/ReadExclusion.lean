import SharedPrompt.Proofs.PromptGuard

/-!
# Readers and what runs beside them

A reader in the engine's process holds the ticket of the prompt that it reads for, and so keeps out
all commands that have to hold the same ticket. Requests of idle moments run in prompts of their
own. A call that began to wait while such a prompt was on top has the ticket of that prompt, which
keeps out nobody else once the prompt is gone.
-/

namespace SharedPrompt

namespace Host

/-- While a reader is running, nothing else is that was not begun in an idle moment. -/
def ReadersAlone (h : Host) : Prop :=
  ∀ pre work post, h.invocations = pre ++ .execution work :: post → work.permit.readLine = true →
    ∀ o ∈ pre ++ post, o.isIdle = true

variable {h : Host} {P : Assignment → Prop}

/-- Two commands that are running have not both the ticket of one gate. -/
theorem Shaped.disjoint_gates (hs : h.Shaped P) (hk : h.WellKept) {a b : Assignment}
    {pre post : List Origin} (hsplit : h.invocations = pre ++ .execution a :: post)
    (hb : .execution b ∈ pre ++ post) {g : Nat} (ha : g ∈ a.permit.gates) : g ∉ b.permit.gates := by
  intro hg
  have hother : ({.permit b.permit} : Multiset Part) ≤ ((pre ++ post).map Origin.parts).sum :=
    List.le_sum_of_mem (List.mem_map_of_mem hb)
  have hboth : ({.permit a.permit} + {.permit b.permit} : Multiset Part) ≤ h.parts := by
    refine le_trans ?_ hs.parts_invocations_le
    have hsum : (h.invocations.map Origin.parts).sum =
        {.permit a.permit} + ((pre ++ post).map Origin.parts).sum := by
      rw [hsplit]
      simp only [List.map_append, List.map_cons, List.sum_append, List.sum_cons]
      exact add_left_comm _ _ _
    rw [hsum]
    exact add_le_add_right hother _
  have hnone := hk.not_both hboth (Part.held_pos g (Multiset.mem_singleton_self _) ha)
  have hsome : 0 < Part.held {.permit b.permit} g :=
    Part.held_pos g (Multiset.mem_singleton_self _) hg
  omega

/-- Readers are alone exactly if whatever executions run beside them took their permits for the same
prompts, for then they do not run beside them at all. -/
theorem Shaped.readersAlone_iff (hs : h.Shaped P) (hk : h.WellKept) :
    h.ReadersAlone ↔ ∀ reader work,
      .execution reader ∈ h.invocations → .execution work ∈ h.invocations →
      reader.permit.readLine = true → work.permit.prompt = reader.permit.prompt := by
  constructor
  · intro halone reader work hreader hwork hread
    obtain ⟨pre, post, hsplit⟩ := List.append_of_mem hreader
    rw [hsplit] at hwork
    rcases List.mem_append.1 hwork with hmem | hmem
    · exact absurd (halone pre reader post hsplit hread _ (List.mem_append_left _ hmem))
        Bool.false_ne_true
    · rcases List.mem_cons.1 hmem with heq | hmem
      · rw [Origin.execution.inj heq]
      · exact absurd (halone pre reader post hsplit hread _ (List.mem_append_right _ hmem))
          Bool.false_ne_true
  · intro hsame pre reader post hsplit hread o ho
    have hmem : o ∈ h.invocations := by
      rw [hsplit]
      rcases List.mem_append.1 ho with ho | ho <;> simp [ho]
    rcases hs.origin_cases hmem with ⟨work, rfl, -⟩ | ⟨permit, rfl⟩
    · have hprompt := hsame reader work (by simp [hsplit]) hmem hread
      have hnot := hs.disjoint_gates hk hsplit ho reader.permit.prompt_mem_gates
      rw [← hprompt] at hnot
      exact absurd work.permit.prompt_mem_gates hnot
    · rfl

/-- In the engine's process every permit is taken for the prompt on top. -/
theorem prompt_permitFor (hin : h.engine.inProcess = true) (readLine : Bool) :
    (h.permitFor readLine).prompt = h.stack.top.gate := by
  cases readLine with
  | false => rfl
  | true =>
    rw [permitFor, if_pos hin]
    rfl

end Host

/-- In the engine's process, whatever happens to a host, a reader runs beside nothing but requests
of idle moments exactly as long as whatever else runs was sent by executions that found the same
prompt on top when they looked for the gate to wait at. -/
theorem Host.readersAlone_iff_prompt (native follows : Bool) (engine : Engine)
    (console : Console Waiter) (hin : engine.inProcess = true) (past : List Event) :
    let start := Host.established native follows engine console
    let h := start.run past
    (h.ReadersAlone ↔ ∀ reader work,
        .execution reader ∈ h.invocations → .execution work ∈ h.invocations →
        reader.permit.readLine = true → work.permit.prompt = reader.permit.prompt) ∧
      ∀ work, .execution work ∈ h.invocations →
        ∃ t looked sent, Sent start past work t looked sent ∧
        work.permit.readLine = work.job.options.readLine ∧
        work.permit.prompt = (start.run looked).stack.top.gate := by
  intro start h
  have hkept : h.WellKept := (WellKept.established native follows engine console).run past
  have hshaped := (Chronicled.established native follows engine console past).errands
  refine ⟨hshaped.readersAlone_iff hkept, fun work hwork => ?_⟩
  rcases hshaped.origin_cases hwork with ⟨work', heq, t, looked, sent, hsent⟩ | ⟨permit, heq⟩
  · obtain rfl := Origin.execution.inj heq
    have hlooked : (start.run looked).engine.inProcess = true := by
      rw [inProcess_run, (sameCalls_established native follows engine console).inProcess]
      exact hin
    refine ⟨t, looked, sent, hsent, ?_, ?_⟩
    · rw [hsent.looked.permit]
      cases work.job.options.readLine with
      | false => rfl
      | true => rw [permitFor, if_pos hlooked]
    · rw [hsent.looked.permit]
      exact prompt_permitFor hlooked _
  · cases heq

/-- A reader takes the ticket of the bottom prompt, a command waits for it, and another command is
parked and then served by the reader in an idle moment. -/
def Host.servedByReader : List Event :=
  [.start (.run ⟨.readLine, .reading, 0, 0⟩ none), .poll 0 [], .poll 0 [], .poll 0 [],
    .start (.run ⟨.script "b", {}, 1, 1⟩ none), .poll 1 [], .poll 1 [], .poll 1 [],
    .poll 0 [], .poll 0 [], .advance 0, .advance 0,
    .start (.run ⟨.script "p", {}, 2, 2⟩ none), .poll 2 [], .poll 2 [], .poll 2 []] ++
    List.replicate 6 (.advance 0)

theorem Host.readersAlone_iff_prompt_servedByReader :
    let h := (Host.established true false {} {}).run servedByReader
    h.invocations.length = 2 ∧ h.ReadersAlone := by
  intro h
  have hruns : h.invocations = [.idle ⟨2, none, false⟩,
      .execution ⟨⟨1, some 0, true⟩, 1, ⟨.readLine, .reading, 0, 0⟩, 0⟩] := rfl
  refine ⟨rfl, (readersAlone_iff_prompt true false {} {} rfl servedByReader).1.2 ?_⟩
  intro reader work hreader hwork _
  change _ ∈ h.invocations at hreader hwork
  rw [hruns] at hreader hwork
  rw [List.mem_pair] at hreader hwork
  cases hreader.resolve_left fun h => by cases h
  cases hwork.resolve_left fun h => by cases h
  rfl

/-- While the command is being served a second reader begins to wait. When it is its turn, so it is
the turn of the command that has waited for the bottom prompt. -/
def Host.readBesideCommand : List Event :=
  servedByReader ++
    [.start (.run ⟨.readLine, .reading, 3, 3⟩ none), .poll 3 [], .poll 3 [], .poll 3 []] ++
    List.replicate 7 (.advance 0) ++ .typeLine "x" :: List.replicate 5 (.advance 0) ++
    [.poll 3 [], .poll 3 [], .poll 3 [], .poll 1 [], .poll 1 [], .advance 1, .advance 1,
      .advance 2, .advance 2]

set_option maxRecDepth 2000 in
theorem Host.readBesideCommand_overlaps :
    ¬ ((Host.established true false {} {}).run readBesideCommand).ReadersAlone := by
  intro halone
  have hruns : ((Host.established true false {} {}).run readBesideCommand).invocations =
      [.execution ⟨⟨1, some 2, true⟩, 1, ⟨.readLine, .reading, 3, 3⟩, 2⟩,
        .execution ⟨⟨0, none, false⟩, 0, ⟨.script "b", {}, 1, 1⟩, 3⟩] := rfl
  exact Bool.false_ne_true (halone [] _ [_] hruns rfl _ (List.mem_singleton_self _))

end SharedPrompt
