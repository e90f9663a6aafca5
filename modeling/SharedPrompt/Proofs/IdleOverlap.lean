import SharedPrompt.Proofs.IdleDelivery

/-!
# Requests of idle moments at the same time

A call has its turn until it returns or goes away, and only in its turn can a request be left in the
slot. So requests follow one another as long as calls wait for their answers. A call that goes away
after an idle moment has taken its request passes the turn on at once, and the next request can be
taken while the engine still runs the first.
-/

namespace SharedPrompt

/-- It is the turn of one call at most. -/
theorem InTurn.eq_of_turns {slot : IdleSlot} {turn : Nat} {s : Multiset Stake}
    (hi : InTurn slot turn s) {x y : Stake} (hx : x ∈ s) (hy : y ∈ s) (hxturn : x.turns = 1)
    (hyturn : y.turns = 1) : x = y := by
  obtain ⟨rest, rfl⟩ := Multiset.exists_cons_of_mem hx
  by_contra hne
  have hrest : y ∈ rest := (Multiset.mem_cons.1 hy).resolve_left (Ne.symm hne)
  have hle := hi.holders_le
  rw [← Multiset.singleton_add, Stake.holders_singleton_add] at hle
  have hone := Stake.turns_le hrest
  omega

/-- Whoever leaves a request in the slot has the turn. -/
theorem Dealt.mem_of_parked {me t : Nat} {a b : Host × Multiset Stake} {q : Parked}
    (hd : Dealt me a b (some (.parked t q))) : ∃ job, Stake.call me (.install job) ∈ a.2 := by
  generalize hsome : some (Note.parked t q) = d at hd
  cases hd with
  | stepped s k ho =>
    cases k with
    | install job => exact ⟨job, Multiset.mem_add.2 (.inl (Multiset.mem_singleton_self _))⟩
    | parked id reply =>
      simp only [IdleCall.note?] at hsome
      split at hsome <;> cases hsome
    | _ => cases hsome
  | _ => cases hsome

/-- Where something is so at one moment of a run and not at a later one, an event has changed it. -/
theorem exists_turning {P : List Event → Prop} {before past : List Event} (hle : before <+: past)
    (hbefore : P before) (hpast : ¬ P past) :
    ∃ mid e, before <+: mid ∧ mid ++ [e] <+: past ∧ P mid ∧ ¬ P (mid ++ [e]) := by
  obtain ⟨rest, rfl⟩ := hle
  induction rest using List.reverseRecOn with
  | nil =>
    rw [List.append_nil] at hpast
    exact absurd hbefore hpast
  | append_singleton rest e ih =>
    by_cases hmid : P (before ++ rest)
    · rw [← List.append_assoc] at hpast
      exact ⟨before ++ rest, e, List.prefix_append _ _, by simp, hmid, hpast⟩
    · obtain ⟨mid, e', hmid, hle, hturn⟩ := ih hmid
      apply Exists.intro mid
      exact ⟨e', hmid, hle.trans (by simp), hturn⟩

namespace Host

variable {h : Host} {log : List Note}

theorem exists_installing {e : Event} {t : Nat} {q : Parked} (hn : h.Numbered)
    (hd : h.note? e = some (.parked t q)) : ∃ u job, Stake.call u (.install job) ∈ h.stakes := by
  cases e with
  | poll u bias =>
    obtain ⟨task, htask, hd⟩ := Option.bind_eq_some_iff.1 hd
    have hdealt := task.step_dealt h u ↑(h.otherStakes u) bias
    rw [hd, ← (stakes_split hn htask).1] at hdealt
    obtain ⟨job, hmem⟩ := hdealt.mem_of_parked
    exact ⟨u, job, hmem⟩
  | advance id =>
    obtain ⟨th, -, hd⟩ := Option.bind_eq_some_iff.1 hd
    have hopens := Activation.opens_eq_false hd
    cases hopens
  | _ => cases hd

/-- In the turn of one call, nobody awaits the answer to another request that was taken. -/
theorem DeskKept.unawaited (hd : h.DeskKept log) {x : Stake} (hx : x ∈ h.stakes)
    (hturn : x.turns = 1) {p : Parked} (htook : .took p ∈ log) (hother : x.reply? ≠ some p.reply) :
    ∀ z ∈ h.stakes, z.reply? ≠ some p.reply := by
  intro z hz hreply
  obtain ⟨t, hparked⟩ := hd.exists_parked htook
  obtain ⟨served, hdesk⟩ := hd.atDesk
  obtain ⟨job, phase, hlife, -⟩ := hdesk.inHand.stakes z hz p.reply hreply
  have htold := (hd.lawful.told p.reply).2 _ hlife
  apply hother
  cases z with
  | await u ρ =>
    have hsent := htold.sent rfl
    cases hd.lawful.eq_of_opens hsent hparked rfl rfl rfl
  | call u call =>
    cases call with
    | parked id ρ =>
      rw [hdesk.inTurn.eq_of_turns hx hz hturn rfl]
      exact hreply
    | _ => cases hreply

/-- When a call leaves its request in the slot or an idle moment takes one from there, nobody awaits
the answer to any request that was taken before. -/
theorem DeskKept.unawaited_of_note (hd : h.DeskKept log) (hn : h.Numbered) {e : Event}
    (he : (∃ t q, h.note? e = some (.parked t q)) ∨ ∃ q, h.note? e = some (.took q)) {p : Parked}
    (htook : .took p ∈ log) : ∀ z ∈ h.stakes, z.reply? ≠ some p.reply := by
  rcases he with ⟨t, q, hnote⟩ | ⟨q, hnote⟩
  · obtain ⟨u, job, hmem⟩ := exists_installing hn hnote
    exact hd.unawaited hmem rfl htook (Option.some_ne_none _).symm
  · have hq := pending_of_took hnote
    obtain ⟨t, hmem⟩ := hd.exists_call hq
    apply hd.unawaited hmem rfl htook
    -- The request in the slot has not been taken yet.
    intro heq
    obtain ⟨served, hdesk⟩ := hd.atDesk
    obtain ⟨u, hlife, -⟩ := hdesk.inHand.affairs q.affair (by simp [IdleSlot.affairs, hq])
    exact ((hd.lawful.told q.reply).2 _ hlife).waiting rfl p htook (Option.some.inj heq).symm

/-- A call whose request was taken goes away by being dropped or polled. -/
theorem exists_left {start : Host} (hf : start.Fresh) {past : List Event} {p : Parked}
    (htook : .took p ∈ start.notes past)
    (hgone : ∀ z ∈ (start.run past).stakes, z.reply? ≠ some p.reply) :
    ∃ mid e t, mid ++ [e] <+: past ∧ .took p ∈ start.notes mid ∧
      .call t (.parked p.id p.reply) ∈ (start.run mid).stakes ∧
      .call t (.parked p.id p.reply) ∉ (start.run (mid ++ [e])).stakes ∧
      (e = .drop t ∨ ∃ bias, e = .poll t bias) := by
  obtain ⟨before, e₀, hle, hnote⟩ := exists_of_mem_during htook
  have hd := hf.deskKept before
  obtain ⟨t, ht⟩ := hd.exists_call (pending_of_took hnote)
  have hthere : Stake.call t (.parked p.id p.reply) ∈ (start.run (before ++ [e₀])).stakes := by
    rw [run_concat]
    apply mem_stakes_apply ht
    · intro bias heq
      have hnone := (start.run before).took?_poll t bias
      rw [show e₀ = .poll t bias from heq] at hnote
      rw [hnote] at hnone
      cases hnone
    · intro heq
      rw [heq] at hnote
      cases hnote
  have hnot : ¬ Stake.call t (.parked p.id p.reply) ∈ (start.run past).stakes :=
    fun hmem => hgone _ hmem rfl
  obtain ⟨mid, e, hmid, hpast, hstake, hleft⟩ := exists_turning
    (P := fun events => Stake.call t (.parked p.id p.reply) ∈ (start.run events).stakes)
    hle hthere hnot
  refine ⟨mid, e, t, hpast, ?_, hstake, hleft, ?_⟩
  · apply (notes_mono start hmid).subset
    rw [notes_concat, hnote]
    simp
  · by_contra hother
    rw [run_concat] at hleft
    exact hleft (mem_stakes_apply hstake (fun bias heq => hother (.inr ⟨bias, heq⟩))
      fun heq => hother (.inl heq))

/-- When a call leaves its request in the idle slot, or an idle moment takes a request out of it,
nobody awaits the answer to any request that was taken before. Each of those is over, or its call
has gone away after an idle moment had taken it and before it was over, by being dropped or in a
poll. -/
theorem idle_overlap_of_left (native follows : Bool) (engine : Engine) (console : Console Waiter)
    (tokens : Tokens) (past : List Event) (e : Event) (p : Parked) :
    let start : Host := { established native follows engine console with tokens }
    ((∃ t q, (start.run past).note? e = some (.parked t q)) ∨
      ∃ q, (start.run past).note? e = some (.took q)) →
    .took p ∈ start.notes past →
      (∀ z ∈ (start.run past).stakes, z.reply? ≠ some p.reply) ∧
      ((∃ r, .ended p.reply r ∈ start.notes past) ∨
        ∃ mid e' t, mid ++ [e'] <+: past ∧ .took p ∈ start.notes mid ∧
          (∀ r, .ended p.reply r ∉ start.notes (mid ++ [e'])) ∧
          .call t (.parked p.id p.reply) ∈ (start.run mid).stakes ∧
          .call t (.parked p.id p.reply) ∉ (start.run (mid ++ [e'])).stakes ∧
          (e' = .drop t ∨ ∃ bias, e' = .poll t bias)) := by
  intro start hnote htook
  have hf : start.Fresh := fresh_established native follows engine console tokens
  have hgone := (hf.deskKept past).unawaited_of_note (hf.kept.run past).numbered hnote htook
  apply And.intro hgone
  by_cases hended : ∃ r, .ended p.reply r ∈ start.notes past
  · exact .inl hended
  · right
    obtain ⟨mid, e', t, hle, htaken, hstake, hleft, hcause⟩ := exists_left hf htook hgone
    refine ⟨mid, e', t, hle, htaken, fun r hr => ?_, hstake, hleft, hcause⟩
    exact hended ⟨r, (notes_mono start hle).subset hr⟩

def withBarrier : Host :=
  { established true false { behavior := [("a", [.barrier "g"])] } {} with tokens := {} }

/-- The engine runs `a` in an idle moment when its call is dropped. The next call comes at once, and
so does the next idle moment. -/
def droppedWhileRunning : List Event :=
  [.start (.idle ⟨.script "a", {}, 0, 0⟩ 0), .poll 0 [], .poll 0 [], .idle] ++
    List.replicate 5 (.advance 0) ++
    [.drop 0, .start (.idle ⟨.script "b", {}, 1, 1⟩ 1), .poll 1 [], .poll 1 [], .idle,
      .advance 1, .advance 1]

/-- The next request is taken then, for the call of `a` has gone away in the midst of its
command. -/
theorem idle_overlap_of_left_droppedWhileRunning :
    (withBarrier.run droppedWhileRunning).note? (.advance 1) =
        some (.took ⟨2, ⟨.script "b", {}, 1, 1⟩, 1⟩) ∧
      .took ⟨1, ⟨.script "a", {}, 0, 0⟩, 0⟩ ∈ withBarrier.notes droppedWhileRunning ∧
      ∃ mid e t, mid ++ [e] <+: droppedWhileRunning ∧
        (∀ r, .ended 0 r ∉ withBarrier.notes (mid ++ [e])) ∧
        .call t (.parked 1 0) ∈ (withBarrier.run mid).stakes ∧
        .call t (.parked 1 0) ∉ (withBarrier.run (mid ++ [e])).stakes ∧
        (e = .drop t ∨ ∃ bias, e = .poll t bias) := by
  have hnote : (withBarrier.run droppedWhileRunning).note? (.advance 1) =
      some (.took ⟨2, ⟨.script "b", {}, 1, 1⟩, 1⟩) := rfl
  have hnotes : withBarrier.notes droppedWhileRunning = [.called ⟨0, 0⟩ ⟨.script "a", {}, 0, 0⟩,
      .parked 0 ⟨1, ⟨.script "a", {}, 0, 0⟩, 0⟩, .took ⟨1, ⟨.script "a", {}, 0, 0⟩, 0⟩,
      .began 0 ⟨.script "a", {}, 0, 0⟩, .called ⟨1, 1⟩ ⟨.script "b", {}, 1, 1⟩,
      .parked 1 ⟨2, ⟨.script "b", {}, 1, 1⟩, 1⟩] := rfl
  have htook : .took ⟨1, ⟨.script "a", {}, 0, 0⟩, 0⟩ ∈ withBarrier.notes droppedWhileRunning := by
    simp [hnotes]
  refine ⟨hnote, htook, ?_⟩
  rcases (idle_overlap_of_left true false { behavior := [("a", [.barrier "g"])] } {} {}
    droppedWhileRunning (.advance 1) _ (.inr ⟨_, hnote⟩) htook).2 with ⟨r, hended⟩ | hleft
  · change _ ∈ withBarrier.notes droppedWhileRunning at hended
    simp [hnotes] at hended
  · obtain ⟨mid, e, t, hle, -, hunended, hstake, hgone, hcause⟩ := hleft
    exact ⟨mid, e, t, hle, hunended, hstake, hgone, hcause⟩

/-- The engine runs both commands at the same time. -/
theorem droppedWhileRunning_overlaps :
    let past := droppedWhileRunning ++ List.replicate 3 (.advance 1)
    withBarrier.notes past = [.called ⟨0, 0⟩ ⟨.script "a", {}, 0, 0⟩,
      .parked 0 ⟨1, ⟨.script "a", {}, 0, 0⟩, 0⟩, .took ⟨1, ⟨.script "a", {}, 0, 0⟩, 0⟩,
      .began 0 ⟨.script "a", {}, 0, 0⟩, .called ⟨1, 1⟩ ⟨.script "b", {}, 1, 1⟩,
      .parked 1 ⟨2, ⟨.script "b", {}, 1, 1⟩, 1⟩, .took ⟨2, ⟨.script "b", {}, 1, 1⟩, 1⟩,
      .began 1 ⟨.script "b", {}, 1, 1⟩] ∧ (withBarrier.run past).engine.active = 2 := by
  intro past
  exact ⟨rfl, rfl⟩

end Host

end SharedPrompt
