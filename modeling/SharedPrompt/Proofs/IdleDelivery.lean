import SharedPrompt.Proofs.Pickups

/-!
# Requests are delivered once, in order, and to their callers

Calls for idle moments are made, polled and dropped in any order, while the engine has idle moments,
keys come and go, and prompts fail to open. The one request in the slot is that of the call whose
turn it is. It goes to an idle moment or is taken back by its own call. What an idle moment takes is
run once, and the call returns with what has become of it.
-/

namespace SharedPrompt

namespace Host

variable {h : Host}

/-! ## Delivery -/

/-- What callers can rely on, where `log` is what has been noted until now. -/
structure IdleDelivery (h : Host) (log : List Note) : Prop where
  /-- The engine is given a command where it is noted that it begins, and nowhere else. -/
  commands : h.commands = given log
  /-- The request in the slot is that of the one call that has the turn. -/
  owner : ∀ q, h.slot.pending = some q → h.slot.turn.isLeased = true ∧
    ∃ t others, (↑h.stakes : Multiset Stake) = {.call t (.parked q.id q.reply)} + others ∧
      ∀ x ∈ others, x.turns = 0
  /-- Calls draw ever later turns. -/
  calls : (callings log).Pairwise fun c d => c.1.turn < d.1.turn
  /-- The requests that were taken are those of some of the calls, in the order of the calls, and
  all that still wait to leave a request or to have it taken were called later. -/
  order : ∃ served, served.Sublist (callings log) ∧
    List.Forall₂ (fun c q => .parked c.1.task q ∈ log ∧ q.job = c.2) served (pickups log) ∧
    (∀ t w job, .call t (.queued w job) ∈ h.stakes →
      w.task = t ∧ (w, job) ∈ callings log ∧ ∀ c ∈ served, c.1.turn < w.turn) ∧
    (∀ t job, .call t (.install job) ∈ h.stakes →
      ∃ w, w.task = t ∧ NextCall h.slot log served (w, job)) ∧
    ∀ q, h.slot.pending = some q →
      ∃ w, .parked w.task q ∈ log ∧ NextCall h.slot log served (w, q.job)
  /-- The engine begins the job of a request after an idle moment has taken it, and only once. -/
  once : ∀ t q, .parked t q ∈ log → ∀ before job, before ++ [.began q.reply job] <+: log →
    job = q.job ∧ .took q ∈ before ∧ ∀ job', .began q.reply job' ∉ before
  /-- When an idle moment takes a request, its call has not gone away. -/
  present : ∀ e q, h.note? e = some (.took q) →
    h.slot.pending = some q ∧ ∃ t, .call t (.parked q.id q.reply) ∈ h.stakes
  /-- A request leaves the slot when an idle moment takes it or its own call goes away, and by no
  other event. -/
  kept : ∀ e q, h.slot.pending = some q → (h.apply e).slot.pending = some q ∨
    h.note? e = some (.took q) ∨
      ∃ t, .call t (.parked q.id q.reply) ∈ h.stakes ∧
        .call t (.parked q.id q.reply) ∉ (h.apply e).stakes ∧
        (e = .drop t ∨ ∃ bias, e = .poll t bias)
  /-- While a call waits for its answer, its request is in the slot or in the hands of a thread, or
  the answer is there. -/
  unlost : ∀ t id ρ, .call t (.parked id ρ) ∈ h.stakes →
    (∃ q, h.slot.pending = some q ∧ q.reply = ρ) ∨
      (∃ th ∈ h.threads, ∃ a ∈ th.stack, ∃ y, a.affair? = some y ∧ y.reply = ρ) ∨
      ∃ r, h.replies[ρ]? = some (.sent r)
  /-- A call returns what has become of its own request: what the engine was done with after it had
  begun the job, or why there was no pipeline for it. -/
  answer : ∀ t call k r, .call t call ∈ h.stakes → call.step h t = (k, .done r) →
    r ≠ .error .abandoned ∧ ∃ id q, call = .parked id q.reply ∧ .parked t q ∈ log ∧
      .took q ∈ log ∧ (∀ r', .ended q.reply r' ∈ log ↔ r' = r) ∧
      (.began q.reply q.job ∈ log ∨ ∃ f, r = .error (.engine f))

namespace DeskKept

variable {log : List Note}

theorem owner (hd : h.DeskKept log) {q : Parked} (hq : h.slot.pending = some q) :
    h.slot.turn.isLeased = true ∧
      ∃ t others, (↑h.stakes : Multiset Stake) = {.call t (.parked q.id q.reply)} + others ∧
        ∀ x ∈ others, x.turns = 0 := by
  obtain ⟨served, hd⟩ := hd.atDesk
  obtain ⟨t, ht⟩ := hd.inTurn.pending q hq
  obtain ⟨others, hsplit⟩ := Multiset.exists_cons_of_mem ht
  rw [← Multiset.singleton_add] at hsplit
  have hone := hd.inTurn.gate.one
  rw [hsplit, Stake.holders_singleton_add,
    show Stake.turns (.call t (.parked q.id q.reply)) = 1 from rfl] at hone
  refine ⟨?_, t, others, hsplit, fun x hx => ?_⟩
  · have hnone : h.slot.turn.tickets.items.length = 0 := by
      simp only [TicketGate.size, WaitQueue.size] at hone
      omega
    rw [TicketGate.isLeased, List.length_eq_zero_iff.1 hnone]
    rfl
  · have hle := Stake.turns_le hx
    omega

theorem order (hd : h.DeskKept log) : ∃ served, served.Sublist (callings log) ∧
    List.Forall₂ (fun c q => .parked c.1.task q ∈ log ∧ q.job = c.2) served (pickups log) ∧
    (∀ t w job, .call t (.queued w job) ∈ h.stakes →
      w.task = t ∧ (w, job) ∈ callings log ∧ ∀ c ∈ served, c.1.turn < w.turn) ∧
    (∀ t job, .call t (.install job) ∈ h.stakes →
      ∃ w, w.task = t ∧ NextCall h.slot log served (w, job)) ∧
    ∀ q, h.slot.pending = some q →
      ∃ w, .parked w.task q ∈ log ∧ NextCall h.slot log served (w, q.job) := by
  obtain ⟨served, hd⟩ := hd.atDesk
  have ho := hd.inOrder
  refine ⟨served, ho.sublist, ho.taken, fun t w job hx => ?_, ho.installing, ho.pending⟩
  obtain ⟨htask, hcalled⟩ := ho.queued t w job hx
  have hw := hd.inTurn.mem_line hx
  exact ⟨htask, hcalled, fun c hc => ho.line c hc w hw⟩

theorem once (hd : h.DeskKept log) {t : Nat} {q : Parked} (hq : .parked t q ∈ log)
    {before : List Note} {job : Job} (hle : before ++ [.began q.reply job] <+: log) :
    job = q.job ∧ .took q ∈ before ∧ ∀ job', .began q.reply job' ∉ before := by
  have hlog : Lawful (before ++ [.began q.reply job]) := hd.lawful.of_prefix hle
  obtain ⟨t', idle, hlife⟩ : (Note.began q.reply job).Allowed (lifeOf before q.reply) :=
    hlog.allowed rfl
  have htold := ((hlog.of_prefix (List.prefix_append _ _)).told q.reply).2 _ hlife
  have hmem {d : Note} (hd : d ∈ before) : d ∈ log := hle.subset (List.mem_append_left _ hd)
  have hown {u : Nat} {p : Parked} (hp : .parked u p ∈ log) (heq : p.reply = q.reply) : p = q :=
    (Note.parked.inj (hd.lawful.eq_of_opens hp hq rfl rfl (congrArg some heq))).2
  cases idle with
  | false =>
    cases hd.lawful.eq_of_opens (hmem (htold.sent rfl)) hq rfl rfl rfl
  | true =>
    obtain ⟨p, hreply, hjob, hparked⟩ := htold.parked rfl
    obtain ⟨p', hreply', -, htook⟩ := htold.took rfl Life.Phase.noConfusion
    obtain ⟨u, hparked'⟩ := hd.exists_parked (hmem htook)
    obtain rfl := hown (hmem hparked) hreply
    obtain rfl := hown hparked' hreply'
    exact ⟨hjob.symm, htook, fun job' hbegan => (htold.began job' hbegan).2.2.1 rfl⟩

theorem kept (hd : h.DeskKept log) {e : Event}
    (hk : (h.apply e).DeskKept (log ++ (h.note? e).toList)) {q : Parked}
    (hq : h.slot.pending = some q) : (h.apply e).slot.pending = some q ∨
      h.note? e = some (.took q) ∨
        ∃ t, .call t (.parked q.id q.reply) ∈ h.stakes ∧
          .call t (.parked q.id q.reply) ∉ (h.apply e).stakes ∧
          (e = .drop t ∨ ∃ bias, e = .poll t bias) := by
  obtain ⟨t, ht⟩ := hd.exists_call hq
  obtain ⟨served, hd⟩ := hd.atDesk
  obtain ⟨served', hk⟩ := hk.atDesk
  by_cases htook : ∃ q', h.note? e = some (.took q')
  · obtain ⟨q', htook⟩ := htook
    obtain rfl := Option.some.inj ((pending_of_took htook).symm.trans hq)
    exact .inr (.inl htook)
  have hnone : (h.note? e).bind Note.took? = none := by
    rw [Option.bind_eq_none_iff]
    intro d hd
    cases d with
    | took q' => exact absurd ⟨q', hd⟩ htook
    | _ => rfl
  by_cases ht' : .call t (.parked q.id q.reply) ∈ (h.apply e).stakes
  · refine .inl (hd.pending_of_call hq hk hnone (fun y hy => ?_) ht')
    obtain ⟨th, -, a, -, ha⟩ := mem_affairs.1 hy
    exact Activation.phase_of_affair ha
  · refine .inr (.inr ⟨t, ht, ht', ?_⟩)
    by_contra hother
    exact ht' (mem_stakes_apply ht (fun bias heq => hother (.inr ⟨bias, heq⟩))
      fun heq => hother (.inl heq))

theorem unlost (hd : h.DeskKept log) {t id ρ : Nat} (ht : .call t (.parked id ρ) ∈ h.stakes) :
    (∃ q, h.slot.pending = some q ∧ q.reply = ρ) ∨
      (∃ th ∈ h.threads, ∃ a ∈ th.stack, ∃ y, a.affair? = some y ∧ y.reply = ρ) ∨
      ∃ r, h.replies[ρ]? = some (.sent r) := by
  obtain ⟨served, hd⟩ := hd.atDesk
  obtain ⟨job, p, -, ⟨-, y, hy, hreply⟩ | ⟨r, hsent, -⟩⟩ := hd.inHand.stakes _ ht ρ rfl
  · rcases Multiset.mem_add.1 hy with hy | hy
    · refine .inl ?_
      cases hq : h.slot.pending with
      | none => simp [IdleSlot.affairs, hq] at hy
      | some q =>
        rw [IdleSlot.affairs, hq] at hy
        exact ⟨q, rfl, (Multiset.mem_singleton.1 hy ▸ hreply : q.affair.reply = ρ)⟩
    · obtain ⟨th, hth, a, ha, hy⟩ := mem_affairs.1 hy
      exact .inr (.inl ⟨th, hth, a, ha, y, hy, hreply⟩)
  · exact .inr (.inr ⟨r, hsent⟩)

theorem answer (hd : h.DeskKept log) {t : Nat} {call : IdleCall} {k : Host} {r : RunResult}
    (ht : .call t call ∈ h.stakes) (hs : call.step h t = (k, .done r)) :
    r ≠ .error .abandoned ∧ ∃ id q, call = .parked id q.reply ∧ .parked t q ∈ log ∧
      .took q ∈ log ∧ (∀ r', .ended q.reply r' ∈ log ↔ r' = r) ∧
      (.began q.reply q.job ∈ log ∨ ∃ f, r = .error (.engine f)) := by
  obtain ⟨id, ρ, rfl⟩ : ∃ id ρ, call = .parked id ρ := by
    cases call with
    | parked id ρ => exact ⟨id, ρ, rfl⟩
    | queued w job =>
      simp only [IdleCall.step] at hs
      split at hs <;> cases hs
    | _ => cases hs
  have hkept := hd
  obtain ⟨served, hd⟩ := hd.atDesk
  obtain ⟨job, p, hlife, ⟨hopen, -⟩ | ⟨r', hsent, rfl⟩⟩ := hd.inHand.stakes _ ht ρ rfl
  · simp only [IdleCall.step, hopen] at hs
    cases hs
  · simp only [IdleCall.step, hsent] at hs
    cases hs
    have htold := (hkept.lawful.told ρ).2 _ hlife
    obtain ⟨q, hreply, hjob, hparked⟩ := htold.parked rfl
    obtain ⟨q', hreply', -, htook⟩ := htold.took rfl Life.Phase.noConfusion
    obtain ⟨u, hparked'⟩ := hkept.exists_parked htook
    cases hkept.lawful.eq_of_opens hparked' hparked rfl rfl
      (congrArg some (hreply'.trans hreply.symm))
    obtain ⟨hne, ⟨hended, hbegan⟩ | ⟨hidle, -⟩⟩ := htold.settled r rfl
    · subst hreply
      refine ⟨hne, id, q, rfl, hparked, htook, fun r' => ⟨fun hr' => ?_, fun heq => heq ▸ hended⟩,
        hjob ▸ hbegan⟩
      rcases htold.ended r' hr' with heq | heq <;> cases heq
      rfl
    · cases hidle

end DeskKept

/-- A call leaves its request in the slot and goes away. The next one waits for its turn meanwhile,
and an idle moment serves it. -/
def droppedCall : List Event :=
  [.start (.idle ⟨.script "a", {}, 0, 0⟩ 0), .poll 0 [], .poll 0 [],
    .start (.idle ⟨.script "b", {}, 1, 1⟩ 1), .poll 1 [], .drop 0, .poll 1 [], .poll 1 [], .idle] ++
    List.replicate 9 (.advance 0)

end Host

end SharedPrompt
