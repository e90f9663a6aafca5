import SharedPrompt.Proofs.LiveSubscriptions

/-!
# Each queue is made one offer

An idle moment goes through the subscribers that there were when it began. Whatever happens
meanwhile, each queue that lives all along is made one offer to run the request that waits in it,
and no queue is made two.
-/

namespace SharedPrompt

namespace IdleQueues

variable {s : IdleQueues} {q m : Nat}

/-! ## The way of an idle moment -/

def offered (moment : Nat) (offers : List IdleOffer) : List Nat :=
  (offers.filter (·.moment = moment)).map (·.queue)

theorem offers_concat (later : List IdleEvent) (e : IdleEvent) :
    s.offers (later ++ [e]) = s.offers later ++ ((s.run later).offer? e).toList := by
  induction later generalizing s with
  | nil => simp [offers, run]
  | cons d later ih => rw [List.cons_append, offers, ih, offers, run_cons, List.append_assoc]

theorem next?_eq_some {rest : List Nat} :
    s.next? m = some (q, rest) ↔ s.moments[m]? = some ⟨q :: rest, none⟩ := by
  rw [next?]
  split
  next hm => simp [hm]
  next hm => exact ⟨fun h => (by cases h), fun h => absurd h (hm q rest)⟩

/-- An idle moment stays where it is, or goes on to its next subscriber, whom it makes an offer if
it lives. -/
theorem moment_apply {rest : List Nat} {inside : Option Nat}
    (h : s.moments[m]? = some ⟨rest, inside⟩) (e : IdleEvent) :
    ∃ inside', (s.apply e).moments[m]? = some ⟨rest, inside'⟩ ∧ offered m (s.offer? e).toList = [] ∨
      ∃ q rest', rest = q :: rest' ∧ (s.apply e).moments[m]? = some ⟨rest', inside'⟩ ∧
        offered m (s.offer? e).toList = [q].filter s.lives := by
  have hlt : m < s.moments.length := (List.getElem?_eq_some_iff.1 h).1
  cases e with
  | create =>
    refine ⟨inside, .inl ⟨?_, rfl⟩⟩
    rw [apply, create]
    split <;> exact h
  | idle => exact ⟨inside, .inl ⟨(List.getElem?_append_left hlt).trans h, rfl⟩⟩
  | offer i keyAvailable =>
    rw [apply, offer, offer?]
    cases hnext : s.next? i with
    | none => exact ⟨inside, .inl ⟨h, rfl⟩⟩
    | some next =>
      obtain ⟨q, rest'⟩ := next
      by_cases hi : i = m
      · subst hi
        have hm := next?_eq_some.1 hnext
        rw [h] at hm
        obtain ⟨rfl, rfl⟩ := IdleMoment.mk.inj (Option.some.inj hm)
        by_cases hq : s.lives q
        · refine ⟨some q, .inr ⟨q, rest', rfl, ?_, ?_⟩⟩
          · simp [hq, hlt]
          · simp [hq, offered]
        · refine ⟨none, .inr ⟨q, rest', rfl, ?_, ?_⟩⟩
          · simp [hq, hlt]
          · simp [hq, offered]
      · refine ⟨inside, .inl ⟨?_, ?_⟩⟩
        · dsimp only
          split <;> exact (List.getElem?_set_ne hi).trans h
        · by_cases hq : s.lives q <;> simp [hq, offered, hi]
  | leave i =>
    refine ⟨if i = m then none else inside, .inl ⟨?_, rfl⟩⟩
    change (s.moments.modify i _)[m]? = _
    rw [List.getElem?_modify, h]
    split <;> rfl
  | renew k =>
    refine ⟨inside, .inl ⟨?_, rfl⟩⟩
    rw [apply, renew]
    split
    · split <;> exact h
    · exact h
  | clone | drop | park | withdraw | teardown | refuse => exact ⟨inside, .inl ⟨h, rfl⟩⟩

/-- An idle moment has told the first of the subscribers that there were when it began. It has made
its offers to some of them in their order, and to all that still live. -/
theorem told_of_run (hmade : ∀ q ∈ s.subscriptions.subscribers, q < s.queues.length)
    (later : List IdleEvent) :
    ∃ told rest inside, s.subscriptions.subscribers = told ++ rest ∧
      (s.run (.idle :: later)).moments[s.moments.length]? = some ⟨rest, inside⟩ ∧
      (offered s.moments.length (s.offers (.idle :: later))).Sublist told ∧
      ∀ q ∈ told, (s.run (.idle :: later)).lives q →
        q ∈ offered s.moments.length (s.offers (.idle :: later)) := by
  induction later using List.reverseRecOn with
  | nil =>
    exact ⟨[], s.subscriptions.subscribers, none, rfl, List.getElem?_concat_length ..,
      List.nil_sublist _, fun q hq => absurd hq List.not_mem_nil⟩
  | append_singleton later e ih =>
    obtain ⟨told, rest, inside, hall, hmoment, hsub, hlive⟩ := ih
    have hoffers : offered s.moments.length (s.offers (.idle :: (later ++ [e]))) =
        offered s.moments.length (s.offers (.idle :: later)) ++
          offered s.moments.length ((s.run (.idle :: later)).offer? e).toList := by
      rw [← List.cons_append, offers_concat]
      simp [offered]
    rw [← List.cons_append, run_concat, List.cons_append, hoffers]
    have hlength : s.queues.length ≤ (s.run (.idle :: later)).queues.length :=
      length_le_run (.idle :: later)
    have hlives (q : Nat) (hq : q ∈ s.subscriptions.subscribers)
        (hlives : ((s.run (.idle :: later)).apply e).lives q) : (s.run (.idle :: later)).lives q := by
      obtain hlives | ⟨-, -, rfl⟩ := lives_of_apply hlives
      · exact hlives
      · exact absurd (hmade _ hq) (not_lt.2 hlength)
    obtain ⟨inside', ⟨hmoment', hnone⟩ | ⟨q, rest', rfl, hmoment', hoffer⟩⟩ := moment_apply hmoment e
    · refine ⟨told, rest, inside', hall, hmoment', ?_, fun p hp hafter => ?_⟩
      · rwa [hnone, List.append_nil]
      · rw [hnone, List.append_nil]
        exact hlive p hp (hlives p (hall ▸ List.mem_append_left _ hp) hafter)
    · refine ⟨told ++ [q], rest', inside', by simp [hall], hmoment', ?_, fun p hp hafter => ?_⟩
      · rw [hoffer]
        exact hsub.append List.filter_sublist
      · have hmem : p ∈ s.subscriptions.subscribers := by
          rw [hall, ← List.singleton_append, ← List.append_assoc]
          exact List.mem_append_left _ hp
        have hbefore := hlives p hmem hafter
        rw [hoffer]
        obtain hp | hp := List.mem_append.1 hp
        · exact List.mem_append_left _ (hlive p hp hbefore)
        · exact List.mem_append_right _ (List.mem_filter.2 ⟨hp, hbefore⟩)

/-- What an event offers was waiting in a queue that lives. -/
theorem offer?_eq_some {e : IdleEvent} {o : IdleOffer} (h : s.offer? e = some o) :
    s.lives o.queue ∧ o.request = s.pending? o.queue := by
  cases e with
  | offer moment keyAvailable =>
    rw [offer?, Option.bind_eq_some_iff] at h
    obtain ⟨⟨p, rest⟩, -, h⟩ := h
    dsimp only at h
    by_cases hp : s.lives p
    · rw [if_pos hp] at h
      cases h
      exact ⟨hp, rfl⟩
    · rw [if_neg hp] at h
      cases h
  | create | clone | drop | park | withdraw | idle | leave | teardown | renew | refuse => cases h

theorem Gone.offers (h : s.Gone q) {later : List IdleEvent} {o : IdleOffer}
    (ho : o ∈ s.offers later) : o.queue ≠ q := by
  induction later generalizing s with
  | nil => exact absurd ho List.not_mem_nil
  | cons e later ih =>
    rw [IdleQueues.offers, List.mem_append, Option.mem_toList] at ho
    obtain ho | ho := ho
    · rintro rfl
      exact h.2 (offer?_eq_some ho).1
    · exact ih (h.apply e) ho

theorem pending?_apply {e : IdleEvent} {r : Parked} (h : s.pending? q = some r)
    (hkept : ∀ id, e ≠ .withdraw q id) (hoffer : ∀ o, s.offer? e = some o → o.queue ≠ q) :
    (s.apply e).pending? q = some r := by
  have hchange (p : Nat) (f : IdleQueue → IdleQueue)
      (hf : p = q → ∀ u, u.pending = some r → (f u).pending = some r) :
      (s.change p f).pending? q = some r := by
    rw [pending?, Option.bind_eq_some_iff] at h ⊢
    obtain ⟨u, hu, hr⟩ := h
    refine ⟨if p = q then f u else u, ?_, ?_⟩
    · simp [change, List.getElem?_modify, hu]
    · split
      next hp => exact hf hp u hr
      next => exact hr
  cases e with
  | create =>
    rw [apply, create]
    split
    · exact h
    · rw [pending?, Option.bind_eq_some_iff] at h ⊢
      obtain ⟨u, hu, hr⟩ := h
      exact ⟨u, List.getElem?_append_left (List.getElem?_eq_some_iff.1 hu).1 ▸ hu, hr⟩
  | clone p =>
    refine hchange p .clone fun _ u hu => ?_
    rw [IdleQueue.clone]
    split <;> exact hu
  | drop p => exact hchange p .drop fun _ _ hu => hu
  | park p request =>
    refine hchange p (·.park request) fun _ u hu => ?_
    rw [IdleQueue.park, hu, Option.isNone_some, Bool.and_false, if_neg Bool.false_ne_true]
    exact hu
  | withdraw p id =>
    refine hchange p (·.withdraw id) fun hp => ?_
    exact absurd (by rw [hp]) (hkept id)
  | offer moment keyAvailable =>
    rw [apply, offer]
    split
    next => exact h
    next p rest hnext =>
      split
      next hp =>
        refine hchange p (·.serve keyAvailable) fun hpq => ?_
        exact absurd hpq (hoffer ⟨moment, p, s.pending? p⟩ (by simp [offer?, hnext, hp]))
      next => exact h
  | renew k =>
    rw [apply, renew]
    split
    · split <;> exact h
    · exact h
  | idle | leave | teardown | refuse => exact h

/-- A request that nobody takes back is what the next offer to its queue is about. -/
theorem exists_offer_pending {r : Parked} {later : List IdleEvent} (hr : s.pending? q = some r)
    (hkept : ∀ id, .withdraw q id ∉ later) (hoffer : ∃ o ∈ s.offers later, o.queue = q) :
    ∃ o ∈ s.offers later, o.queue = q ∧ o.request = some r := by
  induction later generalizing s with
  | nil =>
    obtain ⟨o, ho, -⟩ := hoffer
    exact absurd ho List.not_mem_nil
  | cons e later ih =>
    by_cases he : ∃ o, s.offer? e = some o ∧ o.queue = q
    · obtain ⟨o, ho, rfl⟩ := he
      refine ⟨o, List.mem_append_left _ (Option.mem_toList.2 ho), rfl, ?_⟩
      rw [(offer?_eq_some ho).2, hr]
    · rw [not_exists] at he
      have hnow : (s.apply e).pending? q = some r :=
        pending?_apply hr (fun id hid => hkept id (hid ▸ List.mem_cons_self))
          fun o ho hq => he o ⟨ho, hq⟩
      obtain ⟨o, ho, hq⟩ := hoffer
      have hlater : o ∈ (s.apply e).offers later :=
        (List.mem_append.1 ho).resolve_left fun hfirst => he o ⟨Option.mem_toList.1 hfirst, hq⟩
      obtain ⟨o', ho', hr'⟩ :=
        ih hnow (fun id hid => hkept id (List.mem_cons_of_mem _ hid)) ⟨o, hlater, hq⟩
      exact ⟨o', List.mem_append_right _ ho', hr'⟩

/-! ## The whole -/

/-- What an idle moment that begins now has done when it is over after `later`. -/
structure Notifies (s : IdleQueues) (later : List IdleEvent) : Prop where
  /-- A queue that lives all along has been made one offer. -/
  live : ∀ q, s.lives q → (s.run (.idle :: later)).lives q →
    (offered s.moments.length (s.offers (.idle :: later))).count q = 1
  /-- No queue has been made two, -/
  most : ∀ q, (offered s.moments.length (s.offers (.idle :: later))).count q ≤ 1
  /-- and none that did not live has been made any. -/
  none : ∀ q ∈ offered s.moments.length (s.offers (.idle :: later)), s.lives q
  /-- A request that was waiting and that nobody took back has been offered to its queue. -/
  request : ∀ q r, s.lives q → (s.run (.idle :: later)).lives q → s.pending? q = some r →
    (∀ id, .withdraw q id ∉ later) →
      ∃ o ∈ s.offers (.idle :: later), o.queue = q ∧ o.request = some r

structure Renews (s : IdleQueues) : Prop where
  /-- Outside of teardowns a queue that lives is subscribed once. -/
  once : s.Resting → ∀ q, s.lives q → s.subscriptions.subscribers.count q = 1
  /-- During teardowns it is subscribed or has still to be told, once. -/
  standing : ∀ q, s.lives q → s.standing q = 1
  /-- A queue that is gone when a teardown begins is not subscribed from then on. -/
  swept : ∀ q, s.Gone q → ∀ later, q ∉ (s.run (.teardown :: later)).subscriptions.subscribers
  /-- A teardown that nothing comes between leaves just those that live, in their order. -/
  teardown :
    (s.run (.teardown :: .replicate s.subscriptions.count (.renew s.teardowns.length))).subscriptions
      = (s.subscriptions.teardown s.lives true).1
  /-- An idle moment that begins outside of teardowns, and comes to its end. -/
  notifies : s.Resting → ∀ later,
    (s.run (.idle :: later)).moments[s.moments.length]? = some ⟨[], none⟩ → s.Notifies later

theorem Kept.subscribers_lt (h : s.Kept) (hq : q ∈ s.subscriptions.subscribers) :
    q < s.queues.length := by
  by_contra hlt
  have hnone := h.fresh q (not_lt.1 hlt)
  have hcount : 0 < s.subscriptions.subscribers.count q := List.count_pos_iff.2 hq
  rw [standing] at hnone
  omega

theorem Kept.notifies (h : s.Kept) (hresting : s.Resting) {later : List IdleEvent}
    (hover : (s.run (.idle :: later)).moments[s.moments.length]? = some ⟨[], none⟩) :
    s.Notifies later := by
  have hlt {q : Nat} (hq : q ∈ s.subscriptions.subscribers) : q < s.queues.length :=
    h.subscribers_lt hq
  obtain ⟨told, rest, inside, hall, hmoment, hsub, hlive⟩ := told_of_run (fun _ => hlt) later
  obtain ⟨rfl, -⟩ := IdleMoment.mk.inj (Option.some.inj (hmoment.symm.trans hover))
  rw [List.append_nil] at hall
  subst hall
  have hmost (q : Nat) : (offered s.moments.length (s.offers (.idle :: later))).count q ≤ 1 := by
    have honce := h.once q
    rw [hresting.standing] at honce
    exact (hsub.count_le q).trans honce
  have hmem (q : Nat) (hq : s.lives q) (hafter : (s.run (.idle :: later)).lives q) :
      q ∈ offered s.moments.length (s.offers (.idle :: later)) := by
    refine hlive q (List.count_pos_iff.1 ?_) hafter
    rw [← hresting.standing, h.live q hq]
    exact Nat.one_pos
  refine ⟨fun q hq hafter => ?_, hmost, fun q hq => ?_, fun q r hq hafter hr hkept => ?_⟩
  · exact le_antisymm (hmost q) (List.count_pos_iff.2 (hmem q hq hafter))
  · by_contra hdead
    obtain ⟨o, ho, rfl⟩ := List.mem_map.1 hq
    have hgone : s.Gone o.queue := ⟨hlt (hsub.subset hq), hdead⟩
    exact hgone.offers (List.mem_filter.1 ho).1 rfl
  · obtain ⟨o, ho, rfl⟩ := List.mem_map.1 (hmem q hq hafter)
    refine exists_offer_pending hr (fun id hid => ?_) ⟨o, (List.mem_filter.1 ho).1, rfl⟩
    obtain hid | hid := List.mem_cons.1 hid
    · cases hid
    · exact hkept id hid

end IdleQueues

end SharedPrompt
