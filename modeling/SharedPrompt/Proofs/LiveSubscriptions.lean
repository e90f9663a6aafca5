import Mathlib.Data.List.Count
import Mathlib.Data.List.Induction
import Mathlib.Order.Nat
import SharedPrompt.Host.Event
import SharedPrompt.IdleQueues

/-!
# Queues stay subscribed while they live

A queue that lives is subscribed once, or a teardown has still to tell it, once. A queue that is
gone when a teardown begins is not subscribed any more after that.
-/

namespace SharedPrompt

namespace IdleQueues

variable {s : IdleQueues} {q m : Nat}

theorem run_cons (e : IdleEvent) (later : List IdleEvent) :
    s.run (e :: later) = (s.apply e).run later := rfl

theorem run_concat (later : List IdleEvent) (e : IdleEvent) :
    s.run (later ++ [e]) = (s.run later).apply e := by
  rw [run, List.foldl_append]
  rfl

/-! ## Who lives -/

theorem lives_iff : s.lives q ↔
    (∃ u, s.queues[q]? = some u ∧ 0 < u.handles) ∨ ∃ i ∈ s.moments, i.inside = some q := by
  simp [lives, Option.any_eq_true]

/-- A change that gives no handle to a queue without one brings none to life. -/
theorem lives_change {f : IdleQueue → IdleQueue} (hf : ∀ u, 0 < (f u).handles → 0 < u.handles)
    (p : Nat) (h : (s.change p f).lives q) : s.lives q := by
  rw [lives_iff] at h ⊢
  obtain ⟨u, hu, hhandles⟩ | h := h
  · rw [change, List.getElem?_modify, Option.map_eq_map, Option.map_eq_some_iff] at hu
    obtain ⟨v, hv, rfl⟩ := hu
    refine .inl ⟨v, hv, ?_⟩
    split at hhandles
    · exact hf v hhandles
    · exact hhandles
  · exact .inr h

theorem lives_create (h : s.create.lives q) :
    s.lives q ∨ s.refuses = false ∧ q = s.queues.length := by
  rw [create] at h
  split at h
  next => exact .inl h
  next hrefuses =>
    rw [lives_iff] at h
    obtain ⟨u, hu, hhandles⟩ | h := h
    · rw [List.getElem?_append] at hu
      split at hu
      next => exact .inl (lives_iff.2 (.inl ⟨u, hu, hhandles⟩))
      next hq =>
        obtain ⟨hone, -⟩ := List.getElem?_eq_some_iff.1 hu
        have hlast : q = s.queues.length := by
          rw [List.length_singleton] at hone
          omega
        exact .inr ⟨by simpa using hrefuses, hlast⟩
    · exact .inl (lives_iff.2 (.inr h))

theorem lives_offer {keyAvailable : Bool} (h : (s.offer m keyAvailable).lives q) : s.lives q := by
  rw [offer] at h
  split at h
  next => exact h
  next p rest hnext =>
    split at h
    next hp =>
      rw [lives_iff] at h
      obtain h | ⟨i, hi, hin⟩ := h
      · refine lives_change (f := (·.serve keyAvailable)) (fun u hu => ?_) p (lives_iff.2 (.inl h))
        rw [IdleQueue.serve] at hu
        split at hu <;> exact hu
      · obtain hi | rfl := List.mem_or_eq_of_mem_set hi
        · exact lives_iff.2 (.inr ⟨i, hi, hin⟩)
        · rw [← Option.some.inj hin]
          exact hp
    next =>
      refine lives_iff.2 ((lives_iff.1 h).imp_right ?_)
      rintro ⟨i, hi, hin⟩
      obtain hi | rfl := List.mem_or_eq_of_mem_set hi
      · exact ⟨i, hi, hin⟩
      · cases hin

theorem lives_leave (h : (s.leave m).lives q) : s.lives q := by
  refine lives_iff.2 ((lives_iff.1 h).imp_right ?_)
  rintro ⟨i, hi, hin⟩
  obtain ⟨n, hn⟩ := List.mem_iff_getElem?.1 hi
  change (s.moments.modify m _)[n]? = _ at hn
  rw [List.getElem?_modify, Option.map_eq_map, Option.map_eq_some_iff] at hn
  obtain ⟨j, hj, rfl⟩ := hn
  split at hin
  · cases hin
  · exact ⟨j, List.mem_of_getElem? hj, hin⟩

theorem lives_renew (k : Nat) : (s.renew k).lives = s.lives := by
  rw [renew]
  split
  · split <;> rfl
  · rfl

/-- No queue comes to life but a new one. -/
theorem lives_of_apply {e : IdleEvent} (h : (s.apply e).lives q) :
    s.lives q ∨ e = .create ∧ s.refuses = false ∧ q = s.queues.length := by
  cases e with
  | create => exact (lives_create h).imp_right fun hnew => ⟨rfl, hnew⟩
  | clone p =>
    refine .inl (lives_change (fun u hu => ?_) p h)
    rw [IdleQueue.clone] at hu
    split at hu
    next hu' => exact hu'
    next => exact hu
  | drop p => exact .inl (lives_change (fun u hu => Nat.lt_of_lt_of_le hu (Nat.sub_le ..)) p h)
  | park p request =>
    refine .inl (lives_change (fun u hu => ?_) p h)
    rw [IdleQueue.park] at hu
    split at hu <;> exact hu
  | withdraw p id => exact .inl (lives_change (f := (·.withdraw id)) (fun _ hu => hu) p h)
  | idle =>
    refine .inl (lives_iff.2 ((lives_iff.1 h).imp_right ?_))
    rintro ⟨i, hi, hin⟩
    obtain hi | hi := List.mem_append.1 hi
    · exact ⟨i, hi, hin⟩
    · rw [List.mem_singleton.1 hi] at hin
      cases hin
  | offer moment keyAvailable => exact .inl (lives_offer h)
  | leave moment => exact .inl (lives_leave h)
  | renew k =>
    refine .inl ?_
    rwa [apply, lives_renew] at h
  | teardown | refuse => exact .inl h

theorem length_le_apply (e : IdleEvent) : s.queues.length ≤ (s.apply e).queues.length := by
  cases e with
  | create =>
    rw [apply, create]
    split
    · exact le_rfl
    · exact List.length_append ▸ Nat.le_add_right ..
  | clone | drop | park | withdraw => exact (List.length_modify ..).ge
  | offer moment keyAvailable =>
    rw [apply, offer]
    split
    · exact le_rfl
    · split
      · exact (List.length_modify ..).ge
      · exact le_rfl
  | renew k =>
    rw [apply, renew]
    split
    · split <;> exact le_rfl
    · exact le_rfl
  | idle | leave | teardown | refuse => exact le_rfl

theorem length_le_run (later : List IdleEvent) : s.queues.length ≤ (s.run later).queues.length := by
  induction later using List.reverseRecOn with
  | nil => exact le_rfl
  | append_singleton later e ih =>
    rw [run_concat]
    exact ih.trans (length_le_apply e)

def Gone (s : IdleQueues) (q : Nat) : Prop := q < s.queues.length ∧ ¬ s.lives q

theorem Gone.apply (h : s.Gone q) (e : IdleEvent) : (s.apply e).Gone q := by
  refine ⟨h.1.trans_le (length_le_apply e), fun hlives => ?_⟩
  obtain hlives | ⟨-, -, rfl⟩ := lives_of_apply hlives
  · exact h.2 hlives
  · exact lt_irrefl _ h.1

theorem Gone.run (h : s.Gone q) (later : List IdleEvent) : (s.run later).Gone q := by
  induction later using List.reverseRecOn with
  | nil => exact h
  | append_singleton later e ih =>
    rw [run_concat]
    exact ih.apply e

/-! ## Who is subscribed -/

/-- How often a queue is subscribed or has still to be told that it is not any more. -/
def standing (s : IdleQueues) (q : Nat) : Nat :=
  s.subscriptions.subscribers.count q + s.teardowns.flatten.count q

theorem count_flatten_set {l : List (List Nat)} {k p : Nat} {rest : List Nat}
    (h : l[k]? = some (p :: rest)) :
    l.flatten.count q = (l.set k rest).flatten.count q + [p].count q := by
  induction l generalizing k with
  | nil => cases h
  | cons a l ih =>
    cases k with
    | zero =>
      obtain rfl : a = p :: rest := Option.some.inj h
      simp only [List.set_cons_zero, List.flatten_cons, List.count_append]
      rw [← List.singleton_append, List.count_append]
      omega
    | succ k =>
      simp only [List.set_cons_succ, List.flatten_cons, List.count_append, ih h]
      omega

/-- A teardown that goes on puts the queue that it tells back in its place if it lives. -/
theorem standing_renew (hrefuses : s.refuses = false) (k : Nat) :
    (s.renew k).standing q = s.standing q ∨
      (s.renew k).standing q ≤ s.standing q ∧ ¬ s.lives q := by
  rw [renew]
  split
  next p rest hk =>
    have hcount := count_flatten_set (q := q) hk
    split
    next =>
      left
      simp only [standing, Subscriptions.subscribe, List.count_append]
      omega
    next hp =>
      -- The queue is not subscribed again, which matters to nobody but itself.
      by_cases hpq : p = q
      · right
        refine ⟨?_, fun hq => hp (by simp [hpq, hq, hrefuses])⟩
        simp only [standing]
        omega
      · left
        rw [List.count_eq_zero_of_not_mem fun hq => hpq (List.mem_singleton.1 hq).symm] at hcount
        simp only [standing]
        omega
  next => exact .inl rfl

theorem standing_create (hrefuses : s.refuses = false) :
    s.create.standing q = s.standing q + [s.queues.length].count q := by
  simp only [create, hrefuses, Bool.false_eq_true, if_false, standing, Subscriptions.subscribe,
    List.count_append]
  omega

/-- Only new queues and teardowns change what stands. -/
theorem standing_apply {e : IdleEvent} (hcreate : e ≠ .create) (hrenew : ∀ k, e ≠ .renew k) :
    (s.apply e).standing q = s.standing q := by
  cases e with
  | create => exact absurd rfl hcreate
  | renew k => exact absurd rfl (hrenew k)
  | offer moment keyAvailable =>
    rw [apply, offer]
    split
    · rfl
    · split <;> rfl
  | teardown =>
    simp [apply, standing, Nat.add_comm]
  | clone | drop | park | withdraw | idle | leave | refuse => rfl

structure Kept (s : IdleQueues) : Prop where
  fresh : ∀ q, s.queues.length ≤ q → s.standing q = 0
  once : ∀ q, s.standing q ≤ 1
  live : ∀ q, s.lives q → s.standing q = 1

namespace Kept

theorem create (h : s.Kept) (hrefuses : s.refuses = false) : (s.apply .create).Kept := by
  have hlength : (s.apply .create).queues.length = s.queues.length + 1 := by
    simp [apply, IdleQueues.create, hrefuses]
  have hstanding (q : Nat) : (s.apply .create).standing q =
      s.standing q + [s.queues.length].count q := standing_create hrefuses
  have hnew : s.standing s.queues.length = 0 := h.fresh _ le_rfl
  refine ⟨fun q hq => ?_, fun q => ?_, fun q hq => ?_⟩
  · have hne : q ∉ [s.queues.length] := by simp; omega
    rw [hstanding, h.fresh q (by omega), List.count_eq_zero_of_not_mem hne]
  · rw [hstanding]
    by_cases hq : q = s.queues.length
    · simp [hq, hnew]
    · rw [List.count_eq_zero_of_not_mem (by simpa using hq)]
      exact h.once q
  · rw [hstanding]
    obtain hq | ⟨-, -, rfl⟩ := lives_of_apply hq
    · have hne : q ∉ [s.queues.length] := by
        rintro hmem
        rw [List.mem_singleton.1 hmem] at hq
        have hone := h.live _ hq
        omega
      rw [h.live q hq, List.count_eq_zero_of_not_mem hne]
    · simp [hnew]

theorem apply (h : s.Kept) (hrefuses : s.refuses = false) (e : IdleEvent) : (s.apply e).Kept := by
  by_cases hcreate : e = .create
  · rw [hcreate]
    exact h.create hrefuses
  · have hlives (q : Nat) (hq : (s.apply e).lives q) : s.lives q :=
      (lives_of_apply hq).resolve_right fun hnew => hcreate hnew.1
    have hstanding (q : Nat) : (s.apply e).standing q = s.standing q ∨
        (s.apply e).standing q ≤ s.standing q ∧ ¬ s.lives q := by
      by_cases hrenew : ∃ k, e = .renew k
      · obtain ⟨k, rfl⟩ := hrenew
        exact standing_renew hrefuses k
      · exact .inl (standing_apply hcreate fun k hk => hrenew ⟨k, hk⟩)
    refine ⟨fun q hq => ?_, fun q => ?_, fun q hq => ?_⟩
    · have hbefore := h.fresh q ((length_le_apply e).trans hq)
      have hafter := hstanding q
      omega
    · have hbefore := h.once q
      have hafter := hstanding q
      omega
    · rw [(hstanding q).resolve_right fun hdead => hdead.2 (hlives q hq)]
      exact h.live q (hlives q hq)

end Kept

/-- As long as the engine takes subscriptions, whoever lives stands once. -/
theorem kept_run {past : List IdleEvent} (h : .refuse true ∉ past) :
    (run {} past).Kept ∧ (run {} past).refuses = false := by
  induction past using List.reverseRecOn with
  | nil => exact ⟨⟨fun _ _ => rfl, fun _ => Nat.zero_le _, fun q hq => by simp [run, lives] at hq⟩, rfl⟩
  | append_singleton past e ih =>
    rw [List.mem_append, not_or, List.mem_singleton] at h
    obtain ⟨hkept, hrefuses⟩ := ih h.1
    rw [run, List.foldl_append]
    refine ⟨hkept.apply hrefuses e, ?_⟩
    cases e with
    | create =>
      change (IdleQueues.create _).refuses = _
      rw [create]
      split <;> exact hrefuses
    | offer moment keyAvailable =>
      change (IdleQueues.offer _ moment keyAvailable).refuses = _
      rw [offer]
      split
      · exact hrefuses
      · split <;> exact hrefuses
    | renew k =>
      change (IdleQueues.renew _ k).refuses = _
      rw [renew]
      split
      · split <;> exact hrefuses
      · exact hrefuses
    | refuse on =>
      cases on with
      | true => exact absurd rfl h.2
      | false => rfl
    | clone | drop | park | withdraw | idle | leave | teardown => exact hrefuses

/-! ## Teardowns -/

def Resting (s : IdleQueues) : Prop := ∀ rest ∈ s.teardowns, rest = []

theorem Resting.standing (h : s.Resting) (q : Nat) :
    s.standing q = s.subscriptions.subscribers.count q := by
  rw [IdleQueues.standing, List.flatten_eq_nil_iff.2 h, List.count_nil, Nat.add_zero]

theorem mem_subscribers_apply {e : IdleEvent} (h : q ∈ (s.apply e).subscriptions.subscribers) :
    q ∈ s.subscriptions.subscribers ∨ s.lives q ∨ q = s.queues.length := by
  cases e with
  | create =>
    rw [apply, create] at h
    split at h
    · exact .inl h
    · exact (List.mem_append.1 h).imp_right fun hq => .inr (List.mem_singleton.1 hq)
  | renew k =>
    rw [apply, renew] at h
    split at h
    next p rest hk =>
      split at h
      next hp =>
        refine (List.mem_append.1 h).imp_right fun hq => .inl ?_
        rw [List.mem_singleton.1 hq]
        exact (Bool.and_eq_true_iff.1 hp).1
      next => exact .inl h
    next => exact .inl h
  | offer moment keyAvailable =>
    rw [apply, offer] at h
    split at h
    · exact .inl h
    · split at h <;> exact .inl h
  | teardown => exact absurd h List.not_mem_nil
  | clone | drop | park | withdraw | idle | leave | refuse => exact .inl h

/-- A queue that is gone when a teardown begins is never subscribed again. -/
theorem Gone.swept (h : s.Gone q) (later : List IdleEvent) :
    q ∉ (s.run (.teardown :: later)).subscriptions.subscribers := by
  induction later using List.reverseRecOn with
  | nil => exact List.not_mem_nil
  | append_singleton later e ih =>
    have hgone : (s.run (.teardown :: later)).Gone q := h.run (.teardown :: later)
    rw [← List.cons_append, run_concat]
    intro hq
    obtain hq | hq | rfl := mem_subscribers_apply hq
    · exact ih hq
    · exact hgone.2 hq
    · exact lt_irrefl _ hgone.1

/-- A teardown that goes on undisturbed subscribes those of the rest that live, in their order. -/
theorem renew_rest {k : Nat} {rest : List Nat} (hk : s.teardowns[k]? = some rest)
    (hrefuses : s.refuses = false) :
    (s.run (.replicate rest.length (.renew k))).subscriptions.subscribers =
      s.subscriptions.subscribers ++ rest.filter s.lives := by
  induction rest generalizing s with
  | nil => exact (List.append_nil _).symm
  | cons q rest ih =>
    have hset : (s.teardowns.set k rest)[k]? = some rest :=
      List.getElem?_set_self (List.getElem?_eq_some_iff.1 hk).1
    have hnext : (s.renew k).teardowns[k]? = some rest ∧ (s.renew k).refuses = false ∧
        (s.renew k).subscriptions.subscribers =
          s.subscriptions.subscribers ++ [q].filter s.lives := by
      rw [renew, hk]
      by_cases hq : s.lives q
      · simp [hq, hrefuses, hset, Subscriptions.subscribe]
      · simp [hq, hrefuses, hset]
    obtain ⟨hk, hrefuses, hsubscribers⟩ := hnext
    rw [List.length_cons, List.replicate_succ, run_cons, apply, ih hk hrefuses, hsubscribers,
      lives_renew, List.append_assoc, ← List.filter_append, List.singleton_append]

/-- A whole teardown leaves just those that live, in their order. -/
theorem run_teardown (hrefuses : s.refuses = false) :
    (s.run (.teardown :: .replicate s.subscriptions.count (.renew s.teardowns.length))).subscriptions
      = (s.subscriptions.teardown s.lives true).1 := by
  have hk : (s.apply .teardown).teardowns[s.teardowns.length]? =
      some s.subscriptions.subscribers := List.getElem?_concat_length ..
  have hrest := renew_rest hk hrefuses
  exact congrArg Subscriptions.mk hrest

end IdleQueues

namespace Host

/-- A host alone on its engine, as a queue with a handle as long as something uses the host. -/
def queue (h : Host) : IdleQueues where
  subscriptions := h.subscriptions
  refuses := h.engine.failures.subscribeIdle
  queues := [⟨if h.alive then 1 else 0, h.slot.pending⟩]

theorem lives_queue (h : Host) : h.queue.lives 0 = h.alive := by
  cases halive : h.alive <;> simp [queue, IdleQueues.lives, halive]

/-- The engine ends the subscriptions of a host as it does those of its queue. -/
theorem subscriptions_teardown {h : Host} (hsubscribers : ∀ q ∈ h.subscriptions.subscribers, q = 0)
    (hrefuses : h.engine.failures.subscribeIdle = false) :
    (h.apply .teardown).subscriptions =
      (h.queue.run (.teardown :: .replicate h.subscriptions.count (.renew 0))).subscriptions := by
  have hteardown : (h.apply .teardown).subscriptions =
      (h.subscriptions.teardown (fun _ => h.alive) true).1 := by
    simp [apply, teardown, Subscriptions.teardown, hrefuses]
  have hlives : h.subscriptions.subscribers.filter (fun _ => h.alive) =
      h.subscriptions.subscribers.filter h.queue.lives := by
    refine List.filter_congr fun q hq => ?_
    rw [hsubscribers q hq, lives_queue]
  rw [hteardown]
  exact (congrArg Subscriptions.mk hlives).trans (IdleQueues.run_teardown hrefuses).symm

end Host

end SharedPrompt
