import Mathlib.Algebra.Order.Group.Multiset
import Mathlib.Tactic.Abel
import SharedPrompt.Proofs.Channels

/-!
# What becomes of the items of a queue

Every item that is put is returned once, stored, or in the hands of a getter that has not finished.
No item is stored while a getter waits, and a getter's waker is called when it has been handed an
item and not before, whatever getters have been dropped on the way.
-/

namespace SharedPrompt

variable {ω α : Type}

namespace QueueOp

def put? : QueueOp ω α → Option α
  | .put a => some a
  | _ => none

def begins? : QueueOp ω α → Option ω
  | .get w => some w
  | _ => none

end QueueOp

def QueueAnswer.item? : QueueAnswer α → Option α
  | .taken a => a
  | .got a => some a
  | _ => none

namespace WaitQueue

/-- The items in the books: stored, or handed over and not collected. -/
def stock (q : WaitQueue ω α) : Multiset α := ↑q.items + ↑(q.handed.map (·.2))

theorem stock_put (q : WaitQueue ω α) (a : α) : (q.put a).stock = q.stock + {a} := by
  unfold put stock
  split
  · rw [← Multiset.coe_add, add_right_comm]
    rfl
  · rw [List.map_append, ← Multiset.coe_add, ← add_assoc]
    rfl

variable [DecidableEq ω]

private theorem perm_of_lookup {l : List (ω × α)} {w : ω} {a : α} (h : l.lookup w = some a) :
    (l.map (·.2)).Perm (a :: (l.eraseP (·.1 = w)).map (·.2)) := by
  induction l with
  | nil => cases h
  | cons p rest ih =>
    obtain ⟨v, b⟩ := p
    by_cases hv : v = w
    · subst hv
      obtain rfl : b = a := by simpa using h
      simp
    · have hw : (w == v) = false := by simpa using Ne.symm hv
      have hrest := ih (by simpa [List.lookup_cons, hw] using h)
      rw [List.eraseP_cons_of_neg (by simpa using hv)]
      exact (hrest.cons b).trans (List.Perm.swap ..)

theorem stock_collect {q q' : WaitQueue ω α} {w : ω} {a : α} (h : q.collect? w = some (a, q')) :
    q.stock = q'.stock + {a} := by
  obtain ⟨b, hb, heq⟩ := Option.map_eq_some_iff.1 h
  obtain ⟨rfl, rfl⟩ := Prod.mk.inj heq
  have hperm := Multiset.coe_eq_coe.2 (perm_of_lookup hb)
  rw [stock, stock, hperm, ← Multiset.cons_coe, ← Multiset.singleton_add]
  abel

@[simp] theorem stock_leave (q : WaitQueue ω α) (w : ω) : (q.leave w).stock = q.stock := by
  unfold leave
  split
  next a q' h => rw [stock_put, stock_collect h]
  next h => rfl

/-- One operation: what comes in and what was there is what goes out and what is left. -/
theorem stock_perform (q : WaitQueue ω α) (op : QueueOp ω α) :
    (↑op.put?.toList : Multiset α) + q.stock =
      ↑(q.perform op).1.item?.toList + (q.perform op).2.stock := by
  have hpop {a : α} {rest : List α} (h : q.items = a :: rest) :
      q.stock = {a} + ({ q with items := rest } : WaitQueue ω α).stock := by
    rw [stock, stock, h, ← Multiset.cons_coe, ← Multiset.singleton_add, add_assoc]
  cases op with
  | put a =>
    change ({a} : Multiset α) + q.stock = 0 + (q.put a).stock
    rw [stock_put, zero_add, add_comm]
  | take =>
    cases h : q.items with
    | nil => simp [perform, take?, h, QueueOp.put?, QueueAnswer.item?]
    | cons a rest => simp [perform, take?, h, QueueOp.put?, QueueAnswer.item?, hpop h]
  | get w =>
    rcases q.join_cases w with ⟨a, rest, h, hj⟩ | ⟨h, hj⟩
    · simp [perform, hj, QueueOp.put?, QueueAnswer.item?, hpop h]
    · simp [perform, hj, QueueOp.put?, QueueAnswer.item?, stock]
  | poll w =>
    cases h : q.collect? w with
    | none =>
      have hans : (if q.isUnfinished w then QueueAnswer.pending else .gone : QueueAnswer α).item? =
          none := by split <;> rfl
      simp [perform, h, QueueOp.put?, hans]
    | some r =>
      simp [perform, h, QueueOp.put?, QueueAnswer.item?, stock_collect h, add_comm]
  | drop w => simp [perform, QueueOp.put?, QueueAnswer.item?]

theorem stock_performAll (q : WaitQueue ω α) (ops : List (QueueOp ω α)) :
    (↑(ops.filterMap (·.put?)) : Multiset α) + q.stock =
      ↑((q.performAll ops).1.filterMap (·.item?)) + (q.performAll ops).2.stock := by
  induction ops generalizing q with
  | nil => rfl
  | cons op rest ih =>
    have hstep := q.stock_perform op
    have hrest := ih (q.perform op).2
    have hsplit {β γ : Type} (f : β → Option γ) (b : β) (l : List β) :
        (↑((b :: l).filterMap f) : Multiset γ) = ↑(f b).toList + ↑(l.filterMap f) := by
      cases hb : f b <;> simp [hb]
    rw [performAll, hsplit, hsplit, add_right_comm, hstep, add_assoc, add_assoc, ← hrest]
    abel

theorem Orderly.perform {q : WaitQueue ω α} (h : q.Orderly) (op : QueueOp ω α) :
    (q.perform op).2.Orderly := by
  have hpop {a : α} {rest : List α} (hi : q.items = a :: rest) :
      ({ q with items := rest } : WaitQueue ω α).Orderly := fun hne => by
    rw [h hne] at hi
    cases hi
  cases op with
  | put a => exact h.put a
  | take =>
    cases hi : q.items with
    | nil => simpa [WaitQueue.perform, take?, hi] using h
    | cons a rest => simpa [WaitQueue.perform, take?, hi] using hpop hi
  | get w =>
    rcases q.join_cases w with ⟨a, rest, hi, hj⟩ | ⟨hi, hj⟩
    · simpa [WaitQueue.perform, hj] using hpop hi
    · simp [WaitQueue.perform, hj, Orderly, hi]
  | poll w =>
    cases hc : q.collect? w with
    | none => simpa [WaitQueue.perform, hc] using h
    | some r => simpa [WaitQueue.perform, hc] using h.collect hc
  | drop w => exact h.leave w

theorem performAll_append (q : WaitQueue ω α) (ops more : List (QueueOp ω α)) :
    (q.performAll (ops ++ more)).2 = ((q.performAll ops).2.performAll more).2 := by
  induction ops generalizing q with
  | nil => rfl
  | cons op rest ih => exact ih (q.perform op).2

theorem Orderly.performAll {q : WaitQueue ω α} (h : q.Orderly) (ops : List (QueueOp ω α)) :
    (q.performAll ops).2.Orderly := by
  induction ops generalizing q with
  | nil => exact h
  | cons op rest ih => exact ih (h.perform op)

end WaitQueue

namespace ChannelQueue

def inHand (q : ChannelQueue ω α) : List α := q.receivers.filterMap (·.item)

theorem stock_toQueue (q : ChannelQueue ω α) : q.toQueue.stock = ↑q.items + ↑q.inHand := by
  have hsame : q.toQueue.handed.map (·.2) = q.inHand := by
    rw [toQueue, inHand, List.map_filterMap]
    exact List.filterMap_congr fun r _ => by cases r.item <;> rfl
  rw [WaitQueue.stock, hsame]
  rfl

theorem Sound.called_iff {q : ChannelQueue ω α} (hq : q.Sound) {r : Receiver ω α}
    (hr : r ∈ q.receivers) : r.called = true ↔ r.item ≠ none := by
  rw [hq.called r hr, Option.isSome_iff_ne_none]

@[simp] theorem getters_put (q : ChannelQueue ω α) (a : α) :
    (q.put a).receivers.map (·.getter) = q.receivers.map (·.getter) := by
  rcases q.deliver_cases a q.senders with ⟨-, heq⟩ | ⟨c, rest, -, -, heq⟩
  · rw [put, heq]
  · rw [put, heq, List.map_map]
    refine List.map_congr_left fun r _ => ?_
    by_cases hc : r.channel = c <;> simp [hc, Receiver.receive]

variable [DecidableEq ω]

/-- Getters come to hold their receiving ends in the order in which they begin. -/
theorem getters_perform (q : ChannelQueue ω α) (op : QueueOp ω α) :
    ((q.perform op).2.receivers.map (·.getter)).Sublist
      (q.receivers.map (·.getter) ++ op.begins?.toList) := by
  have hclose (v : ω) : ((q.close v).receivers.map (·.getter)).Sublist
      (q.receivers.map (·.getter)) := List.filter_sublist.map _
  have hnil (op : QueueOp ω α) {l : List ω} (h : l.Sublist (q.receivers.map (·.getter))) :
      l.Sublist (q.receivers.map (·.getter) ++ op.begins?.toList) :=
    h.trans (List.sublist_append_left _ _)
  cases op with
  | put a => exact hnil _ (q.getters_put a ▸ List.Sublist.refl _)
  | take =>
    refine hnil _ ?_
    cases hi : q.items <;> simp only [perform, hi] <;> exact List.Sublist.refl _
  | get v =>
    cases hi : q.items with
    | cons a rest =>
      simp only [perform, hi]
      exact hnil _ (List.Sublist.refl _)
    | nil =>
      simp only [perform, hi, enroll, List.map_append]
      exact List.Sublist.refl _
  | poll v =>
    refine hnil _ ?_
    cases hr : q.receiver? v with
    | none => simp only [perform, hr, List.Sublist.refl]
    | some r =>
      cases hi : r.item with
      | some a =>
        simp only [perform, hr, hi]
        exact hclose v
      | none =>
        have hsame : ((q.listen v).receivers.map (·.getter)) = q.receivers.map (·.getter) := by
          rw [listen, List.map_map]
          refine List.map_congr_left fun s _ => ?_
          by_cases hv : s.getter = v <;> simp [hv]
        simp only [perform, hr, hi, hsame, List.Sublist.refl]
  | drop v =>
    refine hnil _ ?_
    cases hr : q.receiver? v with
    | none => simp only [perform, hr, List.Sublist.refl]
    | some r =>
      cases hi : r.item with
      | some a =>
        simp only [perform, hr, hi, Option.elim_some, getters_put]
        exact hclose v
      | none =>
        simp only [perform, hr, hi, Option.elim_none]
        exact hclose v

/-- Any list of operations in which each getter begins once. -/
theorem Sound.performAll {q : ChannelQueue ω α} (hq : q.Sound) {ops : List (QueueOp ω α)}
    (hops : (ops.filterMap (·.begins?)).Nodup)
    (hnew : ∀ w ∈ ops.filterMap (·.begins?), w ∉ q.receivers.map (·.getter)) :
    (q.performAll ops).2.Sound ∧
      q.toQueue.performAll ops = ((q.performAll ops).1, (q.performAll ops).2.toQueue) := by
  induction ops generalizing q with
  | nil => exact ⟨hq, rfl⟩
  | cons op rest ih =>
    have hop : ∀ w, op = .get w → w ∉ q.receivers.map (·.getter) := fun w hw =>
      hnew w (List.mem_filterMap.2 ⟨op, List.mem_cons_self, hw ▸ rfl⟩)
    obtain ⟨hs, heq⟩ := hq.perform op hop
    have hrest : (rest.filterMap (·.begins?)).Nodup :=
      hops.sublist ((List.sublist_cons_self op rest).filterMap _)
    obtain ⟨hs', heq'⟩ := ih hs hrest fun w hw hmem => by
      rcases List.mem_append.1 ((q.getters_perform op).subset hmem) with hold | hbegins
      · exact hnew w ((List.sublist_cons_self op rest).filterMap _ |>.subset hw) hold
      · rw [List.filterMap_cons, Option.mem_toList.1 hbegins] at hops
        exact (List.nodup_cons.1 hops).1 hw
    refine ⟨hs', ?_⟩
    rw [WaitQueue.performAll, heq, heq']
    rfl

/-- What a queue owes its callers after some operations with these answers. -/
structure Delivery (ops : List (QueueOp ω α)) (answers : List (QueueAnswer α))
    (q : ChannelQueue ω α) : Prop where
  accounted : (↑(ops.filterMap (·.put?)) : Multiset α) =
    ↑(answers.filterMap (·.item?)) + ↑q.items + ↑q.inHand
  served : q.items ≠ [] → ∀ r ∈ q.receivers, r.item ≠ none
  called : ∀ r ∈ q.receivers, r.called = true ↔ r.item ≠ none
  finishes : ∀ r ∈ q.receivers, r.called = true → ∃ a, r.item = some a ∧
    (q.perform (.poll r.getter)).1 = .got a ∧
      (q.perform (.poll r.getter)).2.isUnfinished r.getter = false
  pends : ∀ r ∈ q.receivers, r.called = false →
    q.perform (.poll r.getter) = (.pending, q) ∧ q.isUnfinished r.getter = true

/-- The channels answer as the books do, and whatever the callers do nothing is lost, nothing comes
twice, and nobody waits beside a stored item or without being called. -/
theorem queue_delivery (ops : List (QueueOp ω α)) (hops : (ops.filterMap (·.begins?)).Nodup) :
    WaitQueue.empty.performAll ops =
        ((performAll {} ops).1, (performAll {} ops).2.toQueue) ∧
      Delivery ops (performAll {} ops).1 (performAll {} ops).2 := by
  obtain ⟨hs, heq⟩ := Sound.empty.performAll hops (by simp)
  have hbooks : (WaitQueue.empty : WaitQueue ω α).performAll ops =
      ((performAll {} ops).1, (performAll {} ops).2.toQueue) := heq
  generalize performAll {} ops = r at hs hbooks ⊢
  have hempty : (WaitQueue.empty : WaitQueue ω α).stock = 0 := rfl
  have hstock := WaitQueue.empty.stock_performAll ops
  have horder := WaitQueue.Orderly.performAll (q := (WaitQueue.empty : WaitQueue ω α))
    (fun hne => absurd rfl hne) ops
  rw [hbooks] at hstock horder
  refine ⟨hbooks, ?_, fun hitems r' hr' hnone => ?_, fun r' hr' => hs.called_iff hr',
    fun r' hr' hcalled => ?_, fun r' hr' hcalled => ?_⟩
  · rw [hempty, add_zero, stock_toQueue, ← add_assoc] at hstock
    exact hstock
  · -- A getter without an item is in line, and then nothing is stored.
    have hmem : r' ∈ r.2.inLine := List.mem_filter.2 ⟨hr', by simp [hnone]⟩
    have hwait : r.2.toQueue.waiting ≠ [] := List.ne_nil_of_mem (List.mem_map_of_mem hmem)
    exact hitems (horder hwait)
  · obtain ⟨a, ha⟩ := Option.ne_none_iff_exists'.1 ((hs.called_iff hr').1 hcalled)
    have hpoll : r.2.perform (.poll r'.getter) = (.got a, r.2.close r'.getter) := by
      simp only [perform, receiver?_of_mem hs hr', ha]
    refine ⟨a, ha, by rw [hpoll], ?_⟩
    rw [hpoll, ← Bool.not_eq_true, isUnfinished_iff]
    simp [close]
  · have hnone : r'.item = none := by
      have := (hs.called_iff hr').not.1 (by simp [hcalled])
      simpa using this
    have hpoll : r.2.perform (.poll r'.getter) = (.pending, r.2) := by
      simp only [perform, receiver?_of_mem hs hr', hnone, hs.listen hr' hnone]
    exact ⟨hpoll, isUnfinished_iff.2 (List.mem_map_of_mem hr')⟩

/-- Three getters wait. One is dropped in line, one with an item in its hands, which goes on to the
third. -/
def droppedGetters : List (QueueOp String Nat) :=
  [.get "a", .get "b", .get "c", .drop "b", .put 7, .drop "a", .put 8, .poll "c"]

theorem queue_delivery_droppedGetters :
    (droppedGetters.filterMap (·.begins?)).Nodup ∧
      (performAll {} droppedGetters).1 =
        [.pending, .pending, .pending, .dropped true, .done, .dropped true, .done, .got 7] ∧
      Delivery droppedGetters (performAll {} droppedGetters).1
        (performAll {} droppedGetters).2 := by
  have hnames : (droppedGetters.filterMap (·.begins?)).Nodup := by decide
  exact ⟨hnames, by decide, (queue_delivery droppedGetters hnames).2⟩

end ChannelQueue

end SharedPrompt
