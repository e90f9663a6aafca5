import SharedPrompt.Proofs.QueueAccounting

/-!
# Nobody is overtaken at a queue

The getters that wait at a queue stand in the order in which they have begun. An item that comes in
goes to the first of them, also one that is given back by a getter that is dropped, and no item is
taken at once while one of them waits.
-/

namespace SharedPrompt

variable {ω α : Type}

namespace WaitQueue

variable [DecidableEq ω]

/-- An item that is put comes to the waiter that is next, and to no other. -/
theorem handed?_put (q : WaitQueue ω α) (a : α) (w : ω) :
    (q.put a).handed? w = (q.handed? w).or (if q.next? = some w then some a else none) := by
  cases hw : q.waiting with
  | nil => simp [put, next?, handed?, hw]
  | cons v rest =>
    have hlookup : (q.handed ++ [(v, a)]).lookup w =
        (q.handed.lookup w).or (if v = w then some a else none) := by
      rw [List.lookup_append]
      by_cases hv : v = w
      · simp [hv]
      · have hne : (w == v) = false := by simpa using Ne.symm hv
        simp [hv, List.lookup_cons, hne]
    simpa [put, next?, handed?, hw] using hlookup

/-- Whoever has nothing in hand has nothing in hand after others have collected what is theirs. -/
theorem handed?_collect {q q' : WaitQueue ω α} {v w : ω} {b : α}
    (h : q.collect? v = some (b, q')) (hw : q.handed? w = none) : q'.handed? w = none := by
  obtain ⟨-, -, -, hhanded⟩ := collect?_eq_some h
  rw [← Option.not_isSome_iff_eq_none, handed?_isSome_iff] at hw ⊢
  rw [hhanded]
  exact fun hmem => hw ((List.eraseP_sublist.map _).subset hmem)

def incoming? (q : WaitQueue ω α) : QueueOp ω α → Option α
  | .put a => some a
  | .drop w => q.handed? w
  | _ => none

/-- An item that comes in is put, whatever brings it in. -/
theorem exists_put {q : WaitQueue ω α} {op : QueueOp ω α} {a : α} (h : q.incoming? op = some a) :
    ∃ q' : WaitQueue ω α, (q.perform op).2 = q'.put a ∧ q'.items = q.items ∧ q'.waiting = q.waiting ∧
      ∀ w, q.handed? w = none → q'.handed? w = none := by
  cases op with
  | put b =>
    obtain rfl := Option.some.inj h
    exact ⟨q, rfl, rfl, rfl, fun _ hw => hw⟩
  | drop v =>
    cases hc : q.collect? v with
    | none => exact absurd (Option.map_eq_none_iff.1 hc) (by simp_all [incoming?])
    | some r =>
      obtain ⟨b, q'⟩ := r
      obtain ⟨b', hb', heq⟩ := Option.map_eq_some_iff.1 hc
      obtain rfl : b = a := by
        rw [incoming?, hb', (Prod.mk.inj heq).1] at h
        exact Option.some.inj h
      obtain ⟨-, hitems, hwaiting, -⟩ := collect?_eq_some hc
      refine ⟨q', ?_, hitems, hwaiting, fun _ hw => handed?_collect hc hw⟩
      simp only [perform, leave, hc]
  | _ => cases h

/-- An operation that brings nothing in hands nothing over. -/
theorem handed?_of_incoming {q : WaitQueue ω α} {op : QueueOp ω α} {w : ω}
    (h : q.incoming? op = none) (hw : q.handed? w = none) :
    (q.perform op).2.handed? w = none := by
  cases op with
  | put b => cases h
  | take => cases hi : q.items <;> simp only [perform, take?, hi] <;> exact hw
  | get v =>
    rcases q.join_cases v with ⟨b, rest, hi, hj⟩ | ⟨hi, hj⟩ <;> simp only [perform, hj] <;> exact hw
  | poll v =>
    cases hc : q.collect? v with
    | none =>
      simp only [perform, hc]
      exact hw
    | some r =>
      simp only [perform, hc]
      exact handed?_collect hc hw
  | drop v =>
    have hc : q.collect? v = none := Option.map_eq_none_iff.2 h
    simp only [perform, leave, hc]
    exact hw

/-- A waiter that comes to have an item was next, and the item is the one that came in. -/
theorem handed?_perform {q : WaitQueue ω α} {op : QueueOp ω α} {w : ω} {a : α}
    (hw : q.handed? w = none) (ha : (q.perform op).2.handed? w = some a) :
    q.next? = some w ∧ q.incoming? op = some a := by
  cases hb : q.incoming? op with
  | none =>
    rw [handed?_of_incoming hb hw] at ha
    cases ha
  | some b =>
    obtain ⟨q', hput, -, hwaiting, hnone⟩ := exists_put hb
    rw [hput, handed?_put, hnone w hw, Option.none_or, next?, hwaiting] at ha
    split at ha
    next hnext => exact ⟨hnext, ha⟩
    next => cases ha

end WaitQueue

namespace ChannelQueue

variable [DecidableEq ω]

def inHand? (q : ChannelQueue ω α) (w : ω) : Option α := (q.receiver? w).bind (·.item)

/-- The getter has begun and is not over, and has not been handed an item. -/
def waits (q : ChannelQueue ω α) (w : ω) : Bool := q.isUnfinished w && (q.inHand? w).isNone

/-- The item that an operation brings into the queue: a new one, or one that a getter gives back. -/
def incoming? (q : ChannelQueue ω α) : QueueOp ω α → Option α
  | .put a => some a
  | .drop w => q.inHand? w
  | _ => none

theorem inHand?_of_waits {q : ChannelQueue ω α} {w : ω} (h : q.waits w = true) :
    q.inHand? w = none := by
  simp only [waits, Bool.and_eq_true, Option.isNone_iff_eq_none] at h
  exact h.2

theorem inHand?_eq {q : ChannelQueue ω α} (hq : q.Sound) (w : ω) :
    q.inHand? w = q.toQueue.handed? w := by
  cases hr : q.receiver? w with
  | none =>
    have hw : w ∉ q.receivers.map (·.getter) := fun hmem => by
      obtain ⟨r, hr', rfl⟩ := List.mem_map.1 hmem
      rw [receiver?_of_mem hq hr'] at hr
      cases hr
    rw [handed?_of_not_mem hw, inHand?, hr, Option.bind_none]
  | some r =>
    obtain ⟨hmem, rfl⟩ := receiver?_eq_some hr
    rw [handed?_toQueue hq hmem, inHand?, hr, Option.bind_some]

theorem incoming?_eq {q : ChannelQueue ω α} (hq : q.Sound) (op : QueueOp ω α) :
    q.incoming? op = q.toQueue.incoming? op := by
  cases op with
  | drop w => exact inHand?_eq hq w
  | _ => rfl

theorem waits_iff {q : ChannelQueue ω α} (hq : q.Sound) {w : ω} :
    q.waits w = true ↔ w ∈ q.toQueue.waiting := by
  simp only [waits, inHand?, isUnfinished, toQueue, Bool.and_eq_true, List.mem_map]
  constructor
  · rintro ⟨hun, hnone⟩
    obtain ⟨r, hr⟩ := Option.isSome_iff_exists.1 hun
    obtain ⟨hmem, rfl⟩ := receiver?_eq_some hr
    rw [hr, Option.bind_some] at hnone
    exact ⟨r, List.mem_filter.2 ⟨hmem, hnone⟩, rfl⟩
  · rintro ⟨r, hr, rfl⟩
    have hmem : r ∈ q.receivers := (List.mem_filter.1 hr).1
    rw [receiver?_of_mem hq hmem, Option.bind_some, item_of_mem_inLine hr]
    exact ⟨rfl, rfl⟩

/-- The getters hold their receiving ends in the order in which they have begun. -/
theorem getters_performAll (q : ChannelQueue ω α) (ops : List (QueueOp ω α)) :
    ((q.performAll ops).2.receivers.map (·.getter)).Sublist
      (q.receivers.map (·.getter) ++ ops.filterMap (·.begins?)) := by
  induction ops generalizing q with
  | nil => simp [performAll]
  | cons op rest ih =>
    have hstep := (q.getters_perform op).append_right (rest.filterMap (·.begins?))
    have hbegun : op.begins?.toList ++ rest.filterMap (·.begins?) =
        (op :: rest).filterMap (·.begins?) := by cases h : op.begins? <;> simp [h]
    rw [List.append_assoc, hbegun] at hstep
    exact (ih (q.perform op).2).trans hstep

/-- The first in line is the first of all that have begun that waits. -/
theorem find?_waits {q : ChannelQueue ω α} (hq : q.Sound) {begun : List ω} (hb : begun.Nodup)
    (hsub : (q.receivers.map (·.getter)).Sublist begun) :
    begun.find? q.waits = q.toQueue.next? :=
  find?_of_sublist hb ((List.filter_sublist.map _).trans hsub) fun _ _ => waits_iff hq

/-- What is taken at once was stored. -/
theorem items_of_atOnce {q : ChannelQueue ω α} {op : QueueOp ω α}
    (hop : op = .take ∨ op.begins? ≠ none) (hitem : (q.perform op).1.item? ≠ none) :
    q.items ≠ [] := by
  intro hnil
  rcases hop with rfl | hop
  · simp [perform, hnil, QueueAnswer.item?] at hitem
  · cases op with
    | get v => simp [perform, hnil, QueueAnswer.item?] at hitem
    | _ => exact hop rfl

theorem item?_poll (q : ChannelQueue ω α) (w : ω) :
    (q.perform (.poll w)).1.item? = q.inHand? w := by
  cases hr : q.receiver? w with
  | none => simp [perform, inHand?, hr, QueueAnswer.item?]
  | some r => cases hi : r.item <;> simp [perform, inHand?, hr, hi, QueueAnswer.item?]

/-- What comes in goes to the first in line, or is stored if there is none. -/
theorem Sound.incoming {q : ChannelQueue ω α} (hq : q.Sound) {op : QueueOp ω α} {a : α}
    (hop : ∀ w, op = .get w → w ∉ q.receivers.map (·.getter)) (ha : q.incoming? op = some a) :
    match q.toQueue.next? with
    | some w => (q.perform op).2.inHand? w = some a
    | none => (q.perform op).2.items = q.items ++ [a] := by
  obtain ⟨hs, heq⟩ := hq.perform op hop
  rw [incoming?_eq hq] at ha
  obtain ⟨q', hput, hitems, hwaiting, hnone⟩ := WaitQueue.exists_put ha
  have hbooks : (q.perform op).2.toQueue = q'.put a := by rw [← hput, heq]
  cases hw : q.toQueue.waiting with
  | nil =>
    have hstored : (q.perform op).2.toQueue.items = q.items ++ [a] := by
      rw [hbooks, WaitQueue.put, hwaiting, hw, hitems]
      rfl
    rw [WaitQueue.next?, hw]
    exact hstored
  | cons w rest =>
    have hfree : q.toQueue.handed? w = none := by
      rw [← inHand?_eq hq]
      exact inHand?_of_waits ((waits_iff hq).2 (by simp [hw]))
    have hnext : q'.next? = some w := by rw [WaitQueue.next?, hwaiting, hw, List.head?_cons]
    rw [WaitQueue.next?, hw]
    change (q.perform op).2.inHand? w = some a
    rw [inHand?_eq hs, hbooks, WaitQueue.handed?_put, hnone w hfree, hnext]
    simp

/-- What an operation does for those that wait, where `begun` is in the order of beginning. -/
structure FirstCome (begun : List ω) (q : ChannelQueue ω α) (op : QueueOp ω α) : Prop where
  known : ∀ w, q.waits w = true → w ∈ begun
  /-- Nothing is taken at once past anybody who waits. -/
  atOnce : op = .take ∨ op.begins? ≠ none → (q.perform op).1.item? ≠ none →
    ∀ w, q.waits w = false
  /-- A getter that polls is given what it has been handed. -/
  polled : ∀ w, op = .poll w → (q.perform op).1.item? = q.inHand? w
  /-- What comes in, also what is given back, goes to the first that waits or is stored. -/
  incoming : ∀ a, q.incoming? op = some a →
    match begun.find? q.waits with
    | some w => (q.perform op).2.inHand? w = some a
    | none => (q.perform op).2.items = q.items ++ [a]
  /-- Nobody else who waits is handed anything. -/
  handed : ∀ w a, q.waits w = true → (q.perform op).2.inHand? w = some a →
    begun.find? q.waits = some w ∧ q.incoming? op = some a

/-- Whatever the callers have done so far, the next operation serves those that wait in the order in
which they have begun. -/
theorem no_overtaking (ops : List (QueueOp ω α)) (op : QueueOp ω α)
    (hops : ((ops ++ [op]).filterMap (·.begins?)).Nodup) :
    FirstCome (ops.filterMap (·.begins?)) (performAll {} ops).2 op := by
  rw [List.filterMap_append, List.nodup_append] at hops
  obtain ⟨hbegun, -, hapart⟩ := hops
  obtain ⟨hs, heq⟩ := Sound.empty.performAll hbegun (by simp)
  have horder := WaitQueue.Orderly.performAll (q := (WaitQueue.empty : WaitQueue ω α))
    (fun hne => absurd rfl hne) ops
  have hsub := getters_performAll ({} : ChannelQueue ω α) ops
  rw [show WaitQueue.empty.performAll ops = _ from heq] at horder
  simp only [List.map_nil, List.nil_append] at hsub
  generalize (performAll ({} : ChannelQueue ω α) ops).2 = q at hs hsub horder ⊢
  have hnew : ∀ w, op = .get w → w ∉ q.receivers.map (·.getter) := fun w hw hmem => by
    subst hw
    exact hapart w (hsub.subset hmem) w (by simp [QueueOp.begins?]) rfl
  obtain ⟨hs', heq'⟩ := hs.perform op hnew
  have hfind := find?_waits hs hbegun hsub
  refine ⟨fun w hw => ?_, fun hop hitem w => ?_, fun w hop => ?_, fun a ha => ?_, fun w a hw ha => ?_⟩
  · have hmem := (waits_iff hs).1 hw
    exact ((List.filter_sublist.map _).trans hsub).subset hmem
  · -- An item is stored, so that nobody waits.
    rw [← Bool.not_eq_true, waits_iff hs]
    intro hmem
    exact items_of_atOnce hop hitem (horder (List.ne_nil_of_mem hmem))
  · rw [hop, item?_poll]
  · rw [hfind]
    exact hs.incoming hnew ha
  · have hfree : q.toQueue.handed? w = none := by rw [← inHand?_eq hs, inHand?_of_waits hw]
    rw [inHand?_eq hs', show (q.perform op).2.toQueue = (q.toQueue.perform op).2 by rw [heq']] at ha
    rw [hfind, incoming?_eq hs]
    exact WaitQueue.handed?_perform hfree ha

/-- Four getters wait. The second is dropped, and the item that comes then is handed to the first. -/
def handedGetter : List (QueueOp String Nat) :=
  [.get "a", .get "b", .get "c", .get "d", .drop "b", .put 7]

/-- When the first is dropped as well, it is the third that its item goes to. -/
theorem no_overtaking_handedGetter :
    ((handedGetter ++ [QueueOp.drop "a"]).filterMap QueueOp.begins?).Nodup ∧
      ["a", "b", "c", "d"].find? (performAll {} handedGetter).2.waits = some "c" ∧
      ((performAll {} handedGetter).2.perform (.drop "a")).2.inHand? "c" = some 7 ∧
      FirstCome ["a", "b", "c", "d"] (performAll {} handedGetter).2 (.drop "a") := by
  have hnames : ((handedGetter ++ [QueueOp.drop "a"]).filterMap QueueOp.begins?).Nodup := by decide
  exact ⟨hnames, by decide, by decide, no_overtaking handedGetter (.drop "a") hnames⟩

end ChannelQueue

end SharedPrompt
