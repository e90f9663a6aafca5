import SharedPrompt.Proofs.NoOvertaking

/-!
# A queue with one consumer

A consumer that has given up waiting may have been handed an item already. The item is then put
back, which is at the end: what was put meanwhile comes before it. As long as this does not happen,
a single consumer is given the items in the order in which they were put.
-/

namespace SharedPrompt

variable {ω α : Type}

def QueueOp.asks : QueueOp ω α → Bool
  | .take => true
  | .get _ => true
  | _ => false

namespace WaitQueue

/-- The items that have not been returned, in the order in which a single consumer is to have
them. -/
def outstanding (q : WaitQueue ω α) : List α := q.handed.map (·.2) ++ q.items

variable [DecidableEq ω]

/-- A waiter that is alone in its line has been handed what has been handed over. -/
private theorem handed_of_collect {q q' : WaitQueue ω α} {w : ω} {a : α} (hone : q.line.length ≤ 1)
    (h : q.collect? w = some (a, q')) :
    q.handed = [(w, a)] ∧ q.waiting = [] ∧ q' = { q with handed := [] } := by
  obtain ⟨b, hb, heq⟩ := Option.map_eq_some_iff.1 h
  obtain ⟨rfl, rfl⟩ := Prod.mk.inj heq
  rw [line, List.length_append, List.length_map] at hone
  cases hh : q.handed with
  | nil => simp [handed?, hh] at hb
  | cons p rest =>
    obtain ⟨v, c⟩ := p
    rw [hh, List.length_cons] at hone
    obtain rfl : rest = [] := List.eq_nil_of_length_eq_zero (by omega)
    have hv : w = v := by
      by_contra hne
      simp [handed?, hh, List.lookup_cons, beq_eq_false_iff_ne.2 hne] at hb
    subst hv
    have hc : c = b := by simpa [handed?, hh] using hb
    exact ⟨by rw [hc], List.eq_nil_of_length_eq_zero (by omega), by simp⟩

/-- One operation of a single consumer keeps the order, unless it gives an item back behind others. -/
theorem outstanding_perform {q : WaitQueue ω α} {op : QueueOp ω α} (ho : q.Orderly)
    (hone : q.line.length ≤ 1) (hasks : op.asks = true → q.line = [])
    (hback : ∀ w, op = .drop w → q.handed? w ≠ none → q.items = []) :
    q.outstanding ++ op.put?.toList =
      (q.perform op).1.item?.toList ++ (q.perform op).2.outstanding := by
  cases op with
  | put a =>
    cases hw : q.waiting with
    | nil =>
      have hput : q.put a = { q with items := q.items ++ [a] } := by rw [put, hw]
      simp [perform, hput, outstanding, QueueOp.put?, QueueAnswer.item?]
    | cons w rest =>
      -- Whoever waits is alone, so that nothing is in hand or stored.
      have hitems : q.items = [] := ho (by simp [hw])
      rw [line, List.length_append, hw, List.length_cons, List.length_map] at hone
      have hhanded : q.handed = [] := List.eq_nil_of_length_eq_zero (by omega)
      simp [perform, put, hw, outstanding, hitems, hhanded, QueueOp.put?, QueueAnswer.item?]
  | take =>
    have hhanded : q.handed = [] := by simpa using (List.append_eq_nil_iff.1 (hasks rfl)).1
    cases hi : q.items <;>
      simp [perform, take?, hi, outstanding, hhanded, QueueOp.put?, QueueAnswer.item?]
  | get w =>
    have hhanded : q.handed = [] := by simpa using (List.append_eq_nil_iff.1 (hasks rfl)).1
    rcases q.join_cases w with ⟨a, rest, hi, hj⟩ | ⟨hi, hj⟩ <;>
      simp [perform, hj, hi, outstanding, hhanded, QueueOp.put?, QueueAnswer.item?]
  | poll w =>
    cases hc : q.collect? w with
    | none =>
      have hans : (if q.isUnfinished w then QueueAnswer.pending else .gone : QueueAnswer α).item? =
          none := by split <;> rfl
      simp [perform, hc, hans, QueueOp.put?]
    | some r =>
      obtain ⟨a, q'⟩ := r
      obtain ⟨hhanded, -, rfl⟩ := handed_of_collect hone hc
      simp [perform, hc, outstanding, hhanded, QueueOp.put?, QueueAnswer.item?]
  | drop w =>
    cases hc : q.collect? w with
    | none => simp [perform, leave, hc, outstanding, QueueOp.put?, QueueAnswer.item?]
    | some r =>
      obtain ⟨a, q'⟩ := r
      obtain ⟨hhanded, hwaiting, rfl⟩ := handed_of_collect hone hc
      have hitems : q.items = [] := hback w rfl (by simp [handed?, hhanded])
      simp [perform, leave, hc, put, outstanding, hhanded, hwaiting, hitems, QueueOp.put?,
        QueueAnswer.item?]

theorem line_perform {q : WaitQueue ω α} {op : QueueOp ω α} (hone : q.line.length ≤ 1)
    (hasks : op.asks = true → q.line = []) : (q.perform op).2.line.length ≤ 1 := by
  have herase (w : ω) : (q.line.erase w).length ≤ 1 := (List.length_erase_le).trans hone
  cases op with
  | put a => rwa [perform, line_put]
  | take => cases hi : q.items <;> simpa [perform, take?, hi, line] using hone
  | get w =>
    have hline : q.line = [] := hasks rfl
    rcases q.join_cases w with ⟨a, rest, hi, hj⟩ | ⟨hi, hj⟩
    · simpa [perform, hj, line] using hone
    · obtain ⟨hhanded, hwaiting⟩ := List.append_eq_nil_iff.1 hline
      simp only [List.map_eq_nil_iff] at hhanded
      simp [perform, hj, line, hhanded, hwaiting]
  | poll w =>
    cases hc : q.collect? w with
    | none => simpa only [perform, hc] using hone
    | some r =>
      simp only [perform, hc, line_collect hc]
      exact herase w
  | drop w =>
    simp only [perform, line_leave]
    exact herase w

end WaitQueue

namespace ChannelQueue

variable [DecidableEq ω]

def soleConsumer : ChannelQueue ω α → List (QueueOp ω α) → Bool
  | _, [] => true
  | q, op :: rest => (!op.asks || q.receivers.isEmpty) && soleConsumer (q.perform op).2 rest

def returned (q : ChannelQueue ω α) (ops : List (QueueOp ω α)) : List α :=
  (q.performAll ops).1.filterMap (·.item?)

/-- An item is given back while others are stored that were put after it. -/
def setsBack (q : ChannelQueue ω α) : QueueOp ω α → Bool
  | .drop w => (q.inHand? w).isSome && !q.items.isEmpty
  | _ => false

def setsNothingBack : ChannelQueue ω α → List (QueueOp ω α) → Bool
  | _, [] => true
  | q, op :: rest => !q.setsBack op && setsNothingBack (q.perform op).2 rest

/-- Once an item has been given back behind others, nothing more is given to anybody. -/
def endsBySetBack : ChannelQueue ω α → List (QueueOp ω α) → Bool
  | _, [] => true
  | q, op :: rest =>
    (!q.setsBack op || ((q.perform op).2.returned rest).isEmpty) &&
      endsBySetBack (q.perform op).2 rest

structure Sole (q : ChannelQueue ω α) : Prop where
  sound : q.Sound
  orderly : q.toQueue.Orderly
  one : q.toQueue.line.length ≤ 1

omit [DecidableEq ω] in
theorem line_toQueue {q : ChannelQueue ω α} (hq : q.Sound) :
    q.toQueue.line = q.receivers.map (·.getter) := by
  have hhanded : q.toQueue.handed.map (·.1) = q.handed.map (·.getter) := by
    rw [toQueue, handed, List.map_filterMap, ← List.filterMap_eq_map, List.filterMap_filter]
    exact List.filterMap_congr fun r _ => by cases r.item <;> rfl
  rw [WaitQueue.line, hhanded, hq.handedFirst, List.map_append]
  rfl

omit [DecidableEq ω] in
theorem outstanding_toQueue (q : ChannelQueue ω α) :
    q.toQueue.outstanding = q.inHand ++ q.items := by
  have hsame : q.toQueue.handed.map (·.2) = q.inHand := by
    rw [toQueue, inHand, List.map_filterMap]
    exact List.filterMap_congr fun r _ => by cases r.item <;> rfl
  rw [WaitQueue.outstanding, hsame]
  rfl

omit [DecidableEq ω] in
theorem Sole.empty : ({} : ChannelQueue ω α).Sole :=
  ⟨.empty, fun hne => absurd rfl hne, Nat.zero_le 1⟩

section
variable {q : ChannelQueue ω α} {op : QueueOp ω α}

omit [DecidableEq ω] in
theorem Sole.line_eq_nil (hq : q.Sole) (hasks : op.asks = true → q.receivers = []) :
    op.asks = true → q.toQueue.line = [] := fun h => by rw [line_toQueue hq.sound, hasks h]; rfl

theorem Sole.books (hq : q.Sole) (hasks : op.asks = true → q.receivers = []) :
    (q.perform op).2.Sound ∧ q.toQueue.perform op = ((q.perform op).1, (q.perform op).2.toQueue) :=
  hq.sound.perform op fun w hw => by
    rw [hasks (by rw [hw]; rfl)]
    exact List.not_mem_nil

theorem Sole.perform (hq : q.Sole) (hasks : op.asks = true → q.receivers = []) :
    (q.perform op).2.Sole := by
  obtain ⟨hs, heq⟩ := hq.books hasks
  have horder := hq.orderly.perform op
  have hone := WaitQueue.line_perform hq.one (hq.line_eq_nil hasks)
  rw [heq] at horder hone
  exact ⟨hs, horder, hone⟩

/-- One operation takes the first of what is there, or adds to the end, unless it sets back. -/
theorem Sole.inOrder (hq : q.Sole) (hasks : op.asks = true → q.receivers = [])
    (hback : q.setsBack op = false) :
    q.inHand ++ q.items ++ op.put?.toList =
      (q.perform op).1.item?.toList ++ ((q.perform op).2.inHand ++ (q.perform op).2.items) := by
  have hstep := WaitQueue.outstanding_perform hq.orderly hq.one (hq.line_eq_nil hasks)
    fun w hw hne => by
      subst hw
      have hsome : (q.inHand? w).isSome = true := by
        rwa [inHand?_eq hq.sound, Option.isSome_iff_ne_none]
      have hitems : q.items = [] := by simpa [setsBack, hsome] using hback
      exact hitems
  rwa [(hq.books hasks).2, outstanding_toQueue, outstanding_toQueue] at hstep

/-- What is set back comes to stand behind what is stored, and nobody is left in line. -/
theorem Sole.set_back (hq : q.Sole) (hback : q.setsBack op = true) :
    ∃ a b rest, q.inHand ++ q.items = a :: b :: rest ∧ (q.perform op).1.item? = none ∧
      (q.perform op).2.receivers = [] ∧ (q.perform op).2.items = b :: rest ++ [a] := by
  cases op with
  | drop w =>
    simp only [setsBack, Bool.and_eq_true, Bool.not_eq_true', List.isEmpty_eq_false_iff] at hback
    obtain ⟨hsome, hitems⟩ := hback
    obtain ⟨a, ha⟩ := Option.isSome_iff_exists.1 hsome
    obtain ⟨b, rest, hi⟩ := List.exists_cons_of_ne_nil hitems
    rw [inHand?_eq hq.sound] at ha
    obtain ⟨q', hcollect⟩ : ∃ q', q.toQueue.collect? w = some (a, q') :=
      ⟨_, by rw [WaitQueue.collect?, ha, Option.map_some]⟩
    obtain ⟨hhanded, hwaiting, rfl⟩ := WaitQueue.handed_of_collect hq.one hcollect
    have hleave : q.toQueue.leave w = { q.toQueue with handed := [], items := q.items ++ [a] } := by
      simp only [WaitQueue.leave, hcollect, WaitQueue.put, hwaiting]
      rfl
    have hdrop : (QueueOp.drop w : QueueOp ω α).asks = true → q.receivers = [] := by
      simp [QueueOp.asks]
    obtain ⟨hs, hbooks⟩ := hq.books hdrop
    have hafter : ((q.perform (.drop w)).2).toQueue = q.toQueue.leave w := (congrArg Prod.snd hbooks).symm
    refine ⟨a, b, rest, ?_, ?_, ?_, ?_⟩
    · rw [← outstanding_toQueue, WaitQueue.outstanding, hhanded]
      change [a] ++ q.items = _
      rw [hi]
      rfl
    · rw [← congrArg Prod.fst hbooks]
      rfl
    · have hline := line_toQueue hs
      rw [hafter, hleave, WaitQueue.line, hwaiting] at hline
      simpa using hline.symm
    · have hstored := congrArg WaitQueue.items hafter
      rw [hleave, hi] at hstored
      exact hstored
  | _ => cases hback

end

/-- When nobody is in line, the oldest of the stored items is the next that anybody is given. -/
theorem returned_of_stored {q : ChannelQueue ω α} (hr : q.receivers = []) {b : α} {rest : List α}
    (hi : q.items = b :: rest) (ops : List (QueueOp ω α)) :
    q.returned ops = [] ∨ ∃ more, q.returned ops = b :: more := by
  induction ops generalizing q rest with
  | nil => exact .inl rfl
  | cons op future ih =>
    have hnone (w : ω) : q.receiver? w = none := by rw [receiver?, hr]; rfl
    cases op with
    | put a =>
      have hclosed : q.senders.filter q.isOpen = [] := by simp [isOpen, hr]
      obtain ⟨-, heq⟩ | ⟨c, left, -, hopen, -⟩ := q.deliver_cases a q.senders
      · have hreceivers : (q.put a).receivers = [] := by rw [put, heq, hr]
        have hitems : (q.put a).items = b :: (rest ++ [a]) := by rw [put, heq, hi]; rfl
        have hput := ih hreceivers hitems
        simpa [returned, performAll, perform, QueueAnswer.item?] using hput
      · rw [hclosed] at hopen
        cases hopen
    | take =>
      exact .inr ⟨_, by simp only [returned, performAll, perform, hi, QueueAnswer.item?,
        List.filterMap_cons]; rfl⟩
    | get w =>
      exact .inr ⟨_, by simp only [returned, performAll, perform, hi, QueueAnswer.item?,
        List.filterMap_cons]; rfl⟩
    | poll w => simpa [returned, performAll, perform, hnone, QueueAnswer.item?] using ih hr hi
    | drop w => simpa [returned, performAll, perform, hnone, QueueAnswer.item?] using ih hr hi

theorem returned_cons (q : ChannelQueue ω α) (op : QueueOp ω α) (ops : List (QueueOp ω α)) :
    q.returned (op :: ops) = (q.perform op).1.item?.toList ++ (q.perform op).2.returned ops := by
  rw [returned, returned, performAll]
  cases h : (q.perform op).1.item? <;> simp [h]

theorem Sole.of_cons {q : ChannelQueue ω α} (hq : q.Sole) {op : QueueOp ω α}
    {rest : List (QueueOp ω α)} (h : q.soleConsumer (op :: rest) = true) :
    (op.asks = true → q.receivers = []) ∧ (q.perform op).2.Sole ∧
      (q.perform op).2.soleConsumer rest = true := by
  obtain ⟨hop, hrest⟩ := (Bool.and_eq_true _ _).mp h
  have hasks : op.asks = true → q.receivers = [] := fun ha => by simpa [ha] using hop
  exact ⟨hasks, hq.perform hasks, hrest⟩

omit [DecidableEq ω] in
private theorem puts_cons (op : QueueOp ω α) (rest : List (QueueOp ω α)) :
    (op :: rest).filterMap (·.put?) = op.put?.toList ++ rest.filterMap (·.put?) := by
  cases h : op.put? <;> simp [h]

/-- What was there and what is put is what is returned and what is there in the end, in order. -/
theorem Sole.returned_inOrder {q : ChannelQueue ω α} (hq : q.Sole) {ops : List (QueueOp ω α)}
    (hsole : q.soleConsumer ops = true) (hback : q.setsNothingBack ops = true) :
    q.inHand ++ q.items ++ ops.filterMap (·.put?) =
      q.returned ops ++ ((q.performAll ops).2.inHand ++ (q.performAll ops).2.items) := by
  induction ops generalizing q with
  | nil => simp [returned, performAll]
  | cons op rest ih =>
    obtain ⟨hasks, hq', hsole'⟩ := hq.of_cons hsole
    obtain ⟨hop, hback'⟩ := (Bool.and_eq_true _ _).mp hback
    have hstep := hq.inOrder hasks (by simpa using hop)
    calc q.inHand ++ q.items ++ (op :: rest).filterMap (·.put?)
        = (q.inHand ++ q.items ++ op.put?.toList) ++ rest.filterMap (·.put?) := by
          rw [puts_cons, ← List.append_assoc]
      _ = (q.perform op).1.item?.toList ++
            ((q.perform op).2.inHand ++ (q.perform op).2.items ++ rest.filterMap (·.put?)) := by
          rw [hstep, List.append_assoc]
      _ = _ := by rw [ih hq' hsole' hback', returned_cons, List.append_assoc]; rfl

/-- Items that can be told apart are returned in order just as long as nothing is returned after one
has been set back. -/
theorem Sole.prefix_iff {q : ChannelQueue ω α} (hq : q.Sole) {ops : List (QueueOp ω α)}
    (hsole : q.soleConsumer ops = true)
    (hnodup : (q.inHand ++ q.items ++ ops.filterMap (·.put?)).Nodup) :
    q.returned ops <+: q.inHand ++ q.items ++ ops.filterMap (·.put?) ↔
      q.endsBySetBack ops = true := by
  induction ops generalizing q with
  | nil => simp [returned, performAll, endsBySetBack]
  | cons op rest ih =>
    obtain ⟨hasks, hq', hsole'⟩ := hq.of_cons hsole
    rw [puts_cons, ← List.append_assoc] at hnodup ⊢
    rw [returned_cons]
    cases hback : q.setsBack op with
    | false =>
      have hstep := hq.inOrder hasks hback
      rw [hstep, List.append_assoc] at hnodup ⊢
      rw [List.prefix_append_right_inj, ih hq' hsole' (List.nodup_append.1 hnodup).2.1]
      simp [endsBySetBack, hback]
    | true =>
      obtain ⟨a, b, stored, hthere, hitem, hreceivers, hitems⟩ := hq.set_back hback
      have hnext := returned_of_stored hreceivers hitems rest
      rw [hthere] at hnodup ⊢
      rw [hitem]
      constructor
      · intro hle
        -- The next item would be `b`, and `a` is in front of it.
        have hquiet : (q.perform op).2.returned rest = [] := hnext.resolve_right fun hmore => by
          obtain ⟨more, hb⟩ := hmore
          obtain ⟨tail, heq⟩ := hle
          rw [hb] at heq
          obtain rfl : b = a := (List.cons.inj heq).1
          exact (List.nodup_cons.1 hnodup).1 (by simp)
        have hrest := (ih hq' hsole' ?_).1 (by rw [hquiet]; exact List.nil_prefix)
        · simp [endsBySetBack, hquiet, hrest]
        · have hput : op.put? = none := by cases op <;> first | rfl | cases hback
          have hhand : (q.perform op).2.inHand = [] := by rw [inHand, hreceivers]; rfl
          rw [hput] at hnodup
          rw [hhand, hitems]
          refine (List.Perm.nodup_iff ?_).1 hnodup
          simpa using (List.perm_append_singleton a (b :: stored)).symm.append_right
            (rest.filterMap (·.put?))
      · intro hends
        have hquiet : (q.perform op).2.returned rest = [] := by
          simpa [hback] using ((Bool.and_eq_true _ _).mp hends).1
        rw [hquiet]
        exact List.nil_prefix

structure ConsumerOrder (ops : List (QueueOp ω α)) : Prop where
  /-- Without a set-back the items come in the order in which they were put, and none is missing. -/
  kept : setsNothingBack {} ops = true →
    ops.filterMap (·.put?) =
      returned {} ops ++ ((performAll {} ops).2.inHand ++ (performAll {} ops).2.items)
  inOrder_iff : (ops.filterMap (·.put?)).Nodup →
    (returned {} ops <+: ops.filterMap (·.put?) ↔ endsBySetBack {} ops = true)

/-- A single consumer, which may give up and try again, is given the items in order as long as it
gives none back behind another, and after that the next item that it gets is out of order. -/
theorem sole_consumer_order (ops : List (QueueOp ω α)) (hsole : soleConsumer {} ops = true) :
    ConsumerOrder ops where
  kept hback := Sole.empty.returned_inOrder hsole hback
  inOrder_iff hnodup := Sole.empty.prefix_iff hsole hnodup

def gaveUpInTime : List (QueueOp String Nat) :=
  [.get "a", .put 1, .drop "a", .put 2, .take, .get "b"]

theorem sole_consumer_order_gaveUpInTime :
    soleConsumer {} gaveUpInTime = true ∧ setsNothingBack {} gaveUpInTime = true ∧
      returned {} gaveUpInTime = [1, 2] ∧ ConsumerOrder gaveUpInTime :=
  ⟨by decide, by decide, by decide, sole_consumer_order gaveUpInTime (by decide)⟩

/-- The consumer has been handed the first item when it gives up, and the second is there. -/
def gaveUpLate : List (QueueOp String Nat) :=
  [.get "a", .put 1, .put 2, .drop "a", .take, .take]

/-- It is given the second item before the first. -/
theorem gaveUpLate_overtakes :
    soleConsumer {} gaveUpLate = true ∧ gaveUpLate.filterMap (·.put?) = [1, 2] ∧
      returned {} gaveUpLate = [2, 1] := by decide

end ChannelQueue

end SharedPrompt
