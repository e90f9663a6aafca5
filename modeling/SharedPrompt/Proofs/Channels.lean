import Mathlib.Data.List.Nodup
import SharedPrompt.Proofs.WaitingLine
import SharedPrompt.WaitQueue.Channels

/-!
# The books of a queue and its channels

A queue that hands its items over through channels gives the answers of a first-come queue: the
open ones among its sending ends are those of the getters in line, and what lies in the receiving
ends is what the books call handed over.
-/

namespace SharedPrompt

namespace ChannelQueue

variable {ω α : Type}

def handed (q : ChannelQueue ω α) : List (Receiver ω α) :=
  q.receivers.filter fun r => r.item.isSome

def inLine (q : ChannelQueue ω α) : List (Receiver ω α) :=
  q.receivers.filter fun r => r.item.isNone

def toQueue (q : ChannelQueue ω α) : WaitQueue ω α :=
  { items := q.items
    waiting := q.inLine.map (·.getter)
    handed := q.receivers.filterMap fun r => r.item.map (r.getter, ·) }

structure Sound (q : ChannelQueue ω α) : Prop where
  getters : (q.receivers.map (·.getter)).Nodup
  channels : (q.receivers.map (·.channel)).Nodup
  made : ∀ c ∈ q.receivers.map (·.channel) ++ q.senders, c < q.next
  called : ∀ r ∈ q.receivers, r.called = r.item.isSome
  handedFirst : q.receivers = q.handed ++ q.inLine
  senders : q.senders.filter q.isOpen = q.inLine.map (·.channel)

theorem Sound.empty : ({} : ChannelQueue ω α).Sound :=
  ⟨List.nodup_nil, List.nodup_nil, by simp, by simp, rfl, rfl⟩

theorem isOpen_iff {q : ChannelQueue ω α} {c : Nat} :
    q.isOpen c = true ↔ c ∈ q.receivers.map (·.channel) := by
  simp [isOpen]

/-- A delivery passes by the closed sending ends and stops at the first open one. -/
theorem deliver_cases (q : ChannelQueue ω α) (a : α) (l : List Nat) :
    (l.filter q.isOpen = [] ∧ q.deliver a l = { q with items := q.items ++ [a], senders := [] }) ∨
      ∃ c rest, rest ⊆ l ∧ l.filter q.isOpen = c :: rest.filter q.isOpen ∧
        q.deliver a l =
          { q with
            receivers := q.receivers.map fun r => if r.channel = c then r.receive a else r
            senders := rest } := by
  induction l with
  | nil => exact .inl ⟨rfl, rfl⟩
  | cons c rest ih =>
    by_cases hc : q.isOpen c = true
    · refine .inr ⟨c, rest, List.subset_cons_self c rest, by simp [hc], ?_⟩
      simp [deliver, send?, hc]
    · have hnext : q.deliver a (c :: rest) = q.deliver a rest := by simp [deliver, send?, hc]
      have hfilter : (c :: rest).filter q.isOpen = rest.filter q.isOpen := by simp [hc]
      rw [hnext, hfilter]
      refine ih.imp_right ?_
      rintro ⟨d, left, hsub, hd, heq⟩
      exact ⟨d, left, List.subset_cons_of_subset c hsub, hd, heq⟩

/-- What is sent through a channel comes to its one receiving end. -/
private theorem map_receive {front back : List (Receiver ω α)} {r : Receiver ω α} (a : α)
    (hch : ((front ++ r :: back).map (·.channel)).Nodup) :
    (front ++ r :: back).map (fun s => if s.channel = r.channel then s.receive a else s) =
      front ++ r.receive a :: back := by
  rw [List.map_append, List.map_cons, List.nodup_append, List.nodup_cons] at hch
  obtain ⟨-, ⟨hback, -⟩, hfront⟩ := hch
  have hsame (l : List (Receiver ω α)) (hl : ∀ s ∈ l, s.channel ≠ r.channel) :
      l.map (fun s => if s.channel = r.channel then s.receive a else s) = l :=
    (List.map_congr_left fun s hs => if_neg (hl s hs)).trans l.map_id
  have hf := hsame front fun s hs =>
    hfront s.channel (List.mem_map_of_mem hs) r.channel List.mem_cons_self
  have hb := hsame back fun s hs heq => hback (heq ▸ List.mem_map_of_mem hs)
  rw [List.map_append, List.map_cons, hf, hb, if_pos rfl]

/-- A receiving end has an item or is in line. -/
theorem handed_and_inLine {q : ChannelQueue ω α} {front back : List (Receiver ω α)}
    (h : q.receivers = front ++ back) (hf : ∀ s ∈ front, s.item.isSome = true)
    (hb : ∀ s ∈ back, s.item = none) : q.handed = front ∧ q.inLine = back := by
  have h1 : front.filter (fun s => s.item.isSome) = front := List.filter_eq_self.2 hf
  have h2 : back.filter (fun s => s.item.isSome) = [] :=
    List.filter_eq_nil_iff.2 fun s hs => by simp [hb s hs]
  have h3 : front.filter (fun s => s.item.isNone) = [] :=
    List.filter_eq_nil_iff.2 fun s hs => by simp [Option.isSome_iff_ne_none.1 (hf s hs)]
  have h4 : back.filter (fun s => s.item.isNone) = back :=
    List.filter_eq_self.2 fun s hs => by simp [hb s hs]
  rw [handed, inLine, h, List.filter_append, List.filter_append, h1, h2, h3, h4]
  exact ⟨List.append_nil front, rfl⟩

theorem item_of_mem_handed {q : ChannelQueue ω α} {r : Receiver ω α} (h : r ∈ q.handed) :
    r.item.isSome = true := (List.mem_filter.1 h).2

theorem item_of_mem_inLine {q : ChannelQueue ω α} {r : Receiver ω α} (h : r ∈ q.inLine) :
    r.item = none := by simpa using (List.mem_filter.1 h).2

theorem isOpen_congr {q p : ChannelQueue ω α}
    (h : p.receivers.map (·.channel) = q.receivers.map (·.channel)) : p.isOpen = q.isOpen := by
  funext c
  rw [Bool.eq_iff_iff, isOpen_iff, isOpen_iff, h]

/-- An item that is stored, while nobody is in line. -/
theorem Sound.store {q : ChannelQueue ω α} (hq : q.Sound) (a : α) (hline : q.inLine = []) :
    ({ q with items := q.items ++ [a], senders := [] } : ChannelQueue ω α).Sound ∧
      ({ q with items := q.items ++ [a], senders := [] } : ChannelQueue ω α).toQueue =
        q.toQueue.put a := by
  constructor
  · refine ⟨hq.getters, hq.channels, fun c hc => hq.made c ?_, hq.called, hq.handedFirst, ?_⟩
    · simp only [List.append_nil] at hc
      exact List.mem_append_left _ hc
    · change [] = q.inLine.map (·.channel)
      rw [hline, List.map_nil]
  · have hwait : q.toQueue.waiting = [] := by simp [toQueue, hline]
    have hstored : q.toQueue.put a = { q.toQueue with items := q.items ++ [a] } := by
      simp only [WaitQueue.put, hwait]
      rfl
    rw [hstored]
    rfl

/-- An item that goes to the first in line. -/
theorem Sound.hand {q : ChannelQueue ω α} (hq : q.Sound) (a : α) {r : Receiver ω α}
    {back : List (Receiver ω α)} {rest : List Nat} (hline : q.inLine = r :: back)
    (hsub : rest ⊆ q.senders) (hback : rest.filter q.isOpen = back.map (·.channel)) :
    ({ q with receivers := q.handed ++ r.receive a :: back, senders := rest } :
        ChannelQueue ω α).Sound ∧
      ({ q with receivers := q.handed ++ r.receive a :: back, senders := rest } :
        ChannelQueue ω α).toQueue = q.toQueue.put a := by
  have hall : q.receivers = q.handed ++ r :: back := hline ▸ hq.handedFirst
  have hnone : ∀ s ∈ r :: back, s.item = none := fun s hs => item_of_mem_inLine (hline ▸ hs)
  have hchannels : (q.handed ++ r.receive a :: back).map (·.channel) =
      q.receivers.map (·.channel) := by
    rw [hall, List.map_append, List.map_append]
    rfl
  have hgetters : (q.handed ++ r.receive a :: back).map (·.getter) =
      q.receivers.map (·.getter) := by
    rw [hall, List.map_append, List.map_append]
    rfl
  generalize hp :
    ({ q with receivers := q.handed ++ r.receive a :: back, senders := rest } :
      ChannelQueue ω α) = p
  have hreceivers : p.receivers = (q.handed ++ [r.receive a]) ++ back := by simp [← hp]
  have hsplit := handed_and_inLine hreceivers
    (fun s hs => by
      rcases List.mem_append.1 hs with hs | hs
      · exact item_of_mem_handed hs
      · rw [List.mem_singleton.1 hs]
        rfl)
    (fun s hs => hnone s (List.mem_cons_of_mem r hs))
  subst hp
  constructor
  · refine ⟨hgetters ▸ hq.getters, hchannels ▸ hq.channels, fun c hc => ?_, fun s hs => ?_, ?_, ?_⟩
    · rw [hchannels] at hc
      refine hq.made c (List.mem_append.2 ?_)
      exact (List.mem_append.1 hc).imp_right fun hc => hsub hc
    · rcases List.mem_append.1 hs with hs | hs
      · exact hq.called s (hall ▸ List.mem_append_left _ hs)
      · rcases List.mem_cons.1 hs with rfl | hs
        · rfl
        · exact hq.called s (hall ▸ List.mem_append_right _ (List.mem_cons_of_mem r hs))
    · rw [hsplit.1, hsplit.2, hreceivers]
    · rw [hsplit.2, isOpen_congr hchannels, hback]
  · have hwait : q.toQueue.waiting = r.getter :: back.map (·.getter) := by simp [toQueue, hline]
    have hleft : back.filterMap (fun s => s.item.map (s.getter, ·)) = [] :=
      List.filterMap_eq_nil_iff.2 fun s hs => by simp [hnone s (List.mem_cons_of_mem r hs)]
    have hr : r.item = none := hnone r List.mem_cons_self
    rw [WaitQueue.put, hwait]
    simp only [toQueue, hsplit.2, hall]
    simp [hleft, hr, Receiver.receive]

/-- An enqueued item goes where the books say. -/
theorem Sound.put {q : ChannelQueue ω α} (hq : q.Sound) (a : α) :
    (q.put a).Sound ∧ (q.put a).toQueue = q.toQueue.put a := by
  rcases q.deliver_cases a q.senders with ⟨hnone, heq⟩ | ⟨c, rest, hsub, hc, heq⟩
  · have hline : q.inLine = [] := List.map_eq_nil_iff.1 (hq.senders.symm.trans hnone)
    rw [ChannelQueue.put, heq]
    exact hq.store a hline
  · obtain ⟨r, back, hline, rfl, hback⟩ := List.map_eq_cons_iff.1 (hq.senders.symm.trans hc)
    have hall : q.receivers = q.handed ++ r :: back := hline ▸ hq.handedFirst
    have hmap := map_receive a (hall ▸ hq.channels)
    rw [ChannelQueue.put, heq, hall, hmap]
    exact hq.hand a hline hsub hback.symm

/-- A getter that comes to wait stands at the end of the line. -/
theorem Sound.enroll {q : ChannelQueue ω α} (hq : q.Sound) {w : ω}
    (hw : w ∉ q.receivers.map (·.getter)) :
    (q.enroll w).Sound ∧
      (q.enroll w).toQueue = { q.toQueue with waiting := q.toQueue.waiting ++ [w] } := by
  have hnew : q.next ∉ q.receivers.map (·.channel) := fun h =>
    Nat.lt_irrefl _ (hq.made _ (List.mem_append_left _ h))
  have hreceivers : (q.enroll w).receivers =
      q.handed ++ (q.inLine ++ [{ getter := w, channel := q.next }]) := by
    rw [← List.append_assoc, ← hq.handedFirst]
    rfl
  have hsplit := handed_and_inLine hreceivers (fun _ hs => item_of_mem_handed hs) fun s hs => by
    rcases List.mem_append.1 hs with hs | hs
    · exact item_of_mem_inLine hs
    · rw [List.mem_singleton.1 hs]
  have hopen : ∀ c ∈ q.senders, (q.enroll w).isOpen c = q.isOpen c := fun c hc => by
    have hlt : c < q.next := hq.made c (List.mem_append_right _ hc)
    simp [isOpen, ChannelQueue.enroll, Nat.ne_of_gt hlt]
  have hlast : (q.enroll w).isOpen q.next = true := by simp [isOpen, ChannelQueue.enroll]
  constructor
  · refine ⟨?_, ?_, fun c hc => ?_, fun s hs => ?_, ?_, ?_⟩
    · simpa [ChannelQueue.enroll, List.nodup_append] using ⟨hq.getters, by simpa using hw⟩
    · simpa [ChannelQueue.enroll, List.nodup_append] using ⟨hq.channels, by simpa using hnew⟩
    · have hcases : c ∈ q.receivers.map (·.channel) ++ q.senders ∨ c = q.next := by
        simp only [ChannelQueue.enroll, List.map_append, List.map_cons, List.map_nil,
          List.mem_append, List.mem_singleton] at hc ⊢
        tauto
      rcases hcases with hc | rfl
      · exact Nat.lt_succ_of_lt (hq.made c hc)
      · exact Nat.lt_succ_self _
    · rcases List.mem_append.1 hs with hs | hs
      · exact hq.called s hs
      · rw [List.mem_singleton.1 hs]
        rfl
    · rw [hsplit.1, hsplit.2, hreceivers]
    · have hfilter : q.senders.filter (q.enroll w).isOpen = q.senders.filter q.isOpen :=
        List.filter_congr hopen
      have hsenders : (q.enroll w).senders = q.senders ++ [q.next] := rfl
      rw [hsplit.2, List.map_append, ← hq.senders, ← hfilter, hsenders, List.filter_append,
        List.filter_cons_of_pos hlast]
      rfl
  · have hhanded : (q.enroll w).toQueue.handed = q.toQueue.handed := by
      simp [toQueue, ChannelQueue.enroll]
    simp only [toQueue] at hhanded ⊢
    rw [hsplit.2, hhanded, List.map_append]
    rfl

/-- Only one receiving end goes with a getter, and only one with its channel. -/
theorem Sound.channel_eq_iff {q : ChannelQueue ω α} (hq : q.Sound) {r s : Receiver ω α}
    (hr : r ∈ q.receivers) (hs : s ∈ q.receivers) :
    s.channel = r.channel ↔ s.getter = r.getter := by
  constructor
  · intro h
    rw [List.inj_on_of_nodup_map hq.channels hs hr h]
  · intro h
    rw [List.inj_on_of_nodup_map hq.getters hs hr h]

theorem nodup_handed_toQueue {q : ChannelQueue ω α} (hq : q.Sound) :
    (q.toQueue.handed.map (·.1)).Nodup := by
  have hsub (l : List (Receiver ω α)) :
      ((l.filterMap fun r => r.item.map (r.getter, ·)).map (·.1)).Sublist (l.map (·.getter)) := by
    induction l with
    | nil => exact List.Sublist.slnil
    | cons r rest ih =>
      cases hi : r.item with
      | none => simpa [hi] using ih.cons r.getter
      | some a => simpa [hi] using ih.cons_cons r.getter
  exact hq.getters.sublist (hsub q.receivers)

theorem nodup_waiting_toQueue {q : ChannelQueue ω α} (hq : q.Sound) : q.toQueue.waiting.Nodup :=
  hq.getters.sublist (List.filter_sublist.map _)

variable [DecidableEq ω]

theorem receiver?_eq_some {q : ChannelQueue ω α} {w : ω} {r : Receiver ω α}
    (h : q.receiver? w = some r) : r ∈ q.receivers ∧ r.getter = w :=
  ⟨List.mem_of_find?_eq_some h, by simpa using List.find?_some h⟩

theorem receiver?_of_mem {q : ChannelQueue ω α} (hq : q.Sound) {r : Receiver ω α}
    (hr : r ∈ q.receivers) : q.receiver? r.getter = some r := by
  cases h : q.receiver? r.getter with
  | none => exact absurd (List.find?_eq_none.1 h r hr) (by simp)
  | some s =>
    obtain ⟨hs, hw⟩ := receiver?_eq_some h
    rw [List.inj_on_of_nodup_map hq.getters hs hr hw]

theorem isUnfinished_iff {q : ChannelQueue ω α} {w : ω} :
    q.isUnfinished w = true ↔ w ∈ q.receivers.map (·.getter) := by
  simp [isUnfinished, receiver?, List.find?_isSome]

theorem handed_close (q : ChannelQueue ω α) (w : ω) :
    (q.close w).handed = q.handed.filter fun r => r.getter ≠ w := by
  simp only [handed, close, List.filter_filter, Bool.and_comm]

theorem inLine_close (q : ChannelQueue ω α) (w : ω) :
    (q.close w).inLine = q.inLine.filter fun r => r.getter ≠ w := by
  simp only [inLine, close, List.filter_filter, Bool.and_comm]

theorem toQueue_close (q : ChannelQueue ω α) (w : ω) :
    (q.close w).toQueue =
      { q.toQueue with
        waiting := q.toQueue.waiting.filter (· ≠ w)
        handed := q.toQueue.handed.filter (·.1 ≠ w) } := by
  have hhanded (l : List (Receiver ω α)) :
      (l.filter fun r => r.getter ≠ w).filterMap (fun r => r.item.map (r.getter, ·)) =
        (l.filterMap fun r => r.item.map (r.getter, ·)).filter (·.1 ≠ w) := by
    induction l with
    | nil => rfl
    | cons r rest ih =>
      by_cases hw : r.getter = w <;> cases hi : r.item <;> simp_all
  simp only [toQueue, inLine_close, List.filter_map]
  rw [show (q.close w).receivers = q.receivers.filter fun r => r.getter ≠ w from rfl, hhanded]
  rfl

/-- The channels of a queue without one of its getters. -/
theorem Sound.close {q : ChannelQueue ω α} (hq : q.Sound) {r : Receiver ω α}
    (hr : r ∈ q.receivers) : (q.close r.getter).Sound := by
  have hsub : (q.close r.getter).receivers.Sublist q.receivers := List.filter_sublist
  have hopen (c : Nat) : (q.close r.getter).isOpen c = (q.isOpen c && decide (c ≠ r.channel)) := by
    rw [Bool.eq_iff_iff, Bool.and_eq_true, isOpen_iff, isOpen_iff, decide_eq_true_eq]
    simp only [ChannelQueue.close, List.mem_map, List.mem_filter, decide_eq_true_eq]
    constructor
    · rintro ⟨s, ⟨hs, hne⟩, rfl⟩
      exact ⟨⟨s, hs, rfl⟩, fun heq => hne ((hq.channel_eq_iff hr hs).1 heq)⟩
    · rintro ⟨⟨s, hs, rfl⟩, hne⟩
      exact ⟨s, ⟨hs, fun heq => hne ((hq.channel_eq_iff hr hs).2 heq)⟩, rfl⟩
  refine ⟨hq.getters.sublist (hsub.map _), hq.channels.sublist (hsub.map _), fun c hc => ?_,
    fun s hs => hq.called s (hsub.subset hs), ?_, ?_⟩
  · refine hq.made c (List.mem_append.2 ?_)
    exact (List.mem_append.1 hc).imp_left fun hc => (hsub.map _).subset hc
  · rw [handed_close, inLine_close, ← List.filter_append, ← hq.handedFirst]
    rfl
  · have hboth : (q.close r.getter).senders.filter (q.close r.getter).isOpen =
        (q.senders.filter q.isOpen).filter fun c => c ≠ r.channel := by
      rw [List.filter_filter, funext hopen]
      simp only [ChannelQueue.close, Bool.and_comm]
    rw [hboth, hq.senders, inLine_close, List.filter_map]
    refine congrArg (List.map _) (List.filter_congr fun s hs => ?_)
    have hs' : s ∈ q.receivers := (List.mem_filter.1 hs).1
    simp only [Function.comp_apply, ne_eq, hq.channel_eq_iff hr hs']

/-- A poll that finds nothing leaves the books as they are. -/
theorem Sound.listen {q : ChannelQueue ω α} (hq : q.Sound) {r : Receiver ω α}
    (hr : r ∈ q.receivers) (hnone : r.item = none) : q.listen r.getter = q := by
  have hsame : q.receivers.map
      (fun s => if s.getter = r.getter then { s with called := false } else s) = q.receivers := by
    refine (List.map_congr_left fun s hs => ?_).trans q.receivers.map_id
    by_cases hw : s.getter = r.getter
    · have hs' := List.inj_on_of_nodup_map hq.getters hs hr hw
      have hc : s.called = false := by rw [hq.called s hs, hs', hnone, Option.isSome_none]
      rw [if_pos hw, ← hc]
      rfl
    · exact if_neg hw
  rw [ChannelQueue.listen, hsame]

/-- The item in a getter's receiving end is the one it has been handed. -/
theorem handed?_toQueue {q : ChannelQueue ω α} (hq : q.Sound) {r : Receiver ω α}
    (hr : r ∈ q.receivers) : q.toQueue.handed? r.getter = r.item := by
  have hlookup (l : List (Receiver ω α)) (hl : (l.map (·.getter)).Nodup) (hmem : r ∈ l) :
      (l.filterMap fun s => s.item.map (s.getter, ·)).lookup r.getter = r.item := by
    induction l with
    | nil => cases hmem
    | cons s rest ih =>
      rw [List.map_cons, List.nodup_cons] at hl
      by_cases hw : s.getter = r.getter
      · obtain rfl : r = s := (List.mem_cons.1 hmem).resolve_right fun h =>
          hl.1 (hw ▸ List.mem_map_of_mem h)
        cases hi : r.item with
        | some a => simp [hi]
        | none =>
          have hlater : ∀ s ∈ rest, r.getter ≠ s.getter := fun s hs heq =>
            hl.1 (heq ▸ List.mem_map_of_mem hs)
          simp only [List.filterMap_cons, hi, Option.map_none, List.lookup_eq_none_iff]
          intro p hp
          obtain ⟨s, hs, hsp⟩ := List.mem_filterMap.1 hp
          obtain ⟨b, -, rfl⟩ := Option.map_eq_some_iff.1 hsp
          simpa using hlater s hs
      · have hrest := ih hl.2 ((List.mem_cons.1 hmem).resolve_left fun h => hw (h ▸ rfl))
        have hw' : (r.getter == s.getter) = false := by simpa using Ne.symm hw
        cases hi : s.item <;> simp [hi, List.lookup_cons, hw', hrest]
  exact hlookup q.receivers hq.getters hr

theorem handed?_of_not_mem {q : ChannelQueue ω α} {w : ω}
    (hw : w ∉ q.receivers.map (·.getter)) : q.toQueue.handed? w = none := by
  refine List.lookup_eq_none_iff.2 fun p hp => ?_
  obtain ⟨s, hs, hsp⟩ := List.mem_filterMap.1 hp
  obtain ⟨b, -, rfl⟩ := Option.map_eq_some_iff.1 hsp
  have hne : w ≠ s.getter := fun heq => hw (List.mem_map.2 ⟨s, hs, heq.symm⟩)
  simpa using hne

theorem isUnfinished_toQueue (q : ChannelQueue ω α) (w : ω) :
    q.toQueue.isUnfinished w = q.isUnfinished w := by
  have hwaiting : w ∈ q.toQueue.waiting ↔ ∃ r ∈ q.receivers, r.item = none ∧ r.getter = w := by
    simp [toQueue, inLine, and_assoc]
  have hwoken : w ∈ q.toQueue.woken ↔ ∃ r ∈ q.receivers, r.item ≠ none ∧ r.getter = w := by
    simp only [toQueue, WaitQueue.woken, List.mem_map, List.mem_filterMap, Option.map_eq_some_iff,
      Option.ne_none_iff_exists']
    constructor
    · rintro ⟨p, ⟨r, hr, a, hi, rfl⟩, hw⟩
      exact ⟨r, hr, ⟨a, hi⟩, hw⟩
    · rintro ⟨r, hr, ⟨a, hi⟩, hw⟩
      exact ⟨(r.getter, a), ⟨r, hr, a, hi, rfl⟩, hw⟩
  rw [Bool.eq_iff_iff, isUnfinished_iff, WaitQueue.isUnfinished, Bool.or_eq_true,
    List.contains_iff_mem, List.contains_iff_mem, hwaiting, hwoken, List.mem_map]
  constructor
  · rintro (⟨r, hr, -, hw⟩ | ⟨r, hr, -, hw⟩)
    · exact ⟨r, hr, hw⟩
    · exact ⟨r, hr, hw⟩
  · rintro ⟨r, hr, hw⟩
    by_cases hi : r.item = none
    · exact .inl ⟨r, hr, hi, hw⟩
    · exact .inr ⟨r, hr, hi, hw⟩

private theorem eraseP_eq_filter {l : List (ω × α)} (hl : (l.map (·.1)).Nodup) (w : ω) :
    l.eraseP (·.1 = w) = l.filter (·.1 ≠ w) := by
  induction l with
  | nil => rfl
  | cons p rest ih =>
    rw [List.map_cons, List.nodup_cons] at hl
    by_cases hp : p.1 = w
    · have hrest : rest.filter (·.1 ≠ w) = rest :=
        List.filter_eq_self.2 fun x hx => by
          simpa using fun hxw : x.1 = w => hl.1 (List.mem_map.2 ⟨x, hx, hxw.trans hp.symm⟩)
      rw [List.eraseP_cons_of_pos (by simpa using hp), List.filter_cons_of_neg (by simpa using hp),
        hrest]
    · rw [List.eraseP_cons_of_neg (by simpa using hp), List.filter_cons_of_pos (by simpa using hp),
        ih hl.2]

/-- A getter takes what has come through its channel. -/
theorem collect?_toQueue {q : ChannelQueue ω α} (hq : q.Sound) {r : Receiver ω α} {a : α}
    (hr : r ∈ q.receivers) (hi : r.item = some a) :
    q.toQueue.collect? r.getter = some (a, (q.close r.getter).toQueue) := by
  have hwaiting : q.toQueue.waiting.filter (· ≠ r.getter) = q.toQueue.waiting := by
    refine List.filter_eq_self.2 fun w hw => ?_
    obtain ⟨s, hs, rfl⟩ := List.mem_map.1 hw
    have hne : s.getter ≠ r.getter := fun heq => by
      have hsr := List.inj_on_of_nodup_map hq.getters (List.mem_filter.1 hs).1 hr heq
      rw [hsr] at hs
      exact absurd (item_of_mem_inLine hs) (by simp [hi])
    simpa using hne
  rw [WaitQueue.collect?, handed?_toQueue hq hr, hi, Option.map_some, toQueue_close, hwaiting,
    eraseP_eq_filter (nodup_handed_toQueue hq)]

/-- A getter that leaves gives back what has come through its channel. -/
theorem Sound.drop {q : ChannelQueue ω α} (hq : q.Sound) {r : Receiver ω α}
    (hr : r ∈ q.receivers) :
    (r.item.elim (q.close r.getter) (q.close r.getter).put).Sound ∧
      (r.item.elim (q.close r.getter) (q.close r.getter).put).toQueue =
        q.toQueue.leave r.getter := by
  have hclose := hq.close hr
  cases hi : r.item with
  | some a =>
    have hput := hclose.put a
    have hleave : q.toQueue.leave r.getter = (q.close r.getter).toQueue.put a := by
      rw [WaitQueue.leave, collect?_toQueue hq hr hi]
    rw [hleave]
    exact hput
  | none =>
    have hkept : q.toQueue.handed.filter (·.1 ≠ r.getter) = q.toQueue.handed := by
      refine List.filter_eq_self.2 fun p hp => ?_
      have hnone := handed?_toQueue hq hr
      rw [hi, WaitQueue.handed?, List.lookup_eq_none_iff] at hnone
      have hne : ¬ r.getter = p.1 := by simpa using hnone p hp
      simpa using Ne.symm hne
    have hcollect : q.toQueue.collect? r.getter = none := by
      rw [WaitQueue.collect?, handed?_toQueue hq hr, hi, Option.map_none]
    refine ⟨hclose, ?_⟩
    have herase : q.toQueue.waiting.erase r.getter = q.toQueue.waiting.filter (· ≠ r.getter) := by
      rw [(nodup_waiting_toQueue hq).erase_eq_filter]
      exact List.filter_congr fun w _ => by rw [Bool.eq_iff_iff]; simp
    rw [Option.elim_none, toQueue_close, hkept, WaitQueue.leave, hcollect, herase]

/-- The books know nothing of a getter that has no receiving end. -/
theorem not_in_books {q : ChannelQueue ω α} {w : ω} (h : q.receiver? w = none) :
    q.isUnfinished w = false ∧ q.toQueue.collect? w = none ∧ q.toQueue.leave w = q.toQueue := by
  have hun : q.isUnfinished w = false := by rw [isUnfinished, h, Option.isSome_none]
  have hw : w ∉ q.receivers.map (·.getter) := fun hmem => by
    rw [isUnfinished_iff.2 hmem] at hun
    exact absurd hun (by decide)
  have hcollect : q.toQueue.collect? w = none := by
    rw [WaitQueue.collect?, handed?_of_not_mem hw, Option.map_none]
  have hwait : w ∉ q.toQueue.waiting := fun hmem =>
    hw ((List.filter_sublist.map _).subset hmem)
  refine ⟨hun, hcollect, ?_⟩
  rw [WaitQueue.leave, hcollect, List.erase_of_not_mem hwait]

/-- The answers are those of the books, and so is what is left behind. -/
theorem Sound.perform {q : ChannelQueue ω α} (hq : q.Sound) (op : QueueOp ω α)
    (hop : ∀ w, op = .get w → w ∉ q.receivers.map (·.getter)) :
    (q.perform op).2.Sound ∧
      q.toQueue.perform op = ((q.perform op).1, (q.perform op).2.toQueue) := by
  have hpop (rest : List α) : ({ q with items := rest } : ChannelQueue ω α).Sound :=
    ⟨hq.getters, hq.channels, hq.made, hq.called, hq.handedFirst, hq.senders⟩
  cases op with
  | put a =>
    obtain ⟨hs, heq⟩ := hq.put a
    exact ⟨hs, by rw [WaitQueue.perform, ← heq]; rfl⟩
  | take =>
    cases hitems : q.items with
    | nil => simp [ChannelQueue.perform, WaitQueue.perform, WaitQueue.take?, toQueue, hitems, hq]
    | cons a rest =>
      simp [ChannelQueue.perform, WaitQueue.perform, WaitQueue.take?, toQueue, hitems, hpop rest,
        inLine]
  | get w =>
    cases hitems : q.items with
    | nil =>
      obtain ⟨hs, heq⟩ := hq.enroll (hop w rfl)
      have hjoin : q.toQueue.join w = (none, (q.enroll w).toQueue) := by
        rw [heq, WaitQueue.join, WaitQueue.take?]
        simp [toQueue, hitems]
      simp [ChannelQueue.perform, WaitQueue.perform, hitems, hs, hjoin]
    | cons a rest =>
      simp [ChannelQueue.perform, WaitQueue.perform, WaitQueue.join, WaitQueue.take?, toQueue,
        hitems, hpop rest, inLine]
  | poll w =>
    cases hr : q.receiver? w with
    | none =>
      obtain ⟨hun, hcollect, -⟩ := not_in_books hr
      simp [ChannelQueue.perform, WaitQueue.perform, hr, hq, hcollect, isUnfinished_toQueue, hun]
    | some r =>
      obtain ⟨hmem, rfl⟩ := receiver?_eq_some hr
      cases hi : r.item with
      | some a =>
        simp [ChannelQueue.perform, WaitQueue.perform, hr, hi, hq.close hmem,
          collect?_toQueue hq hmem hi]
      | none =>
        have hcollect : q.toQueue.collect? r.getter = none := by
          rw [WaitQueue.collect?, handed?_toQueue hq hmem, hi, Option.map_none]
        have hun : q.isUnfinished r.getter = true := by rw [isUnfinished, hr, Option.isSome_some]
        simp [ChannelQueue.perform, WaitQueue.perform, hr, hi, hq.listen hmem hi, hq, hcollect,
          isUnfinished_toQueue, hun]
  | drop w =>
    cases hr : q.receiver? w with
    | none =>
      obtain ⟨hun, -, hleave⟩ := not_in_books hr
      simp [ChannelQueue.perform, WaitQueue.perform, hr, hq, isUnfinished_toQueue, hun, hleave]
    | some r =>
      obtain ⟨hmem, rfl⟩ := receiver?_eq_some hr
      have hun : q.isUnfinished r.getter = true := by rw [isUnfinished, hr, Option.isSome_some]
      obtain ⟨hs, heq⟩ := hq.drop hmem
      simp [ChannelQueue.perform, WaitQueue.perform, hr, isUnfinished_toQueue, hun, hs, heq]

end ChannelQueue

end SharedPrompt
