import SharedPrompt.Proofs.Parts
import SharedPrompt.Proofs.WaitingLine

/-!
# The books of the gates

For every gate the books balance: its one ticket lies in the gate, or has been handed to a waiter,
or is held by exactly one part. The line at a gate consists of the places that parts have taken
there, in the order of their turns.
-/

namespace SharedPrompt

namespace Part

def held (c : Multiset Part) (g : Nat) : Nat := (c.map fun x => x.tickets.count g).sum

def placed (c : Multiset Part) (g : Nat) (w : Waiter) : Nat :=
  (c.map fun x => x.places.count (g, w)).sum

variable (c d : Multiset Part) (x : Part) (g : Nat) (w : Waiter)

@[simp] theorem held_zero : held 0 g = 0 := rfl

@[simp] theorem held_add : held (c + d) g = held c g + held d g := by simp [held]

@[simp] theorem held_singleton : held {x} g = x.tickets.count g := by simp [held]

@[simp] theorem placed_zero : placed 0 g w = 0 := rfl

@[simp] theorem placed_add : placed (c + d) g w = placed c g w + placed d g w := by simp [placed]

@[simp] theorem placed_singleton : placed {x} g w = x.places.count (g, w) := by simp [placed]

theorem held_singleton_add : held ({x} + c) = fun g => x.tickets.count g + held c g := by
  funext g
  rw [held_add, held_singleton]

theorem placed_singleton_add :
    placed ({x} + c) = fun g w => x.places.count (g, w) + placed c g w := by
  funext g w
  rw [placed_add, placed_singleton]

variable {c d} in
/-- More parts hold more tickets. -/
theorem held_mono (hle : c ≤ d) : held c g ≤ held d g := by
  obtain ⟨e, rfl⟩ := Multiset.le_iff_exists_add.1 hle
  rw [held_add]
  exact Nat.le_add_right _ _

variable {c x} in
theorem held_pos (hx : x ∈ c) (hg : g ∈ x.tickets) : 0 < held c g := by
  have hle := held_mono g (Multiset.singleton_le.2 hx)
  rw [held_singleton] at hle
  exact (List.count_pos_iff.2 hg).trans_le hle

variable {c x} in
theorem placed_pos (hx : x ∈ c) (hw : (g, w) ∈ x.places) : 0 < placed c g w := by
  obtain ⟨e, rfl⟩ := Multiset.exists_cons_of_mem hx
  rw [← Multiset.singleton_add, placed_add, placed_singleton]
  exact Nat.add_pos_left (List.count_pos_iff.2 hw) _

variable {x} in
/-- A part that waits nowhere takes no place. -/
theorem placed_singleton_add_of_nil (hx : x.places = []) : placed ({x} + c) = placed c := by
  funext g w
  rw [placed_add, placed_singleton, hx, List.count_nil, zero_add]

end Part

/-! ## One gate -/

/-- The books of one gate, with the number of its tickets that are held and with the places taken in
its line, none of them by a turn that is still to be drawn. -/
structure TicketGate.Balanced (gate : Gate) (turn held : Nat) (placed : Waiter → Nat) : Prop where
  one : gate.size + held = 1
  line : ∀ w, gate.line.count w = placed w
  orderly : gate.tickets.Orderly
  sorted : gate.line.Pairwise fun v w => v.turn < w.turn
  recent : ∀ w ∈ gate.line, w.turn < turn

namespace TicketGate.Balanced

variable {gate : Gate} {turn held : Nat} {placed : Waiter → Nat}

theorem new (name : String) (turn : Nat) :
    (TicketGate.new name : Gate).Balanced turn 0 fun _ => 0 where
  one := rfl
  line _ := rfl
  orderly h := absurd rfl h
  sorted := .nil
  recent _ h := absurd h List.not_mem_nil

theorem later (hb : gate.Balanced turn held placed) {turn' : Nat} (hle : turn ≤ turn') :
    gate.Balanced turn' held placed where
  one := hb.one
  line := hb.line
  orderly := hb.orderly
  sorted := hb.sorted
  recent w hw := (hb.recent w hw).trans_le hle

/-- Joining takes the ticket, or takes the last place in the line by a new turn. -/
theorem join (hb : gate.Balanced turn held placed) (w : Waiter) (hw : w.turn = turn) :
    ((gate.join w).1 = true ∧ (gate.join w).2.Balanced (turn + 1) (1 + held) placed) ∨
      ((gate.join w).1 = false ∧
        (gate.join w).2.Balanced (turn + 1) held fun v => [w].count v + placed v) := by
  have hone := hb.one
  simp only [TicketGate.size, WaitQueue.size] at hone
  rcases gate.tickets.join_cases w with ⟨a, rest, hitems, hjoin⟩ | ⟨hitems, hjoin⟩
  · left
    simp only [TicketGate.join, hjoin]
    refine ⟨rfl, ?_, hb.line, fun hne => ?_, hb.sorted, (hb.later (Nat.le_succ _)).recent⟩
    · simp only [TicketGate.size, WaitQueue.size]
      simp only [hitems, List.length_cons] at hone
      omega
    · have := hb.orderly hne
      simp [hitems] at this
  · right
    have hline :
        ({ gate.tickets with waiting := gate.tickets.waiting ++ [w] } : WaitQueue Waiter Unit).line
          = gate.line ++ [w] := by
      simp [TicketGate.line, WaitQueue.line]
    simp only [TicketGate.join, hjoin]
    refine ⟨rfl, hone, fun v => ?_, fun _ => hitems, ?_, ?_⟩
    · simp only [TicketGate.line, hline, List.count_append, ← hb.line v]
      omega
    · simp only [TicketGate.line, hline]
      refine List.pairwise_append.2 ⟨hb.sorted, List.pairwise_singleton _ _, fun v hv u hu => ?_⟩
      rw [List.mem_singleton.1 hu, hw]
      exact hb.recent v hv
    · simp only [TicketGate.line, hline, List.mem_append, List.mem_singleton]
      rintro v (hv | rfl)
      · exact (hb.recent v hv).trans_le (Nat.le_succ _)
      · omega

private theorem line_erase {w : Waiter}
    (hb : gate.Balanced turn held fun v => [w].count v + placed v) (v : Waiter) :
    (gate.line.erase w).count v = placed v := by
  rw [List.count_erase, hb.line v, List.count_singleton, Nat.add_sub_cancel_left]

/-- Collecting gives up the place for the ticket. -/
theorem collect {w : Waiter} (hb : gate.Balanced turn held fun v => [w].count v + placed v)
    {gate' : Gate} (hc : gate.collect? w = some gate') : gate'.Balanced turn (1 + held) placed := by
  obtain ⟨⟨a, q⟩, hq, rfl⟩ := Option.map_eq_some_iff.1 hc
  have hline : ({ gate with tickets := q } : Gate).line = gate.line.erase w :=
    WaitQueue.line_collect hq
  have hsize := WaitQueue.size_collect hq
  have hone := hb.one
  refine ⟨?_, fun v => ?_, hb.orderly.collect hq, ?_, fun v hv => ?_⟩
  · simp only [TicketGate.size] at hone ⊢
    omega
  · rw [hline, line_erase hb v]
  · rw [hline]
    exact hb.sorted.sublist List.erase_sublist
  · rw [hline] at hv
    exact hb.recent v (List.mem_of_mem_erase hv)

/-- Whoever takes the ticket in passing leaves no line behind. -/
theorem line_of_join (hb : gate.Balanced turn held placed) {w : Waiter}
    (htaken : (gate.join w).1 = true) : (gate.join w).2.line = [] := by
  have hone := hb.one
  simp only [TicketGate.size, WaitQueue.size] at hone
  rcases gate.tickets.join_cases w with ⟨a, rest, hitems, hjoin⟩ | ⟨-, hjoin⟩
  · have hwait : gate.tickets.waiting = [] := by
      by_contra hne
      have hnil := hb.orderly hne
      rw [hitems] at hnil
      cases hnil
    have hhanded : gate.tickets.handed = [] := by
      rw [hitems, List.length_cons] at hone
      exact List.length_eq_zero_iff.1 (by omega)
    simp [TicketGate.join, hjoin, TicketGate.line, WaitQueue.line, hwait, hhanded]
  · simp [TicketGate.join, hjoin] at htaken

/-- Whoever collects the ticket has waited longest. -/
theorem line_of_collect (hb : gate.Balanced turn held placed) {w : Waiter} {gate' : Gate}
    (hc : gate.collect? w = some gate') : w ∈ gate.line ∧ ∀ v ∈ gate'.line, w.turn < v.turn := by
  obtain ⟨⟨a, q⟩, hq, rfl⟩ := Option.map_eq_some_iff.1 hc
  obtain ⟨hmem, -⟩ := WaitQueue.collect?_eq_some hq
  refine ⟨List.mem_append_left _ hmem, fun v hv => ?_⟩
  have hone := hb.one
  simp only [TicketGate.size, WaitQueue.size] at hone
  obtain ⟨x, hx⟩ : ∃ x, gate.tickets.handed = [x] := by
    have hpos := List.length_pos_of_mem hmem
    rw [List.length_map] at hpos
    exact List.length_eq_one_iff.1 (by omega)
  have hline : gate.line = w :: gate.tickets.waiting := by
    rw [hx, List.map_singleton, List.mem_singleton] at hmem
    simp [TicketGate.line, WaitQueue.line, hx, hmem]
  have hsorted := hb.sorted
  rw [hline] at hsorted
  have hrest : v ∈ gate.line.erase w := by
    rw [TicketGate.line, WaitQueue.line_collect hq] at hv
    exact hv
  rw [hline, List.erase_cons_head] at hrest
  exact (List.pairwise_cons.1 hsorted).1 v hrest

/-- Leaving gives up the place; a ticket handed over goes on to the next or back into the gate. -/
theorem leave {w : Waiter} (hb : gate.Balanced turn held fun v => [w].count v + placed v) :
    (gate.leave w).Balanced turn held placed := by
  have hline : (gate.leave w).line = gate.line.erase w := WaitQueue.line_leave _ w
  refine ⟨?_, fun v => ?_, hb.orderly.leave w, ?_, fun v hv => ?_⟩
  · simpa only [TicketGate.size, TicketGate.leave, WaitQueue.size_leave] using hb.one
  · rw [hline, line_erase hb v]
  · rw [hline]
    exact hb.sorted.sublist List.erase_sublist
  · rw [hline] at hv
    exact hb.recent v (List.mem_of_mem_erase hv)

/-- The holder of the ticket gives it back. -/
theorem release (hb : gate.Balanced turn (1 + held) placed) :
    gate.release.Balanced turn held placed where
  one := by
    have := hb.one
    simp only [size_release]
    omega
  line := by simpa using hb.line
  orderly := hb.orderly.put ()
  sorted := by simpa using hb.sorted
  recent := by simpa using hb.recent

end TicketGate.Balanced

/-! ## The gates of the prompts -/

namespace PromptStack

structure Sound (s : PromptStack) : Prop where
  bottom : s.bottom.gate = 0
  line : s.line.gate = 1
  count : 2 ≤ s.gates.length
  nested : ∀ p ∈ s.nested, 2 ≤ p.gate ∧ p.gate < s.gates.length
  sorted : s.nested.Pairwise fun p q => q.gate < p.gate

namespace Sound

variable {s : PromptStack}

theorem line_lt (hs : s.Sound) : s.line.gate < s.gates.length := by
  have := hs.count
  rw [hs.line]
  omega

theorem top_cases (hs : s.Sound) :
    (s.nested = [] ∧ s.top.gate = 0) ∨ (s.nested ≠ [] ∧ 2 ≤ s.top.gate) := by
  unfold top
  cases hn : s.nested with
  | nil => exact .inl ⟨rfl, hs.bottom⟩
  | cons p rest => exact .inr ⟨by simp, (hs.nested p (by simp [hn])).1⟩

theorem top_lt (hs : s.Sound) : s.top.gate < s.gates.length := by
  have hcount := hs.count
  unfold top
  cases hn : s.nested with
  | nil =>
    have := hs.bottom
    simp only [List.head?_nil, Option.getD_none]
    omega
  | cons p rest => exact (hs.nested p (by simp [hn])).2

theorem modifyGate (hs : s.Sound) (g : Nat) (f : Gate → Gate) : (s.modifyGate g f).Sound where
  bottom := hs.bottom
  line := hs.line
  count := by simpa [PromptStack.modifyGate] using hs.count
  nested := by simpa [PromptStack.modifyGate] using hs.nested
  sorted := hs.sorted

theorem push (hs : s.Sound) (pipeline : Nat) (debugger : Bool) :
    (s.push pipeline debugger).Sound where
  bottom := hs.bottom
  line := hs.line
  count := by
    have := hs.count
    simp only [PromptStack.push, List.length_append, List.length_singleton]
    omega
  nested p hp := by
    have hcount := hs.count
    simp only [PromptStack.push, List.length_append, List.length_singleton]
    rcases List.mem_cons.1 hp with rfl | hp
    · exact ⟨hcount, Nat.lt_succ_self _⟩
    · exact ⟨(hs.nested p hp).1, Nat.lt_succ_of_lt (hs.nested p hp).2⟩
  sorted := List.pairwise_cons.2 ⟨fun p hp => (hs.nested p hp).2, hs.sorted⟩

theorem pop (hs : s.Sound) : s.pop.Sound where
  bottom := hs.bottom
  line := hs.line
  count := hs.count
  nested p hp := hs.nested p (List.mem_of_mem_tail hp)
  sorted := hs.sorted.sublist (List.tail_sublist _)

end Sound

variable (s : PromptStack)

theorem gate_modifyGate_self {g : Nat} (hg : g < s.gates.length) (f : Gate → Gate) :
    (s.modifyGate g f).gate g = f (s.gate g) := by
  simp [gate, modifyGate, List.getD_eq_getElem?_getD, hg]

theorem gate_modifyGate_ne {g g' : Nat} (hne : g' ≠ g) (f : Gate → Gate) :
    (s.modifyGate g f).gate g' = s.gate g' := by
  simp [gate, modifyGate, List.getD_eq_getElem?_getD, Ne.symm hne]

theorem gate_push (pipeline : Nat) (debugger : Bool) (g : Nat) :
    (s.push pipeline debugger).gate g = if g = s.gates.length then .new "nested" else s.gate g := by
  simp only [gate, push, List.getD_eq_getElem?_getD, List.getElem?_append]
  by_cases hlt : g < s.gates.length
  · simp [hlt, hlt.ne]
  · by_cases heq : g = s.gates.length
    · simp [heq]
    · have hout : s.gates.length ≤ g := Nat.le_of_not_lt hlt
      have hne : g - s.gates.length ≠ 0 := by omega
      simp [hlt, heq, hne]

theorem gate_of_length_le {g : Nat} (hg : s.gates.length ≤ g) : s.gate g = .new "" := by
  simp [gate, List.getD_eq_getElem?_getD, List.getElem?_eq_none hg]

structure Balanced (turn : Nat) (held : Nat → Nat) (placed : Nat → Waiter → Nat) : Prop where
  sound : s.Sound
  gates : ∀ g, (s.gate g).Balanced turn (held g) (placed g)

namespace Balanced

variable {s} {turn : Nat} {held held' : Nat → Nat} {placed placed' : Nat → Waiter → Nat} {g : Nat}

theorem later (hb : s.Balanced turn held placed) {turn' : Nat} (hle : turn ≤ turn') :
    s.Balanced turn' held placed :=
  ⟨hb.sound, fun g => (hb.gates g).later hle⟩

private theorem count_here (g : Nat) (v w : Waiter) : [(g, w)].count (g, v) = [w].count v := by
  simp [List.count_singleton]

/-- A gate whose ticket is held is a gate of the stack. -/
theorem lt_of_held (hb : s.Balanced turn held placed) (hg : 0 < held g) : g < s.gates.length := by
  by_contra hle
  have hone := (hb.gates g).one
  rw [s.gate_of_length_le (Nat.le_of_not_lt hle), TicketGate.size_new] at hone
  omega

/-- A gate at which somebody stands is a gate of the stack. -/
theorem lt_of_placed (hb : s.Balanced turn held placed) {w : Waiter} (hw : 0 < placed g w) :
    g < s.gates.length := by
  by_contra hle
  have hline := (hb.gates g).line w
  rw [s.gate_of_length_le (Nat.le_of_not_lt hle), TicketGate.line_new, List.count_nil] at hline
  omega

/-- The books balance after a change of one gate if they do for that gate. -/
theorem modify (hb : s.Balanced turn held placed) (hg : g < s.gates.length) {f : Gate → Gate}
    {turn' : Nat} (hle : turn ≤ turn') (hgate : (f (s.gate g)).Balanced turn' (held' g) (placed' g))
    (hheld : ∀ g', g' ≠ g → held' g' = held g') (hplaced : ∀ g', g' ≠ g → placed' g' = placed g') :
    (s.modifyGate g f).Balanced turn' held' placed' := by
  refine ⟨hb.sound.modifyGate g f, fun g' => ?_⟩
  by_cases heq : g' = g
  · subst heq
    rwa [s.gate_modifyGate_self hg]
  · rw [s.gate_modifyGate_ne heq, hheld g' heq, hplaced g' heq]
    exact (hb.gates g').later hle

/-- One of the tickets held is given back. -/
theorem release (hb : s.Balanced turn (fun g' => [g].count g' + held g') placed) :
    (s.modifyGate g TicketGate.release).Balanced turn held placed := by
  have hgate := hb.gates g
  simp only [List.count_singleton_self] at hgate
  refine hb.modify (hb.lt_of_held (g := g) (by simp only [List.count_singleton_self]; omega)) le_rfl
    hgate.release (fun g' hne => ?_) fun _ _ => rfl
  simp [Ne.symm hne]

/-- A waiter goes away. -/
theorem leave {w : Waiter}
    (hb : s.Balanced turn held fun g' v => [(g, w)].count (g', v) + placed g' v) :
    (s.modifyGate g (·.leave w)).Balanced turn held placed := by
  have hgate := hb.gates g
  simp only [count_here] at hgate
  refine hb.modify
    (hb.lt_of_placed (g := g) (w := w) (by simp only [List.count_singleton_self]; omega))
    le_rfl hgate.leave (fun _ _ => rfl)
    fun g' hne => ?_
  funext v
  simp [Ne.symm hne]

/-- A waiter collects the ticket that has been handed to it. -/
theorem collect {w : Waiter}
    (hb : s.Balanced turn held fun g' v => [(g, w)].count (g', v) + placed g' v) {gate : Gate}
    (hc : (s.gate g).collect? w = some gate) :
    (s.modifyGate g fun _ => gate).Balanced turn (fun g' => [g].count g' + held g') placed := by
  have hgate := hb.gates g
  simp only [count_here] at hgate
  refine hb.modify
    (hb.lt_of_placed (g := g) (w := w) (by simp only [List.count_singleton_self]; omega))
    le_rfl ?_ (fun g' hne => ?_)
    fun g' hne => ?_
  · simpa using hgate.collect hc
  · simp [Ne.symm hne]
  · funext v
    simp [Ne.symm hne]

/-- A newcomer takes the ticket or goes to the end of the line. -/
theorem join (hb : s.Balanced turn held placed) (hg : g < s.gates.length) (w : Waiter)
    (hw : w.turn = turn) :
    (((s.gate g).join w).1 = true ∧ (s.modifyGate g fun _ => ((s.gate g).join w).2).Balanced
        (turn + 1) (fun g' => [g].count g' + held g') placed) ∨
      (((s.gate g).join w).1 = false ∧ (s.modifyGate g fun _ => ((s.gate g).join w).2).Balanced
        (turn + 1) held fun g' v => [(g, w)].count (g', v) + placed g' v) := by
  rcases (hb.gates g).join w hw with ⟨htaken, hgate⟩ | ⟨hwait, hgate⟩
  · refine .inl ⟨htaken, hb.modify hg (Nat.le_succ _) ?_ (fun g' hne => ?_) fun _ _ => rfl⟩
    · simpa using hgate
    · simp [Ne.symm hne]
  · refine .inr ⟨hwait, hb.modify hg (Nat.le_succ _) ?_ (fun _ _ => rfl) fun g' hne => ?_⟩
    · simpa [count_here] using hgate
    · funext v
      simp [Ne.symm hne]

/-- A new prompt has its ticket in place. -/
theorem push (hb : s.Balanced turn held placed) (pipeline : Nat) (debugger : Bool) :
    (s.push pipeline debugger).Balanced turn held placed := by
  refine ⟨hb.sound.push pipeline debugger, fun g => ?_⟩
  have hgate := hb.gates g
  rw [gate_push]
  split
  next heq =>
    rw [s.gate_of_length_le heq.ge] at hgate
    exact ⟨hgate.one, hgate.line, hgate.orderly, hgate.sorted, hgate.recent⟩
  next => exact hgate

/-- A prompt that is opened with its ticket taken adds that one to the tickets held. -/
theorem pushLeased (hb : s.Balanced turn held placed) (pipeline : Nat) (debugger : Bool) :
    (s.pushLeased pipeline debugger).Balanced turn
      (fun g => [s.gates.length].count g + held g) placed := by
  have hpush := hb.push pipeline debugger
  have hself := hpush.gates s.gates.length
  rw [gate_push, if_pos rfl] at hself
  have hlt : s.gates.length < (s.push pipeline debugger).gates.length := by simp [PromptStack.push]
  refine hpush.modify (g := s.gates.length) hlt le_rfl ?_ (fun g' hne => ?_) fun _ _ => rfl
  · rw [gate_push, if_pos rfl, List.count_singleton_self]
    have hone := hself.one
    rw [TicketGate.size_new] at hone
    exact ⟨by rw [show held s.gates.length = 0 by omega]; rfl, hself.line,
      fun hne => absurd rfl hne, hself.sorted, hself.recent⟩
  · simp [Ne.symm hne]

theorem pop (hb : s.Balanced turn held placed) : s.pop.Balanced turn held placed :=
  ⟨hb.sound.pop, hb.gates⟩

end Balanced

end PromptStack

end SharedPrompt
