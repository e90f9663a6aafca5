import SharedPrompt.Proofs.Balance
import SharedPrompt.Proofs.Dealings

/-!
# Turns at the idle slot

The calls for idle moments take turns. Only the call whose turn it is has a request in the slot, and
it has the turn until it returns or goes away.
-/

namespace SharedPrompt

namespace Stake

def turns : Stake → Nat
  | call _ (.install _) => 1
  | call _ (.parked _ _) => 1
  | _ => 0

def places : Stake → List Waiter
  | call _ (.queued w _) => [w]
  | _ => []

def holders (s : Multiset Stake) : Nat := (s.map turns).sum

def placed (s : Multiset Stake) (w : Waiter) : Nat := (s.map fun x => x.places.count w).sum

variable (x : Stake) (s : Multiset Stake)

theorem holders_singleton_add : holders ({x} + s) = x.turns + holders s := by simp [holders]

theorem placed_singleton_add : placed ({x} + s) = fun w => x.places.count w + placed s w := by
  funext w
  simp [placed]

variable {x s} in
theorem turns_le (hx : x ∈ s) : x.turns ≤ holders s := by
  obtain ⟨t, rfl⟩ := Multiset.exists_cons_of_mem hx
  rw [← Multiset.singleton_add, holders_singleton_add]
  exact Nat.le_add_right _ _

end Stake

/-- The gate of the turns is in balance with the calls, and the request in the slot is that of a
call. -/
structure InTurn (slot : IdleSlot) (turn : Nat) (s : Multiset Stake) : Prop where
  gate : slot.turn.Balanced turn (Stake.holders s) (Stake.placed s)
  pending : ∀ q, slot.pending = some q → ∃ t, Stake.call t (.parked q.id q.reply) ∈ s

namespace InTurn

variable {slot : IdleSlot} {turn : Nat} {s : Multiset Stake} {x : Stake} {t : Nat} {job : Job}

theorem nil : InTurn {} 0 0 := ⟨.new _ 0, fun q hq => by cases hq⟩

theorem later (hi : InTurn slot turn s) {turn' : Nat} (hle : turn ≤ turn') : InTurn slot turn' s :=
  ⟨hi.gate.later hle, hi.pending⟩

/-- It is the turn of one call at most. -/
theorem holders_le (hi : InTurn slot turn s) : Stake.holders s ≤ 1 := by
  have := hi.gate.one
  omega

/-- The request in the slot is that of the call whose turn it is. -/
theorem eq_of_pending (hi : InTurn slot turn ({x} + s)) (hx : x.turns = 1) {q : Parked}
    (hq : slot.pending = some q) : ∃ t, x = .call t (.parked q.id q.reply) := by
  obtain ⟨t, ht⟩ := hi.pending q hq
  rcases Multiset.mem_add.1 ht with ht | ht
  · exact ⟨t, (Multiset.mem_singleton.1 ht).symm⟩
  · have hle := hi.holders_le
    have hone : 1 ≤ Stake.holders s := Stake.turns_le ht
    rw [Stake.holders_singleton_add] at hle
    omega

private theorem mem_of_free (hx : x.turns = 0) {q : Parked}
    (hmem : Stake.call t (.parked q.id q.reply) ∈ {x} + s) :
    Stake.call t (.parked q.id q.reply) ∈ s := by
  refine (Multiset.mem_add.1 hmem).resolve_left fun heq => ?_
  rw [← Multiset.mem_singleton.1 heq] at hx
  cases hx

/-- Whoever waits for a turn is in the line. -/
theorem mem_line (hi : InTurn slot turn s) {w : Waiter} (hx : .call t (.queued w job) ∈ s) :
    w ∈ slot.turn.line := by
  obtain ⟨rest, rfl⟩ := Multiset.exists_cons_of_mem hx
  have hline := hi.gate.line w
  rw [← Multiset.singleton_add, Stake.placed_singleton_add] at hline
  exact List.count_pos_iff.1
    (hline ▸ Nat.add_pos_left (List.count_pos_iff.2 (List.mem_singleton_self w)) _)

/-! ## Stakes without a turn or a place -/

theorem addFree (hi : InTurn slot turn s) (hturns : x.turns = 0) (hplaces : x.places = []) :
    InTurn slot turn ({x} + s) where
  gate := by
    simpa only [Stake.holders_singleton_add, Stake.placed_singleton_add, hturns, hplaces,
      List.count_nil, zero_add] using hi.gate
  pending q hq := (hi.pending q hq).imp fun _ hmem => Multiset.mem_add.2 (.inr hmem)

theorem dropFree (hi : InTurn slot turn ({x} + s)) (hturns : x.turns = 0)
    (hplaces : x.places = []) : InTurn slot turn s where
  gate := by
    simpa only [Stake.holders_singleton_add, Stake.placed_singleton_add, hturns, hplaces,
      List.count_nil, zero_add] using hi.gate
  pending q hq := (hi.pending q hq).imp fun _ hmem => mem_of_free hturns hmem

/-! ## Changes -/

/-- A call is made: it has the turn at once, or waits for it. -/
theorem join (hi : InTurn slot turn s) (t : Nat) (job : Job) :
    ((slot.turn.join ⟨t, turn⟩).1 = true ∧
      InTurn { slot with turn := (slot.turn.join ⟨t, turn⟩).2 } (turn + 1)
        ({.call t (.install job)} + s)) ∨
      (slot.turn.join ⟨t, turn⟩).1 = false ∧
      InTurn { slot with turn := (slot.turn.join ⟨t, turn⟩).2 } (turn + 1)
        ({.call t (.queued ⟨t, turn⟩ job)} + s) := by
  have hpending (x : Stake) (q : Parked) (hq : slot.pending = some q) :
      ∃ t, Stake.call t (.parked q.id q.reply) ∈ {x} + s :=
    (hi.pending q hq).imp fun _ hmem => Multiset.mem_add.2 (.inr hmem)
  rcases hi.gate.join ⟨t, turn⟩ rfl with ⟨htaken, hgate⟩ | ⟨hwait, hgate⟩
  · refine .inl ⟨htaken, ?_, hpending _⟩
    rw [Stake.holders_singleton_add, Stake.placed_singleton_add]
    simpa only [Stake.turns, Stake.places, List.count_nil, zero_add] using hgate
  · refine .inr ⟨hwait, ?_, hpending _⟩
    rw [Stake.holders_singleton_add, Stake.placed_singleton_add]
    simpa only [Stake.turns, Stake.places, zero_add] using hgate

private theorem gate_queued {w : Waiter} (hi : InTurn slot turn ({.call t (.queued w job)} + s)) :
    slot.turn.Balanced turn (Stake.holders s) fun v => [w].count v + Stake.placed s v := by
  have hgate := hi.gate
  rw [Stake.holders_singleton_add, Stake.placed_singleton_add] at hgate
  simpa only [Stake.turns, Stake.places, zero_add] using hgate

/-- It is the turn of a call that has waited for it. -/
theorem collect {w : Waiter} (hi : InTurn slot turn ({.call t (.queued w job)} + s)) {gate : Gate}
    (hc : slot.turn.collect? w = some gate) :
    InTurn { slot with turn := gate } turn ({.call t (.install job)} + s) where
  gate := by
    rw [Stake.holders_singleton_add, Stake.placed_singleton_add]
    simpa only [Stake.turns, Stake.places, List.count_nil, zero_add] using (gate_queued hi).collect hc
  pending q hq := (hi.pending q hq).imp fun _ hmem =>
    Multiset.mem_add.2 (.inr (mem_of_free rfl hmem))

/-- A call that waits for its turn goes away. -/
theorem leave {w : Waiter} (hi : InTurn slot turn ({.call t (.queued w job)} + s)) :
    InTurn { slot with turn := slot.turn.leave w } turn s where
  gate := (gate_queued hi).leave
  pending q hq := (hi.pending q hq).imp fun _ hmem => mem_of_free rfl hmem

/-- The call whose turn it is leaves its request in the slot. -/
theorem park (hi : InTurn slot turn ({.call t (.install job)} + s)) (id ρ : Nat) (next : Nat) :
    InTurn { slot with pending := some ⟨id, job, ρ⟩, nextId := next } turn
      ({.call t (.parked id ρ)} + s) where
  gate := by
    have hgate := hi.gate
    rw [Stake.holders_singleton_add, Stake.placed_singleton_add] at hgate ⊢
    exact hgate
  pending q hq := by
    obtain rfl := Option.some.inj hq
    exact ⟨t, Multiset.mem_add.2 (.inl (Multiset.mem_singleton_self _))⟩

/-- The call whose turn it is goes away, and no request is left. -/
theorem release (hi : InTurn slot turn ({x} + s)) (hx : x.turns = 1) :
    InTurn { slot with pending := none, turn := slot.turn.release } turn s where
  gate := by
    have hgate := hi.gate
    rw [Stake.holders_singleton_add, Stake.placed_singleton_add, hx] at hgate
    have hplaces : x.places = [] := by
      cases x with
      | call t c => cases c <;> first | rfl | cases hx
      | await t ρ => rfl
    simp only [hplaces, List.count_nil, zero_add] at hgate
    exact hgate.release
  pending q hq := by cases hq

theorem unpark (hi : InTurn slot turn s) : InTurn { slot with pending := none } turn s :=
  ⟨hi.gate, fun q hq => by cases hq⟩

end InTurn

end SharedPrompt
