import Mathlib.Data.List.Perm.Subperm
import Mathlib.Data.List.Sort
import SharedPrompt.TicketGate

/-!
# The line at a queue

The waiters of a queue that have not collected an item form one line, those that have been handed
an item at its head. Handing an item over leaves the line as it is, joining extends it at the end,
and a waiter that collects or leaves is taken out of it.
-/

namespace SharedPrompt

namespace WaitQueue

variable {ω α : Type}

def line (q : WaitQueue ω α) : List ω := q.handed.map (·.1) ++ q.waiting

def size (q : WaitQueue ω α) : Nat := q.items.length + q.handed.length

/-- No item is stored while somebody waits for one. -/
def Orderly (q : WaitQueue ω α) : Prop := q.waiting ≠ [] → q.items = []

@[simp] theorem line_put (q : WaitQueue ω α) (a : α) : (q.put a).line = q.line := by
  unfold put
  split
  next h => simp [line, h]
  next w rest h => simp [line, h]

@[simp] theorem size_put (q : WaitQueue ω α) (a : α) : (q.put a).size = q.size + 1 := by
  unfold put
  split <;> simp [size] <;> omega

theorem Orderly.put {q : WaitQueue ω α} (h : q.Orderly) (a : α) : (q.put a).Orderly := by
  unfold WaitQueue.put
  split
  next hw => intro hne; exact absurd hw hne
  next w rest hw =>
    intro _
    exact h (by simp [hw])

/-- Joining takes the oldest stored item, or else goes to the end of the line. -/
theorem join_cases (q : WaitQueue ω α) (w : ω) :
    (∃ a rest, q.items = a :: rest ∧ q.join w = (some a, { q with items := rest })) ∨
      (q.items = [] ∧ q.join w = (none, { q with waiting := q.waiting ++ [w] })) := by
  unfold join take?
  cases h : q.items with
  | nil => exact .inr ⟨rfl, rfl⟩
  | cons a rest => exact .inl ⟨a, rest, rfl, rfl⟩

variable [DecidableEq ω]

theorem handed?_isSome_iff {q : WaitQueue ω α} {w : ω} :
    (q.handed? w).isSome ↔ w ∈ q.handed.map (·.1) := by
  unfold handed?
  induction q.handed with
  | nil => simp
  | cons x rest ih =>
    obtain ⟨v, a⟩ := x
    by_cases h : w = v
    · simp [h]
    · simp [List.lookup_cons, beq_eq_false_iff_ne.2 h, h, ih]

private theorem eraseP_handed_fst (l : List (ω × α)) (w : ω) :
    (l.eraseP (·.1 = w)).map (·.1) = (l.map (·.1)).erase w := by
  induction l with
  | nil => rfl
  | cons x rest ih =>
    by_cases h : x.1 = w
    · simp [h]
    · simp [h, ih]

/-- Collecting takes the waiter and its item out of the books and nothing else. -/
theorem collect?_eq_some {q q' : WaitQueue ω α} {w : ω} {a : α} (h : q.collect? w = some (a, q')) :
    w ∈ q.handed.map (·.1) ∧ q'.items = q.items ∧ q'.waiting = q.waiting ∧
      q'.handed = q.handed.eraseP (·.1 = w) := by
  unfold collect? at h
  obtain ⟨b, hb, heq⟩ := Option.map_eq_some_iff.1 h
  obtain ⟨-, rfl⟩ := Prod.mk.inj heq
  exact ⟨handed?_isSome_iff.1 (by simp [hb]), rfl, rfl, rfl⟩

theorem line_collect {q q' : WaitQueue ω α} {w : ω} {a : α} (h : q.collect? w = some (a, q')) :
    q'.line = q.line.erase w := by
  obtain ⟨hmem, -, hwait, hhand⟩ := collect?_eq_some h
  rw [line, line, List.erase_append_left _ hmem, hwait, hhand, eraseP_handed_fst]

theorem size_collect {q q' : WaitQueue ω α} {w : ω} {a : α} (h : q.collect? w = some (a, q')) :
    q'.size + 1 = q.size := by
  obtain ⟨hmem, hitems, -, hhand⟩ := collect?_eq_some h
  obtain ⟨x, hx, hxw⟩ := List.mem_map.1 hmem
  have hlen : (q.handed.eraseP (·.1 = w)).length + 1 = q.handed.length := by
    rw [List.length_eraseP_of_mem hx (by simpa using hxw)]
    have := List.length_pos_of_mem hx
    omega
  simp only [size, hitems, hhand]
  omega

theorem Orderly.collect {q q' : WaitQueue ω α} {w : ω} {a : α} (ho : q.Orderly)
    (h : q.collect? w = some (a, q')) : q'.Orderly := by
  obtain ⟨-, hitems, hwait, -⟩ := collect?_eq_some h
  intro hne
  rw [hitems]
  exact ho (by rwa [hwait] at hne)

theorem collect?_eq_none {q : WaitQueue ω α} {w : ω} (h : q.collect? w = none) :
    w ∉ q.handed.map (·.1) := by
  intro hmem
  have hs := handed?_isSome_iff.2 hmem
  simp only [collect?, Option.map_eq_none_iff] at h
  simp [h] at hs

/-- Who is not in line has nothing to collect. -/
theorem collect?_of_not_mem {q : WaitQueue ω α} {w : ω} (h : w ∉ q.line) : q.collect? w = none := by
  cases hc : q.collect? w with
  | none => rfl
  | some r => exact absurd (List.mem_append_left _ (collect?_eq_some hc).1) h

/-- Nothing changes when somebody leaves who is not in line. -/
theorem leave_of_not_mem {q : WaitQueue ω α} {w : ω} (h : w ∉ q.line) : q.leave w = q := by
  rw [leave, collect?_of_not_mem h, List.erase_of_not_mem fun hmem => h (List.mem_append_right _ hmem)]

@[simp] theorem line_leave (q : WaitQueue ω α) (w : ω) : (q.leave w).line = q.line.erase w := by
  unfold leave
  split
  next a q' h => rw [line_put, line_collect h]
  next h => rw [line, line, List.erase_append_right _ (collect?_eq_none h)]

@[simp] theorem size_leave (q : WaitQueue ω α) (w : ω) : (q.leave w).size = q.size := by
  unfold leave
  split
  next a q' h => rw [size_put, size_collect h]
  next h => rfl

theorem Orderly.leave {q : WaitQueue ω α} (ho : q.Orderly) (w : ω) : (q.leave w).Orderly := by
  unfold WaitQueue.leave
  split
  next a q' h => exact (ho.collect h).put a
  next h =>
    intro hne
    refine ho fun hw => hne ?_
    simp [hw]

end WaitQueue

namespace TicketGate

variable {ω : Type}

def line (g : TicketGate ω) : List ω := g.tickets.line

/-- Whether the ticket lies in the gate or has been handed to somebody who has not collected it. -/
def size (g : TicketGate ω) : Nat := g.tickets.size

@[simp] theorem line_new (name : String) : (new name : TicketGate ω).line = [] := rfl

@[simp] theorem size_new (name : String) : (new name : TicketGate ω).size = 1 := rfl

@[simp] theorem line_release (g : TicketGate ω) : g.release.line = g.line := by
  simp [line, release]

@[simp] theorem size_release (g : TicketGate ω) : g.release.size = g.size + 1 := by
  simp [size, release]

/-- Nobody comes into a line but whoever joins it. -/
theorem mem_line_join {g : TicketGate ω} {v w : ω} (hv : v ∈ (g.join w).2.line) :
    v ∈ g.line ∨ v = w := by
  rcases g.tickets.join_cases w with ⟨a, rest, -, hr⟩ | ⟨-, hr⟩
  · simp only [join, hr] at hv
    exact .inl hv
  · simp only [join, hr, line, WaitQueue.line, ← List.append_assoc] at hv
    exact (List.mem_append.1 hv).imp_right List.mem_singleton.1

variable [DecidableEq ω]

theorem line_leave (g : TicketGate ω) (w : ω) : (g.leave w).line = g.line.erase w :=
  WaitQueue.line_leave _ w

theorem line_collect {g g' : TicketGate ω} {w : ω} (hc : g.collect? w = some g') :
    g'.line = g.line.erase w := by
  obtain ⟨⟨a, q⟩, hq, rfl⟩ := Option.map_eq_some_iff.1 hc
  exact WaitQueue.line_collect hq

end TicketGate

/-- The first in line is the first of all that have come who stands in line. -/
theorem find?_of_sublist {α : Type} {came line : List α} {p : α → Bool} (hcame : came.Nodup)
    (hsub : line.Sublist came) (hp : ∀ w ∈ came, p w = true ↔ w ∈ line) :
    came.find? p = line.head? := by
  cases line with
  | nil =>
    rw [List.head?_nil, List.find?_eq_none]
    intro v hv hpv
    cases (hp v hv).1 hpv
  | cons w rest =>
    obtain ⟨left, right, rfl, hmem, hrest⟩ := List.cons_sublist_iff.1 hsub
    obtain ⟨before, after, rfl⟩ := List.append_of_mem hmem
    rw [List.head?_cons, List.find?_eq_some_iff_append]
    refine ⟨(hp w (by simp)).2 List.mem_cons_self, before, after ++ right, by simp, fun v hv => ?_⟩
    -- Whoever else stands in line came after `w`.
    rw [Bool.not_eq_true', ← Bool.not_eq_true, hp v (by simp [hv]), List.mem_cons]
    simp only [List.append_assoc, List.cons_append, List.nodup_append, List.nodup_cons,
      List.mem_cons, List.mem_append] at hcame
    obtain ⟨-, -, hapart⟩ := hcame
    rintro (rfl | hv')
    · exact hapart v hv v (.inl rfl) rfl
    · exact hapart v hv v (.inr (.inr (hrest.subset hv'))) rfl

/-- Waiters that have drawn ever later turns are in the same order wherever they stand so. -/
theorem sublist_of_turns {α : Type} {turn : α → Nat} {l m : List α}
    (hl : l.Pairwise fun x y => turn x < turn y) (hm : m.Pairwise fun x y => turn x < turn y)
    (hsub : l ⊆ m) : l.Sublist m := by
  have : Std.Antisymm fun x y : α => turn x < turn y :=
    ⟨fun _ _ hxy hyx => absurd hxy (lt_asymm hyx)⟩
  have hnodup : l.Nodup := hl.imp fun hlt heq => by
    rw [heq] at hlt
    exact Nat.lt_irrefl _ hlt
  exact List.sublist_of_subperm_of_pairwise (hnodup.subperm hsub) hl hm

end SharedPrompt
