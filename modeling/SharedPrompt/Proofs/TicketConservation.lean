import SharedPrompt.Proofs.WellKept

/-!
# Tickets are neither lost nor made

Every gate has one ticket for ever. It lies in the gate, or has been handed to a call that waits for
it, or is held by a permit or by a call on its way to one. So no prompt stays leased when nobody is
left who could give its ticket back.
-/

namespace SharedPrompt

/-- The tickets of a gate that have been handed to a part and not been collected by it. -/
def Part.awarded (s : PromptStack) (g : Nat) (x : Part) : Nat :=
  x.places.countP fun p => p.1 = g ∧ ((s.gate g).tickets.handed? p.2).isSome

/-- An activation that works for a call, with the permit of that call or with one of its own. -/
def Activation.onBehalf : Activation → Bool
  | .errand _ _ => true
  | .serve _ => true
  | _ => false

namespace Host

def free (h : Host) (g : Nat) : Nat := (h.stack.gate g).tickets.items.length

def awarded (h : Host) (g : Nat) : Nat := (h.parts.map (Part.awarded h.stack g)).sum

/-- The tickets of a gate that are held by permits, and by calls on their way to one. -/
def held (h : Host) (g : Nat) : Nat := Part.held h.parts g

/-- Every call that uses prompts has ended or been dropped, and every permit has been given back. -/
structure AtRest (h : Host) : Prop where
  tasks : ∀ t ∈ h.tasks, Task.usesPrompts t.2 = false
  permits : h.permits = []
  threads : ∀ t ∈ h.threads, ∀ a ∈ t.stack, a.onBehalf = false

end Host

/-! ## Handed tickets -/

theorem Part.places_cases (x : Part) : x.places = [] ∨ ∃ p, x.places = [p] := by
  cases x with
  | lease l =>
    cases l with
    | wait g w purpose => exact .inr ⟨(g, w), rfl⟩
    | _ => exact .inl rfl
  | _ => exact .inl rfl

private theorem sum_count_place (p : Nat × Waiter) (g : Nat) (l : List Waiter) :
    (l.map fun w => [p].count (g, w)).sum = if p.1 = g then l.count p.2 else 0 := by
  induction l with
  | nil => simp
  | cons w rest ih =>
    obtain ⟨g', w'⟩ := p
    rw [List.map_cons, List.sum_cons, ih]
    by_cases hg : g' = g
    · by_cases hw : w' = w
      · simp [hg, hw, Nat.add_comm]
      · simp [hg, hw, Ne.symm hw]
    · simp [hg]

/-- Handed tickets counted over the parts are the places of those to whom they were handed. -/
theorem Part.sum_awarded {s : PromptStack} {g : Nat}
    (hnd : ((s.gate g).tickets.handed.map (·.1)).Nodup) (c : Multiset Part) :
    (c.map (Part.awarded s g)).sum =
      ((s.gate g).tickets.handed.map fun w => placed c g w.1).sum := by
  induction c using Multiset.induction_on with
  | empty => simp
  | cons x c ih =>
    have hx : x.awarded s g =
        ((s.gate g).tickets.handed.map fun w => x.places.count (g, w.1)).sum := by
      rcases x.places_cases with hnone | ⟨p, hp⟩
      · simp [Part.awarded, hnone]
      · have hsum := sum_count_place p g ((s.gate g).tickets.handed.map (·.1))
        rw [List.map_map] at hsum
        rw [Part.awarded, hp]
        refine Eq.trans ?_ hsum.symm
        rw [List.countP_singleton, hnd.count]
        by_cases hg : p.1 = g
        · simp only [hg, WaitQueue.handed?_isSome_iff, true_and, decide_eq_true_eq, if_true]
        · simp [hg]
    rw [Multiset.map_cons, Multiset.sum_cons, ih, hx, ← List.sum_map_add]
    congr 1
    refine List.map_congr_left fun w _ => ?_
    rw [← Multiset.singleton_add, placed_add, placed_singleton]

namespace Host.WellKept

variable {h : Host}

theorem awarded_eq (hk : h.WellKept) (g : Nat) :
    h.awarded g = (h.stack.gate g).tickets.handed.length := by
  have hgate := hk.balanced.books.gates g
  have hline : (h.stack.gate g).line.Nodup := hgate.sorted.imp fun hlt heq => by
    rw [heq] at hlt
    exact Nat.lt_irrefl _ hlt
  have hnd : ((h.stack.gate g).tickets.handed.map (·.1)).Nodup := (List.nodup_append.1 hline).1
  have hone : ∀ w ∈ (h.stack.gate g).tickets.handed, Part.placed h.parts g w.1 = 1 := fun w hw => by
    rw [← hgate.line w.1]
    exact List.count_eq_one_of_mem hline (List.mem_append_left _ (List.mem_map_of_mem hw))
  rw [Host.awarded, Part.sum_awarded hnd, List.map_congr_left hone]
  simp

/-- The ticket of a gate is in exactly one place. -/
theorem one_ticket (hk : h.WellKept) (g : Nat) : h.free g + h.awarded g + h.held g = 1 := by
  rw [hk.awarded_eq]
  exact (hk.balanced.books.gates g).one

/-- Of what a host has, only one part of two holds the ticket of a gate. -/
theorem not_both (hk : h.WellKept) {a b : Multiset Part} (hle : a + b ≤ h.parts) {g : Nat}
    (ha : 0 < Part.held a g) : Part.held b g = 0 := by
  have hheld := Part.held_mono g hle
  have hone := hk.one_ticket g
  rw [Part.held_add] at hheld
  simp only [Host.held] at hone
  omega

end Host.WellKept

/-! ## Nobody left -/

namespace Host.AtRest

variable {h : Host}

theorem parts_eq (hr : h.AtRest) : h.parts = 0 := by
  have htasks : (h.tasks.map fun t => t.2.parts).sum = 0 := by
    refine List.sum_eq_zero fun c hc => ?_
    obtain ⟨t, ht, rfl⟩ := List.mem_map.1 hc
    have huses := hr.tasks t ht
    cases hcall : t.2 with
    | key call => rfl
    | _ => simp [hcall, Host.Task.usesPrompts] at huses
  have hthreads : (h.threads.map fun t => Activation.partsOf t.stack).sum = 0 := by
    refine List.sum_eq_zero fun c hc => ?_
    obtain ⟨t, ht, rfl⟩ := List.mem_map.1 hc
    refine List.sum_eq_zero fun c hc => ?_
    obtain ⟨a, ha, rfl⟩ := List.mem_map.1 hc
    have hbehalf := hr.threads t ht a ha
    cases a with
    | serve phase => cases hbehalf
    | errand phase work => cases hbehalf
    | _ => rfl
  simp [Host.parts, Host.afield, htasks, hthreads, hr.permits]

theorem isLeased_eq_false (hr : h.AtRest) (hk : h.WellKept) (g : Nat) :
    h.stack.isLeased g = false := by
  have hone := hk.one_ticket g
  rw [Host.awarded, Host.held, hr.parts_eq, Multiset.map_zero, Multiset.sum_zero,
    Part.held_zero] at hone
  simp only [PromptStack.isLeased, TicketGate.isLeased, List.isEmpty_eq_false_iff]
  exact List.ne_nil_of_length_pos (by simp only [Host.free] at hone; omega)

end Host.AtRest

/-- Whatever happens to a host, each of its gates has its one ticket in one place: in the gate, on
its way to a call that waits for it, or in the hands of a permit or of a call on its way to one.
Once nobody is left who holds or wants a ticket, no prompt is leased, and none is busy but by a
lock or by what its pipeline reports. -/
theorem Host.tickets_conserved (native follows : Bool) (engine : Engine) (console : Console Waiter)
    (events : List Event) :
    let h := (Host.established native follows engine console).run events
    (∀ g < h.stack.gates.length, h.free g + h.awarded g + h.held g = 1) ∧
      (h.AtRest →
        (∀ g < h.stack.gates.length, h.stack.isLeased g = false) ∧
        h.lineBusy = false ∧
        (h.isLocked h.stack.top.pipeline = false →
          h.engine.running.contains h.stack.top.pipeline = false → h.mainBusy = false)) := by
  intro h
  have hk : h.WellKept := (WellKept.established native follows engine console).run events
  refine ⟨fun g _ => hk.one_ticket g, fun hr => ⟨fun g _ => hr.isLeased_eq_false hk g, ?_, ?_⟩⟩
  · exact hr.isLeased_eq_false hk _
  · intro hlocked hrunning
    simp only [mainBusy, hr.isLeased_eq_false hk, hlocked, hrunning, Bool.or_self]

/-- A reader waits behind a command and is dropped when the ticket has just been handed to it. -/
def Host.droppedReader : List Event :=
  [.start (.run ⟨.script "a", {}, 0, 0⟩ none), .poll 0 [], .poll 0 [], .poll 0 [], .poll 0 [],
    .start (.lease true), .poll 1 [], .poll 1 [], .advance 0, .advance 0, .advance 0, .advance 0,
    .advance 0, .advance 0, .drop 1, .advance 0, .advance 0, .poll 0 []]

theorem Host.tickets_conserved_droppedReader :
    let h := (Host.established true false {} {}).run droppedReader
    h.AtRest ∧ h.lineBusy = false ∧ h.mainBusy = false := by
  intro h
  have hrest : h.AtRest := ⟨by decide, rfl, by decide⟩
  have hfree := (tickets_conserved true false {} {} droppedReader).2 hrest
  exact ⟨hrest, hfree.2.1, hfree.2.2 rfl rfl⟩

end SharedPrompt
