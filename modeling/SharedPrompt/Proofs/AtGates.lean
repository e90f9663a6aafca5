import SharedPrompt.Host.Leasing

/-!
# What is done at the gates

Standing in line for a ticket, taking one, giving one back and leaving a line all happen at the gates
of the prompts. Whoever is next is woken, and everything else of a host stays as it is.
-/

namespace SharedPrompt

namespace Host

/-- A change of a host that touches at most its gates, the turns drawn there and who has been
woken. -/
def AtGates (h h' : Host) : Prop :=
  ∃ gates nextTurn ready, h' = { h with stack := { h.stack with gates }, nextTurn, ready }

namespace AtGates

theorem refl (h : Host) : h.AtGates h := ⟨_, _, _, rfl⟩

theorem trans {a b c : Host} (hab : a.AtGates b) (hbc : b.AtGates c) : a.AtGates c := by
  obtain ⟨gates, nextTurn, ready, rfl⟩ := hab
  obtain ⟨gates', nextTurn', ready', rfl⟩ := hbc
  exact ⟨gates', nextTurn', ready', rfl⟩

/-- Whatever of a host does not depend on the gates, the turns and the woken stays. -/
theorem same {α : Type} {h h' : Host} (ha : h.AtGates h') (f : Host → α)
    (hf : ∀ gates nextTurn ready,
      f { h with stack := { h.stack with gates }, nextTurn, ready } = f h) : f h' = f h := by
  obtain ⟨gates, nextTurn, ready, rfl⟩ := ha
  exact hf gates nextTurn ready

end AtGates

variable (h : Host)

theorem atGates_modifyGate (g : Nat) (f : Gate → Gate) :
    h.AtGates { h with stack := h.stack.modifyGate g f } := ⟨_, _, _, rfl⟩

theorem atGates_wake (task : Nat) : h.AtGates (h.wake task) := by
  unfold wake
  split
  · exact .refl h
  · exact ⟨_, _, _, rfl⟩

theorem atGates_wakeWaiter (w : Option Waiter) : h.AtGates (h.wakeWaiter w) := by
  cases w with
  | none => exact .refl h
  | some w => exact h.atGates_wake w.task

theorem atGates_join (g me : Nat) :
    h.AtGates ((h.drawTurn me).2.joinGate g (h.drawTurn me).1).2 := ⟨_, _, _, rfl⟩

theorem atGates_collectGate {h k : Host} {g : Nat} {w : Waiter}
    (hc : h.collectGate? g w = some k) : h.AtGates k := by
  obtain ⟨gate, -, rfl⟩ := Option.map_eq_some_iff.1 hc
  exact h.atGates_modifyGate g _

theorem atGates_releaseGate (g : Nat) : h.AtGates (h.releaseGate g) :=
  (h.atGates_modifyGate g _).trans (atGates_wakeWaiter _ _)

theorem atGates_leaveGate (g : Nat) (w : Waiter) : h.AtGates (h.leaveGate g w) :=
  (h.atGates_modifyGate g _).trans (atGates_wakeWaiter _ _)

theorem atGates_releaseAll (gates : List Nat) : h.AtGates (gates.foldl releaseGate h) := by
  induction gates generalizing h with
  | nil => exact .refl h
  | cons g rest ih => exact (h.atGates_releaseGate g).trans (ih _)

theorem atGates_releasePermit (p : Permit) : h.AtGates (h.releasePermit p) :=
  h.atGates_releaseAll p.gates

end Host

namespace Leasing

variable (h : Host)

theorem atGates_step (me : Nat) (l : Leasing) : h.AtGates (l.step h me).1 := by
  cases l with
  | choose readLine => cases readLine <;> exact .refl h
  | ask g purpose =>
    have hjoin := h.atGates_join g me
    simp only [step]
    split <;> rename_i hr <;> rw [hr] at hjoin <;> exact hjoin
  | wait g w purpose =>
    simp only [step]
    split
    · exact Host.atGates_collectGate ‹_›
    · exact .refl h

theorem atGates_abandon (l : Leasing) : h.AtGates (l.abandon h) := by
  cases l with
  | choose readLine => exact .refl h
  | ask g purpose => exact h.atGates_releaseAll _
  | wait g w purpose => exact (h.atGates_leaveGate g w).trans (Host.atGates_releaseAll _ _)

end Leasing

end SharedPrompt
