import SharedPrompt.Proofs.CrewRest
import Mathlib.Logic.Relation

/-!
# Settling

A crew that is let go on comes to rest, however much its workers have to do, and it comes to rest in
one way only: whatever turns lead it to a crew at rest, settling leads it there too.
-/

namespace SharedPrompt

namespace Crew

variable {c d : Crew}

theorem exists_step_of_next? (h : c.next? = some d) : ∃ name, c.step name = some d := by
  obtain ⟨w, -, hw⟩ := List.exists_of_findSome?_eq_some h
  exact ⟨w.name, hw⟩

theorem next?_eq_none_iff : c.next? = none ↔ c.Rests := by
  rw [next?, List.findSome?_eq_none_iff]
  constructor
  · intro h name
    cases hw : c.worker? name with
    | none => rw [step, hw, Option.bind_none]
    | some w =>
      rw [← name_of_worker? hw]
      exact h w (List.mem_of_find?_eq_some hw)
  · exact fun h w _ => h w.name

/-- The turns of the first worker that can go on. -/
def Steps : Crew → Crew → Prop := Relation.ReflTransGen fun c d => c.next? = some d

theorem Steps.head {e : Crew} (h : c.next? = some d) (hd : d.Steps e) : c.Steps e :=
  Relation.ReflTransGen.head h hd

theorem Steps.eq_of_rests (h : c.Steps d) (hc : c.next? = none) : d = c := by
  obtain rfl | ⟨e, he, -⟩ := Relation.ReflTransGen.cases_head h
  · rfl
  · rw [hc] at he
    cases he

theorem steps_proceed (c : Crew) (n : Nat) : c.Steps (c.proceed n) := by
  induction n generalizing c with
  | zero => exact .refl
  | succ n ih =>
    rw [proceed]
    cases hnext : c.next? with
    | none => exact .refl
    | some d => exact .head hnext (ih d)

theorem steps_rounds (c : Crew) (n : Nat) : c.Steps (c.rounds n) := by
  induction n generalizing c with
  | zero => exact .refl
  | succ n ih => exact (c.steps_proceed _).trans (ih _)

/-! ## How long it takes -/

theorem tally_map {α β : Type} (f : β → Nat) (g : α → β) (l : List α) :
    tally f (l.map g) = tally (fun a => f (g a)) l := by
  induction l with
  | nil => rfl
  | cons a l ih => rw [List.map_cons, tally, tally, ih]

private theorem sum_toFinset_le (l : List String) (g : String → Nat) :
    ∑ name ∈ l.toFinset, g name ≤ tally g l := by
  induction l with
  | nil => rfl
  | cons a l ih =>
    rw [List.toFinset_cons, tally]
    by_cases ha : a ∈ l.toFinset
    · rw [Finset.insert_eq_of_mem ha]
      omega
    · rw [Finset.sum_insert ha]
      omega

theorem total_le_count (c : Crew) (f : Worker → Nat) : c.total f ≤ c.count f := by
  have hle := sum_toFinset_le c.names fun name => (c.worker? name).elim 0 f
  rwa [names, tally_map] at hle

/-- So many turns take as many actions away, if they leave as much to do and the crew is not at
rest. -/
theorem lighter_proceed (c : Crew) (n : Nat) :
    (c.proceed n).next? = none ∨ (c.proceed n).load < c.load ∨
      (c.proceed n).load = c.load ∧ (c.proceed n).actions + n ≤ c.actions := by
  induction n generalizing c with
  | zero => exact .inr (.inr ⟨rfl, le_rfl⟩)
  | succ n ih =>
    rw [proceed]
    cases hnext : c.next? with
    | none => exact .inl hnext
    | some d =>
      obtain ⟨name, hstep⟩ := exists_step_of_next? hnext
      have hlighter : d.load < c.load ∨ d.load = c.load ∧ d.actions < c.actions :=
        lighter_step hstep
      obtain hrests | hload | ⟨hload, hactions⟩ := ih d
      · exact .inl hrests
      · exact .inr (.inl (by simp only [Option.elim_some]; omega))
      · refine .inr ?_
        simp only [Option.elim_some]
        omega

/-- A round leaves the crew at rest or with less to do. -/
theorem load_round (c : Crew) :
    (c.proceed (c.count Worker.actions + 1)).next? = none ∨
      (c.proceed (c.count Worker.actions + 1)).load < c.load := by
  have hle : c.actions ≤ c.count Worker.actions := c.total_le_count _
  obtain hrests | hload | ⟨-, hactions⟩ := c.lighter_proceed (c.count Worker.actions + 1)
  · exact .inl hrests
  · exact .inr hload
  · omega

theorem rests_rounds (c : Crew) (n : Nat) (h : c.next? = none ∨ c.load < n) :
    (c.rounds n).next? = none := by
  induction n generalizing c with
  | zero =>
    obtain h | h := h
    · exact h
    · omega
  | succ n ih =>
    refine ih _ ?_
    obtain h | h := h
    · left
      rwa [(c.steps_proceed _).eq_of_rests h]
    · exact c.load_round.imp_right fun hround => by omega

/-! ## Where it leads -/

theorem steps_settle (c : Crew) : c.Steps (c.settle patience) := c.steps_rounds _

/-- However much there is to do, a crew comes to rest. -/
theorem rests_settle (c : Crew) : (c.settle patience).next? = none :=
  c.rests_rounds _ (.inr (Nat.lt_succ_of_le (c.total_le_count _)))

/-- A crew comes to rest in one way only. -/
theorem settle_eq (h : c.Steps d) (hd : d.next? = none) : c.settle patience = d := by
  have hunique : Relator.RightUnique fun c d : Crew => c.next? = some d :=
    fun _ _ _ h h' => Option.some.inj (h.symm.trans h')
  obtain hon | hon := Relation.ReflTransGen.total_of_right_unique hunique c.steps_settle h
  · exact (Steps.eq_of_rests hon c.rests_settle).symm
  · exact Steps.eq_of_rests hon hd

end Crew

end SharedPrompt
