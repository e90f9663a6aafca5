import Mathlib.Data.List.Nodup
import Mathlib.Data.List.Perm.Basic

/-!
# Lists with keys

Where no key stands twice, what is looked up, replaced or removed by its key is one entry of its list,
and the order of the entries makes no difference to what is found.
-/

namespace SharedPrompt

namespace Keyed

variable {ι : Type} {key : ι → Nat} {l : List ι} {x : ι}

/-- Where keys are not repeated, an entry is replaced and removed in its own place. -/
theorem split (hnd : (l.map key).Nodup) (hx : x ∈ l) :
    ∃ pre post, l = pre ++ x :: post ∧
      (∀ y, (l.map fun z => if key z = key x then y else z) = pre ++ y :: post) ∧
      l.filter (key · ≠ key x) = pre ++ post := by
  obtain ⟨pre, post, rfl⟩ := List.append_of_mem hx
  rw [List.map_append, List.map_cons, List.nodup_middle, List.nodup_cons, List.mem_append] at hnd
  have hpre : ∀ z ∈ pre, key z ≠ key x := fun z hz heq =>
    hnd.1 (.inl (heq ▸ List.mem_map_of_mem hz))
  have hpost : ∀ z ∈ post, key z ≠ key x := fun z hz heq =>
    hnd.1 (.inr (heq ▸ List.mem_map_of_mem hz))
  have hmap (y : ι) (m : List ι) (hm : ∀ z ∈ m, key z ≠ key x) :
      (m.map fun z => if key z = key x then y else z) = m := by
    conv_rhs => rw [← List.map_id m]
    exact List.map_congr_left fun z hz => if_neg (hm z hz)
  refine ⟨pre, post, rfl, fun y => ?_, ?_⟩
  · rw [List.map_append, List.map_cons, hmap y pre hpre, hmap y post hpost, if_pos rfl]
  · rw [List.filter_append, List.filter_cons_of_neg (by simp), List.filter_eq_self.2,
      List.filter_eq_self.2]
    · intro z hz
      simpa using hpost z hz
    · intro z hz
      simpa using hpre z hz

end Keyed

variable {κ α : Type} [BEq κ] [LawfulBEq κ] {l l' : List (κ × α)} {key : κ} {a : α}

/-- An entry that is looked up is in the list. -/
theorem mem_of_lookup (h : l.lookup key = some a) : (key, a) ∈ l := by
  obtain ⟨before, after, rfl, -⟩ := List.lookup_eq_some_iff.1 h
  exact List.mem_append_right before List.mem_cons_self

theorem lookup_eq_none_iff : l.lookup key = none ↔ key ∉ l.map Prod.fst := by
  rw [List.lookup_eq_none_iff, List.mem_map]
  constructor
  · rintro h ⟨p, hp, rfl⟩
    simpa using h p hp
  · intro h p hp
    simpa using fun heq => h ⟨p, hp, heq.symm⟩

theorem exists_lookup_iff : (∃ a, l.lookup key = some a) ↔ key ∈ l.map Prod.fst := by
  rw [← Option.isSome_iff_exists, ← Option.ne_none_iff_isSome, ne_eq, lookup_eq_none_iff, not_not]

theorem lookup_of_mem (hl : (l.map Prod.fst).Nodup) (h : (key, a) ∈ l) : l.lookup key = some a := by
  obtain ⟨b, hb⟩ := exists_lookup_iff.2 (List.mem_map_of_mem h)
  have heq := List.inj_on_of_nodup_map hl h (mem_of_lookup hb) rfl
  rw [hb, (Prod.mk.inj heq).2]

theorem lookup_eq_some_iff (hl : (l.map Prod.fst).Nodup) : l.lookup key = some a ↔ (key, a) ∈ l :=
  ⟨mem_of_lookup, lookup_of_mem hl⟩

/-- Where no key stands twice the order makes no difference. -/
theorem lookup_perm (h : l.Perm l') (hl : (l.map Prod.fst).Nodup) (key : κ) :
    l.lookup key = l'.lookup key := by
  have hl' : (l'.map Prod.fst).Nodup := (h.map Prod.fst).nodup_iff.1 hl
  cases hlookup : l.lookup key with
  | some a => exact (lookup_of_mem hl' (h.mem_iff.1 (mem_of_lookup hlookup))).symm
  | none =>
    rw [lookup_eq_none_iff] at hlookup
    exact (lookup_eq_none_iff.2 fun hmem => hlookup ((h.map Prod.fst).mem_iff.2 hmem)).symm

end SharedPrompt
