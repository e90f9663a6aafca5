import Mathlib.Data.String.Basic
import SharedPrompt.Proofs.KeyedLists
import SharedPrompt.Value

/-!
# Lists of fields

Fields that are put in their places one after another leave the last one under each key. A list of
fields in which the keys stand in order is determined by what is found in it.
-/

namespace SharedPrompt

namespace Fields

variable {α : Type} {l l' : List (String × α)}

def Sorted (l : List (String × α)) : Prop := (l.map Prod.fst).Pairwise (· < ·)

theorem sorted_nil : Sorted ([] : List (String × α)) := List.Pairwise.nil

theorem Sorted.nodup (h : Sorted l) : (l.map Prod.fst).Nodup := h.imp ne_of_lt

/-- A sorted list is determined by what is found in it. -/
theorem Sorted.ext (h : Sorted l) (h' : Sorted l') (hsame : ∀ key, l.lookup key = l'.lookup key) :
    l = l' := by
  have hmem (p : String × α) : p ∈ l ↔ p ∈ l' := by
    rw [← lookup_eq_some_iff h.nodup, hsame, lookup_eq_some_iff h'.nodup]
  have hperm : l.Perm l' :=
    (List.perm_ext_iff_of_nodup (List.Nodup.of_map _ h.nodup) (List.Nodup.of_map _ h'.nodup)).2 hmem
  have hsorted : l.Pairwise (·.1 < ·.1) := List.pairwise_map.1 h
  have hsorted' : l'.Pairwise (·.1 < ·.1) := List.pairwise_map.1 h'
  exact hperm.eq_of_pairwise (fun p q _ _ hpq hqp => absurd hpq hqp.asymm) hsorted hsorted'

end Fields

namespace Value

open Fields (Sorted)

theorem lookup_insertField (key : String) (v : Value) (fields : List (String × Value)) :
    (insertField key v fields).lookup key = some v := by
  induction fields with
  | nil => simp [insertField]
  | cons p rest ih =>
    obtain ⟨k, w⟩ := p
    unfold insertField
    split
    · simp
    · split
      · simp
      · rename_i hne
        have hkey : (key == k) = false := by simpa using hne
        rw [List.lookup_cons, hkey]
        exact ih

theorem lookup_insertField_of_ne {key name : String} (h : name ≠ key) (v : Value)
    (fields : List (String × Value)) :
    (insertField key v fields).lookup name = fields.lookup name := by
  have hkey : (name == key) = false := by simpa using h
  induction fields with
  | nil => simp [insertField, List.lookup_cons, hkey]
  | cons p rest ih =>
    obtain ⟨k, w⟩ := p
    unfold insertField
    split
    · simp [List.lookup_cons, hkey]
    · split
      · rename_i heq
        obtain rfl := heq
        simp [List.lookup_cons, hkey]
      · simp [List.lookup_cons, ih]

theorem mem_keys_insertField {key name : String} {v : Value} {fields : List (String × Value)}
    (h : name ∈ (insertField key v fields).map Prod.fst) :
    name = key ∨ name ∈ fields.map Prod.fst := by
  by_cases hname : name = key
  · exact .inl hname
  · obtain ⟨w, hw⟩ := exists_lookup_iff.2 h
    rw [lookup_insertField_of_ne hname] at hw
    exact .inr (exists_lookup_iff.1 ⟨w, hw⟩)

theorem sorted_insertField {fields : List (String × Value)} (h : Sorted fields) (key : String)
    (v : Value) : Sorted (insertField key v fields) := by
  induction fields with
  | nil => exact List.pairwise_singleton _ _
  | cons p rest ih =>
    obtain ⟨k, w⟩ := p
    obtain ⟨hk, hrest⟩ := List.pairwise_cons.1 h
    unfold insertField
    split
    next hlt =>
      refine List.pairwise_cons.2 ⟨fun name hname => ?_, h⟩
      obtain rfl | hname := List.mem_cons.1 hname
      · exact hlt
      · exact hlt.trans (hk name hname)
    next hnlt =>
      split
      next heq =>
        subst heq
        exact h
      next hne =>
        refine List.pairwise_cons.2 ⟨fun name hname => ?_, ih hrest⟩
        obtain rfl | hname := mem_keys_insertField hname
        · exact lt_of_le_of_ne (not_lt.1 hnlt) (Ne.symm hne)
        · exact hk name hname

def insertFields (fields more : List (String × Value)) : List (String × Value) :=
  more.foldl (fun acc f => insertField f.1 f.2 acc) fields

@[simp] theorem insertFields_nil (fields : List (String × Value)) : insertFields fields [] = fields :=
  rfl

theorem insertFields_append (fields more later : List (String × Value)) :
    insertFields fields (more ++ later) = insertFields (insertFields fields more) later :=
  List.foldl_append

/-- Under each key is the last of the new fields, or else what was there. -/
theorem lookup_insertFields (fields more : List (String × Value)) (key : String) :
    (insertFields fields more).lookup key = (more.reverse.lookup key).or (fields.lookup key) := by
  induction more generalizing fields with
  | nil => rfl
  | cons f more ih =>
    obtain ⟨name, v⟩ := f
    refine (ih (insertField name v fields)).trans ?_
    rw [List.reverse_cons, List.lookup_append, Option.or_assoc]
    congr 1
    by_cases hname : key = name
    · subst hname
      rw [lookup_insertField]
      simp
    · have hkey : (key == name) = false := by simpa using hname
      rw [lookup_insertField_of_ne hname]
      simp [List.lookup_cons, hkey]

theorem sorted_insertFields {fields : List (String × Value)} (h : Sorted fields)
    (more : List (String × Value)) : Sorted (insertFields fields more) := by
  induction more generalizing fields with
  | nil => exact h
  | cons f more ih => exact ih (sorted_insertField h f.1 f.2)

theorem lookup_insertFields_nil {more : List (String × Value)} (h : (more.map Prod.fst).Nodup)
    (key : String) : (insertFields [] more).lookup key = more.lookup key := by
  rw [lookup_insertFields, List.lookup_nil, Option.or_none]
  exact (lookup_perm (List.reverse_perm more).symm h key).symm

end Value

end SharedPrompt
