import Mathlib.Data.List.Induction
import Mathlib.Data.List.Nodup
import SharedPrompt.Registry

/-!
# What a registry holds

After any changes a registry holds one provider for each id that stands: the one that was registered
last under it. The ids are in the order in which they came to stand. An id that is registered again
keeps its place, and one that has been unregistered begins anew at the end.
-/

namespace SharedPrompt

namespace Registry

variable {α : Type}

/-! ## Putting a provider into a list -/

theorem ids_replace (id : String) (p : α) (l : List (String × α)) :
    (replace id p l).map (·.1) =
      if id ∈ l.map (·.1) then l.map (·.1) else l.map (·.1) ++ [id] := by
  induction l with
  | nil => rfl
  | cons e l ih =>
    obtain ⟨k, q⟩ := e
    by_cases hk : k = id
    · simp [replace, hk]
    · have hid : id ≠ k := Ne.symm hk
      simp only [replace, if_neg hk, List.map_cons, ih, List.mem_cons, hid, false_or]
      split <;> rfl

theorem mem_replace {id : String} {p : α} {l : List (String × α)} {e : String × α}
    (h : e ∈ replace id p l) : e = (id, p) ∨ e ∈ l := by
  induction l with
  | nil => exact .inl (List.mem_singleton.1 h)
  | cons d l ih =>
    obtain ⟨k, q⟩ := d
    by_cases hk : k = id
    · rw [replace, if_pos hk, List.mem_cons] at h
      exact h.imp (fun he => by rw [he, hk]) (List.mem_cons_of_mem _)
    · rw [replace, if_neg hk, List.mem_cons] at h
      obtain rfl | h := h
      · exact .inr List.mem_cons_self
      · exact (ih h).imp_right (List.mem_cons_of_mem _)

private theorem lookup_cons_eq (e : String × α) (l : List (String × α)) (k : String) :
    (e :: l).lookup k = if k = e.1 then some e.2 else l.lookup k := by
  rw [List.lookup_cons]
  by_cases hk : k = e.1
  · simp [hk]
  · simp [hk, beq_eq_false_iff_ne.2 hk]

theorem lookup_replace (id : String) (p : α) (l : List (String × α)) (k : String) :
    (replace id p l).lookup k = if k = id then some p else l.lookup k := by
  induction l with
  | nil => exact lookup_cons_eq (id, p) [] k
  | cons e l ih =>
    obtain ⟨j, q⟩ := e
    by_cases hj : j = id
    · rw [replace, if_pos hj, lookup_cons_eq, lookup_cons_eq, hj]
      split <;> rfl
    · rw [replace, if_neg hj, lookup_cons_eq, lookup_cons_eq, ih]
      by_cases hk : k = j
      · rw [if_pos hk, if_pos hk, if_neg (hk ▸ hj)]
      · rw [if_neg hk, if_neg hk]

theorem lookup_without (id : String) (l : List (String × α)) (k : String) :
    (l.filter (·.1 ≠ id)).lookup k = if k = id then none else l.lookup k := by
  induction l with
  | nil => simp
  | cons e l ih =>
    obtain ⟨j, q⟩ := e
    by_cases hj : j = id
    · rw [List.filter_cons_of_neg (by simpa using hj), ih, lookup_cons_eq, hj]
      split <;> rfl
    · rw [List.filter_cons_of_pos (by simpa using hj), lookup_cons_eq, lookup_cons_eq, ih]
      by_cases hk : k = j
      · rw [if_pos hk, if_pos hk, if_neg (hk ▸ hj)]
      · rw [if_neg hk, if_neg hk]

theorem mem_ids_iff (r : Registry α) (id : String) : id ∈ r.ids ↔ r.get? id ≠ none := by
  obtain ⟨l⟩ := r
  change id ∈ l.map (·.1) ↔ l.lookup id ≠ none
  induction l with
  | nil => simp
  | cons e l ih =>
    rw [List.map_cons, List.mem_cons, ih, lookup_cons_eq]
    split
    next hid => exact ⟨fun _ => Option.some_ne_none _, fun _ => .inl hid⟩
    next hid => exact or_iff_right hid

/-! ## Changes -/

inductive Change (α : Type) where
  | register (p : α)
  | unregister (id : String)

def Change.provider? : Change α → Option α
  | register p => some p
  | unregister _ => none

section
variable (idOf : α → String)

def Change.about : Change α → String
  | register p => idOf p
  | unregister id => id

/-- The registry after a change. An id that is not there cannot be unregistered. -/
def apply (r : Registry α) : Change α → Registry α
  | .register p => (r.register (idOf p) p).2
  | .unregister id =>
    match r.unregister id with
    | .ok (_, r) => r
    | .error _ => r

def run (r : Registry α) (changes : List (Change α)) : Registry α := changes.foldl (apply idOf) r

/-- The provider for which an id stands after some changes: it was registered last under the id,
which has not been unregistered since. -/
def standing? (past : List (Change α)) (id : String) : Option α :=
  (past.filter (·.about idOf = id)).getLast?.bind Change.provider?

/-- The id stands since change `n`: it did not stand before, and has not been unregistered since. -/
def StandsSince (past : List (Change α)) (id : String) (n : Nat) : Prop :=
  ∃ before p later, past = before ++ .register p :: later ∧ before.length = n ∧ idOf p = id ∧
    standing? idOf before id = none ∧ .unregister id ∉ later

end

variable {idOf : α → String} {past : List (Change α)} {r : Registry α}

theorem standing?_concat (past : List (Change α)) (c : Change α) (id : String) :
    standing? idOf (past ++ [c]) id =
      if c.about idOf = id then c.provider? else standing? idOf past id := by
  rw [standing?, List.filter_append]
  by_cases hc : c.about idOf = id <;> simp [hc, standing?]

theorem standing?_register (past : List (Change α)) (p : α) (id : String) :
    standing? idOf (past ++ [.register p]) id =
      if idOf p = id then some p else standing? idOf past id :=
  standing?_concat past (.register p) id

theorem standing?_unregister (past : List (Change α)) (id k : String) :
    standing? idOf (past ++ [.unregister id]) k =
      if id = k then none else standing? idOf past k :=
  standing?_concat past (.unregister id) k

theorem standsSince_concat (past : List (Change α)) (c : Change α) (id : String) (n : Nat) :
    StandsSince idOf (past ++ [c]) id n ↔ StandsSince idOf past id n ∧ c ≠ .unregister id ∨
      n = past.length ∧ (∃ p, c = .register p ∧ idOf p = id) ∧ standing? idOf past id = none := by
  constructor
  · rintro ⟨before, p, later, hpast, rfl, hid, habsent, hkept⟩
    induction later using List.reverseRecOn with
    | nil =>
      obtain ⟨rfl, hlast⟩ := List.append_inj' hpast rfl
      exact .inr ⟨rfl, ⟨p, (List.cons.inj hlast).1, hid⟩, habsent⟩
    | append_singleton later d _ =>
      rw [← List.cons_append, ← List.append_assoc] at hpast
      obtain ⟨rfl, hlast⟩ := List.append_inj' hpast rfl
      obtain ⟨rfl, -⟩ := List.cons.inj hlast
      rw [List.mem_append, not_or] at hkept
      exact .inl ⟨⟨before, p, later, rfl, rfl, hid, habsent, hkept.1⟩, fun hc =>
        hkept.2 (List.mem_singleton.2 hc.symm)⟩
  · rintro (⟨⟨before, p, later, rfl, rfl, hid, habsent, hkept⟩, hc⟩ | ⟨rfl, ⟨p, rfl, hid⟩, habsent⟩)
    · refine ⟨before, p, later ++ [c], by simp, rfl, hid, habsent, ?_⟩
      rw [List.mem_append, List.mem_singleton, not_or]
      exact ⟨hkept, Ne.symm hc⟩
    · exact ⟨past, p, [], rfl, rfl, hid, habsent, List.not_mem_nil⟩

theorem StandsSince.lt {id : String} {n : Nat} (h : StandsSince idOf past id n) :
    n < past.length := by
  obtain ⟨before, p, later, rfl, rfl, -⟩ := h
  simp

theorem StandsSince.standing {id : String} {n : Nat} (h : StandsSince idOf past id n) :
    standing? idOf past id ≠ none := by
  induction past using List.reverseRecOn with
  | nil => exact absurd h.lt (Nat.not_lt_zero n)
  | append_singleton past c ih =>
    obtain ⟨hold, hc⟩ | ⟨-, ⟨p, rfl, hid⟩, -⟩ := (standsSince_concat past c id n).1 h
    · cases c with
      | register p =>
        rw [standing?_register]
        split
        · exact Option.some_ne_none p
        · exact ih hold
      | unregister id' =>
        rw [standing?_unregister, if_neg fun hid => hc (congrArg Change.unregister hid)]
        exact ih hold
    · rw [standing?_register, if_pos hid]
      exact Option.some_ne_none p

/-- An id that stands does so since one change. -/
theorem exists_standsSince {id : String} (h : standing? idOf past id ≠ none) :
    ∃ n, StandsSince idOf past id n := by
  induction past using List.reverseRecOn with
  | nil => exact absurd rfl h
  | append_singleton past c ih =>
    cases c with
    | register p =>
      by_cases hbefore : standing? idOf past id = none
      · have hid : idOf p = id := by
          by_contra hne
          rw [standing?_register, if_neg hne] at h
          exact h hbefore
        exact ⟨past.length, (standsSince_concat ..).2 (.inr ⟨rfl, ⟨p, rfl, hid⟩, hbefore⟩)⟩
      · obtain ⟨n, hn⟩ := ih hbefore
        exact ⟨n, (standsSince_concat ..).2 (.inl ⟨hn, fun hc => by cases hc⟩)⟩
    | unregister id' =>
      rw [standing?_unregister] at h
      split at h
      next => exact absurd rfl h
      next hne =>
        obtain ⟨n, hn⟩ := ih h
        exact ⟨n, (standsSince_concat ..).2 (.inl ⟨hn, fun hc => hne (Change.unregister.inj hc)⟩)⟩

/-! ## What the entries reflect -/

structure Reflects (idOf : α → String) (past : List (Change α)) (r : Registry α) : Prop where
  keyed : ∀ e ∈ r.entries, idOf e.2 = e.1
  nodup : r.ids.Nodup
  get : ∀ id, r.get? id = standing? idOf past id
  order : r.ids.Pairwise fun a b => ∀ m n, StandsSince idOf past a m → StandsSince idOf past b n →
    m < n

namespace Reflects

theorem standing (h : r.Reflects idOf past) {id : String} :
    id ∈ r.ids ↔ standing? idOf past id ≠ none := by
  rw [mem_ids_iff, h.get]

/-- Nobody but an id that did not stand begins to stand. -/
theorem standsSince_of_mem (h : r.Reflects idOf past) {c : Change α} {id : String} {n : Nat}
    (hid : id ∈ r.ids) (hn : StandsSince idOf (past ++ [c]) id n) : StandsSince idOf past id n := by
  obtain ⟨hold, -⟩ | ⟨-, -, habsent⟩ := (standsSince_concat past c id n).1 hn
  · exact hold
  · exact absurd habsent (h.standing.1 hid)

theorem register (h : r.Reflects idOf past) (p : α) :
    (r.apply idOf (.register p)).Reflects idOf (past ++ [.register p]) := by
  have hids : (r.apply idOf (.register p)).ids =
      if idOf p ∈ r.ids then r.ids else r.ids ++ [idOf p] := ids_replace ..
  have horder : r.ids.Pairwise fun a b => ∀ m n, StandsSince idOf (past ++ [.register p]) a m →
      StandsSince idOf (past ++ [.register p]) b n → m < n :=
    h.order.imp_of_mem fun ha hb hlt m n hm hn =>
      hlt m n (h.standsSince_of_mem ha hm) (h.standsSince_of_mem hb hn)
  constructor
  · intro e he
    obtain rfl | he := mem_replace he
    · rfl
    · exact h.keyed e he
  · rw [hids]
    split
    · exact h.nodup
    next hnew =>
      exact List.nodup_append.2 ⟨h.nodup, List.nodup_singleton _, fun a ha b hb hab =>
        hnew (by rwa [← List.mem_singleton.1 hb, ← hab])⟩
  · intro id
    change (replace (idOf p) p r.entries).lookup id = _
    rw [lookup_replace, standing?_register]
    by_cases hid : id = idOf p
    · rw [if_pos hid, if_pos hid.symm]
    · rw [if_neg hid, if_neg (Ne.symm hid)]
      exact h.get id
  · rw [hids]
    split
    · exact horder
    next hnew =>
      refine List.pairwise_append.2 ⟨horder, List.pairwise_singleton _ _, ?_⟩
      intro a ha b hb m n hm hn
      rw [List.mem_singleton.1 hb] at hn
      have hbefore : m < past.length := (h.standsSince_of_mem ha hm).lt
      obtain ⟨hold, -⟩ | ⟨rfl, -⟩ := (standsSince_concat ..).1 hn
      · exact absurd (h.standing.2 hold.standing) hnew
      · exact hbefore

theorem unregister (h : r.Reflects idOf past) (id : String) :
    (r.apply idOf (.unregister id)).Reflects idOf (past ++ [.unregister id]) := by
  have hget (k : String) : standing? idOf (past ++ [.unregister id]) k =
      if k = id then none else r.get? k := by
    rw [standing?_unregister, h.get]
    by_cases hk : k = id
    · rw [if_pos hk, if_pos hk.symm]
    · rw [if_neg hk, if_neg (Ne.symm hk)]
  have horder : r.ids.Pairwise fun a b => ∀ m n, StandsSince idOf (past ++ [.unregister id]) a m →
      StandsSince idOf (past ++ [.unregister id]) b n → m < n :=
    h.order.imp_of_mem fun ha hb hlt m n hm hn =>
      hlt m n (h.standsSince_of_mem ha hm) (h.standsSince_of_mem hb hn)
  rw [apply]
  cases hr : r.get? id with
  | none =>
    simp only [Registry.unregister, hr]
    refine ⟨h.keyed, h.nodup, fun k => ?_, horder⟩
    rw [hget]
    split
    next hk => rw [hk, hr]
    next => rfl
  | some p =>
    simp only [Registry.unregister, hr]
    have hsub : (r.entries.filter (·.1 ≠ id)).Sublist r.entries := List.filter_sublist
    refine ⟨fun e he => h.keyed e (hsub.subset he), h.nodup.sublist (hsub.map _), fun k => ?_,
      horder.sublist (hsub.map _)⟩
    rw [hget]
    exact lookup_without id r.entries k

theorem concat (h : r.Reflects idOf past) (c : Change α) :
    (r.apply idOf c).Reflects idOf (past ++ [c]) := by
  cases c with
  | register p => exact h.register p
  | unregister id => exact h.unregister id

theorem empty : (Registry.empty : Registry α).Reflects idOf [] where
  keyed _ he := absurd he List.not_mem_nil
  nodup := List.nodup_nil
  get _ := rfl
  order := .nil

theorem run (idOf : α → String) (past : List (Change α)) :
    ((Registry.empty : Registry α).run idOf past).Reflects idOf past := by
  induction past using List.reverseRecOn with
  | nil => exact .empty
  | append_singleton past c ih =>
    rw [Registry.run, List.foldl_append]
    exact ih.concat c

theorem ids_eq (h : r.Reflects idOf past) : r.providers.map idOf = r.ids := by
  rw [providers, ids, List.map_map]
  exact List.map_congr_left h.keyed

theorem get?_eq_find? (h : r.Reflects idOf past) (id : String) :
    r.get? id = r.providers.find? (idOf · = id) := by
  obtain ⟨l⟩ := r
  have hkeyed := h.keyed
  change l.lookup id = (l.map (·.2)).find? (idOf · = id)
  clear h
  induction l with
  | nil => rfl
  | cons e l ih =>
    obtain ⟨he, hl⟩ := List.forall_mem_cons.1 hkeyed
    rw [lookup_cons_eq, List.map_cons, List.find?_cons, he, ih hl]
    by_cases hid : id = e.1
    · simp [hid]
    · simp [hid, Ne.symm hid]

/-- A provider is listed if it is found under its id. -/
theorem mem_providers (h : r.Reflects idOf past) {p : α} :
    p ∈ r.providers ↔ r.get? (idOf p) = some p := by
  rw [h.get?_eq_find?]
  constructor
  · intro hp
    have hdistinct : (r.providers.map idOf).Nodup := by
      rw [h.ids_eq]
      exact h.nodup
    obtain ⟨q, hq⟩ : ∃ q, r.providers.find? (idOf · = idOf p) = some q :=
      Option.isSome_iff_exists.1 (List.find?_isSome.2 ⟨p, hp, decide_eq_true rfl⟩)
    have hid : idOf q = idOf p := by simpa using List.find?_some hq
    rw [hq, List.inj_on_of_nodup_map hdistinct (List.mem_of_find?_eq_some hq) hp hid]
  · exact List.mem_of_find?_eq_some

end Reflects

/-! ## The whole -/

/-- A registry lists the providers that stand after some changes, in the order in which their ids
came to stand. -/
structure Lists (idOf : α → String) (past : List (Change α)) (r : Registry α) : Prop where
  distinct : (r.providers.map idOf).Nodup
  standing : ∀ p, p ∈ r.providers ↔ standing? idOf past (idOf p) = some p
  since : ∀ p ∈ r.providers, ∃ n, StandsSince idOf past (idOf p) n
  order : r.providers.Pairwise fun p q => ∀ m n, StandsSince idOf past (idOf p) m →
    StandsSince idOf past (idOf q) n → m < n
  /-- A registration tells whether the id did not stand. -/
  registers : ∀ p, (r.register (idOf p) p).1 = true ↔ standing? idOf past (idOf p) = none
  /-- The provider that stands is handed back when its id is unregistered. -/
  unregisters : ∀ id p, standing? idOf past id = some p →
    r.unregister id = .ok (p, r.apply idOf (.unregister id))
  /-- For an id that does not stand there is a fault, and nothing changes. -/
  refuses : ∀ id, standing? idOf past id = none →
    r.unregister id = .error (.notRegistered id) ∧ r.apply idOf (.unregister id) = r
  get : ∀ id, r.get? id = r.providers.find? (idOf · = id)
  size : r.size = r.providers.length
  isEmpty : r.isEmpty = r.providers.isEmpty

/-- Whatever has been registered and unregistered, a registry lists what stands. -/
theorem lists_standing (idOf : α → String) (past : List (Change α)) :
    ((empty : Registry α).run idOf past).Lists idOf past := by
  have h := Reflects.run idOf past
  generalize (empty : Registry α).run idOf past = r at h
  exact {
    distinct := by
      rw [h.ids_eq]
      exact h.nodup
    standing := fun p => by rw [h.mem_providers, h.get]
    since := fun p hp => by
      refine exists_standsSince (h.standing.1 ?_)
      rw [← h.ids_eq]
      exact List.mem_map_of_mem hp
    order := by
      have horder := h.order
      rw [← h.ids_eq] at horder
      exact List.pairwise_map.1 horder
    registers := fun p => by
      rw [register, Option.isNone_iff_eq_none, h.get]
    unregisters := fun id p hp => by
      rw [← h.get] at hp
      simp only [apply, unregister, hp]
    refuses := fun id hnone => by
      rw [← h.get] at hnone
      simp only [apply, unregister, hnone, and_self]
    get := h.get?_eq_find?
    size := (List.length_map _).symm
    isEmpty := by
      obtain ⟨l⟩ := r
      cases l <;> rfl }

/-- Replacing a provider keeps its place, and coming back does not. -/
example : ((empty : Registry (String × Nat)).run Prod.fst [.register ("a", 1), .register ("b", 2),
    .register ("a", 3), .register ("c", 4), .unregister "b", .register ("b", 5)]).providers =
      [("a", 3), ("c", 4), ("b", 5)] := by decide

end Registry

end SharedPrompt
