import Mathlib.Logic.Relation
import Mathlib.Order.Nat
import SharedPrompt.Tokens

/-!
# Tokens and the tokens derived from them

Whatever happens to the tokens is made of five steps. No token is taken away or becomes unfired, and
a token that was derived stays with the one that it was derived from. So a token fires with its own
family and with no other.
-/

namespace SharedPrompt

namespace Tokens

open Relation

/-- A token by its name; one that has not been made is as good as new. -/
def get (ts : Tokens) (id : Nat) : Token := ts.all[id]?.getD .fresh

def derivedOf (ts : Tokens) (id : Nat) : List Nat := (ts.get id).derived

inductive Step : Tokens → Tokens → Prop where
  | new (ts : Tokens) : Step ts ts.new.2
  | derive (ts : Tokens) (id : Nat) : Step ts (ts.derive id).2
  | await (ts : Tokens) (id task : Nat) : Step ts (ts.await id task)
  | forget (ts : Tokens) (id task : Nat) : Step ts (ts.forget id task)
  | fire (ts : Tokens) (id : Nat) : Step ts (ts.fire id).1

abbrev Steps (a b : Tokens) : Prop := ReflTransGen Step a b

section
variable (ts : Tokens)

/-! ## One token after a change -/

theorem isFired_eq (id : Nat) : ts.isFired id = (ts.get id).fired := by
  rw [isFired, get]
  cases ts.all[id]? <;> rfl

theorem family_eq (id : Nat) : ts.family id = (ts.derivedOf id).reverse ++ [id] := by
  rw [family, derivedOf, get]
  cases ts.all[id]? <;> rfl

@[simp] theorem length_modify (id : Nat) (f : Token → Token) :
    (ts.modify id f).all.length = ts.all.length := by
  simp [modify]

theorem get_modify (id x : Nat) (f : Token → Token) :
    (ts.modify id f).get x = if id = x ∧ x < ts.all.length then f (ts.get x) else ts.get x := by
  simp only [modify, get, List.getElem?_modify]
  by_cases hlt : x < ts.all.length
  · by_cases hx : id = x <;> simp [hx, hlt]
  · simp [hlt]

theorem get_append (t : Token) (x : Nat) :
    get ⟨ts.all ++ [t]⟩ x = if x = ts.all.length then t else ts.get x := by
  simp only [get]
  by_cases hlt : x < ts.all.length
  · rw [List.getElem?_append_left hlt, if_neg hlt.ne]
  · by_cases hx : x = ts.all.length
    · simp [hx]
    · have hout : (ts.all ++ [t]).length ≤ x := by
        rw [List.length_append, List.length_singleton]
        omega
      rw [if_neg hx, List.getElem?_eq_none hout, List.getElem?_eq_none (Nat.le_of_not_lt hlt)]

theorem get_of_length_le {x : Nat} (hx : ts.all.length ≤ x) : ts.get x = .fresh := by
  rw [get, List.getElem?_eq_none hx]
  rfl

theorem lt_of_isFired {x : Nat} (hx : ts.isFired x = true) : x < ts.all.length := by
  by_contra hle
  rw [isFired_eq, ts.get_of_length_le (Nat.le_of_not_lt hle)] at hx
  cases hx

theorem isFired_new (x : Nat) : ts.new.2.isFired x = ts.isFired x := by
  rw [isFired_eq, new, get_append, isFired_eq]
  split
  next hx =>
    rw [hx, ts.get_of_length_le le_rfl]
  next => rfl

theorem derivedOf_new (c : Nat) : ts.new.2.derivedOf c = ts.derivedOf c := by
  rw [derivedOf, new, get_append]
  split
  next hc => rw [hc, derivedOf, ts.get_of_length_le le_rfl]
  next => rfl

theorem derivedOf_await (id task c : Nat) : (ts.await id task).derivedOf c = ts.derivedOf c := by
  rw [derivedOf, await, get_modify, derivedOf]
  split
  · split <;> rfl
  · rfl

theorem derivedOf_forget (id task c : Nat) : (ts.forget id task).derivedOf c = ts.derivedOf c := by
  rw [derivedOf, forget, get_modify, derivedOf]
  split <;> rfl

/-! ## Deriving -/

@[simp] theorem derive_fst (id : Nat) : (ts.derive id).1 = ts.all.length := by
  simp only [derive]
  split <;> rfl

@[simp] theorem length_derive (id : Nat) : (ts.derive id).2.all.length = ts.all.length + 1 := by
  simp only [derive]
  split <;> simp

/-- A new token has fired if the one that it is derived from has. -/
theorem isFired_derive (id x : Nat) : (ts.derive id).2.isFired x =
    if x = ts.all.length then ts.isFired id else ts.isFired x := by
  simp only [derive]
  split
  next hfired =>
    rw [isFired_eq, get_append, hfired]
    split
    · rfl
    · rw [isFired_eq]
  next hfired =>
    rw [isFired_eq, get_append, length_modify, get_modify]
    split
    · simpa [Token.fresh] using hfired
    · rw [isFired_eq]
      split <;> rfl

/-- It stays with that one, unless it has fired at once. -/
theorem derivedOf_derive (id x : Nat) : (ts.derive id).2.derivedOf x =
    if id = x ∧ x < ts.all.length ∧ ts.isFired id = false then ts.derivedOf x ++ [ts.all.length]
    else ts.derivedOf x := by
  have hout : ts.derivedOf ts.all.length = [] := by
    rw [derivedOf, ts.get_of_length_le le_rfl]
    rfl
  by_cases hfired : ts.isFired id = true
  · have hnot : ¬ (id = x ∧ x < ts.all.length ∧ ts.isFired id = false) := by simp [hfired]
    simp only [derive, if_pos hfired, if_neg hnot]
    rw [derivedOf, get_append]
    by_cases hx : x = ts.all.length
    · rw [if_pos hx, hx, hout]
    · rw [if_neg hx, derivedOf]
  · simp only [derive, if_neg hfired]
    rw [derivedOf, get_append, length_modify, get_modify]
    by_cases hx : x = ts.all.length
    · rw [if_pos hx, if_neg fun h => absurd h.2.1 (by omega), hx, hout]
      rfl
    · by_cases hin : id = x ∧ x < ts.all.length
      · rw [if_neg hx, if_pos hin, if_pos ⟨hin.1, hin.2, by simpa using hfired⟩]
        rfl
      · rw [if_neg hx, if_neg hin, if_neg fun h => hin ⟨h.1, h.2.1⟩, derivedOf]

/-! ## Firing -/

def mark (ts : Tokens) (id : Nat) : Tokens :=
  ts.modify id fun token => { token with fired := true, waiters := [] }

theorem isFired_mark (id x : Nat) :
    (ts.mark id).isFired x = true ↔ ts.isFired x = true ∨ id = x ∧ x < ts.all.length := by
  rw [isFired_eq, mark, get_modify, isFired_eq]
  by_cases hin : id = x ∧ x < ts.all.length <;> simp [hin]

theorem isFired_marks (ids : List Nat) (x : Nat) : (ids.foldl mark ts).isFired x = true ↔
    ts.isFired x = true ∨ x ∈ ids ∧ x < ts.all.length := by
  induction ids generalizing ts with
  | nil => simp
  | cons id ids ih =>
    rw [List.foldl_cons, ih, isFired_mark, mark, length_modify, List.mem_cons]
    grind

theorem derivedOf_marks (ids : List Nat) (x : Nat) :
    (ids.foldl mark ts).derivedOf x = ts.derivedOf x := by
  induction ids generalizing ts with
  | nil => rfl
  | cons id ids ih =>
    rw [List.foldl_cons, ih, derivedOf, mark, get_modify]
    split <;> rfl

theorem length_marks (ids : List Nat) : (ids.foldl mark ts).all.length = ts.all.length := by
  induction ids generalizing ts with
  | nil => rfl
  | cons id ids ih => rw [List.foldl_cons, ih, mark, length_modify]

theorem fire_fst (id : Nat) : (ts.fire id).1 = if ts.isFired id then ts else
    ((ts.family id).filter fun t => !ts.isFired t).foldl mark ts := by
  simp only [fire]
  split <;> rfl

/-- A token that fires takes its family with it, unless it has fired before. -/
theorem isFired_fire (id x : Nat) : (ts.fire id).1.isFired x = true ↔ ts.isFired x = true ∨
    ts.isFired id = false ∧ x ∈ ts.family id ∧ x < ts.all.length := by
  rw [fire_fst]
  by_cases hfired : ts.isFired id = true
  · simp [hfired]
  · rw [if_neg hfired, isFired_marks, List.mem_filter]
    grind

@[simp] theorem derivedOf_fire (id x : Nat) : (ts.fire id).1.derivedOf x = ts.derivedOf x := by
  rw [fire_fst]
  split
  · rfl
  · exact derivedOf_marks ts _ x

@[simp] theorem length_fire (id : Nat) : (ts.fire id).1.all.length = ts.all.length := by
  rw [fire_fst]
  split
  · rfl
  · exact length_marks ts _

/-- Waiting for a token and giving that up tells of no token that it has fired. -/
theorem isFired_await (id task x : Nat) : (ts.await id task).isFired x = ts.isFired x := by
  rw [isFired_eq, await, get_modify, isFired_eq]
  split
  · split <;> rfl
  · rfl

theorem isFired_forget (id task x : Nat) : (ts.forget id task).isFired x = ts.isFired x := by
  rw [isFired_eq, forget, get_modify, isFired_eq]
  split <;> rfl

end

/-! ## Any number of changes -/

variable {ts ts' : Tokens}

theorem Step.length_le (hs : Step ts ts') : ts.all.length ≤ ts'.all.length := by
  cases hs with
  | new => simp [Tokens.new]
  | derive id => rw [length_derive]; exact Nat.le_succ _
  | await id task => rw [Tokens.await, length_modify]
  | forget id task => rw [Tokens.forget, length_modify]
  | fire id => rw [length_fire]

theorem Step.isFired (hs : Step ts ts') {x : Nat} (hx : ts.isFired x = true) :
    ts'.isFired x = true := by
  have hlt := ts.lt_of_isFired hx
  cases hs with
  | new => rwa [isFired_eq, Tokens.new, get_append, if_neg hlt.ne, ← isFired_eq]
  | derive id => rwa [isFired_derive, if_neg hlt.ne]
  | await id task => rwa [isFired_await]
  | forget id task => rwa [isFired_forget]
  | fire id => exact (ts.isFired_fire id x).2 (.inl hx)

/-- A derived token is put with one other token, when it is made. -/
theorem Step.derivedOf (hs : Step ts ts') (c : Nat) : ts'.derivedOf c = ts.derivedOf c ∨
    ts'.derivedOf c = ts.derivedOf c ++ [ts.all.length] ∧ ts.all.length < ts'.all.length ∧
      ∀ c', c' ≠ c → ts'.derivedOf c' = ts.derivedOf c' := by
  cases hs with
  | new => exact .inl (ts.derivedOf_new c)
  | derive id =>
    by_cases hc : id = c ∧ c < ts.all.length ∧ ts.isFired id = false
    · right
      rw [derivedOf_derive, if_pos hc, length_derive]
      refine ⟨rfl, Nat.lt_succ_self _, fun c' hne => ?_⟩
      rw [derivedOf_derive, if_neg fun h => hne (h.1.symm.trans hc.1)]
    · left
      rw [derivedOf_derive, if_neg hc]
  | await id task => exact .inl (ts.derivedOf_await id task c)
  | forget id task => exact .inl (ts.derivedOf_forget id task c)
  | fire id => exact .inl (ts.derivedOf_fire id c)

theorem Steps.length_le (hs : Steps ts ts') : ts.all.length ≤ ts'.all.length := by
  induction hs with
  | refl => exact le_rfl
  | tail _ hlast ih => exact ih.trans hlast.length_le

theorem Steps.isFired (hs : Steps ts ts') {x : Nat} (hx : ts.isFired x = true) :
    ts'.isFired x = true := by
  induction hs with
  | refl => exact hx
  | tail _ hlast ih => exact hlast.isFired ih

theorem Steps.mem_derivedOf (hs : Steps ts ts') {c d : Nat} (hd : d ∈ ts.derivedOf c) :
    d ∈ ts'.derivedOf c := by
  induction hs with
  | refl => exact hd
  | tail _ hlast ih =>
    rcases hlast.derivedOf c with heq | ⟨heq, -⟩
    · rwa [heq]
    · rw [heq]
      exact List.mem_append_left _ ih

structure Parted (ts : Tokens) : Prop where
  lt : ∀ c, ∀ d ∈ ts.derivedOf c, d < ts.all.length
  one : ∀ c c' d, d ∈ ts.derivedOf c → d ∈ ts.derivedOf c' → c = c'

theorem Parted.step (hp : Parted ts) (hs : Step ts ts') : Parted ts' := by
  have hle := hs.length_le
  constructor
  · intro c d hd
    rcases hs.derivedOf c with heq | ⟨heq, hlt, -⟩
    · rw [heq] at hd
      exact (hp.lt c d hd).trans_le hle
    · rw [heq, List.mem_append, List.mem_singleton] at hd
      rcases hd with hd | rfl
      · exact (hp.lt c d hd).trans_le hle
      · exact hlt
  · intro c c' d hd hd'
    by_contra hne
    -- At most one of the two has got a new token.
    rcases hs.derivedOf c with heq | ⟨heq, -, hother⟩
    · rcases hs.derivedOf c' with heq' | ⟨heq', -, -⟩
      · rw [heq] at hd
        rw [heq'] at hd'
        exact hne (hp.one c c' d hd hd')
      · rw [heq] at hd
        rw [heq', List.mem_append, List.mem_singleton] at hd'
        rcases hd' with hd' | rfl
        · exact hne (hp.one c c' d hd hd')
        · exact lt_irrefl _ (hp.lt c _ hd)
    · rw [hother c' (Ne.symm hne)] at hd'
      rw [heq, List.mem_append, List.mem_singleton] at hd
      rcases hd with hd | rfl
      · exact hne (hp.one c c' d hd hd')
      · exact lt_irrefl _ (hp.lt c' _ hd')

theorem Parted.steps (hp : Parted ts) (hs : Steps ts ts') : Parted ts' := by
  induction hs with
  | refl => exact hp
  | tail _ hlast ih => exact ih.step hlast

/-- The tokens below `first` are derived from no others, and they take all tokens with them that are
derived from them. -/
structure Leads (ts : Tokens) (first : Nat) : Prop where
  late : ∀ c, ∀ d ∈ ts.derivedOf c, first ≤ d
  fired : ∀ c < first, ts.isFired c = true → ∀ d ∈ ts.derivedOf c, ts.isFired d = true

theorem Leads.step {first : Nat} (hl : Leads ts first) (hp : Parted ts)
    (hfirst : first ≤ ts.all.length) (hs : Step ts ts') : Leads ts' first := by
  constructor
  · intro c d hd
    rcases hs.derivedOf c with heq | ⟨heq, -, -⟩
    · rw [heq] at hd
      exact hl.late c d hd
    · rw [heq, List.mem_append, List.mem_singleton] at hd
      rcases hd with hd | rfl
      · exact hl.late c d hd
      · exact hfirst
  · intro c hc hfired d hd
    have hold (hfired : ts.isFired c = true) (hd : d ∈ ts.derivedOf c) : ts'.isFired d = true :=
      hs.isFired (hl.fired c hc hfired d hd)
    have hne : c ≠ ts.all.length := by omega
    cases hs with
    | new =>
      rw [isFired_new] at hfired
      rw [derivedOf_new] at hd
      exact hold hfired hd
    | derive id =>
      rw [isFired_derive, if_neg hne] at hfired
      rw [derivedOf_derive] at hd
      split at hd
      next hunfired =>
        -- A token that has fired gets no derived token any more.
        rw [hunfired.1, hfired] at hunfired
        cases hunfired.2.2
      next => exact hold hfired hd
    | await id task =>
      rw [isFired_await] at hfired
      rw [derivedOf_await] at hd
      exact hold hfired hd
    | forget id task =>
      rw [isFired_forget] at hfired
      rw [derivedOf_forget] at hd
      exact hold hfired hd
    | fire id =>
      rw [derivedOf_fire] at hd
      rcases (ts.isFired_fire id c).1 hfired with hfired | ⟨hunfired, hmem, -⟩
      · exact hold hfired hd
      · rw [family_eq, List.mem_append, List.mem_reverse, List.mem_singleton] at hmem
        rcases hmem with hmem | rfl
        · exact absurd (hl.late id c hmem) (by omega)
        · refine (ts.isFired_fire c d).2 (.inr ⟨hunfired, ?_, hp.lt c d hd⟩)
          rw [family_eq]
          exact List.mem_append_left _ (List.mem_reverse.2 hd)

theorem Leads.steps {first : Nat} (hl : Leads ts first) (hp : Parted ts)
    (hfirst : first ≤ ts.all.length) (hs : Steps ts ts') : Leads ts' first := by
  induction hs with
  | refl => exact hl
  | tail hinit hlast ih =>
    exact ih.step (hp.steps hinit) (hfirst.trans (Steps.length_le hinit)) hlast

end Tokens

end SharedPrompt
