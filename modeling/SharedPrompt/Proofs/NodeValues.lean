import SharedPrompt.Proofs.DistinctKeys

/-!
# What a node says

The value that a node of a document stands for, said without the function that reads it: a table says
an object with the same keys, in which each key has what the node under it says. The order of the keys
and the way in which a table is written make no difference.
-/

namespace SharedPrompt.Toml

open Number

namespace Node

def InRange (n : Int) : Prop := -9223372036854775808 ≤ n ∧ n ≤ 18446744073709551615

/-- The value that a node stands for. What is no finite number is null, and a moment is an object
that holds its text. -/
inductive Says : Node → Value → Prop
  | str (s : String) : Says (.str s) (.str s)
  | int {n : Int} (h : InRange n) : Says (.int n) (.int n)
  | decimal {digits : Nat} {exponent : Int} {x : Binary64}
      (h : Binary64.ofDecimal digits exponent = some x) (negative : Bool) :
      Says (.real (.decimal negative digits exponent)) (.float (if negative then x.negate else x))
  | infinite (negative : Bool) : Says (.real (.infinite negative)) .null
  | undefined : Says (.real .undefined) .null
  | bool (b : Bool) : Says (.bool b) (.bool b)
  | moment (m : Moment) : Says (.moment m) (.obj [(momentKey, .str m.text)])
  | array {byHeaders : Bool} {items : List Node} {vs : List Value} (hlength : items.length = vs.length)
      (h : ∀ (i : Nat) (n : Node) (v : Value), items[i]? = some n → vs[i]? = some v → n.Says v) :
      Says (.array byHeaders items) (.arr vs)
  | table {form : Form} {fields : List (String × Node)} {vs : List (String × Value)}
      (hsorted : Fields.Sorted vs) (hkeys : ∀ key, key ∈ fields.map Prod.fst ↔ key ∈ vs.map Prod.fst)
      (h : ∀ key n v, fields.lookup key = some n → vs.lookup key = some v → n.Says v) :
      Says (.table form fields) (.obj vs)

inductive Fits : Node → Prop
  | str (s : String) : Fits (.str s)
  | int {n : Int} (h : InRange n) : Fits (.int n)
  | decimal {digits : Nat} {exponent : Int} {x : Binary64}
      (h : Binary64.ofDecimal digits exponent = some x) (negative : Bool) :
      Fits (.real (.decimal negative digits exponent))
  | infinite (negative : Bool) : Fits (.real (.infinite negative))
  | undefined : Fits (.real .undefined)
  | bool (b : Bool) : Fits (.bool b)
  | moment (m : Moment) : Fits (.moment m)
  | array {byHeaders : Bool} {items : List Node} (h : ∀ n ∈ items, n.Fits) :
      Fits (.array byHeaders items)
  | table {form : Form} {fields : List (String × Node)} (h : ∀ f ∈ fields, f.2.Fits) :
      Fits (.table form fields)

/-- The same but for the order of the keys in a table and the way in which the table is written. -/
inductive Same : Node → Node → Prop
  | refl (n : Node) : Same n n
  | array {byHeaders byHeaders' : Bool} {items items' : List Node}
      (hlength : items.length = items'.length)
      (h : ∀ (i : Nat) (n n' : Node), items[i]? = some n → items'[i]? = some n' → n.Same n') :
      Same (.array byHeaders items) (.array byHeaders' items')
  | table {form form' : Form} {fields fields' : List (String × Node)}
      (hkeys : ∀ key, key ∈ fields.map Prod.fst ↔ key ∈ fields'.map Prod.fst)
      (h : ∀ key n n', fields.lookup key = some n → fields'.lookup key = some n' → n.Same n') :
      Same (.table form fields) (.table form' fields')

variable {n n' : Node} {v : Value}

/-! ## The function and what it reads -/

theorem items?_eq_some_iff {items : List Node} {vs : List Value} :
    items? items = some vs ↔ items.length = vs.length ∧
      ∀ (i : Nat) (n : Node) (v : Value),
        items[i]? = some n → vs[i]? = some v → n.value? = some v := by
  induction items generalizing vs with
  | nil => cases vs <;> simp [items?]
  | cons m rest ih =>
    cases vs with
    | nil => simp [items?, Option.bind_eq_some_iff]
    | cons w vs =>
      have hcons : items? (m :: rest) = some (w :: vs) ↔ m.value? = some w ∧ items? rest = some vs := by
        simp [items?, Option.bind_eq_some_iff]
      rw [hcons, ih]
      constructor
      · rintro ⟨hm, hlength, hrest⟩
        refine ⟨congrArg (· + 1) hlength, fun i n v hn hv => ?_⟩
        cases i with
        | zero =>
          cases hn
          cases hv
          exact hm
        | succ i => exact hrest i n v hn hv
      · rintro ⟨hlength, h⟩
        exact ⟨h 0 m w rfl rfl, Nat.succ.inj hlength, fun i n v hn hv => h (i + 1) n v hn hv⟩

theorem exists_items?_iff {items : List Node} :
    (∃ vs, items? items = some vs) ↔ ∀ n ∈ items, ∃ v, n.value? = some v := by
  induction items with
  | nil => exact ⟨fun _ n hn => (nomatch hn), fun _ => ⟨[], rfl⟩⟩
  | cons m rest ih =>
    rw [List.forall_mem_cons, ← ih]
    simp [items?, Option.bind_eq_some_iff]

theorem fields?_cons {key : String} {m : Node} {rest : List (String × Node)}
    {vs : List (String × Value)} : fields? ((key, m) :: rest) = some vs ↔
      ∃ w ws, m.value? = some w ∧ fields? rest = some ws ∧ (key, w) :: ws = vs := by
  simp [fields?, Option.bind_eq_some_iff]

/-- The fields of a table are read one by one. -/
theorem lookup_of_fields? {fields : List (String × Node)} {vs : List (String × Value)}
    (h : fields? fields = some vs) :
    vs.map Prod.fst = fields.map Prod.fst ∧
      ∀ key n v, fields.lookup key = some n → vs.lookup key = some v → n.value? = some v := by
  induction fields generalizing vs with
  | nil =>
    cases h
    exact ⟨rfl, fun key n v hn => nomatch hn⟩
  | cons f rest ih =>
    obtain ⟨name, m⟩ := f
    obtain ⟨w, ws, hw, hws, rfl⟩ := fields?_cons.1 h
    obtain ⟨hkeys, hrest⟩ := ih hws
    refine ⟨congrArg (name :: ·) hkeys, fun key n v hn hv => ?_⟩
    by_cases hkey : key = name
    · subst hkey
      obtain rfl : m = n := by simpa using hn
      obtain rfl : w = v := by simpa using hv
      exact hw
    · have hbeq : (key == name) = false := by simpa using hkey
      rw [List.lookup_cons, hbeq] at hn hv
      exact hrest key n v hn hv

theorem exists_fields?_iff {fields : List (String × Node)} :
    (∃ vs, fields? fields = some vs) ↔ ∀ f ∈ fields, ∃ v, f.2.value? = some v := by
  induction fields with
  | nil => exact ⟨fun _ f hf => (nomatch hf), fun _ => ⟨[], rfl⟩⟩
  | cons f rest ih =>
    obtain ⟨name, m⟩ := f
    rw [List.forall_mem_cons, ← ih]
    constructor
    · rintro ⟨vs, h⟩
      obtain ⟨w, ws, hw, hws, -⟩ := fields?_cons.1 h
      exact ⟨⟨w, hw⟩, ws, hws⟩
    · rintro ⟨⟨w, hw⟩, ws, hws⟩
      exact ⟨_, fields?_cons.2 ⟨w, ws, hw, hws, rfl⟩⟩

/-- An object with the same keys as a table, in order, has what is read from the table if and only if
it has under each key what is read there. -/
private theorem ofFields_iff {fields : List (String × Node)} (hkeys : (fields.map Prod.fst).Nodup) :
    (fields? fields).map Value.ofFields = some v ↔ ∃ vs, v = .obj vs ∧ Fields.Sorted vs ∧
      (∀ key, key ∈ fields.map Prod.fst ↔ key ∈ vs.map Prod.fst) ∧
      ∀ key n w, fields.lookup key = some n → vs.lookup key = some w → n.value? = some w := by
  have hread (ws : List (String × Value)) (hws : fields? fields = some ws) (key : String) :
      (Value.insertFields [] ws).lookup key = ws.lookup key :=
    Value.lookup_insertFields_nil ((lookup_of_fields? hws).1 ▸ hkeys) key
  constructor
  · rintro h
    obtain ⟨ws, hws, rfl⟩ := Option.map_eq_some_iff.1 h
    obtain ⟨hsame, hvalues⟩ := lookup_of_fields? hws
    refine ⟨Value.insertFields [] ws, rfl, Value.sorted_insertFields Fields.sorted_nil ws,
      fun key => ?_, fun key n w hn hw => hvalues key n w hn (hread ws hws key ▸ hw)⟩
    rw [← hsame, ← exists_lookup_iff, ← exists_lookup_iff, hread ws hws]
  · rintro ⟨vs, rfl, hsorted, hmem, hvalues⟩
    have hall : ∀ f ∈ fields, ∃ w, f.2.value? = some w := by
      intro f hf
      obtain ⟨w, hw⟩ := exists_lookup_iff.2 ((hmem f.1).1 (List.mem_map_of_mem hf))
      exact ⟨w, hvalues f.1 f.2 w ((lookup_eq_some_iff hkeys).2 hf) hw⟩
    obtain ⟨ws, hws⟩ := exists_fields?_iff.2 hall
    obtain ⟨hsame, hvalues'⟩ := lookup_of_fields? hws
    have heq : Value.insertFields [] ws = vs := by
      refine (Value.sorted_insertFields Fields.sorted_nil ws).ext hsorted fun key => ?_
      rw [hread ws hws]
      cases hn : fields.lookup key with
      | none =>
        rw [lookup_eq_none_iff] at hn
        rw [lookup_eq_none_iff.2 fun h => hn (hsame ▸ h),
          lookup_eq_none_iff.2 fun h => hn ((hmem key).2 h)]
      | some n =>
        have hkey := exists_lookup_iff.1 ⟨n, hn⟩
        obtain ⟨w, hw⟩ := exists_lookup_iff.2 ((hmem key).1 hkey)
        obtain ⟨w', hw'⟩ := exists_lookup_iff.2 (hsame ▸ hkey : key ∈ ws.map Prod.fst)
        rw [hw, hw', ← hvalues key n w hn hw, ← hvalues' key n w' hn hw']
    rw [hws, Option.map_some]
    exact congrArg (fun vs => some (Value.obj vs)) heq

/-- What is read from a node is what the node says. -/
theorem value?_eq_some_iff (hn : n.Distinct) : n.value? = some v ↔ n.Says v := by
  induction hn generalizing v with
  | str s =>
    constructor
    · rintro ⟨⟩
      exact .str s
    · rintro ⟨⟩
      rfl
  | int i =>
    constructor
    · intro h
      unfold value? at h
      split at h <;> cases h
      exact .int ‹_›
    · intro h
      cases h with
      | int h => exact if_pos h
  | real x =>
    constructor
    · intro h
      cases x with
      | decimal negative digits exponent =>
        obtain ⟨y, hy, rfl⟩ := Option.map_eq_some_iff.1 h
        exact .decimal hy negative
      | infinite negative =>
        cases h
        exact .infinite negative
      | undefined =>
        cases h
        exact .undefined
    · intro h
      cases h with
      | decimal hy negative => exact Option.map_eq_some_iff.2 ⟨_, hy, rfl⟩
      | infinite => rfl
      | undefined => rfl
  | bool b =>
    constructor
    · rintro ⟨⟩
      exact .bool b
    · rintro ⟨⟩
      rfl
  | moment m =>
    constructor
    · rintro ⟨⟩
      exact .moment m
    · rintro ⟨⟩
      rfl
  | array h ih =>
    rw [value?, Option.map_eq_some_iff]
    constructor
    · rintro ⟨vs, hvs, rfl⟩
      obtain ⟨hlength, hvalues⟩ := items?_eq_some_iff.1 hvs
      exact .array hlength fun i n v hi hv => (ih n (List.mem_of_getElem? hi)).1 (hvalues i n v hi hv)
    · intro hvalue
      cases hvalue with
      | array hlength hvalue =>
        exact ⟨_, items?_eq_some_iff.2
          ⟨hlength, fun i n v hi hv => (ih n (List.mem_of_getElem? hi)).2 (hvalue i n v hi hv)⟩, rfl⟩
  | table hkeys h ih =>
    rw [value?, ofFields_iff hkeys]
    constructor
    · rintro ⟨vs, rfl, hsorted, hmem, hvalues⟩
      exact .table hsorted hmem fun key n w hn hw =>
        (ih _ (mem_of_lookup hn)).1 (hvalues key n w hn hw)
    · intro hvalue
      cases hvalue with
      | table hsorted hmem hvalue =>
        exact ⟨_, rfl, hsorted, hmem, fun key n w hn hw =>
          (ih _ (mem_of_lookup hn)).2 (hvalue key n w hn hw)⟩

theorem Says.sorted {vs : List (String × Value)} (h : n.Says (.obj vs)) : Fields.Sorted vs := by
  cases h with
  | moment m => exact List.pairwise_singleton _ _
  | table hsorted => exact hsorted

/-- A node says something as long as all its numbers are in range. -/
theorem exists_value?_iff (hn : n.Distinct) : (∃ v, n.value? = some v) ↔ n.Fits := by
  induction hn with
  | str s => exact ⟨fun _ => .str s, fun _ => ⟨_, rfl⟩⟩
  | int i =>
    constructor
    · rintro ⟨v, h⟩
      unfold value? at h
      split at h
      next hrange => exact .int hrange
      next => cases h
    · intro h
      cases h with
      | int h => exact ⟨_, if_pos h⟩
  | real x =>
    cases x with
    | decimal negative digits exponent =>
      constructor
      · rintro ⟨v, h⟩
        obtain ⟨y, hy, -⟩ := Option.map_eq_some_iff.1 h
        exact .decimal hy negative
      · intro h
        cases h with
        | decimal hy => exact ⟨_, Option.map_eq_some_iff.2 ⟨_, hy, rfl⟩⟩
    | infinite negative => exact ⟨fun _ => .infinite negative, fun _ => ⟨_, rfl⟩⟩
    | undefined => exact ⟨fun _ => .undefined, fun _ => ⟨_, rfl⟩⟩
  | bool b => exact ⟨fun _ => .bool b, fun _ => ⟨_, rfl⟩⟩
  | moment m => exact ⟨fun _ => .moment m, fun _ => ⟨_, rfl⟩⟩
  | @array byHeaders items h ih =>
    have hread : (∃ v, (array byHeaders items).value? = some v) ↔ ∃ vs, items? items = some vs := by
      simp [value?]
    rw [hread, exists_items?_iff]
    constructor
    · exact fun hall => .array fun n hn => (ih n hn).1 (hall n hn)
    · intro hfits
      cases hfits with
      | array hall => exact fun n hn => (ih n hn).2 (hall n hn)
  | @table form fields hkeys h ih =>
    have hread : (∃ v, (table form fields).value? = some v) ↔ ∃ vs, fields? fields = some vs := by
      simp [value?]
    rw [hread, exists_fields?_iff]
    constructor
    · exact fun hall => .table fun f hf => (ih f hf).1 (hall f hf)
    · intro hfits
      cases hfits with
      | table hall => exact fun f hf => (ih f hf).2 (hall f hf)

/-! ## The order of the keys -/

theorem Same.symm (h : n.Same n') : n'.Same n := by
  induction h with
  | refl n => exact .refl n
  | array hlength _ ih => exact .array hlength.symm fun i n' n hn' hn => ih i n n' hn hn'
  | table hkeys _ ih =>
    exact .table (fun key => (hkeys key).symm) fun key n' n hn' hn => ih key n n' hn hn'

theorem Says.same (h : n.Same n') (hn : n.Says v) : n'.Says v := by
  induction h generalizing v with
  | refl n => exact hn
  | array hlength _ ih =>
    cases hn with
    | array hlength' hvalue =>
      refine .array (hlength.symm.trans hlength') fun i n' w hn' hw => ?_
      obtain ⟨hi, -⟩ := List.getElem?_eq_some_iff.1 hn'
      have hm := List.getElem?_eq_getElem (hlength ▸ hi)
      exact ih i _ n' hm hn' (hvalue i _ w hm hw)
  | table hkeys _ ih =>
    cases hn with
    | table hsorted hmem hvalue =>
      refine .table hsorted (fun key => (hkeys key).symm.trans (hmem key)) fun key n' w hn' hw => ?_
      obtain ⟨m, hm⟩ := exists_lookup_iff.2
        ((hkeys key).2 (exists_lookup_iff.1 ⟨n', hn'⟩))
      exact ih key m n' hm hn' (hvalue key m w hm hw)

theorem Same.eq_str {s : String} (h : Same (.str s) n') : n' = .str s := by
  cases h
  rfl

theorem Same.exists_table {form : Form} {fields : Table} (h : Same (.table form fields) n') :
    ∃ form' fields', n' = .table form' fields' := by
  cases h <;> exact ⟨_, _, rfl⟩

theorem Same.exists_array {byHeaders : Bool} {items : List Node}
    (h : Same (.array byHeaders items) n') : ∃ byHeaders' items', n' = .array byHeaders' items' := by
  cases h <;> exact ⟨_, _, rfl⟩

end Node

structure Table.Same (t t' : Table) : Prop where
  keys : ∀ key, key ∈ t.map Prod.fst ↔ key ∈ t'.map Prod.fst
  below : ∀ key n n', t.lookup key = some n → t'.lookup key = some n' → n.Same n'

theorem Node.Same.fields {form form' : Form} {t t' : Table}
    (h : (Node.table form t).Same (.table form' t')) : Table.Same t t' := by
  cases h with
  | refl => exact ⟨fun _ => Iff.rfl, fun key n n' hn hn' => Option.some.inj (hn.symm.trans hn') ▸ .refl n⟩
  | table hkeys h => exact ⟨hkeys, h⟩

namespace Table

variable {t t' : Table} {key : String} {n : Node}

theorem Same.node (h : t.Same t') (form form' : Form) : (Node.table form t).Same (.table form' t') :=
  .table h.keys h.below

theorem Same.symm (h : t.Same t') : t'.Same t :=
  ⟨fun key => (h.keys key).symm, fun key n' n hn' hn => (h.below key n n' hn hn').symm⟩

theorem Same.lookup (h : t.Same t') (hn : t.lookup key = some n) :
    ∃ n', t'.lookup key = some n' ∧ n.Same n' := by
  obtain ⟨n', hn'⟩ := exists_lookup_iff.2 ((h.keys key).1 (exists_lookup_iff.1 ⟨n, hn⟩))
  exact ⟨n', hn', h.below key n n' hn hn'⟩

theorem Same.lookup_none (h : t.Same t') (hn : t.lookup key = none) : t'.lookup key = none := by
  rw [lookup_eq_none_iff] at hn ⊢
  exact fun hmem => hn ((h.keys key).2 hmem)

/-- Tables are the same if each field of the one is a field of the other and there are no more. -/
theorem same_of_forall_mem (ht : (t.map Prod.fst).Nodup) (ht' : (t'.map Prod.fst).Nodup)
    (hlength : t.length = t'.length) (h : ∀ f ∈ t, ∃ n', (f.1, n') ∈ t' ∧ f.2.Same n') :
    t.Same t' := by
  have hsub : t.map Prod.fst ⊆ t'.map Prod.fst := by
    intro key hkey
    obtain ⟨f, hf, rfl⟩ := List.mem_map.1 hkey
    obtain ⟨n', hmem, -⟩ := h f hf
    exact List.mem_map.2 ⟨_, hmem, rfl⟩
  have hperm : (t.map Prod.fst).Perm (t'.map Prod.fst) :=
    (List.subperm_of_subset ht hsub).perm_of_length_le (by simp [hlength])
  refine ⟨fun key => hperm.mem_iff, fun key n n' hn hn' => ?_⟩
  obtain ⟨m, hm, hsame⟩ := h (key, n) (mem_of_lookup hn)
  obtain rfl := Option.some.inj (((lookup_eq_some_iff ht').2 hm).symm.trans hn')
  exact hsame

end Table

end SharedPrompt.Toml
