import SharedPrompt.Toml.Document
import SharedPrompt.Proofs.FieldLists

/-!
# No key stands twice

In the tree of a document no table has a key twice, at whatever depth: a statement that would give a
key once more makes the document unreadable.
-/

namespace SharedPrompt.Toml

inductive Node.Distinct : Node → Prop
  | str (s : String) : Distinct (.str s)
  | int (n : Int) : Distinct (.int n)
  | real (x : Real) : Distinct (.real x)
  | bool (b : Bool) : Distinct (.bool b)
  | moment (m : Moment) : Distinct (.moment m)
  | array {byHeaders : Bool} {items : List Node} (h : ∀ n ∈ items, n.Distinct) :
      Distinct (.array byHeaders items)
  | table {form : Form} {fields : List (String × Node)} (hkeys : (fields.map Prod.fst).Nodup)
      (h : ∀ f ∈ fields, f.2.Distinct) : Distinct (.table form fields)

structure Table.Distinct (t : Table) : Prop where
  keys : (t.map Prod.fst).Nodup
  below : ∀ f ∈ t, f.2.Distinct

theorem Node.Distinct.fields {form : Form} {t : Table} (h : (Node.table form t).Distinct) :
    Table.Distinct t := by
  cases h with
  | table hkeys h => exact ⟨hkeys, h⟩

theorem Node.Distinct.items {byHeaders : Bool} {items : List Node}
    (h : (Node.array byHeaders items).Distinct) : ∀ n ∈ items, n.Distinct := by
  cases h with
  | array h => exact h

namespace Table

variable {t t' : Table} {key : String} {n : Node}

theorem Distinct.node (h : t.Distinct) (form : Form) : (Node.table form t).Distinct :=
  .table h.keys h.below

theorem distinct_nil : Distinct [] := ⟨List.nodup_nil, fun _ hf => nomatch hf⟩

theorem Distinct.lookup (h : t.Distinct) (hn : t.lookup key = some n) : n.Distinct :=
  h.below _ (mem_of_lookup hn)

theorem mem_keys_put {name : String} (h : name ∈ (put key n t).map Prod.fst) :
    name = key ∨ name ∈ t.map Prod.fst := by
  induction t with
  | nil => exact .inl (List.mem_singleton.1 h)
  | cons f rest ih =>
    obtain ⟨k, m⟩ := f
    unfold put at h
    split at h
    next => exact .inr h
    next =>
      obtain rfl | h := List.mem_cons.1 h
      · exact .inr List.mem_cons_self
      · exact (ih h).imp_right (List.mem_cons_of_mem k)

theorem distinct_put (ht : t.Distinct) (hn : n.Distinct) (key : String) :
    Distinct (put key n t) := by
  induction t with
  | nil => exact ⟨List.nodup_singleton key, fun f hf => List.mem_singleton.1 hf ▸ hn⟩
  | cons f rest ih =>
    obtain ⟨k, m⟩ := f
    obtain ⟨hk, hrest⟩ := List.nodup_cons.1 ht.keys
    obtain ⟨hm, hbelow⟩ := List.forall_mem_cons.1 ht.below
    unfold put
    split
    next => exact ⟨ht.keys, List.forall_mem_cons.2 ⟨hn, hbelow⟩⟩
    next hne =>
      have hput := ih ⟨hrest, hbelow⟩
      refine ⟨List.nodup_cons.2 ⟨fun hmem => ?_, hput.keys⟩,
        List.forall_mem_cons.2 ⟨hm, hput.below⟩⟩
      exact (mem_keys_put hmem).elim hne hk

/-! ## What may be done to a table -/

def Keeps (f : Table → Option Table) : Prop := ∀ t t', t.Distinct → f t = some t' → t'.Distinct

variable {f : Table → Option Table}

/-- The table under a key is changed, or made. -/
private theorem Keeps.under (hf : Keeps f) {inner : Table} (form : Form) (ht : t.Distinct)
    (hinner : inner.Distinct)
    (h : ((f inner).map fun inner => put key (.table form inner) t) = some t') : t'.Distinct := by
  obtain ⟨changed, hchanged, rfl⟩ := Option.map_eq_some_iff.1 h
  exact distinct_put ht ((hf inner changed hinner hchanged).node form) key

theorem Keeps.last (hf : Keeps f) {items items' : List Node} (hitems : ∀ n ∈ items, n.Distinct)
    (h : inLast f items = some items') : ∀ n ∈ items', n.Distinct := by
  induction items using inLast.induct generalizing items' with
  | case1 => cases h
  | case2 form fields =>
    obtain ⟨changed, hchanged, rfl⟩ := Option.map_eq_some_iff.1 h
    have hfields := (hitems _ List.mem_cons_self).fields
    exact fun n hn => List.mem_singleton.1 hn ▸ (hf fields changed hfields hchanged).node form
  | case3 n rest hother ih =>
    rw [Table.inLast.eq_3 f n rest hother] at h
    obtain ⟨hn, hrest⟩ := List.forall_mem_cons.1 hitems
    obtain ⟨changed, hchanged, rfl⟩ := Option.map_eq_some_iff.1 h
    exact List.forall_mem_cons.2 ⟨hn, ih hrest hchanged⟩

private theorem Keeps.underItems (hf : Keeps f) {items : List Node} (ht : t.Distinct)
    (hitems : (Node.array true items).Distinct)
    (h : ((inLast f items).map fun items => put key (.array true items) t) = some t') :
    t'.Distinct := by
  obtain ⟨changed, hchanged, rfl⟩ := Option.map_eq_some_iff.1 h
  exact distinct_put ht (.array (hf.last hitems.items hchanged)) key

theorem keeps_assign (hn : n.Distinct) (path : List String) : Keeps (assign n path) := by
  induction path with
  | nil => intro t t' ht h; cases h
  | cons key rest ih =>
    intro t t' ht h
    cases rest with
    | nil =>
      rw [assign] at h
      split at h <;> cases h
      exact distinct_put ht hn key
    | cons next rest =>
      rw [assign] at h
      · split at h
        next => exact ih.under .dotted ht distinct_nil h
        next form inner hlookup =>
          split at h
          next => exact ih.under form ht (ht.lookup hlookup).fields h
          next => cases h
        next items hlookup =>
          split at h
          next => cases h
          next => exact ih.underItems ht (ht.lookup hlookup) h
        next => cases h
      · exact List.cons_ne_nil next rest

theorem keeps_reach {f : String → Table → Option Table} (hf : ∀ key, Keeps (f key))
    (path : List String) : Keeps (reach f path) := by
  induction path with
  | nil => intro t t' ht h; cases h
  | cons key rest ih =>
    intro t t' ht h
    cases rest with
    | nil => exact hf key t t' ht h
    | cons next rest =>
      rw [reach] at h
      · split at h
        next => exact ih.under .implied ht distinct_nil h
        next => cases h
        next form inner _ hlookup => exact ih.under form ht (ht.lookup hlookup).fields h
        next items hlookup => exact ih.underItems ht (ht.lookup hlookup) h
        next => cases h
      · exact List.cons_ne_nil next rest

theorem keeps_openTable (key : String) : Keeps (openTable key) := by
  intro t t' ht h
  unfold openTable at h
  split at h <;> cases h
  next => exact distinct_put ht (distinct_nil.node .header) key
  next inner hlookup => exact distinct_put ht ((ht.lookup hlookup).fields.node .header) key

theorem keeps_openItem (key : String) : Keeps (openItem key) := by
  intro t t' ht h
  have hitem : (Node.table .header []).Distinct := distinct_nil.node .header
  unfold openItem at h
  split at h <;> cases h
  next => exact distinct_put ht (.array fun n hn => List.mem_singleton.1 hn ▸ hitem) key
  next items hlookup =>
    refine distinct_put ht (.array fun n hn => ?_) key
    obtain hn | hn := List.mem_append.1 hn
    · exact (ht.lookup hlookup).items n hn
    · exact List.mem_singleton.1 hn ▸ hitem

theorem keeps_within (hf : Keeps f) (path : List String) : Keeps (within f path) := by
  induction path with
  | nil => exact hf
  | cons key rest ih =>
    intro t t' ht h
    rw [Table.within] at h
    split at h
    next form inner hlookup => exact ih.under form ht (ht.lookup hlookup).fields h
    next items hlookup => exact ih.underItems ht (ht.lookup hlookup) h
    next => cases h

end Table

def Statement.Distinct : Statement → Prop
  | header _ | item _ => True
  | assign _ n => n.Distinct

namespace Table

theorem keeps_build {list : List Statement} (h : ∀ s ∈ list, s.Distinct) (path : List String) :
    Keeps (build list path) := by
  induction list generalizing path with
  | nil =>
    rintro t t' ht ⟨⟩
    exact ht
  | cons s rest ih =>
    obtain ⟨hs, hrest⟩ := List.forall_mem_cons.1 h
    intro t t' ht hbuild
    cases s with
    | header path' =>
      obtain ⟨opened, hopened, hbuild⟩ := Option.bind_eq_some_iff.1 hbuild
      exact ih hrest path' opened t' (keeps_reach keeps_openTable path' t opened ht hopened) hbuild
    | item path' =>
      obtain ⟨opened, hopened, hbuild⟩ := Option.bind_eq_some_iff.1 hbuild
      exact ih hrest path' opened t' (keeps_reach keeps_openItem path' t opened ht hopened) hbuild
    | assign key n =>
      obtain ⟨changed, hchanged, hbuild⟩ := Option.bind_eq_some_iff.1 hbuild
      exact ih hrest path changed t' (keeps_within (keeps_assign hs key) path t changed ht hchanged)
        hbuild

end Table

/-! ## What is read -/

theorem distinct_word {cs : List Char} {n : Node} (h : word? cs = some n) : n.Distinct := by
  unfold word? at h
  split at h
  · cases h
    exact .bool true
  split at h
  · cases h
    exact .bool false
  rw [Option.orElse_eq_or, Option.orElse_eq_or] at h
  obtain h | ⟨-, h⟩ := Option.or_eq_some_iff.1 h
  · obtain ⟨i, -, rfl⟩ := Option.map_eq_some_iff.1 h
    exact .int i
  obtain h | ⟨-, h⟩ := Option.or_eq_some_iff.1 h
  · obtain ⟨x, -, rfl⟩ := Option.map_eq_some_iff.1 h
    exact .real x
  · obtain ⟨m, -, rfl⟩ := Option.map_eq_some_iff.1 h
    exact .moment m

theorem distinct_readWord {cs rest : List Char} {n : Node} (h : readWord? cs = some (n, rest)) :
    n.Distinct := by
  unfold readWord? at h
  dsimp only at h
  split at h <;>
  · obtain ⟨m, hm, heq⟩ := Option.map_eq_some_iff.1 h
    obtain ⟨rfl, -⟩ := Prod.mk.inj heq
    exact distinct_word hm

/-- What is read with some fuel has no key twice: a value, the items of an array, and the fields of
a table together with those before. -/
private structure ReadsDistinct (fuel : Nat) : Prop where
  node : ∀ depth cs n rest, node? fuel depth cs = some (n, rest) → n.Distinct
  items : ∀ depth cs list rest, items? fuel depth cs = some (list, rest) → ∀ n ∈ list, n.Distinct
  fields : ∀ depth t cs t' rest, Table.Distinct t → fields? fuel depth t cs = some (t', rest) →
    Table.Distinct t'

namespace ReadsDistinct

variable {fuel : Nat} (hfuel : ReadsDistinct fuel)

include hfuel

private theorem node_succ {depth : Nat} {cs rest : List Char} {n : Node}
    (h : node? (fuel + 1) depth cs = some (n, rest)) : n.Distinct := by
  unfold node? at h
  split at h
  · cases h
  · cases h
  · obtain ⟨start, -, h⟩ := Option.bind_eq_some_iff.1 h
    obtain ⟨⟨list, after⟩, hlist, h⟩ := Option.bind_eq_some_iff.1 h
    cases h
    exact .array (hfuel.items _ _ _ _ hlist)
  · obtain ⟨start, -, h⟩ := Option.bind_eq_some_iff.1 h
    obtain ⟨⟨t, after⟩, ht, h⟩ := Option.bind_eq_some_iff.1 h
    cases h
    exact (hfuel.fields _ _ _ _ _ Table.distinct_nil ht).node .inline
  · obtain ⟨⟨s, after⟩, -, h⟩ := Option.bind_eq_some_iff.1 h
    cases h
    exact .str _
  · obtain ⟨⟨s, after⟩, -, h⟩ := Option.bind_eq_some_iff.1 h
    cases h
    exact .str _
  · exact distinct_readWord h

private theorem items_succ {depth : Nat} {cs rest : List Char} {list : List Node}
    (h : items? (fuel + 1) depth cs = some (list, rest)) : ∀ n ∈ list, n.Distinct := by
  unfold items? at h
  split at h
  · cases h
    exact fun n hn => nomatch hn
  · obtain ⟨⟨n, after⟩, hn, h⟩ := Option.bind_eq_some_iff.1 h
    obtain ⟨next, -, h⟩ := Option.bind_eq_some_iff.1 h
    have hfirst : n.Distinct := hfuel.node _ _ _ _ hn
    split at h
    · cases h
      exact fun m hm => List.mem_singleton.1 hm ▸ hfirst
    · obtain ⟨start, -, h⟩ := Option.bind_eq_some_iff.1 h
      obtain ⟨⟨more, end_⟩, hmore, h⟩ := Option.bind_eq_some_iff.1 h
      cases h
      exact List.forall_mem_cons.2 ⟨hfirst, hfuel.items _ _ _ _ hmore⟩
    · cases h

private theorem fields_succ {depth : Nat} {t t' : Table} {cs rest : List Char} (ht : Table.Distinct t)
    (h : fields? (fuel + 1) depth t cs = some (t', rest)) : Table.Distinct t' := by
  unfold fields? at h
  split at h
  · cases h
    exact ht
  · obtain ⟨⟨key, afterKey⟩, -, h⟩ := Option.bind_eq_some_iff.1 h
    obtain ⟨start, -, h⟩ := Option.bind_eq_some_iff.1 h
    obtain ⟨⟨n, after⟩, hn, h⟩ := Option.bind_eq_some_iff.1 h
    obtain ⟨added, hadded, h⟩ := Option.bind_eq_some_iff.1 h
    obtain ⟨next, -, h⟩ := Option.bind_eq_some_iff.1 h
    have hnow : Table.Distinct added :=
      Table.keeps_assign (hfuel.node _ _ _ _ hn) key t added ht hadded
    split at h
    · cases h
      exact hnow
    · obtain ⟨start, -, h⟩ := Option.bind_eq_some_iff.1 h
      exact hfuel.fields _ _ _ _ _ hnow h
    · cases h

end ReadsDistinct

private theorem readsDistinct (fuel : Nat) : ReadsDistinct fuel := by
  induction fuel with
  | zero =>
    refine ⟨fun depth cs n rest h => ?_, fun depth cs list rest h => ?_,
      fun depth t cs t' rest _ h => ?_⟩
    · simp [node?] at h
    · simp [items?] at h
    · simp [fields?] at h
  | succ fuel ih =>
    exact ⟨fun _ _ _ _ h => ih.node_succ h, fun _ _ _ _ h => ih.items_succ h,
      fun _ _ _ _ _ ht h => ih.fields_succ ht h⟩

theorem distinct_statement {fuel : Nat} {cs rest : List Char} {s : Statement}
    (h : statement? fuel cs = some (s, rest)) : s.Distinct := by
  unfold statement? at h
  split at h
  · simp only [Option.bind_eq_bind, Option.bind_eq_some_iff, Option.some.injEq, Prod.mk.injEq] at h
    obtain ⟨_, -, _, -, _, -, _, -, rfl, -⟩ := h
    trivial
  · simp only [Option.bind_eq_bind, Option.bind_eq_some_iff, Option.some.injEq, Prod.mk.injEq] at h
    obtain ⟨_, -, _, -, _, -, rfl, -⟩ := h
    trivial
  · simp only [Option.bind_eq_bind, Option.bind_eq_some_iff, Option.some.injEq, Prod.mk.injEq] at h
    obtain ⟨_, -, _, -, ⟨n, _⟩, hn, _, -, rfl, -⟩ := h
    exact (readsDistinct fuel).node _ _ _ _ hn

theorem distinct_statements {fuel : Nat} {cs : List Char} {list : List Statement}
    (h : statements? fuel cs = some list) : ∀ s ∈ list, s.Distinct := by
  induction fuel generalizing cs list with
  | zero => cases h
  | succ fuel ih =>
    obtain ⟨start, -, h⟩ := Option.bind_eq_some_iff.1 h
    split at h
    · cases h
      exact fun s hs => nomatch hs
    · obtain ⟨⟨s, after⟩, hs, h⟩ := Option.bind_eq_some_iff.1 h
      obtain ⟨more, hmore, h⟩ := Option.bind_eq_some_iff.1 h
      cases h
      exact List.forall_mem_cons.2 ⟨distinct_statement hs, ih hmore⟩

/-- No document gives a key twice. -/
theorem Table.distinct_of_read {text : String} {t : Table} (h : Table.read? text = some t) :
    t.Distinct := by
  obtain ⟨list, hlist, h⟩ := Option.bind_eq_some_iff.1 h
  exact keeps_build (distinct_statements hlist) [] [] t distinct_nil h

end SharedPrompt.Toml
