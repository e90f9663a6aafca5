import SharedPrompt.Proofs.NodeValues
import SharedPrompt.Settings

/-!
# Documents that settings are read from

Which documents have settings, and which settings these are, said for each field by itself: a field
that is there has what its node says, one that is not has its default, and nothing else may be there.
-/

namespace SharedPrompt

open Toml

def Settings.modeName (native : Bool) : String := if native then "native" else "legacy"

namespace Toml

inductive Node.IsEmpty : Node → Prop
  | table (form : Form) : IsEmpty (.table form [])
  | array (byHeaders : Bool) : IsEmpty (.array byHeaders [])

/-- A node tells how lines are read: it is the name of a way to read them, or a table with this name
as its only key and nothing under it. -/
inductive Node.SaysMode : Node → Bool → Prop
  | name (native : Bool) : SaysMode (.str (Settings.modeName native)) native
  | table {n : Node} (h : n.IsEmpty) (form : Form) (native : Bool) :
      SaysMode (.table form [(Settings.modeName native, n)]) native

def Table.under (t : Table) (key : String) : Table :=
  match t.lookup key with
  | some (.table _ fields) => fields
  | _ => []

theorem Table.Distinct.under {t : Table} {key : String} (ht : t.Distinct) :
    (t.under key).Distinct := by
  unfold Table.under
  split
  next hn => exact (ht.lookup hn).fields
  next => exact Table.distinct_nil

/-- The fields of the worker stand in a table, and there is nothing that is no field. -/
structure Table.Framed (t : Table) : Prop where
  keys : ∀ key ∈ t.map Prod.fst, key ∈ ["read_line", "background"]
  background : ∀ n, t.lookup "background" = some n → ∃ form fields, n = .table form fields
  backgroundKeys : ∀ key ∈ (t.under "background").map Prod.fst,
    key ∈ ["thread_name", "modules", "variables"]

structure Table.WellTyped (t : Table) : Prop extends Table.Framed t where
  mode : ∀ n, t.lookup "read_line" = some n → ∃ native, n.SaysMode native
  thread : ∀ n, (t.under "background").lookup "thread_name" = some n → ∃ name, n = .str name
  modules : ∀ n, (t.under "background").lookup "modules" = some n →
    ∃ byHeaders names, n = .array byHeaders (List.map .str names)
  /-- The variables stand in a table, or are a moment; the numbers among them are in range. -/
  bindings : ∀ n, (t.under "background").lookup "variables" = some n →
    ((∃ form fields, n = .table form fields) ∨ ∃ m, n = .moment m) ∧ n.Fits

end Toml

/-- A field has what its node says, and its default if it has none. -/
def FieldIs {α : Type} (tells : Node → α → Prop) (default : α) (field : Option Node) (a : α) : Prop :=
  match field with
  | some n => tells n a
  | none => a = default

structure BackgroundConfig.Of (t : Table) (b : BackgroundConfig) : Prop where
  thread : FieldIs (fun n name => n = .str name) WorkerOptions.threadName (t.lookup "thread_name")
    b.thread
  modules : FieldIs (fun n names => ∃ byHeaders, n = .array byHeaders (names.map .str)) []
    (t.lookup "modules") b.modules
  bindings : FieldIs (fun n vs => n.Says (.obj vs)) [] (t.lookup "variables") b.bindings

structure Settings.Of (t : Table) (s : Settings) : Prop where
  mode : FieldIs Node.SaysMode true (t.lookup "read_line") s.native
  background : s.background.Of (t.under "background")

namespace Settings

variable {n : Node}

/-! ## One field -/

theorem orElse_eq_some_iff {α : Type} {read : Node → Option α} {tells : Node → α → Prop} {default a : α}
    {field : Option Node} (h : ∀ n, field = some n → ∀ a, read n = some a ↔ tells n a) :
    orElse read default field = some a ↔ FieldIs tells default field a := by
  cases field with
  | none => exact ⟨fun heq => (Option.some.inj heq).symm, fun heq => congrArg some heq.symm⟩
  | some n => exact h n rfl a

theorem exists_fieldIs_iff {α : Type} {tells : Node → α → Prop} {default : α} {field : Option Node} :
    (∃ a, FieldIs tells default field a) ↔ ∀ n, field = some n → ∃ a, tells n a := by
  cases field with
  | none => exact ⟨fun _ n hn => (nomatch hn), fun _ => ⟨default, rfl⟩⟩
  | some n => exact ⟨fun h m hm => Option.some.inj hm ▸ h, fun h => h n rfl⟩

theorem isEmptyNode_iff : isEmptyNode n = true ↔ n.IsEmpty := by
  constructor
  · intro h
    unfold isEmptyNode at h
    split at h
    · exact .table _
    · exact .array _
    · cases h
  · rintro (_ | _) <;> rfl

theorem native?_eq_some_iff {native : Bool} : native? n = some native ↔ n.SaysMode native := by
  constructor
  · intro h
    have hname : modeName? n = some (modeName native) := by
      unfold native? at h
      split at h <;> cases h <;> assumption
    unfold modeName? at hname
    split at hname
    next => cases hname; exact .name native
    next form name m =>
      split at hname
      next hempty =>
        cases hname
        exact .table (isEmptyNode_iff.1 hempty) form native
      next => cases hname
    next => cases hname
  · rintro (_ | ⟨hempty, form⟩)
    · cases native <;> rfl
    · have hname : modeName? (.table form [(modeName native, ‹Node›)]) = some (modeName native) :=
        if_pos (isEmptyNode_iff.2 hempty)
      rw [native?, hname]
      cases native <;> rfl

theorem str?_eq_some_iff {s : String} : str? n = some s ↔ n = .str s := by
  cases n <;> simp [str?]

theorem strs?_eq_some_iff {names : List String} :
    strs? n = some names ↔ ∃ byHeaders, n = .array byHeaders (names.map .str) := by
  have hitems (items : List Node) (names : List String) :
      items.mapM str? = some names ↔ items = names.map .str := by
    induction items generalizing names with
    | nil => cases names <;> simp
    | cons m rest ih => cases names <;> simp [str?_eq_some_iff, ih, Option.bind_eq_some_iff]
  cases n with
  | array byHeaders items =>
    rw [strs?, hitems]
    simp
  | _ => simp [strs?]

theorem bindings?_eq_some_iff (hn : n.Distinct) {vs : List (String × Value)} :
    bindings? n = some vs ↔ n.Says (.obj vs) := by
  rw [← Node.value?_eq_some_iff hn]
  cases n with
  | table form fields =>
    have hobj (ws : List (String × Value)) :
        (Value.ofFields ws).fields? = some vs ↔ Value.ofFields ws = .obj vs := by
      simp [Value.ofFields, Value.fields?]
    simp [bindings?, Node.value?, Option.bind_eq_some_iff, hobj]
  | moment m => simp [bindings?, Node.value?, Value.ofFields, Moment.fields, Value.insertField]
  | int i =>
    rw [Node.value?]
    split <;> simp [bindings?]
  | real x => cases x <;> simp [bindings?, Node.value?, Real.value?]
  | _ => simp [bindings?, Node.value?]

/-! ## All fields together -/

variable {t : Table}

theorem parts?_table {names : List String} {form : Form} {parts : List (Option Node)} :
    parts? names (.table form t) = some parts ↔
      (∀ key ∈ t.map Prod.fst, key ∈ names) ∧ (names.map fun name => t.lookup name) = parts := by
  simp [parts?, and_comm]

theorem background?_table (ht : t.Distinct) {form : Form} {b : BackgroundConfig} :
    background? (.table form t) = some b ↔
      (∀ key ∈ t.map Prod.fst, key ∈ ["thread_name", "modules", "variables"]) ∧ b.Of t := by
  have hthread {name : String} :
      orElse str? BackgroundConfig.default.thread (t.lookup "thread_name") = some name ↔
        FieldIs _ _ _ name :=
    orElse_eq_some_iff fun _ _ _ => str?_eq_some_iff
  have hmodules {names : List String} :
      orElse strs? BackgroundConfig.default.modules (t.lookup "modules") = some names ↔ FieldIs _ _ _ names :=
    orElse_eq_some_iff fun _ _ _ => strs?_eq_some_iff
  have hbindings {vs : List (String × Value)} :
      orElse bindings? BackgroundConfig.default.bindings (t.lookup "variables") = some vs ↔
        FieldIs _ _ _ vs :=
    orElse_eq_some_iff fun _ hn _ => bindings?_eq_some_iff (ht.lookup hn)
  constructor
  · intro h
    obtain ⟨parts, hparts, h⟩ := Option.bind_eq_some_iff.1 h
    obtain ⟨hkeys, rfl⟩ := parts?_table.1 hparts
    obtain ⟨name, hname, h⟩ := Option.bind_eq_some_iff.1 h
    obtain ⟨names, hnames, h⟩ := Option.bind_eq_some_iff.1 h
    obtain ⟨vs, hvs, h⟩ := Option.bind_eq_some_iff.1 h
    cases h
    exact ⟨hkeys, hthread.1 hname, hmodules.1 hnames, hbindings.1 hvs⟩
  · rintro ⟨hkeys, hname, hnames, hvs⟩
    rw [background?, parts?_table.2 ⟨hkeys, rfl⟩]
    simp only [List.map_cons, List.map_nil, Option.bind_eq_bind, Option.bind_some,
      hthread.2 hname, hmodules.2 hnames, hbindings.2 hvs]

/-- Without a table for it the worker is the default one. -/
theorem of_nil_iff {b : BackgroundConfig} : b.Of [] ↔ b = .default := by
  constructor
  · rintro ⟨hthread, hmodules, hbindings⟩
    obtain ⟨thread, modules, bindings⟩ := b
    obtain rfl : thread = _ := hthread
    obtain rfl : modules = _ := hmodules
    obtain rfl : bindings = _ := hbindings
    rfl
  · rintro rfl
    exact ⟨rfl, rfl, rfl⟩

theorem orElse_background?_iff (ht : t.Distinct)
    (harray : ∀ byHeaders items, t.lookup "background" ≠ some (.array byHeaders items))
    {b : BackgroundConfig} : orElse background? .default (t.lookup "background") = some b ↔
      (∀ n, t.lookup "background" = some n → ∃ form fields, n = .table form fields) ∧
      (∀ key ∈ (t.under "background").map Prod.fst,
        key ∈ ["thread_name", "modules", "variables"]) ∧ b.Of (t.under "background") := by
  unfold Table.under
  cases hn : t.lookup "background" with
  | none => simp [orElse, of_nil_iff, eq_comm]
  | some n =>
    cases n with
    | table form fields => simp [orElse, background?_table (ht.lookup hn).fields]
    | array byHeaders items => exact absurd hn (harray byHeaders items)
    | _ => simp [orElse, background?, parts?]

/-- The settings of a document are those that it describes. -/
theorem ofTable?_eq_some_iff (ht : t.Distinct)
    (harray : ∀ byHeaders items, t.lookup "background" ≠ some (.array byHeaders items))
    {s : Settings} : ofTable? t = some s ↔ t.Framed ∧ s.Of t := by
  have hmode {native : Bool} :
      orElse native? true (t.lookup "read_line") = some native ↔ FieldIs _ _ _ native :=
    orElse_eq_some_iff fun _ _ _ => native?_eq_some_iff
  constructor
  · intro h
    obtain ⟨parts, hparts, h⟩ := Option.bind_eq_some_iff.1 h
    obtain ⟨hkeys, rfl⟩ := parts?_table.1 hparts
    obtain ⟨native, hnative, h⟩ := Option.bind_eq_some_iff.1 h
    obtain ⟨b, hb, h⟩ := Option.bind_eq_some_iff.1 h
    cases h
    obtain ⟨htable, hbelow, hof⟩ := (orElse_background?_iff ht harray).1 hb
    exact ⟨⟨hkeys, htable, hbelow⟩, hmode.1 hnative, hof⟩
  · rintro ⟨⟨hkeys, htable, hbelow⟩, hnative, hof⟩
    rw [ofTable?, parts?_table.2 ⟨hkeys, rfl⟩]
    simp only [List.map_cons, List.map_nil, Option.bind_eq_bind, Option.bind_some,
      hmode.2 hnative, (orElse_background?_iff ht harray).2 ⟨htable, hbelow, hof⟩]

theorem exists_says_obj_iff (hn : n.Distinct) : (∃ vs, n.Says (.obj vs)) ↔
    ((∃ form fields, n = .table form fields) ∨ ∃ m, n = .moment m) ∧ n.Fits := by
  rw [← Node.exists_value?_iff hn]
  simp only [Node.value?_eq_some_iff hn]
  constructor
  · rintro ⟨vs, hvs⟩
    refine ⟨?_, _, hvs⟩
    cases hvs with
    | moment m => exact .inr ⟨m, rfl⟩
    | table => exact .inl ⟨_, _, rfl⟩
  · rintro ⟨⟨form, fields, rfl⟩ | ⟨m, rfl⟩, v, hv⟩ <;> cases hv
    · exact ⟨_, .table ‹_› ‹_› ‹_›⟩
    · exact ⟨_, .moment m⟩

/-- A document describes settings if each field that is there is of its type. -/
theorem wellTyped_iff (ht : t.Distinct) : t.WellTyped ↔ t.Framed ∧ ∃ s : Settings, s.Of t := by
  have hbelow (n : Node) (hn : (t.under "background").lookup "variables" = some n) : n.Distinct :=
    ht.under.lookup hn
  constructor
  · intro h
    obtain ⟨native, hnative⟩ := exists_fieldIs_iff.2 h.mode
    obtain ⟨name, hname⟩ := exists_fieldIs_iff.2 h.thread
    obtain ⟨names, hnames⟩ := exists_fieldIs_iff.2 fun n hn => exists_comm.1 (h.modules n hn)
    obtain ⟨vs, hvs⟩ := exists_fieldIs_iff.2 fun n hn =>
      (exists_says_obj_iff (hbelow n hn)).2 (h.bindings n hn)
    exact ⟨h.toFramed, ⟨native, name, names, vs⟩, hnative, hname, hnames, hvs⟩
  · rintro ⟨hframed, s, hnative, hname, hnames, hvs⟩
    exact ⟨hframed, exists_fieldIs_iff.1 ⟨_, hnative⟩, exists_fieldIs_iff.1 ⟨_, hname⟩,
      fun n hn => exists_comm.1 (exists_fieldIs_iff.1 ⟨_, hnames⟩ n hn),
      fun n hn => (exists_says_obj_iff (hbelow n hn)).1 (exists_fieldIs_iff.1 ⟨_, hvs⟩ n hn)⟩

end Settings

/-! ## The order of the keys -/

namespace Toml

variable {n n' : Node} {t t' : Table} {key : String}

theorem Node.IsEmpty.same (hn : n.IsEmpty) (h : n.Same n') : n'.IsEmpty := by
  cases hn with
  | table form =>
    obtain ⟨form', fields, rfl⟩ := h.exists_table
    have hnone : fields.map Prod.fst = [] :=
      List.eq_nil_iff_forall_not_mem.2 fun key hkey => nomatch (h.fields.keys key).2 hkey
    obtain rfl := List.map_eq_nil_iff.1 hnone
    exact .table form'
  | array byHeaders =>
    cases h with
    | refl => exact .array _
    | array hlength =>
      obtain rfl := List.length_eq_zero_iff.1 hlength.symm
      exact .array _

theorem Node.SaysMode.same {native : Bool} (hn : n.SaysMode native) (h : n.Same n')
    (hn' : n'.Distinct) : n'.SaysMode native := by
  cases hn with
  | name => exact h.eq_str ▸ .name native
  | table hempty form =>
    obtain ⟨form', fields, rfl⟩ := h.exists_table
    have hperm : [Settings.modeName native].Perm (fields.map Prod.fst) :=
      (List.perm_ext_iff_of_nodup (List.nodup_singleton _) hn'.fields.keys).2 h.fields.keys
    obtain ⟨⟨key, m⟩, rfl, rfl⟩ := List.map_eq_singleton_iff.1 (List.perm_singleton.1 hperm.symm)
    have hsame := h.fields.below _ _ m List.lookup_cons_self List.lookup_cons_self
    exact .table (hempty.same hsame) form' native

theorem Node.Same.eq_strings {byHeaders : Bool} {names : List String}
    (h : (Node.array byHeaders (names.map .str)).Same n') :
    ∃ byHeaders', n' = .array byHeaders' (names.map .str) := by
  cases h with
  | refl => exact ⟨_, rfl⟩
  | @array _ byHeaders' _ items' hlength hitems =>
    refine ⟨byHeaders', congrArg _ (List.ext_getElem hlength fun i hi hi' => ?_).symm⟩
    have hsame := hitems i _ _ (List.getElem?_eq_getElem hi) (List.getElem?_eq_getElem hi')
    rw [List.getElem_map] at hsame ⊢
    exact hsame.eq_str.symm

theorem Table.Same.under (h : t.Same t') (key : String) : (t.under key).Same (t'.under key) := by
  unfold Table.under
  cases hn : t.lookup key with
  | none =>
    rw [h.lookup_none hn]
    exact (Node.Same.refl (.table .header [])).fields
  | some n =>
    obtain ⟨n', hn', hsame⟩ := h.lookup hn
    rw [hn']
    split
    next heq =>
      cases heq
      obtain ⟨form', fields', rfl⟩ := hsame.exists_table
      exact hsame.fields
    next hother =>
      split
      next heq =>
        cases heq
        obtain ⟨form, fields, rfl⟩ := hsame.symm.exists_table
        exact absurd rfl (hother form fields)
      next => exact (Node.Same.refl (.table .header [])).fields

theorem Table.Framed.same (ht : t.Framed) (h : t.Same t') : t'.Framed := by
  refine ⟨fun key hkey => ht.keys key ((h.keys key).2 hkey), fun n' hn' => ?_,
    fun key hkey => ht.backgroundKeys key (((h.under "background").keys key).2 hkey)⟩
  obtain ⟨n, hn, hsame⟩ := h.symm.lookup hn'
  obtain ⟨form, fields, rfl⟩ := ht.background n hn
  exact hsame.symm.exists_table

end Toml

variable {t t' : Table} {s : Settings}

theorem FieldIs.same {α : Type} {tells : Node → α → Prop} {default a : α} {key : String}
    (ha : FieldIs tells default (t.lookup key) a) (h : t.Same t') (ht' : t'.Distinct)
    (htells : ∀ n n', tells n a → n.Same n' → n'.Distinct → tells n' a) :
    FieldIs tells default (t'.lookup key) a := by
  cases hn : t.lookup key with
  | none =>
    rw [hn] at ha
    rw [h.lookup_none hn]
    exact ha
  | some n =>
    obtain ⟨n', hn', hsame⟩ := h.lookup hn
    rw [hn] at ha
    rw [hn']
    exact htells n n' ha hsame (ht'.lookup hn')

theorem BackgroundConfig.Of.same {b : BackgroundConfig} (hb : b.Of t) (h : t.Same t')
    (ht' : t'.Distinct) : b.Of t' := by
  refine ⟨hb.thread.same h ht' fun n n' hn hsame _ => ?_,
    hb.modules.same h ht' fun n n' hn hsame _ => ?_,
    hb.bindings.same h ht' fun n n' hn hsame _ => hn.same hsame⟩
  · subst hn
    exact hsame.eq_str
  · obtain ⟨byHeaders, rfl⟩ := hn
    exact hsame.eq_strings

theorem Settings.Of.same (hs : s.Of t) (h : t.Same t') (ht' : t'.Distinct) : s.Of t' :=
  ⟨hs.mode.same h ht' fun _ _ hn hsame hn' => hn.same hsame hn',
    hs.background.same (h.under "background") ht'.under⟩

/-- The order in which a document gives its keys makes no difference to the settings. -/
theorem Settings.ofTable?_same (h : t.Same t') (ht : t.Distinct) (ht' : t'.Distinct)
    (harray : ∀ byHeaders items, t.lookup "background" ≠ some (.array byHeaders items)) :
    ofTable? t = ofTable? t' := by
  have harray' (byHeaders : Bool) (items : List Node) :
      t'.lookup "background" ≠ some (.array byHeaders items) := by
    intro hn'
    obtain ⟨n, hn, hsame⟩ := h.symm.lookup hn'
    obtain ⟨byHeaders', items', rfl⟩ := hsame.exists_array
    exact harray byHeaders' items' hn
  refine Option.ext fun s => ?_
  rw [ofTable?_eq_some_iff ht harray, ofTable?_eq_some_iff ht' harray']
  exact ⟨fun ⟨hframed, hof⟩ => ⟨hframed.same h, hof.same h ht'⟩,
    fun ⟨hframed, hof⟩ => ⟨hframed.same h.symm, hof.same h.symm ht⟩⟩

end SharedPrompt
