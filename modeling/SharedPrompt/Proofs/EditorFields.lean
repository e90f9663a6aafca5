import Mathlib.Data.String.Basic
import SharedPrompt.Feature.Provider

/-!
# What the editor shows of a file

The value that scripts find has the path of the file, its contents and its directory, so it tells
any two files apart. There is one for each file whose path is text: a path is only cut at a slash,
and a slash is never a part of another character.
-/

namespace SharedPrompt

namespace FilePath

variable {bs part : List UInt8} {parts ps qs : List (List UInt8)}

/-! ## Parts -/

theorem splitSlash_slash (bs : List UInt8) : splitSlash (slash :: bs) = [] :: splitSlash bs :=
  if_pos rfl

theorem splitSlash_cons {b : UInt8} (hb : b ≠ slash) (h : splitSlash bs = part :: parts) :
    splitSlash (b :: bs) = (b :: part) :: parts := by
  rw [splitSlash, if_neg hb, h]

theorem exists_splitSlash (bs : List UInt8) : ∃ part parts, splitSlash bs = part :: parts := by
  induction bs with
  | nil => exact ⟨_, _, rfl⟩
  | cons b bs ih =>
    by_cases hb : b = slash
    · rw [hb]
      exact ⟨_, _, splitSlash_slash bs⟩
    · obtain ⟨part, parts, h⟩ := ih
      exact ⟨_, _, splitSlash_cons hb h⟩

theorem splitSlash_append (as bs : List UInt8) :
    splitSlash (as ++ slash :: bs) = splitSlash as ++ splitSlash bs := by
  induction as with
  | nil => exact splitSlash_slash bs
  | cons a as ih =>
    by_cases ha : a = slash
    · rw [ha, List.cons_append, splitSlash_slash, splitSlash_slash, ih, List.cons_append]
    · obtain ⟨part, parts, h⟩ := exists_splitSlash as
      rw [h] at ih
      rw [splitSlash_cons ha h]
      exact splitSlash_cons ha ih

theorem splitSlash_of_not_mem (h : slash ∉ bs) : splitSlash bs = [bs] := by
  induction bs with
  | nil => rfl
  | cons b bs ih =>
    simp only [List.mem_cons, not_or] at h
    exact splitSlash_cons (Ne.symm h.1) (ih h.2)

theorem joinSlash_cons (part : List UInt8) (h : parts ≠ []) :
    joinSlash (part :: parts) = part ++ slash :: joinSlash parts := by
  cases parts with
  | nil => exact absurd rfl h
  | cons p ps => rfl

theorem joinSlash_append (hp : ps ≠ []) (hq : qs ≠ []) :
    joinSlash (ps ++ qs) = joinSlash ps ++ slash :: joinSlash qs := by
  induction ps with
  | nil => exact absurd rfl hp
  | cons p ps ih =>
    cases ps with
    | nil => exact joinSlash_cons p hq
    | cons p' ps =>
      have hrest := ih (List.cons_ne_nil p' ps)
      rw [List.cons_append, joinSlash_cons p (List.append_ne_nil_of_right_ne_nil _ hq), hrest,
        joinSlash_cons p (List.cons_ne_nil p' ps), List.append_assoc, List.cons_append]

theorem joinSlash_splitSlash (bs : List UInt8) : joinSlash (splitSlash bs) = bs := by
  induction bs with
  | nil => rfl
  | cons b bs ih =>
    obtain ⟨part, parts, h⟩ := exists_splitSlash bs
    rw [h] at ih
    by_cases hb : b = slash
    · rw [hb, splitSlash_slash, h, joinSlash_cons [] (List.cons_ne_nil _ _), ih, List.nil_append]
    · rw [splitSlash_cons hb h]
      cases parts <;> exact congrArg (b :: ·) ih

theorem splitRoot_eq (bs : List UInt8) : (splitRoot bs).1 ++ (splitRoot bs).2 = bs := by
  fun_cases splitRoot bs with
  | case1 => rfl
  | case2 rest => rfl
  | case3 b rest hb hdot =>
    rw [hdot.1]
    rfl
  | case4 b rest hb hdot => rfl

theorem splitRoot_fst (bs : List UInt8) : (splitRoot bs).1 ∈ [[], [slash], [dot]] := by
  fun_cases splitRoot bs <;> simp

theorem splitRoot_append (h : bs ≠ []) (more : List UInt8) :
    splitRoot (bs ++ slash :: more) = ((splitRoot bs).1, (splitRoot bs).2 ++ slash :: more) := by
  cases bs with
  | nil => exact absurd rfl h
  | cons b rest =>
    have hnext : (rest ++ slash :: more = [] ∨ (rest ++ slash :: more).head? = some slash) ↔
        (rest = [] ∨ rest.head? = some slash) := by
      cases rest <;> simp
    simp only [List.cons_append, splitRoot, hnext]
    split
    · rfl
    · split <;> rfl

/-! ## The parent -/

/-- A slash comes after the parent, unless that is no more than the start of the path. -/
theorem parent_cases (p : FilePath) :
    p.parent.bytes ∈ [[], [slash], [dot]] ∨ ∃ more, p.bytes = p.parent.bytes ++ slash :: more := by
  have hroot := splitRoot_fst p.bytes
  have hbytes := splitRoot_eq p.bytes
  unfold parent
  generalize splitRoot p.bytes = cut at hroot hbytes
  obtain ⟨root, rest⟩ := cut
  dsimp only at hroot hbytes ⊢
  cases hlast : lastParts rest with
  | nil => exact .inl List.mem_cons_self
  | cons name parts =>
    obtain ⟨ends, hends⟩ : name :: parts <:+ (splitSlash rest).reverse :=
      hlast ▸ List.dropWhile_suffix _
    obtain ⟨between, hbetween⟩ : parts.dropWhile namesNothing <:+ parts := List.dropWhile_suffix _
    dsimp only
    generalize parts.dropWhile namesNothing = kept at hbetween ⊢
    -- If a part is kept, what is cut off begins at the slash behind it.
    by_cases hkept : kept = []
    · exact .inl (by simpa [hkept, joinSlash] using hroot)
    · have hsplit : splitSlash rest = kept.reverse ++ (ends ++ name :: between).reverse := by
        rw [← List.reverse_reverse (splitSlash rest), ← hends, ← hbetween]
        simp
      refine .inr ⟨joinSlash (ends ++ name :: between).reverse, ?_⟩
      rw [List.append_assoc, ← joinSlash_append (by simpa using hkept) (by simp), ← hsplit,
        joinSlash_splitSlash, hbytes]

/-- The path has a name at its end, which is more than its start. -/
def Tidy (p : FilePath) : Prop :=
  ∃ name parts, splitSlash (splitRoot p.bytes).2 = parts ++ [name] ∧ namesNothing name = false

def child (dir : FilePath) (name : List UInt8) : FilePath := ⟨dir.bytes ++ slash :: name⟩

/-- A file is in the directory that its path names before the file's own name. -/
theorem parent_child {dir : FilePath} (hdir : dir.Tidy) {name : List UInt8}
    (hname : namesNothing name = false) (hslash : slash ∉ name) : (dir.child name).parent = dir := by
  obtain ⟨last, parts, hsplit, hlast⟩ := hdir
  have hne : dir.bytes ≠ [] := by
    intro hnil
    have hend := congrArg List.getLast? hsplit
    rw [hnil, List.getLast?_concat] at hend
    cases hend
    cases hlast
  have hparts : lastParts ((splitRoot dir.bytes).2 ++ slash :: name) =
      name :: last :: parts.reverse := by
    rw [lastParts, splitSlash_append, splitSlash_of_not_mem hslash, hsplit]
    simp [hname]
  have hjoin : joinSlash (parts ++ [last]) = (splitRoot dir.bytes).2 := by
    rw [← hsplit, joinSlash_splitSlash]
  have hkept : ((last :: parts.reverse).dropWhile namesNothing).reverse = parts ++ [last] := by
    simp [hlast]
  rw [parent, child, splitRoot_append hne]
  dsimp only
  rw [hparts]
  dsimp only
  rw [hkept, hjoin, splitRoot_eq]

/-! ## Text -/

theorem bytes_ofString (text : String) :
    (⟨(ofString text).bytes.toArray⟩ : ByteArray) = text.toByteArray := rfl

theorem text?_eq_some_iff {p : FilePath} {text : String} :
    p.text? = some text ↔ p = ofString text := by
  unfold text? String.fromUTF8?
  constructor
  · intro h
    split at h <;> cases h
    rfl
  · rintro rfl
    rw [bytes_ofString]
    exact dif_pos text.isValidUTF8

theorem isSome_text?_iff {p : FilePath} :
    p.text?.isSome = true ↔ ByteArray.IsValidUTF8 ⟨p.bytes.toArray⟩ := by
  unfold text? String.fromUTF8?
  split <;> simpa

/-- Text that is cut before a slash is text. -/
theorem isValidUTF8_of_append {as bs : List UInt8}
    (h : ByteArray.IsValidUTF8 ⟨(as ++ slash :: bs).toArray⟩) : ByteArray.IsValidUTF8 ⟨as.toArray⟩ := by
  let text : String := ⟨_, h⟩
  have hlt : (⟨as.length⟩ : String.Pos.Raw) < text.rawEndPos := by
    simp [String.Pos.Raw.lt_iff, String.rawEndPos, String.utf8ByteSize, text, ByteArray.size]
  have hbyte : text.getUTF8Byte ⟨as.length⟩ hlt = slash := by
    rw [String.getUTF8Byte_eq_getElem]
    simp [text, ByteArray.getElem_eq_getElem_data]
  have hfirst : String.Pos.Raw.IsValid text ⟨as.length⟩ := by
    refine String.Pos.Raw.isValid_iff_isUTF8FirstByte.2 (.inr ⟨hlt, ?_⟩)
    rw [hbyte]
    decide
  have hcut : text.toByteArray.extract 0 as.length = ⟨as.toArray⟩ := by
    apply ByteArray.ext
    simp [text]
  exact hcut ▸ hfirst.isValidUTF8_extract_zero

/-- A file whose path is text is in a directory whose path is text. -/
theorem isSome_text?_parent {p : FilePath} (h : p.text?.isSome = true) :
    p.parent.text?.isSome = true := by
  rw [isSome_text?_iff] at h ⊢
  obtain hstart | ⟨more, hmore⟩ := p.parent_cases
  · generalize p.parent.bytes = bytes at hstart
    simp only [List.mem_cons, List.not_mem_nil, or_false] at hstart
    obtain rfl | rfl | rfl := hstart <;> decide
  · rw [hmore] at h
    exact isValidUTF8_of_append h

theorem ofString_injective : Function.Injective ofString := fun _ _ h =>
  Option.some.inj ((text?_eq_some_iff.2 rfl).symm.trans (text?_eq_some_iff.2 h))

theorem value_ofString (text : String) : (ofString text).value = .ok (.str text) := by
  rw [value, text?_eq_some_iff.2 rfl]

def fault : ProviderFault := .encode "path contains invalid UTF-8 characters"

theorem value_of_text?_eq_none {p : FilePath} (h : p.text? = none) : p.value = .error fault := by
  rw [value, h]
  rfl

end FilePath

/-! ## Editors -/

open FilePath (ofString)

/-- What a script finds of a file: its path, its contents, its directory, and a window without a title,
and nothing besides. -/
structure ScriptFile.ShownBy (f : ScriptFile) (v : Value) : Prop where
  fields : ∃ path dir, f.path = ofString path ∧ f.path.parent = ofString dir ∧
    v = .obj [("contents", .str f.contents), ("filePath", .str path),
      ("window", .obj [("title", .null)]), ("workspacePath", .str dir)]
  /-- The directory is the one that the path names before the file's own name. -/
  directory : ∀ dir name, (ofString dir).Tidy → FilePath.namesNothing name = false →
    FilePath.slash ∉ name → f.path = (ofString dir).child name →
      v.field? "workspacePath" = some (.str dir)

/-- The fields of an editor, in the order of their names. -/
theorem EditorView.ofFields_eq (path contents workspace window : Value) :
    Value.ofFields [("filePath", path), ("contents", contents), ("workspacePath", workspace),
      ("window", window)] = .obj [("contents", contents), ("filePath", path), ("window", window),
        ("workspacePath", workspace)] := by
  have hcontents : "contents" < "filePath" := by decide
  have hworkspace : ¬"workspacePath" < "contents" ∧ ¬"workspacePath" < "filePath" := by decide
  have hwindow : ¬"window" < "contents" ∧ ¬"window" < "filePath" ∧ "window" < "workspacePath" := by
    decide
  simp only [Value.ofFields, List.foldl_cons, List.foldl_nil, Value.insertField, if_pos hcontents,
    if_neg hworkspace.1, if_neg hworkspace.2, if_neg hwindow.1, if_neg hwindow.2.1,
    if_pos hwindow.2.2, String.reduceEq, if_false]

namespace ScriptFile

variable {f g : ScriptFile} {v : Value}

/-- A value tells which file it shows. -/
theorem ShownBy.unique (h : f.ShownBy v) (h' : g.ShownBy v) : f = g := by
  obtain ⟨path, dir, hpath, -, rfl⟩ := h.fields
  obtain ⟨path', dir', hpath', -, heq⟩ := h'.fields
  obtain ⟨p, contents⟩ := f
  obtain ⟨p', contents'⟩ := g
  simp only [Value.obj.injEq, List.cons.injEq, Prod.mk.injEq, Value.str.injEq] at heq
  obtain ⟨⟨-, rfl⟩, ⟨-, rfl⟩, -⟩ := heq
  obtain rfl : p = ofString path := hpath
  obtain rfl : p' = ofString path := hpath'
  rfl

theorem value_ofFile (f : ScriptFile) {path dir : String} (hpath : f.path = ofString path)
    (hdir : f.path.parent = ofString dir) : (EditorView.ofFile f).value =
      .ok (.obj [("contents", .str f.contents), ("filePath", .str path),
        ("window", .obj [("title", .null)]), ("workspacePath", .str dir)]) := by
  have hpath' : (EditorView.ofFile f).path.value = .ok (.str path) :=
    (congrArg FilePath.value hpath).trans (FilePath.value_ofString path)
  have hdir' : (EditorView.ofFile f).workspace.value = .ok (.str dir) :=
    (congrArg FilePath.value hdir).trans (FilePath.value_ofString dir)
  rw [EditorView.value, hpath', hdir']
  exact congrArg Except.ok (EditorView.ofFields_eq ..)

theorem value_eq_error (h : f.path.text? = none) :
    (EditorView.ofFile f).value = .error FilePath.fault := by
  have hfault : (EditorView.ofFile f).path.value = .error FilePath.fault :=
    FilePath.value_of_text?_eq_none h
  rw [EditorView.value, hfault]
  rfl

/-- A file whose path is text is shown by its editor. -/
theorem exists_value (h : f.path.text?.isSome = true) :
    ∃ editor, (EditorView.ofFile f).value = .ok editor ∧ f.ShownBy editor := by
  obtain ⟨dir, hdir⟩ := Option.isSome_iff_exists.1 (FilePath.isSome_text?_parent h)
  obtain ⟨path, hpath⟩ := Option.isSome_iff_exists.1 h
  rw [FilePath.text?_eq_some_iff] at hpath hdir
  refine ⟨_, f.value_ofFile hpath hdir,
    ⟨path, dir, hpath, hdir, rfl⟩, fun dir' name htidy hname hslash hchild => ?_⟩
  rw [hchild, FilePath.parent_child htidy hname hslash] at hdir
  rw [FilePath.ofString_injective hdir]
  rfl

theorem value_cases (f : ScriptFile) :
    (∃ editor, (EditorView.ofFile f).value = .ok editor ∧ f.ShownBy editor) ∨
      (EditorView.ofFile f).value = .error FilePath.fault := by
  cases hpath : f.path.text? with
  | none => exact .inr (value_eq_error hpath)
  | some path => exact .inl (exists_value (by rw [hpath]; rfl))

end ScriptFile

/-- The unit of a call shows the file of the call to the script. -/
theorem ScriptProvider.exists_editor_of_unitFor {p : ScriptProvider} {f : ScriptFile} {list : Work}
    (h : p.unitFor f = .ok list) : ∃ editor, list = [.script editor p.script] ∧ f.ShownBy editor := by
  rw [unitFor] at h
  obtain ⟨editor, hvalue, hown⟩ | hvalue := f.value_cases
  · rw [hvalue] at h
    exact ⟨editor, (Except.ok.inj h).symm, hown⟩
  · rw [hvalue] at h
    cases h

end SharedPrompt
