import SharedPrompt.Fault
import SharedPrompt.Text.Path
import SharedPrompt.Value

/-!
# The editor as scripts see it

A snapshot of one open file. Scripts read it as a value and can change nothing through it.
-/

namespace SharedPrompt

structure ScriptFile where
  path : FilePath
  contents : String
  deriving Repr, DecidableEq, Inhabited

structure EditorView where
  path : FilePath
  contents : String
  /-- The directory that holds the file. -/
  workspace : FilePath
  title : Option String := none
  deriving Repr, DecidableEq, Inhabited

/-- A path inside a value has to be text. -/
def FilePath.value (p : FilePath) : Except ProviderFault Value :=
  match p.text? with
  | some text => .ok (.str text)
  | none => .error (.encode "path contains invalid UTF-8 characters")

namespace EditorView

/-- The variable under which scripts find the editor. -/
def variableName : String := "editor"

def ofFile (f : ScriptFile) : EditorView :=
  { path := f.path, contents := f.contents, workspace := f.path.parent }

/-- No command can be registered on a view. -/
def registerCommand (_ : EditorView) (name : String) : ProviderFault := .readOnly name

def value (v : EditorView) : Except ProviderFault Value := do
  let path ← v.path.value
  let workspace ← v.workspace.value
  pure (Value.ofFields [
    ("filePath", path), ("contents", .str v.contents), ("workspacePath", workspace),
    ("window", Value.ofFields [("title", v.title.elim .null .str)])])

end EditorView

end SharedPrompt
