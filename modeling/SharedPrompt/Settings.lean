import SharedPrompt.Toml.Document
import SharedPrompt.Value.Record
import SharedPrompt.Worker.Work

/-!
# Settings

How a host reads its lines and how its background worker is set up. Settings are read from a
document; whatever it leaves out has its default, and a key that means nothing is refused.
-/

namespace SharedPrompt

open Toml

/-- The background worker as settings describe it. -/
structure BackgroundConfig where
  thread : String
  modules : List String
  bindings : List (String × Value)
  deriving Repr, Inhabited

namespace BackgroundConfig

/-- Nothing else than what a worker has by default. -/
def default : BackgroundConfig :=
  let options : WorkerOptions := {}
  { thread := options.thread, modules := options.preload.modules, bindings := options.preload.bindings }

/-- What the worker is set up with. -/
def workerOptions (b : BackgroundConfig) : WorkerOptions :=
  { thread := b.thread, preload := { modules := b.modules, bindings := b.bindings } }

end BackgroundConfig

structure Settings where
  /-- Lines are read by the engine's own line editor, not key by key from the console. -/
  native : Bool := true
  background : BackgroundConfig := .default
  deriving Repr, Inhabited

/-- Why there are no settings. -/
inductive SettingsFault where
  | file (message : String)
  | document
  deriving Repr, DecidableEq, Inhabited

/-- A file as it is found. -/
inductive FoundFile where
  | missing
  | directory
  | bytes (content : List UInt8)
  deriving Repr, Inhabited

namespace Settings

def isDefault (s : Settings) : Bool :=
  s.native && s.background.thread == BackgroundConfig.default.thread && s.background.modules.isEmpty &&
    s.background.bindings.isEmpty

/-- The fields of a record: by name in a table, which has no others, or in order in an array, where
what comes after them does not count. -/
def parts? (names : List String) : Node → Option (List (Option Node))
  | .table _ fields =>
    if fields.all (names.contains ·.1) then some (names.map fun name => fields.lookup name) else none
  | .array _ items => some ((List.range names.length).map fun i => items[i]?)
  | _ => none

def orElse {α : Type} (read : Node → Option α) (default : α) : Option Node → Option α
  | none => some default
  | some n => read n

def str? : Node → Option String
  | .str s => some s
  | _ => none

def strs? : Node → Option (List String)
  | .array _ items => items.mapM str?
  | _ => none

/-- A date or a time is a table as well, of one field. -/
def bindings? : Node → Option (List (String × Value))
  | .table _ fields => do (Value.ofFields (← Node.fields? fields)).fields?
  | .moment m => some m.fields
  | _ => none

def isEmptyNode : Node → Bool
  | .table _ [] | .array _ [] => true
  | _ => false

def modeName? : Node → Option String
  | .str s => some s
  | .table _ [(name, n)] => if isEmptyNode n then some name else none
  | _ => none

/-- Whether a node that says how lines are read says that the line editor does. -/
def native? (n : Node) : Option Bool :=
  match modeName? n with
  | some "native" => some true
  | some "legacy" => some false
  | _ => none

def background? (n : Node) : Option BackgroundConfig := do
  match ← parts? ["thread_name", "modules", "variables"] n with
  | [thread, modules, bindings] =>
    let thread ← orElse str? BackgroundConfig.default.thread thread
    let modules ← orElse strs? BackgroundConfig.default.modules modules
    let bindings ← orElse bindings? BackgroundConfig.default.bindings bindings
    some { thread, modules, bindings }
  | _ => none

def ofTable? (t : Table) : Option Settings := do
  match ← parts? ["read_line", "background"] (.table .header t) with
  | [mode, background] =>
    some { native := ← orElse native? true mode, background := ← orElse background? .default background }
  | _ => none

def read? (text : String) : Except SettingsFault Settings :=
  match (Table.read? text).bind ofTable? with
  | some s => .ok s
  | none => .error .document

/-- Settings from a file, which has to be text. -/
def load : FoundFile → Except SettingsFault Settings
  | .missing => .error (.file "No such file or directory (os error 2)")
  | .directory => .error (.file "Is a directory (os error 21)")
  | .bytes content =>
    match String.fromUTF8? ⟨content.toArray⟩ with
    | some text => read? text
    | none => .error (.file "stream did not contain valid UTF-8")

end Settings

namespace Preload

/-- A preload as a value: by name or in order, without anything else. -/
def ofValue? (v : Value) : Option Preload := do
  match ← v.exactParts? ["modules", "variables"] 0 with
  | [modules, bindings] =>
    some ⟨← Value.orElse Value.strs? [] modules, ← Value.orElse Value.fields? [] bindings⟩
  | _ => none

end Preload

end SharedPrompt
