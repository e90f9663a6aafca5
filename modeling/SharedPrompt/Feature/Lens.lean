import SharedPrompt.Feature.Span

/-!
# Code lenses

A lens is a place in a document with a command on offer. A lens without a command is filled in
later by the provider that it came from, which may leave itself data in the lens.
-/

namespace SharedPrompt

structure LensCommand where
  title : String
  command : String
  arguments : Option (List Value) := none
  deriving Repr, Inhabited

structure Lens where
  span : Span
  command : Option LensCommand := none
  data : Option Value := none
  deriving Repr, Inhabited

/-- The field, if it is set. -/
def Value.fieldOf {α : Type} (key : String) (write : α → Value) (x : Option α) : List (String × Value) :=
  (x.map fun x => (key, write x)).toList

namespace LensCommand

def ofValue? (v : Value) : Option LensCommand := do
  match ← v.parts? ["title", "command", "arguments"] 3 with
  | [title, command, arguments] =>
    some ⟨← Value.need Value.str? title, ← Value.need Value.str? command, ← Value.may Value.arr? arguments⟩
  | _ => none

def value (c : LensCommand) : Value :=
  Value.ofFields ([("title", .str c.title), ("command", .str c.command)] ++
    Value.fieldOf "arguments" .arr c.arguments)

end LensCommand

namespace Lens

def ofValue? (v : Value) : Option Lens := do
  match ← v.parts? ["range", "command", "data"] 3 with
  | [span, command, data] =>
    some ⟨← Value.need Span.ofValue? span, ← Value.may LensCommand.ofValue? command, ← Value.may some data⟩
  | _ => none

/-- A lens without what is not set. -/
def value (l : Lens) : Value :=
  Value.ofFields ([("range", l.span.value)] ++ Value.fieldOf "command" LensCommand.value l.command ++
    Value.fieldOf "data" id l.data)

end Lens

end SharedPrompt
