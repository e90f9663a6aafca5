import SharedPrompt.Value.Record

/-!
# Places in a document
-/

namespace SharedPrompt

structure Position where
  line : UInt32
  column : UInt32
  deriving Repr, DecidableEq, Inhabited

/-- From a position up to another, which may also come first. -/
structure Span where
  first : Position
  last : Position
  deriving Repr, DecidableEq, Inhabited

def Value.word? (v : Value) : Option UInt32 := (v.nat? UInt32.size).map UInt32.ofNat

namespace Position

def ofValue? (v : Value) : Option Position := do
  match ← v.parts? ["line", "character"] 2 with
  | [line, column] => some ⟨← Value.need Value.word? line, ← Value.need Value.word? column⟩
  | _ => none

def value (p : Position) : Value :=
  Value.ofFields [("line", .int p.line.toNat), ("character", .int p.column.toNat)]

end Position

namespace Span

def ofValue? (v : Value) : Option Span := do
  match ← v.parts? ["start", "end"] 2 with
  | [first, last] => some ⟨← Value.need Position.ofValue? first, ← Value.need Position.ofValue? last⟩
  | _ => none

def value (s : Span) : Value := Value.ofFields [("start", s.first.value), ("end", s.last.value)]

end Span

end SharedPrompt
