import SharedPrompt.Feature.Span

/-!
# Symbols of a document
-/

namespace SharedPrompt

structure Symbol where
  name : String
  /-- By number; a number without a meaning is kept. -/
  kind : Int
  span : Span
  container : Option String := none
  deriving Repr, DecidableEq, Inhabited

namespace Symbol

def kindOfValue? : Value → Option Int := Value.int? (-2147483648) 2147483647

def ofValue? (v : Value) : Option Symbol := do
  match ← v.parts? ["name", "kind", "range", "containerName"] 3 with
  | [name, kind, span, container] =>
    some ⟨← Value.need Value.str? name, ← Value.need kindOfValue? kind, ← Value.need Span.ofValue? span,
      ← Value.may Value.str? container⟩
  | _ => none

def value (s : Symbol) : Value :=
  Value.ofFields [("name", .str s.name), ("kind", .int s.kind), ("range", s.span.value),
    ("containerName", s.container.elim .null .str)]

end Symbol

end SharedPrompt
