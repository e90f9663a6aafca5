import SharedPrompt.Value

/-!
# Records as values

A record is given by an object with its fields by name, or by an array with its fields in order.
A field that may be missing may also be null.
-/

namespace SharedPrompt

namespace Value

/-- The fields of a record, in order. An object may have other fields as well; an array has none
too many, and the first `least` of them. -/
def parts? (names : List String) (least : Nat) : Value → Option (List (Option Value))
  | .obj fields => some (names.map fun name => fields.lookup name)
  | .arr items =>
    if least ≤ items.length && items.length ≤ names.length then
      some (items.map some ++ List.replicate (names.length - items.length) none)
    else none
  | _ => none

/-- The same for an object that has no other fields. -/
def exactParts? (names : List String) (least : Nat) : Value → Option (List (Option Value))
  | .obj fields => if fields.all (names.contains ·.1) then (Value.obj fields).parts? names least else none
  | v => v.parts? names least

def nat? (bound : Nat) : Value → Option Nat
  | .int n => if 0 ≤ n && n < bound then some n.toNat else none
  | _ => none

def int? (low high : Int) : Value → Option Int
  | .int n => if low ≤ n && n ≤ high then some n else none
  | _ => none

def fields? : Value → Option (List (String × Value))
  | .obj fields => some fields
  | _ => none

/-- All the strings of an array of strings. -/
def strs? : Value → Option (List String)
  | .arr items => items.mapM str?
  | _ => none

/-- A field that has to be there. -/
def need {α : Type} (read : Value → Option α) (field : Option Value) : Option α := field.bind read

/-- A field that may be missing or null. -/
def may {α : Type} (read : Value → Option α) : Option Value → Option (Option α)
  | none | some .null => some none
  | some v => (read v).map some

/-- A field that may be missing but not null. -/
def orElse {α : Type} (read : Value → Option α) (default : α) : Option Value → Option α
  | none => some default
  | some v => read v

end Value

end SharedPrompt
