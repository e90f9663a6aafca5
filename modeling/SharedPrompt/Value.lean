import SharedPrompt.Number.Shortest

/-!
# Values that cross the engine

Integers are exact, other numbers are binary64. An object keeps its fields sorted by key, so two
objects with the same fields are the same value. `Value.same` compares as the engine does: an
integer is never equal to a float, and the two float zeros are equal.
-/

namespace SharedPrompt

open Number

inductive Value where
  | null
  | bool (b : Bool)
  | int (n : Int)
  | float (x : Binary64)
  | str (s : String)
  | arr (items : List Value)
  | obj (fields : List (String × Value))
  deriving Repr, Inhabited

namespace Value

/-- Puts a field in its place by key; a later field of the same key replaces the earlier one. -/
def insertField (key : String) (v : Value) : List (String × Value) → List (String × Value)
  | [] => [(key, v)]
  | (k, w) :: rest =>
    if key < k then (key, v) :: (k, w) :: rest
    else if key = k then (key, v) :: rest
    else (k, w) :: insertField key v rest

/-- The object with these fields, the last of each key. -/
def ofFields (fields : List (String × Value)) : Value :=
  .obj (fields.foldl (fun acc f => insertField f.1 f.2 acc) [])

def field? (key : String) : Value → Option Value
  | .obj fields => fields.lookup key
  | _ => none

def str? : Value → Option String
  | .str s => some s
  | _ => none

def arr? : Value → Option (List Value)
  | .arr items => some items
  | _ => none

def isNull : Value → Bool
  | .null => true
  | _ => false

mutual
def same : Value → Value → Bool
  | .null, .null => true
  | .bool a, .bool b => a == b
  | .int a, .int b => a == b
  | .float a, .float b => a.equal b
  | .str a, .str b => a == b
  | .arr a, .arr b => sameItems a b
  | .obj a, .obj b => sameFields a b
  | _, _ => false

def sameItems : List Value → List Value → Bool
  | [], [] => true
  | a :: as, b :: bs => same a b && sameItems as bs
  | _, _ => false

def sameFields : List (String × Value) → List (String × Value) → Bool
  | [], [] => true
  | (k, a) :: as, (l, b) :: bs => k == l && same a b && sameFields as bs
  | _, _ => false
end

instance : BEq Value := ⟨same⟩

end Value

end SharedPrompt
