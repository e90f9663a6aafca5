import SharedPrompt.Toml.Moment
import SharedPrompt.Value

/-!
# Trees of settings

What a document says, as a tree. A table remembers how it came about, since that decides what the
rest of the document may still add to it. `Node.value?` reads a node as a value.
-/

namespace SharedPrompt.Toml

open Number

/-- A real number: a decimal, or none that a decimal could be. -/
inductive Real where
  | decimal (negative : Bool) (digits : Nat) (exponent : Int)
  | infinite (negative : Bool)
  | undefined
  deriving Repr, DecidableEq, Inhabited

/-- How a table came about. -/
inductive Form where
  /-- In braces: complete as it stands. -/
  | inline
  /-- By a header of its own. -/
  | header
  /-- On the way to a table with a header. -/
  | implied
  /-- On the way to a key of several parts. -/
  | dotted
  deriving Repr, DecidableEq, Inhabited

inductive Node where
  | str (s : String)
  | int (n : Int)
  | real (x : Real)
  | bool (b : Bool)
  | moment (m : Moment)
  /-- Items in brackets, or one table after the other under headers. -/
  | array (byHeaders : Bool) (items : List Node)
  | table (form : Form) (fields : List (String × Node))
  deriving Repr, Inhabited

abbrev Table := List (String × Node)

/-- The key under which a date or a time stands as a value. -/
def momentKey : String := "$__toml_private_datetime"

/-- A real that has no finite value is null; a decimal beyond all of them is none at all. -/
def Real.value? : Real → Option Value
  | decimal negative digits exponent =>
    (Binary64.ofDecimal digits exponent).map fun x => .float (if negative then x.negate else x)
  | infinite _ | undefined => some .null

def Moment.fields (m : Moment) : List (String × Value) := [(momentKey, .str m.text)]

namespace Node

mutual
/-- A node as a value. Integers have 64 bits, with a sign or without. -/
def value? : Node → Option Value
  | str s => some (.str s)
  | int n => if -9223372036854775808 ≤ n ∧ n ≤ 18446744073709551615 then some (.int n) else none
  | real x => x.value?
  | bool b => some (.bool b)
  | moment m => some (Value.ofFields m.fields)
  | array _ items => (items? items).map .arr
  | table _ fields => (fields? fields).map Value.ofFields

def items? : List Node → Option (List Value)
  | [] => some []
  | n :: rest => do some ((← value? n) :: (← items? rest))

def fields? : List (String × Node) → Option (List (String × Value))
  | [] => some []
  | (k, n) :: rest => do some ((k, ← value? n) :: (← fields? rest))
end

end Node

namespace Table

/-- Puts a node under a key, in the place of the one that is there. -/
def put (key : String) (n : Node) : Table → Table
  | [] => [(key, n)]
  | (k, m) :: rest => if k = key then (k, n) :: rest else (k, m) :: put key n rest

/-- Changes the last table of an array of tables. -/
def inLast (f : Table → Option Table) : List Node → Option (List Node)
  | [] => none
  | [.table form fields] => (f fields).map fun fields => [.table form fields]
  | n :: rest => (inLast f rest).map (n :: ·)

/-- Adds a key of one or more parts. The tables on the way are made if they are not there; of
those that are, the last must have been made in this way too, and none may have a header. -/
def assign (n : Node) : List String → Table → Option Table
  | [], _ => none
  | [key], t => if (t.lookup key).isNone then some (put key n t) else none
  | key :: rest, t =>
    match t.lookup key with
    | none => (assign n rest []).map fun inner => put key (.table .dotted inner) t
    | some (.table form inner) =>
      if form = .dotted ∨ (form = .implied ∧ rest.length ≠ 1) then
        (assign n rest inner).map fun inner => put key (.table form inner) t
      else none
    | some (.array true items) =>
      if rest.length = 1 then none
      else (inLast (assign n rest) items).map fun items => put key (.array true items) t
    | some _ => none

/-- Does something to the table that holds the last part of a header. The tables on the way to it
are made if they are not there. -/
def reach (f : String → Table → Option Table) : List String → Table → Option Table
  | [], _ => none
  | [key], t => f key t
  | key :: rest, t =>
    match t.lookup key with
    | none => (reach f rest []).map fun inner => put key (.table .implied inner) t
    | some (.table .inline _) => none
    | some (.table form inner) => (reach f rest inner).map fun inner => put key (.table form inner) t
    | some (.array true items) =>
      (inLast (reach f rest) items).map fun items => put key (.array true items) t
    | some _ => none

/-- Opens a table by a header of its own. One that is there already must have come about on the
way to other headers. -/
def openTable (key : String) (t : Table) : Option Table :=
  match t.lookup key with
  | none => some (put key (.table .header []) t)
  | some (.table .implied inner) => some (put key (.table .header inner) t)
  | some _ => none

/-- Opens one more table of an array of tables. -/
def openItem (key : String) (t : Table) : Option Table :=
  match t.lookup key with
  | none => some (put key (.array true [.table .header []]) t)
  | some (.array true items) => some (put key (.array true (items ++ [.table .header []])) t)
  | some _ => none

/-- Changes the table that a header has opened. -/
def within (f : Table → Option Table) : List String → Table → Option Table
  | [], t => f t
  | key :: rest, t =>
    match t.lookup key with
    | some (.table form inner) => (within f rest inner).map fun inner => put key (.table form inner) t
    | some (.array true items) =>
      (inLast (within f rest) items).map fun items => put key (.array true items) t
    | _ => none

end Table

/-- A line of a document. -/
inductive Statement where
  | header (path : List String)
  | item (path : List String)
  | assign (key : List String) (n : Node)
  deriving Repr, Inhabited

namespace Table

/-- The table that a list of statements describes; `path` is the header that is in force. -/
def build : List Statement → List String → Table → Option Table
  | [], _, t => some t
  | .header path :: rest, _, t => (reach openTable path t).bind (build rest path)
  | .item path :: rest, _, t => (reach openItem path t).bind (build rest path)
  | .assign key n :: rest, path, t => (within (assign n key) path t).bind (build rest path)

def ofStatements? (list : List Statement) : Option Table := build list [] []

end Table

end SharedPrompt.Toml
