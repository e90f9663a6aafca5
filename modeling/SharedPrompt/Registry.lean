import SharedPrompt.Fault

/-!
# A registry of providers

Providers by id, in the order in which the ids came. A provider registered under an id that is
there already takes the place of the old one.
-/

namespace SharedPrompt

structure Registry (α : Type) where
  entries : List (String × α) := []
  deriving Repr, DecidableEq, Inhabited

namespace Registry

variable {α : Type}

def empty : Registry α := {}

def get? (r : Registry α) (id : String) : Option α := r.entries.lookup id

def ids (r : Registry α) : List String := r.entries.map (·.1)

def providers (r : Registry α) : List α := r.entries.map (·.2)

def size (r : Registry α) : Nat := r.entries.length

def isEmpty (r : Registry α) : Bool := r.entries.isEmpty

def replace (id : String) (p : α) : List (String × α) → List (String × α)
  | [] => [(id, p)]
  | (k, q) :: rest => if k = id then (k, p) :: rest else (k, q) :: replace id p rest

/-- Registers a provider; the answer tells whether its id is new. -/
def register (r : Registry α) (id : String) (p : α) : Bool × Registry α :=
  ((r.get? id).isNone, ⟨replace id p r.entries⟩)

def unregister (r : Registry α) (id : String) : Except ProviderFault (α × Registry α) :=
  match r.get? id with
  | some p => .ok (p, ⟨r.entries.filter (·.1 ≠ id)⟩)
  | none => .error (.notRegistered id)

end Registry

end SharedPrompt
