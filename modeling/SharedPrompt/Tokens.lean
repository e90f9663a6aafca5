/-!
# Cancellation tokens

A token fires once. A token derived from another fires with it; a token that is itself derived is
never derived from, so the family of a token has one generation. Tasks that wait for a token are
told when it fires: first those of its derived tokens, the youngest first, then its own.
-/

namespace SharedPrompt

structure Token where
  fired : Bool := false
  derived : List Nat := []
  waiters : List Nat := []
  deriving Repr, DecidableEq, Inhabited

def Token.fresh : Token := { fired := false }

/-- All tokens made so far, each named by its place. -/
structure Tokens where
  all : List Token := []
  deriving Repr, DecidableEq, Inhabited

namespace Tokens

def isFired (ts : Tokens) (id : Nat) : Bool := (ts.all[id]?.map Token.fired).getD false

/-- A new token and its name. -/
def new (ts : Tokens) : Nat × Tokens := (ts.all.length, ⟨ts.all ++ [.fresh]⟩)

def modify (ts : Tokens) (id : Nat) (f : Token → Token) : Tokens := ⟨ts.all.modify id f⟩

/-- A token that fires with `id`; it starts fired if `id` has fired. -/
def derive (ts : Tokens) (id : Nat) : Nat × Tokens :=
  let child := ts.all.length
  if ts.isFired id then (child, ⟨ts.all ++ [{ fired := true }]⟩)
  else (child, ⟨(ts.modify id fun t => { t with derived := t.derived ++ [child] }).all ++ [.fresh]⟩)

/-- Enters a task as waiting for a token, once. -/
def await (ts : Tokens) (id task : Nat) : Tokens :=
  ts.modify id fun t => if t.waiters.contains task then t else { t with waiters := t.waiters ++ [task] }

def forget (ts : Tokens) (id task : Nat) : Tokens :=
  ts.modify id fun t => { t with waiters := t.waiters.erase task }

/-- The tokens that fire with `id`, in the order in which their waiters are told. -/
def family (ts : Tokens) (id : Nat) : List Nat :=
  ((ts.all[id]?.map Token.derived).getD []).reverse ++ [id]

/-- Fires a token that has not fired, with all derived from it; also the tasks to be told. -/
def fire (ts : Tokens) (id : Nat) : Tokens × List Nat :=
  if ts.isFired id then (ts, [])
  else
    let live := (ts.family id).filter fun t => !ts.isFired t
    let told := live.flatMap fun t => (ts.all[t]?.map Token.waiters).getD []
    (live.foldl (fun ts t => ts.modify t fun token => { token with fired := true, waiters := [] }) ts, told)

end Tokens

end SharedPrompt
