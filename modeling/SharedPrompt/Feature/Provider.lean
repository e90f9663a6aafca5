import SharedPrompt.Worker.Settle

/-!
# Providers

A provider contributes results for a file. A script provider runs its script on a worker with the
file on show and reads what it puts out; whatever goes wrong costs its contribution, and one
notice tells of it. Any other provider has its results from somewhere else, and its panic is
nobody's to catch.
-/

namespace SharedPrompt

structure ScriptProvider where
  id : String
  /-- The name that faults are reported under if they have none of their own. -/
  name : String
  script : String
  deriving Repr, DecidableEq, Inhabited

/-- A provider that needs no script. -/
structure NativeProvider (α : Type) where
  id : String
  results : ScriptFile → Except Panic (List α)
  /-- Fills in a result that is brought back to it. -/
  resolve : α → ScriptFile → Except Panic α := fun x _ => .ok x

/-- A provider of results of type `α`. -/
inductive Provider (α : Type) where
  | script (p : ScriptProvider)
  | native (p : NativeProvider α)

def Provider.id {α : Type} : Provider α → String
  | script p => p.id
  | native p => p.id

namespace Crew

def notice (c : Crew) (n : Notice) : Crew := { c with trace := c.trace.notice n }

end Crew

namespace ScriptProvider

variable {α : Type}

/-- The unit that a worker does for a provider, unless the file cannot be shown. -/
def unitFor (p : ScriptProvider) (f : ScriptFile) : Except ProviderFault Work :=
  (EditorView.ofFile f).value.map fun editor => [.script editor p.script]

/-- What the script put out. -/
def output : WorkResult → Except ProviderFault (List Value)
  | .error f => .error (.worker f)
  | .ok [.values vs] => .ok vs
  | .ok [.scriptFault f] => .error (.script f)
  | .ok [.engineFault f] => .error (.engine f)
  | .ok _ => .ok []

def decode (read : Value → Option α) (v : Value) : Except ProviderFault α :=
  match read v with
  | some x => .ok x
  | none => .error (.script (.invalidCast "the value does not decode"))

/-- The results, all of them or none. -/
def results (read : Value → Option α) (r : WorkResult) : Except ProviderFault (List α) :=
  output r >>= List.mapM (decode read)

/-- The results for a file, or what has gone wrong. -/
def tryInvoke (read : Value → Option α) (p : ScriptProvider) (c : Crew) (worker : String)
    (f : ScriptFile) : Except ProviderFault (List α) × Crew :=
  match p.unitFor f with
  | .error fault => (.error fault, c)
  | .ok list =>
    let (r, c) := c.call worker list
    (results read r, c)

def faultNotice (p : ScriptProvider) : ProviderFault → Notice
  | .script f => .providerScriptFailed p.id (f.script.getD p.name) f.line f
  | f => .providerFailed p.id p.name f

def invoke (read : Value → Option α) (p : ScriptProvider) (c : Crew) (worker : String) (f : ScriptFile) :
    List α × Crew :=
  match p.tryInvoke read c worker f with
  | (.ok xs, c) => (xs, c)
  | (.error fault, c) => ([], c.notice (p.faultNotice fault))

end ScriptProvider

namespace Provider

variable {α : Type}

/-- The results of a provider, or the panic that it ends with. -/
def provide (read : Value → Option α) (c : Crew) (worker : String) (f : ScriptFile) :
    Provider α → Except Panic (List α) × Crew
  | .script p =>
    let (xs, c) := p.invoke read c worker f
    (.ok xs, c)
  | .native p => (p.results f, c)

end Provider

end SharedPrompt
