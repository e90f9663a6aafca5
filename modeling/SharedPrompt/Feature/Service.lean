import SharedPrompt.Feature.Lens
import SharedPrompt.Feature.Provider
import SharedPrompt.Feature.Symbol
import SharedPrompt.Registry

/-!
# Services

A service asks every registered provider, one after the other in the order of the registry, and
puts their contributions together, each result with the id of its provider. The panic of a provider
is that of the call.
-/

namespace SharedPrompt

structure Service (α : Type) where
  registry : Registry (Provider α) := {}
  crew : Crew := {}
  worker : String

namespace Service

variable {α : Type}

/-- Asks a list of providers. -/
def ask (read : Value → Option α) (worker : String) (f : ScriptFile) :
    List (String × Provider α) → Crew → Except Panic (List (String × α)) × Crew
  | [], c => (.ok [], c)
  | (id, p) :: rest, c =>
    match p.provide read c worker f with
    | (.error panic, c) => (.error panic, c)
    | (.ok found, c) =>
      let (more, c) := ask read worker f rest c
      (more.map (found.map (id, ·) ++ ·), c)

def register (s : Service α) (p : Provider α) : Bool × Service α :=
  let (isNew, registry) := s.registry.register p.id p
  (isNew, { s with registry })

def unregister (s : Service α) (id : String) : Except ProviderFault (Provider α × Service α) :=
  (s.registry.unregister id).map fun (p, registry) => (p, { s with registry })

def provide (read : Value → Option α) (s : Service α) (f : ScriptFile) :
    Except Panic (List (String × α)) × Service α :=
  let (found, crew) := ask read s.worker f s.registry.entries s.crew
  (found, { s with crew })

end Service

/-- Has a provider fill in a lens. A script leaves it as it is. -/
def Provider.resolveLens (l : Lens) (f : ScriptFile) : Provider Lens → Except Panic Lens
  | .script _ => .ok l
  | .native p => p.resolve l f

/-- Has a lens filled in by the provider that is registered under its provider's id. -/
def Service.resolveLens (s : Service Lens) (id : String) (l : Lens) (f : ScriptFile) :
    Except ProviderFault (Except Panic Lens) :=
  match s.registry.get? id with
  | some p => .ok (p.resolveLens l f)
  | none => .error (.notRegistered id)

end SharedPrompt
