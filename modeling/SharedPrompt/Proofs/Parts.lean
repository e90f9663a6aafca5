import Mathlib.Data.Multiset.Bind
import Mathlib.Algebra.BigOperators.Group.Multiset.Basic
import SharedPrompt.Host.Event

/-!
# What calls hold at the gates of the prompts

A call is worth a few parts: the permits it is taking, and the permits it has. A part holds tickets
and places in lines. Owners outside and threads have parts as well, and a host has all of them.
-/

namespace SharedPrompt

/-- A piece of a call that has to do with the gates of the prompts. -/
inductive Part where
  /-- A permit that is being taken. -/
  | lease (lease : Leasing)
  | permit (permit : Permit)
  /-- A permit that has given back its first ticket. -/
  | remnant (permit : Permit)

/-- The permit that a lease comes to, when the ticket of `gate` is the next one for it and `line` is
the gate of the line prompt. -/
def Purpose.permit (line gate : Nat) : Purpose → Permit
  | command => ⟨gate, none, false⟩
  | main => ⟨line, some gate, true⟩
  | Purpose.line held => ⟨gate, held, true⟩

namespace Leasing

def goal? (line : Nat) : Leasing → Option Permit
  | choose _ => none
  | ask g purpose => some (purpose.permit line g)
  | wait g _ purpose => some (purpose.permit line g)

def asked? : Leasing → Option Nat
  | ask g _ => some g
  | _ => none

def tickets : Leasing → List Nat
  | choose _ => []
  | ask _ purpose => purpose.held.toList
  | wait _ _ purpose => purpose.held.toList

def places : Leasing → List (Nat × Waiter)
  | wait g w _ => [(g, w)]
  | _ => []

end Leasing

namespace Part

def tickets : Part → List Nat
  | lease l => l.tickets
  | permit p => p.gates
  | remnant p => p.main.toList

def places : Part → List (Nat × Waiter)
  | lease l => l.places
  | _ => []

def asked? : Part → Option Nat
  | lease l => l.asked?
  | _ => none

def goal? (line : Nat) : Part → Option Permit
  | lease l => l.goal? line
  | permit p => some p
  | remnant p => some p

end Part

/-! ## The parts of each call -/

def Execution.parts : Execution → Multiset Part
  | leasing lease _ => {.lease lease}
  | granted permit _ => {.permit permit}
  | _ => 0

def AbortCall.parts : AbortCall → Multiset Part
  | start => 0
  | exiting lease => {.lease lease}
  | reverting _ lease => {.lease lease}

def ExitCall.parts : ExitCall → Multiset Part
  | leasing lease => {.lease lease}
  | _ => 0

def ReadCall.parts : ReadCall → Multiset Part
  | clearing abort _ => abort.parts
  | reading run _ _ _ => run.parts
  | stopping abort run _ _ _ => abort.elim 0 AbortCall.parts + run.elim 0 Execution.parts
  | _ => 0

def CommandCall.parts : CommandCall → Multiset Part
  | start _ => 0
  | aborting abort _ => abort.parts
  | exiting exit _ => exit.parts
  | running run => run.parts

def Task.parts : Task → Multiset Part
  | command call _ => call.parts
  | read call => call.parts
  | abort call => call.parts
  | exit call => call.parts
  | lease call => {.lease call}
  | _ => 0

def TaskResult.parts : TaskResult → Multiset Part
  | permit p => {.permit p}
  | _ => 0

def Errand.parts (permit : Permit) : Errand → Multiset Part
  | start | lock | called | unlock _ | release _ => {.permit permit}
  | releaseMain _ => {.remnant permit}
  | answer _ => 0

def Serving.parts : Serving → Multiset Part
  | lock _ permit _ | called _ permit _ | answer _ permit _ _ | unlock permit _ | release permit =>
    {.permit permit}
  | _ => 0

def Activation.parts : Activation → Multiset Part
  | serve phase => phase.parts
  | errand phase work => phase.parts work.permit
  | _ => 0

def Activation.partsOf (stack : List Activation) : Multiset Part := (stack.map parts).sum

namespace Host

def afield (h : Host) : Multiset Part :=
  (h.threads.map fun t => Activation.partsOf t.stack).sum +
    (h.permits.map fun p => ({.permit p.2} : Multiset Part)).sum

def parts (h : Host) : Multiset Part := (h.tasks.map fun t => t.2.parts).sum + h.afield

end Host

end SharedPrompt
