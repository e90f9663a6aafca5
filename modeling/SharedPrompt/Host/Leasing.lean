import SharedPrompt.Host.Basic

/-!
# Taking a permit

A command takes the ticket of the prompt on top. A reader in the engine's own process takes that
ticket too and then the line prompt's; a reader outside takes the line prompt's alone. The prompt
on top is looked up once, when the call begins.
-/

namespace SharedPrompt

namespace Purpose

/-- The ticket already held on the way. -/
def held : Purpose → Option Nat
  | line held => held
  | _ => none

/-- What follows when the ticket of `gate` is taken. -/
def granted (line gate : Nat) : Purpose → Poll Leasing Permit
  | command => .done ⟨gate, none, false⟩
  | main => .next (.ask line (.line (some gate)))
  | Purpose.line held => .done ⟨gate, held, true⟩

end Purpose

namespace Leasing

def step (h : Host) (me : Nat) : Leasing → Host × Poll Leasing Permit
  | choose false => (h, .next (.ask h.stack.top.gate .command))
  | choose true =>
    (h, .next (if h.engine.inProcess then .ask h.stack.top.gate .main
      else .ask h.stack.line.gate (.line none)))
  | ask gate purpose =>
    let (w, h) := h.drawTurn me
    match h.joinGate gate w with
    | (true, h) => (h, purpose.granted h.stack.line.gate gate)
    | (false, h) => (h, .next (.wait gate w purpose))
  | wait gate w purpose =>
    match h.collectGate? gate w with
    | some h => (h, purpose.granted h.stack.line.gate gate)
    | none => (h, .blocked)

/-- Leaves the line, and then gives back what was held. -/
def abandon (h : Host) : Leasing → Host
  | choose _ => h
  | ask _ purpose => purpose.held.toList.foldl Host.releaseGate h
  | wait gate w purpose => purpose.held.toList.foldl Host.releaseGate (h.leaveGate gate w)

end Leasing

end SharedPrompt
