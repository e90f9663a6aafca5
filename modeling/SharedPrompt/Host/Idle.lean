import SharedPrompt.Host.Basic

/-!
# Running a command in an idle moment

Callers take turns. The one whose turn it is parks its command in the slot and waits for the
answer; a caller that goes away takes back a command that nobody has picked up, and then passes
the turn on.
-/

namespace SharedPrompt

namespace Host

/-- Takes the parked command away if it is the request `id`. -/
def withdraw (h : Host) (id : Nat) : Host :=
  match h.slot.pending with
  | some parked => if parked.id = id then { h with slot := { h.slot with pending := none } } else h
  | none => h

def park (h : Host) (me : Nat) (job : Job) : IdleCall × Host :=
  let id := h.slot.nextId
  let (reply, h) := h.newReply me
  (.parked id reply, { h with slot := { h.slot with pending := some ⟨id, job, reply⟩, nextId := id + 1 } })

end Host

namespace IdleCall

def step (h : Host) (me : Nat) : IdleCall → Host × Poll IdleCall RunResult
  | start job =>
    let (w, h) := h.drawTurn me
    let r := h.slot.turn.join w
    ({ h with slot := { h.slot with turn := r.2 } }, .next (if r.1 then .install job else .queued w job))
  | queued w job =>
    match h.slot.turn.collect? w with
    | some turn => ({ h with slot := { h.slot with turn } }, .next (.install job))
    | none => (h, .blocked)
  | install job =>
    let (call, h) := h.park me job
    (h, .next call)
  | parked id reply =>
    match h.replies[reply]? with
    | some (.sent r) => (((h.closeReply reply).withdraw id).releaseTurn, .done r)
    | some (.open_ _) => (h, .blocked)
    | _ => ((h.withdraw id).releaseTurn, .done (.error .abandoned))

def abandon (h : Host) : IdleCall → Host
  | start _ => h
  | queued w _ => h.leaveTurn w
  | install _ => h.releaseTurn
  | parked id reply => ((h.closeReply reply).withdraw id).releaseTurn

end IdleCall

end SharedPrompt
