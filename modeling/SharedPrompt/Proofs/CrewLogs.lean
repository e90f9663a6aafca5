import SharedPrompt.Proofs.CrewChanges

/-!
# What goes through a crew

The logs of a run: the units that are handed over, the messages that come into an inbox, those that
a worker takes out of it, and the answers that are given. From where one worker stands, an event is
something that the worker does itself, followed by messages from others.
-/

namespace SharedPrompt

/-- A unit that handed over another with a deed has its answer. -/
theorem Frame.told_of_deeds (f : Frame) (h : f.doing = .deeds) (r : WorkResult) :
    f.told r = { f with entries := f.entries ++ [.nested r] } := by
  rw [told, h]

/-- A unit on its way to a worker; one from another worker's unit may drop the owner that came with
`holder`. -/
structure Submission where
  worker : String
  holder : Option Nat
  list : Work

def Submission.message (s : Submission) (ticket : Nat) : Message :=
  .work ticket (s.holder.getD ticket) s.list

namespace Worker

def takes (w : Worker) : List Message :=
  if w.running.isNone && w.phase = .working then w.inbox.take 1 else []

def accepted (w : Worker) (ticket : Nat) : Option Submission → List Message
  | some s => if s.worker = w.name ∧ w.phase ≠ .ended then [s.message ticket] else []
  | none => []

def farewell (w : Worker) (tickets : List Nat) : List Message :=
  match w.owner with
  | .within t => if t ∈ tickets then [.shutdown] else []
  | _ => []

end Worker

namespace Crew

def during {α : Type} (f : Crew → CrewEvent → List α) : Crew → List CrewEvent → List α
  | _, [] => []
  | c, e :: rest => f c e ++ during f (c.apply e) rest

theorem run_append (c : Crew) (past future : List CrewEvent) :
    c.run (past ++ future) = (c.run past).run future := List.foldl_append

theorem run_concat (c : Crew) (past : List CrewEvent) (e : CrewEvent) :
    c.run (past ++ [e]) = (c.run past).apply e := by
  rw [run_append]
  rfl

theorem during_append {α : Type} (f : Crew → CrewEvent → List α) (c : Crew)
    (past future : List CrewEvent) :
    c.during f (past ++ future) = c.during f past ++ (c.run past).during f future := by
  induction past generalizing c with
  | nil => rfl
  | cons e rest ih =>
    rw [List.cons_append, during, during, ih, List.append_assoc]
    rfl

theorem during_concat {α : Type} (f : Crew → CrewEvent → List α) (c : Crew) (past : List CrewEvent)
    (e : CrewEvent) : c.during f (past ++ [e]) = c.during f past ++ f (c.run past) e := by
  rw [during_append, during, during, List.append_nil]

/-! ## The logs -/

def coming? (c : Crew) (w : Worker) : Option (Running × UnitMove) :=
  w.running.bind fun run => (c.nextMove? w run).map (run, ·)

def submitting? (c : Crew) (w : Worker) : Option Submission :=
  match c.coming? w with
  | some (run, .handsOver worker list _) => some ⟨worker, some run.holder, list⟩
  | _ => none

def submission? (c : Crew) : CrewEvent → Option Submission
  | .submit worker list | .submitOwner worker list => some ⟨worker, none, list⟩
  | .turn name => (c.worker? name).bind c.submitting?
  | _ => none

/-- The units that let go of an owner in a turn of a worker: one that drops it or ends, and those
that are left undone. -/
def lettingGo (c : Crew) (w : Worker) : List Nat :=
  match c.coming? w with
  | some (run, .dropsOwner _) => [run.holder]
  | some (run, .returns) | some (run, .panics ..) => if run.below.isEmpty then [run.ticket] else []
  | some _ => []
  | none => if w.running.isNone && w.phase = .leaving then workTickets w.inbox else []

def farewell (c : Crew) (w : Worker) : CrewEvent → List Message
  | .dropOwner name => if w.name = name ∧ w.owner = .outside then [.shutdown] else []
  | .turn name => w.farewell (((c.worker? name).map c.lettingGo).getD [])
  | _ => []

def received (name : String) (c : Crew) (e : CrewEvent) : List Message :=
  match c.worker? name with
  | some w => w.accepted c.replies.length (c.submission? e) ++ c.farewell w e
  | none => []

def taken (name : String) (c : Crew) : CrewEvent → List Message
  | .turn other => if other = name then ((c.worker? name).map Worker.takes).getD [] else []
  | _ => []

def answering (c : Crew) (w : Worker) : List (Nat × WorkResult) :=
  match c.coming? w with
  | some (run, .returns) => if run.below.isEmpty then [(run.ticket, .ok run.frame.entries)] else []
  | some (run, .panics _ p) =>
    if run.below.isEmpty then [(run.ticket, .error (.panicked p.message))] else []
  | some _ => []
  | none =>
    if w.running.isNone && w.phase = .leaving then
      (workTickets w.inbox).map (·, .error .replyDropped)
    else []

def given (c : Crew) : CrewEvent → List (Nat × WorkResult)
  | .turn name => ((c.worker? name).map c.answering).getD []
  | _ => []

def answers (name : String) (c : Crew) : CrewEvent → List (Nat × WorkResult)
  | .turn other => if other = name then c.given (.turn other) else []
  | _ => []

def refusal (c : Crew) : Option Submission → List (Nat × WorkResult)
  | some s => if c.listens s.worker then [] else [(c.replies.length, .error .shutdown)]
  | none => []

def resolutions (c : Crew) (e : CrewEvent) : List (Nat × WorkResult) :=
  c.refusal (c.submission? e) ++ c.given e

/-! ## What a worker does itself -/

inductive Ends (c : Crew) (w : Worker) (run : Running) : Engine → WorkResult → Prop
  | returns (h : c.nextMove? w run = some .returns) : Ends c w run w.engine (.ok run.frame.entries)
  | panics {engine : Engine} {p : Panic} (h : c.nextMove? w run = some (.panics engine p)) :
      Ends c w run engine (.error (.panicked p.message))

/-- The unit of a worker comes to another engine, frame and frames below. -/
inductive Moves (c : Crew) (w : Worker) (run : Running) : Engine → Frame → List Frame → Prop
  | goes {engine : Engine} {started : Option Command} {rest : Work} {more : List Entry}
      {doing : Doing} (h : c.nextMove? w run = some (.goes engine started rest more doing)) :
      Moves c w run engine { rest, entries := run.frame.entries ++ more, doing } run.below
  | enters {rest inner : Work} (h : c.nextMove? w run = some (.enters rest inner)) :
      Moves c w run w.engine { rest := inner } ({ run.frame with rest } :: run.below)
  | handsOver {worker : String} {inner rest : Work}
      (h : c.nextMove? w run = some (.handsOver worker inner rest)) :
      Moves c w run w.engine { run.frame with rest, doing := .awaiting c.replies.length } run.below
  | hears {ticket : Nat} {r : WorkResult} (h : c.nextMove? w run = some (.hears ticket))
      (hr : c.answer? ticket = some r) :
      Moves c w run w.engine
        { rest := run.frame.rest, entries := run.frame.entries ++ [.nested r] } run.below
  | dropsOwner {rest : Work} (h : c.nextMove? w run = some (.dropsOwner rest)) :
      Moves c w run w.engine { rest, entries := run.frame.entries ++ [] } run.below
  | closes {engine : Engine} {r : WorkResult} {f : Frame} {below : List Frame}
      (h : c.Ends w run engine r) (hbelow : run.below = f :: below) :
      Moves c w run engine (f.told r) below

/-- What a worker does itself in an event in which unit `s` is handed over, with the message that it
takes and the answers that it gives. -/
inductive Acts (c : Crew) (s : Option Submission) (w : Worker) :
    List Message → List (Nat × WorkResult) → Worker → Prop
  | rests : Acts c s w [] [] w
  | takes {ticket holder : Nat} {list : Work} {inbox : List Message} (hrun : w.running = none)
      (hphase : w.phase = .working) (hinbox : w.inbox = .work ticket holder list :: inbox) :
      Acts c s w [.work ticket holder list] []
        { w with inbox, running := some { ticket, holder, frame := { rest := list } } }
  | stops {inbox : List Message} (hrun : w.running = none) (hphase : w.phase = .working)
      (hinbox : w.inbox = .shutdown :: inbox) :
      Acts c s w [.shutdown] [] { w with inbox, phase := .leaving }
  | forsaken (hrun : w.running = none) (hphase : w.phase = .working) (hinbox : w.inbox = [])
      (h : w.forsaken = true) : Acts c s w [] [] { w with phase := .leaving }
  | closes (hrun : w.running = none) (hphase : w.phase = .leaving) :
      Acts c s w [] ((workTickets w.inbox).map (·, .error .replyDropped))
        { w with inbox := [], phase := .ended }
  | moves {run : Running} {engine : Engine} {frame : Frame} {below : List Frame}
      (hrun : w.running = some run) (h : c.Moves w run engine frame below)
      (hs : s = c.submitting? w) :
      Acts c s w [] [] { w with engine, running := some { run with frame, below } }
  | ends {run : Running} {engine : Engine} {r : WorkResult} (hrun : w.running = some run)
      (h : c.Ends w run engine r) (hbelow : run.below = []) :
      Acts c s w [] [(run.ticket, r)] { w with engine, running := none }

end Crew

/-! ## What comes from others -/

def Engine.Switched (thrown : Prop) (e e' : Engine) : Prop :=
  e' = e ∨ thrown ∧ ∃ failures, e' = { e with failures }

namespace Engine.Switched

variable {thrown thrown' : Prop} {e e' e'' : Engine}

theorem refl (e : Engine) : e.Switched thrown e := .inl rfl

theorem trans (h : e.Switched thrown e') (h' : e'.Switched thrown e'') : e.Switched thrown e'' := by
  obtain rfl | ⟨hthrown, failures, rfl⟩ := h'
  · exact h
  · obtain rfl | ⟨-, -, rfl⟩ := h
    · exact .inr ⟨hthrown, failures, rfl⟩
    · exact .inr ⟨hthrown, failures, rfl⟩

theorem mono (hle : thrown → thrown') (h : e.Switched thrown e') : e.Switched thrown' e' :=
  h.imp_right fun h => ⟨hle h.1, h.2⟩

end Engine.Switched

def CrewEvent.Throws (name : String) : CrewEvent → Prop
  | failing worker _ _ => worker = name
  | _ => False

/-- What others do to a worker: they send it messages, and throw the switches of its engine. -/
structure Worker.Hears (thrown : Prop) (got : List Message) (w w' : Worker) : Prop where
  name : w'.name = w.name
  thread : w'.thread = w.thread
  running : w'.running = w.running
  phase : w'.phase = w.phase
  inbox : w'.inbox = w.inbox ++ got
  engine : w.engine.Switched thrown w'.engine
  owner : w'.owner = .gone ↔ w.owner = .gone ∨ .shutdown ∈ got

def Worker.pending (w : Worker) : List Nat :=
  (w.running.map (·.ticket)).toList ++ workTickets w.inbox

/-- A worker that does not take messages any more has lost its owner, and its last unit is done. -/
def Worker.Steady (w : Worker) : Prop := w.phase ≠ .working → w.owner = .gone ∧ w.running = none

namespace Worker

variable {w w' w'' : Worker} {got more : List Message} {thrown : Prop}

theorem Hears.trans (h : w.Hears thrown got w') (h' : w'.Hears thrown more w'') :
    w.Hears thrown (got ++ more) w'' where
  name := h'.name.trans h.name
  thread := h'.thread.trans h.thread
  running := h'.running.trans h.running
  phase := h'.phase.trans h.phase
  inbox := by rw [h'.inbox, h.inbox, List.append_assoc]
  engine := h.engine.trans h'.engine
  owner := by rw [h'.owner, h.owner, List.mem_append, or_assoc]

/-- What changes neither messages nor whether there is an owner. -/
theorem Hears.of_same (hname : w'.name = w.name) (hthread : w'.thread = w.thread)
    (hrunning : w'.running = w.running) (hphase : w'.phase = w.phase) (hinbox : w'.inbox = w.inbox)
    (hengine : w.engine.Switched thrown w'.engine) (howner : w'.owner = .gone ↔ w.owner = .gone) :
    w.Hears thrown [] w' :=
  ⟨hname, hthread, hrunning, hphase, by rw [hinbox, List.append_nil], hengine, by simp [howner]⟩

theorem Hears.refl (w : Worker) : w.Hears thrown [] w :=
  .of_same rfl rfl rfl rfl rfl (.refl _) .rfl

theorem Hears.mono {thrown' : Prop} (hle : thrown → thrown') (h : w.Hears thrown got w') :
    w.Hears thrown' got w' := { h with engine := h.engine.mono hle }

theorem hears_disown (hphase : w.phase ≠ .ended) (howner : w.owner ≠ .gone) :
    w.Hears thrown [.shutdown] w.disown :=
  ⟨rfl, rfl, rfl, rfl, by simp [disown, hphase, howner], .refl _, by simp⟩

theorem hears_without (tickets : List Nat) (h : w.phase = .ended → w.owner = .gone) :
    w.Hears thrown (w.farewell tickets) (w.without tickets) := by
  unfold farewell without
  cases howner : w.owner with
  | within t =>
    by_cases ht : t ∈ tickets
    · simp only [if_pos ht]
      exact hears_disown (fun hended => by simp [h hended] at howner) (by simp [howner])
    · simp only [if_neg ht]
      exact .refl w
  | _ => exact .refl w

def accept (w : Worker) (ticket : Nat) (s : Option Submission) : Worker :=
  { w with inbox := w.inbox ++ w.accepted ticket s }

theorem hears_accept (ticket : Nat) (s : Option Submission) :
    w.Hears thrown (w.accepted ticket s) (w.accept ticket s) where
  name := rfl
  thread := rfl
  running := rfl
  phase := rfl
  inbox := rfl
  engine := .refl _
  owner := by
    have hnot : Message.shutdown ∉ w.accepted ticket s := by
      unfold accepted Submission.message
      split
      · split <;> simp
      · simp
    simp [accept, hnot]

@[simp] theorem accepted_none (w : Worker) (ticket : Nat) : w.accepted ticket none = [] := rfl

@[simp] theorem farewell_nil (w : Worker) : w.farewell [] = [] := by
  unfold farewell
  split
  · exact if_neg List.not_mem_nil
  · rfl

theorem accepted_of_ended (h : w.phase = .ended) (ticket : Nat) (s : Option Submission) :
    w.accepted ticket s = [] := by
  cases s with
  | none => rfl
  | some s => exact if_neg fun hs => hs.2 h

theorem farewell_of_gone (h : w.owner = .gone) (tickets : List Nat) : w.farewell tickets = [] := by
  rw [farewell, h]

@[simp] theorem accept_none (w : Worker) (ticket : Nat) : w.accept ticket none = w := by
  simp [accept, accepted]

end Worker

namespace Crew

variable {c : Crew} {name : String} {w : Worker}

/-- What comes into an inbox is a unit that is handed over, then what the owner leaves when it goes. -/
theorem received_cases (hw : c.worker? name = some w) (e : CrewEvent) :
    ∃ works farewell, c.received name e = works ++ farewell ∧
      (works = [] ∨ ∃ s, c.submission? e = some s ∧ s.worker = name ∧ w.phase ≠ .ended ∧
        works = [s.message c.replies.length]) ∧
      (farewell = [] ∨ farewell = [.shutdown] ∧ w.owner ≠ .gone) := by
  refine ⟨w.accepted c.replies.length (c.submission? e), c.farewell w e, by simp [received, hw], ?_, ?_⟩
  · unfold Worker.accepted
    cases hs : c.submission? e with
    | none => exact .inl rfl
    | some s =>
      by_cases h : s.worker = w.name ∧ w.phase ≠ .ended
      · exact .inr ⟨s, rfl, h.1.trans (name_of_worker? hw), h.2, if_pos h⟩
      · exact .inl (if_neg h)
  · have hfarewell (tickets : List Nat) :
        w.farewell tickets = [] ∨ w.farewell tickets = [.shutdown] ∧ w.owner ≠ .gone := by
      unfold Worker.farewell
      cases howner : w.owner with
      | within t => by_cases ht : t ∈ tickets <;> simp [ht]
      | _ => exact .inl rfl
    cases e with
    | dropOwner other =>
      by_cases h : w.name = other ∧ w.owner = .outside
      · exact .inr ⟨if_pos h, by simp [h.2]⟩
      · exact .inl (if_neg h)
    | turn other => exact hfarewell _
    | _ => exact .inl rfl

end Crew

end SharedPrompt
