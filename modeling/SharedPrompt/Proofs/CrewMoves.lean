import SharedPrompt.Worker.Crew

/-!
# What the unit at work does next

The next move of a unit depends on the engine of its worker, on the barriers and on what is left to
do, but not on the entries that it has made. A turn of a worker that has a unit at work is that move,
carried out.
-/

namespace SharedPrompt

inductive UnitMove where
  /-- It goes on, perhaps with a command begun on a new pipeline. -/
  | goes (engine : Engine) (started : Option Command) (rest : Work) (more : List Entry)
      (doing : Doing)
  /-- It hands a unit to its own worker. -/
  | enters (rest inner : Work)
  /-- It hands a unit to another worker. -/
  | handsOver (worker : String) (inner rest : Work)
  /-- It is told the answer of a unit that another worker has. -/
  | hears (ticket : Nat)
  | dropsOwner (rest : Work)
  | returns
  | panics (engine : Engine) (p : Panic)

/-- The unit keeps to itself and the engine. -/
def UnitMove.isOwn : UnitMove → Bool
  | goes .. | panics .. => true
  | _ => false

def Trace.begun (t : Trace) : Option Command → Trace
  | none => t
  | some command =>
    ({ t with pipelines := t.pipelines + 1 }.call (.created t.pipelines .current)).call
      (.started t.pipelines .silent command)

/-- An engine refuses a pipeline or makes the next one. -/
theorem Engine.create_cases (e : Engine) (mode : PipelineMode) :
    (∃ f e', ∀ t, e.create t mode = (.error f, e', t)) ∨
      ∃ e', ∀ t, e.create t mode =
        (.ok t.pipelines, e', { t with pipelines := t.pipelines + 1 }.call (.created t.pipelines mode)) := by
  by_cases hrefused : e.refused.contains (e.attempts + 1) = true
  · exact .inl ⟨_, _, fun t => by rw [create]; exact if_pos hrefused⟩
  by_cases hfails : e.failures.pipeline = true
  · exact .inl ⟨_, _, fun t => by rw [create]; exact (if_neg hrefused).trans (if_pos hfails)⟩
  · exact .inr ⟨_, fun t => by rw [create]; exact (if_neg hrefused).trans (if_neg hfails)⟩

/-- The move that begins a command, on pipeline `n` if the engine makes one. -/
def Engine.beginning (e : Engine) (n : Nat) (rest : Work) (command : Command) : UnitMove :=
  match e.create { pipelines := n } .current with
  | (.error f, e, _) => .goes e none rest [.engineFault f] .deeds
  | (.ok pipeline, e, _) =>
    let (e, inv, editing) := e.begin pipeline command 0 0
    .goes e (some command) rest [] (.command inv editing)

namespace Worker

variable (w : Worker) (barriers : List String)

def deedMove? (n : Nat) (rest : Work) : Deed → Option UnitMove
  | .invoke command => some (w.engine.beginning n rest command)
  | .script editor text =>
    match w.engine.setVariable EditorView.variableName editor with
    | (.error f, e) => some (.goes e none rest [.engineFault f] .deeds)
    | (.ok (), e) => some (e.beginning n rest (.script text))
  | .set name v =>
    match w.engine.setVariable name v with
    | (.error f, e) => some (.goes e none rest [.engineFault f] .deeds)
    | (.ok (), e) => some (.goes e none rest [.flag true] .deeds)
  | .place =>
    some (.goes w.engine none rest [.place w.engine.inProcess w.engine.cancellable] .deeds)
  | .onWorker name => some (.goes w.engine none rest [.flag (name == w.name)] .deeds)
  | .thread => some (.goes w.engine none rest [.thread w.thread] .deeds)
  | .submit name list => if name = w.name then some (.enters rest list) else some (.handsOver name list rest)
  | .barrier name => if barriers.contains name then some (.goes w.engine none rest [] .deeds) else none
  | .panic p => some (.panics w.engine p)
  | .dropOwner => some (.dropsOwner rest)

def endingMove (rest : Work) (e : Engine) : Outcome → UnitMove
  | .values vs => .goes e none rest [.values vs] .deeds
  | .fault f => .goes e none rest [.scriptFault f] .deeds
  | .panicked p => .panics e p

def commandMove? (rest : Work) (inv : Invocation) (editing : Bool) : Option UnitMove :=
  if editing then
    match w.engine.lines with
    | line :: lines =>
      some (endingMove rest ({ w.engine with lines }.finish inv editing) (.values [.str line]))
    | [] => none
  else
    match inv.turn w.engine false barriers.contains with
    | .on inv | .record _ inv | .idle inv | .enter _ inv | .leave inv =>
      some (.goes w.engine none rest [] (.command inv false))
    | .ended o => some (endingMove rest (w.engine.finish inv editing) o)
    | .stuck => none

/-- The next move of a unit that has `rest` to do, or none if it has to wait. -/
def move? (n : Nat) (rest : Work) : Doing → Option UnitMove
  | .command inv editing => w.commandMove? barriers rest inv editing
  | .awaiting ticket => some (.hears ticket)
  | .deeds =>
    match rest with
    | [] => some .returns
    | d :: rest => w.deedMove? barriers n rest d

/-! ## Which moves there are -/

variable {w barriers} {n : Nat} {rest : Work} {doing : Doing} {m : UnitMove}

private theorem isOwn_beginning (e : Engine) (command : Command) :
    (e.beginning n rest command).isOwn = true := by
  unfold Engine.beginning
  split <;> rfl

private theorem isOwn_endingMove (e : Engine) (o : Outcome) : (endingMove rest e o).isOwn = true := by
  cases o <;> rfl

private theorem isOwn_commandMove {inv : Invocation} {editing : Bool}
    (h : w.commandMove? barriers rest inv editing = some m) : m.isOwn = true := by
  unfold commandMove? at h
  split at h
  · split at h
    · cases h
      exact isOwn_endingMove _ _
    · cases h
  · split at h
    case h_6 =>
      cases h
      exact isOwn_endingMove _ _
    case h_7 => cases h
    all_goals
      cases h
      rfl

/-- A unit that does more than go on with its own says so by its next deed. -/
inductive Reaches (w : Worker) (rest : Work) : Doing → UnitMove → Prop
  | returns (h : rest = []) : Reaches w rest .deeds .returns
  | enters {inner left : Work} (h : rest = .submit w.name inner :: left) :
      Reaches w rest .deeds (.enters left inner)
  | handsOver {worker : String} {inner left : Work} (h : rest = .submit worker inner :: left)
      (hne : worker ≠ w.name) : Reaches w rest .deeds (.handsOver worker inner left)
  | hears (ticket : Nat) : Reaches w rest (.awaiting ticket) (.hears ticket)
  | dropsOwner {left : Work} (h : rest = .dropOwner :: left) :
      Reaches w rest .deeds (.dropsOwner left)
  | own {doing : Doing} {m : UnitMove} (h : m.isOwn = true) : Reaches w rest doing m

theorem reaches_of_move? (h : w.move? barriers n rest doing = some m) : Reaches w rest doing m := by
  cases doing with
  | command inv editing => exact .own (isOwn_commandMove h)
  | awaiting ticket =>
    cases h
    exact .hears ticket
  | deeds =>
    cases rest with
    | nil =>
      cases h
      exact .returns rfl
    | cons d rest =>
      change w.deedMove? barriers n rest d = some m at h
      cases d with
      | invoke command =>
        cases h
        exact .own (isOwn_beginning _ _)
      | script editor text =>
        simp only [deedMove?] at h
        split at h
        · cases h
          exact .own rfl
        · cases h
          exact .own (isOwn_beginning _ _)
      | set name v =>
        simp only [deedMove?] at h
        split at h <;> cases h <;> exact .own rfl
      | submit name list =>
        by_cases hown : name = w.name
        · subst hown
          simp only [deedMove?, if_true] at h
          cases h
          exact .enters rfl
        · simp only [deedMove?, if_neg hown] at h
          cases h
          exact .handsOver rfl hown
      | barrier name =>
        simp only [deedMove?] at h
        split at h <;> cases h
        exact .own rfl
      | dropOwner =>
        cases h
        exact .dropsOwner rfl
      | _ =>
        cases h
        exact .own rfl

namespace Reaches

variable {left inner : Work} {worker : String} {ticket : Nat}

theorem of_returns (h : Reaches w rest doing .returns) : doing = .deeds ∧ rest = [] := by
  cases h with
  | own hown => cases hown
  | returns hrest => exact ⟨rfl, hrest⟩

theorem of_enters (h : Reaches w rest doing (.enters left inner)) :
    doing = .deeds ∧ rest = .submit w.name inner :: left := by
  cases h with
  | own hown => cases hown
  | enters hrest => exact ⟨rfl, hrest⟩

theorem of_handsOver (h : Reaches w rest doing (.handsOver worker inner left)) :
    doing = .deeds ∧ rest = .submit worker inner :: left ∧ worker ≠ w.name := by
  cases h with
  | own hown => cases hown
  | handsOver hrest hne => exact ⟨rfl, hrest, hne⟩

theorem of_hears (h : Reaches w rest doing (.hears ticket)) : doing = .awaiting ticket := by
  cases h with
  | own hown => cases hown
  | hears => rfl

theorem of_dropsOwner (h : Reaches w rest doing (.dropsOwner left)) :
    doing = .deeds ∧ rest = .dropOwner :: left := by
  cases h with
  | own hown => cases hown
  | dropsOwner hrest => exact ⟨rfl, hrest⟩

end Reaches

end Worker

namespace Crew

def carryOut (c : Crew) (w : Worker) (run : Running) : UnitMove → Option Crew
  | .goes engine started rest more doing =>
    let frame : Frame := { rest, entries := run.frame.entries ++ more, doing }
    some ({ c with trace := c.trace.begun started }.setWorker
      { w with engine, running := some { run with frame } })
  | .enters rest inner =>
    some (c.setWorker { w with running := some { run with
      frame := { rest := inner }, below := { run.frame with rest } :: run.below } })
  | .handsOver name inner rest =>
    some ((c.submit name (some run.holder) inner).2.doing w run rest (.awaiting c.replies.length))
  | .hears ticket => (c.answer? ticket).map fun r => c.resume w run run.frame.rest [.nested r]
  | .dropsOwner rest => some ((c.resume w run rest []).dropOwnerOf run.holder)
  | .returns => some (c.finish w run (.ok run.frame.entries))
  | .panics engine p => some (c.panicked { w with engine } run p)

def nextMove? (c : Crew) (w : Worker) (run : Running) : Option UnitMove :=
  w.move? c.barriers c.trace.pipelines run.frame.rest run.frame.doing

variable (c : Crew) (w : Worker) (run : Running) (rest : Work)

theorem submit_ticket (name : String) (holder : Option Nat) (list : Work) :
    (c.submit name holder list).1 = c.replies.length := by
  unfold submit
  split
  · split <;> rfl
  · rfl

private theorem carryOut_beginning (e : Engine) (command : Command) :
    c.carryOut w run (e.beginning c.trace.pipelines rest command) =
      some (c.beginCommand { w with engine := e } run rest command) := by
  unfold beginCommand Engine.beginning
  obtain ⟨f, e', h⟩ | ⟨e', h⟩ := e.create_cases .current
  · simp only [h]
    rfl
  · simp only [h, carryOut, doing, List.append_nil]
    rfl

private theorem carryOut_deedMove (d : Deed) :
    ((w.deedMove? c.barriers c.trace.pipelines rest d).bind (c.carryOut w run)) =
      c.stepDeed w run rest d := by
  cases d with
  | invoke command => exact carryOut_beginning c w run rest w.engine command
  | script editor text =>
    by_cases hfails : w.engine.failures.setVariable = true
    · simp only [Worker.deedMove?, stepDeed, Engine.setVariable, if_pos hfails]
      rfl
    · simp only [Worker.deedMove?, stepDeed, Engine.setVariable, if_neg hfails]
      exact carryOut_beginning c w run rest _ _
  | set name v =>
    by_cases hfails : w.engine.failures.setVariable = true
    · simp only [Worker.deedMove?, stepDeed, Engine.setVariable, if_pos hfails]
      rfl
    · simp only [Worker.deedMove?, stepDeed, Engine.setVariable, if_neg hfails]
      rfl
  | submit name list =>
    by_cases hown : name = w.name
    · simp only [Worker.deedMove?, stepDeed, if_pos hown]
      rfl
    · simp only [Worker.deedMove?, stepDeed, if_neg hown, Option.bind_some, carryOut,
        ← c.submit_ticket name (some run.holder) list]
  | barrier name =>
    by_cases hopen : c.barriers.contains name = true
    · simp only [Worker.deedMove?, stepDeed, if_pos hopen]
      rfl
    · simp only [Worker.deedMove?, stepDeed, if_neg hopen]
      rfl
  | _ => rfl

private theorem carryOut_commandMove (inv : Invocation) (editing : Bool) :
    ((w.commandMove? c.barriers run.frame.rest inv editing).bind (c.carryOut w run)) =
      c.stepCommand w run inv editing := by
  have hon (next : Invocation) :
      c.carryOut w run (.goes w.engine none run.frame.rest [] (.command next false)) =
        some (c.doing w run run.frame.rest (.command next false)) := by
    simp only [carryOut, doing, List.append_nil]
    rfl
  unfold Worker.commandMove? stepCommand
  cases editing with
  | true =>
    cases w.engine.lines <;> rfl
  | false =>
    cases inv.turn w.engine false c.barriers.contains with
    | ended o => cases o <;> rfl
    | stuck => rfl
    | _ => exact hon _

/-- A worker with a unit at work carries out the next move of that unit. -/
theorem stepWorker_running (hrun : w.running = some run) :
    c.stepWorker w = (c.nextMove? w run).bind (c.carryOut w run) := by
  unfold stepWorker nextMove? Worker.move?
  rw [hrun]
  dsimp only
  cases run.frame.doing with
  | command inv editing => exact (carryOut_commandMove c w run inv editing).symm
  | awaiting ticket => rfl
  | deeds =>
    cases run.frame.rest with
    | nil => rfl
    | cons d rest => exact (carryOut_deedMove c w run rest d).symm

end Crew

end SharedPrompt
