import SharedPrompt.Proofs.CrewLogs

/-!
# What a unit comes to

The answer of a unit taken by itself. Its deeds are done one after another on the engine, and a unit
that it hands to its own worker is done to the end in between. Where it waits for another worker it
is told an answer.
-/

namespace SharedPrompt

/-- What some actions come to once every barrier on their way is open. -/
def Engine.outcome (e : Engine) (output : List Value) : List Action → Outcome
  | [] => .values output
  | .out v :: rest => e.outcome (output ++ [v]) rest
  | .askFired :: rest => e.outcome (output ++ [.bool false]) rest
  | .get name :: rest => e.outcome (output ++ [(e.variable_ name).getD .null]) rest
  | .fail f :: _ => .fault f
  | .panic p :: _ => .panicked p
  | .record _ :: rest | .barrier _ :: rest | .barrierOrFired _ :: rest | .enter _ :: rest
  | .leave :: rest | .idle :: rest => e.outcome output rest

/-- What a command leaves in the answer of its unit, or the panic with which it ends the unit. -/
def Outcome.report : Outcome → Except Panic (List Entry)
  | values vs => .ok [.values vs]
  | fault f => .ok [.scriptFault f]
  | panicked p => .error p

/-- How a command ends that has begun, if it is not the read of a line that nobody has typed. -/
def Engine.conclusion? (e : Engine) (inv : Invocation) (editing : Bool) :
    Option (Except Panic (List Entry) × Engine) :=
  if editing then
    match e.lines with
    | line :: lines => some (.ok [.values [.str line]], { e with lines }.finish inv editing)
    | [] => none
  else some ((e.outcome inv.output inv.rest).report, e.finish inv editing)

def Engine.commanding? (e : Engine) (command : Command) :
    Option (Except Panic (List Entry) × Engine) :=
  match e.create {} .current with
  | (.error f, e, _) => some (.ok [.engineFault f], e)
  | (.ok pipeline, e, _) =>
    let (e, inv, editing) := e.begin pipeline command 0 0
    e.conclusion? inv editing

/-- What a deed comes to on the engine of a worker, with the engine after it. Units that are handed
over are not deeds of the engine. -/
def Engine.does? (worker thread : String) (e : Engine) :
    Deed → Option (Except Panic (List Entry) × Engine)
  | .invoke command => e.commanding? command
  | .script editor text =>
    match e.setVariable EditorView.variableName editor with
    | (.error f, e) => some (.ok [.engineFault f], e)
    | (.ok (), e) => e.commanding? (.script text)
  | .set name v =>
    match e.setVariable name v with
    | (.error f, e) => some (.ok [.engineFault f], e)
    | (.ok (), e) => some (.ok [.flag true], e)
  | .place => some (.ok [.place e.inProcess e.cancellable], e)
  | .onWorker name => some (.ok [.flag (name == worker)], e)
  | .thread => some (.ok [.thread thread], e)
  | .barrier _ | .dropOwner => some (.ok [], e)
  | .panic p => some (.error p, e)
  | .submit .. => none

/-! ## The rules -/

section Rules

/- `thrown`: somebody throws the switches of the engine. `told`: a unit that was handed to another
worker has been given an answer. -/
variable (worker thread : String) (thrown : Prop) (told : String → Work → WorkResult → Prop)

/-- A unit ends, either because nothing is left to do or by the panic of its next deed. -/
inductive Closes (entries : List Entry) : Work → Engine → WorkResult → Engine → Prop
  | returned (e : Engine) : Closes entries [] e (.ok entries) e
  | panicked {d : Deed} {rest : Work} {e e₁ e' : Engine} {p : Panic}
      (h : e.does? worker thread d = some (.error p, e₁)) (hs : e₁.Switched thrown e') :
      Closes entries (d :: rest) e (.error (.panicked p.message)) e'

/-- How far a unit can have come that began with an engine: its entries, what is left to do, and the
engine. -/
inductive Partly : Engine → Work → List Entry → Work → Engine → Prop
  | begun (e : Engine) (list : Work) : Partly e list [] list e
  | does {e₀ e e' : Engine} {list rest : Work} {d : Deed} {entries more : List Entry}
      (h : Partly e₀ list entries (d :: rest) e)
      (hd : e.does? worker thread d = some (.ok more, e')) :
      Partly e₀ list (entries ++ more) rest e'
  | within {e₀ e e' e'' : Engine} {list inner rest left : Work} {entries more : List Entry}
      {r : WorkResult} (h : Partly e₀ list entries (.submit worker inner :: rest) e)
      (hinner : Partly e inner more left e') (hr : Closes worker thread thrown more left e' r e'') :
      Partly e₀ list (entries ++ [.nested r]) rest e''
  | elsewhere {e₀ e : Engine} {list inner rest : Work} {entries : List Entry} {other : String}
      {r : WorkResult} (h : Partly e₀ list entries (.submit other inner :: rest) e)
      (hother : other ≠ worker) (hr : told other inner r) :
      Partly e₀ list (entries ++ [.nested r]) rest e
  | switched {e₀ e e' : Engine} {list rest : Work} {entries : List Entry}
      (h : Partly e₀ list entries rest e) (hs : e.Switched thrown e') :
      Partly e₀ list entries rest e'

def Comes (e : Engine) (list : Work) (r : WorkResult) (e' : Engine) : Prop :=
  ∃ entries rest e₁, Partly worker thread thrown told e list entries rest e₁ ∧
    Closes worker thread thrown entries rest e₁ r e'

end Rules

variable {worker thread : String} {thrown thrown' : Prop}
  {told told' : String → Work → WorkResult → Prop}

theorem Closes.mono (hthrown : thrown → thrown') {entries : List Entry} {rest : Work}
    {e e' : Engine} {r : WorkResult} (h : Closes worker thread thrown entries rest e r e') :
    Closes worker thread thrown' entries rest e r e' := by
  cases h with
  | returned => exact .returned _
  | panicked h hs => exact .panicked h (hs.mono hthrown)

theorem Partly.mono (hthrown : thrown → thrown')
    (htold : ∀ other list r, told other list r → told' other list r) {e e' : Engine}
    {list rest : Work} {entries : List Entry}
    (h : Partly worker thread thrown told e list entries rest e') :
    Partly worker thread thrown' told' e list entries rest e' := by
  induction h with
  | begun e list => exact .begun e list
  | does _ hd ih => exact .does ih hd
  | within _ _ hr ih ihinner => exact .within ih ihinner (hr.mono hthrown)
  | elsewhere _ hother hr ih => exact .elsewhere ih hother (htold _ _ _ hr)
  | switched _ hs ih => exact .switched ih (hs.mono hthrown)

theorem Comes.mono (hthrown : thrown → thrown')
    (htold : ∀ other list r, told other list r → told' other list r) {e e' : Engine} {list : Work}
    {r : WorkResult} (h : Comes worker thread thrown told e list r e') :
    Comes worker thread thrown' told' e list r e' := by
  obtain ⟨entries, rest, e₁, hpartly, hcloses⟩ := h
  exact ⟨entries, rest, e₁, hpartly.mono hthrown htold, hcloses.mono hthrown⟩

theorem Comes.switched {e e' e'' : Engine} {list : Work} {r : WorkResult}
    (h : Comes worker thread thrown told e list r e') (hs : e'.Switched thrown e'') :
    Comes worker thread thrown told e list r e'' := by
  obtain ⟨entries, rest, e₁, hpartly, hcloses⟩ := h
  cases hcloses with
  | returned => exact ⟨entries, [], e'', hpartly.switched hs, .returned e''⟩
  | panicked h hs' => exact ⟨entries, _, e₁, hpartly, .panicked h (hs'.trans hs)⟩

/-- A unit that is done ends with a value or with its own panic. -/
theorem Closes.cases {entries : List Entry} {rest : Work} {e e' : Engine} {r : WorkResult}
    (h : Closes worker thread thrown entries rest e r e') :
    r = .ok entries ∨ ∃ p : Panic, r = .error (.panicked p.message) := by
  cases h with
  | returned => exact .inl rfl
  | panicked _ _ => exact .inr ⟨_, rfl⟩

/-! ## The moves of a unit -/

def Engine.ahead? (worker thread : String) (e : Engine) (rest : Work) :
    Doing → Option (Except Panic (List Entry) × Engine)
  | .command inv editing => e.conclusion? inv editing
  | .awaiting _ => none
  | .deeds =>
    match rest with
    | [] => none
    | d :: _ => e.does? worker thread d

def Doing.after (rest : Work) : Doing → Work
  | deeds => rest.tail
  | _ => rest

def Doing.IsOwn (rest : Work) : Doing → Prop
  | deeds => rest ≠ []
  | command _ _ => True
  | awaiting _ => False

/-- Every turn of an invocation leads to the outcome that it had before. -/
theorem Invocation.turn_outcome (inv : Invocation) (e : Engine) (isOpen : String → Bool) :
    match inv.turn e false isOpen with
    | .on next | .record _ next | .idle next | .enter _ next | .leave next =>
      e.outcome next.output next.rest = e.outcome inv.output inv.rest ∧ next.counted = inv.counted
    | .ended o => e.outcome inv.output inv.rest = o
    | .stuck => True := by
  unfold Invocation.turn
  cases hrest : inv.rest with
  | nil => simp [Engine.outcome]
  | cons a rest =>
    cases a with
    | barrier name =>
      by_cases hopen : isOpen name = true <;> simp [hopen, Engine.outcome]
    | barrierOrFired name =>
      by_cases hopen : isOpen name = true <;> simp [hopen, Engine.outcome]
    | _ => simp [Engine.outcome, Invocation.put]

/-- On which pipeline a command runs makes no difference to it. -/
private theorem conclusion?_begin (e : Engine) (n m : Nat) (command : Command) :
    (e.begin n command 0 0).1.conclusion? (e.begin n command 0 0).2.1 (e.begin n command 0 0).2.2 =
      (e.begin m command 0 0).1.conclusion? (e.begin m command 0 0).2.1
        (e.begin m command 0 0).2.2 := by
  unfold Engine.begin
  cases e.plan command with
  | actions counted list => cases counted <;> rfl
  | _ => rfl

/-- A move of a unit that keeps to the engine brings its deed nearer to the end, and says what it
comes to when that is reached. -/
def UnitMove.Sound (worker thread : String) (e : Engine) (rest : Work) (doing : Doing) : UnitMove → Prop
  | goes engine _ left more .deeds =>
    left = doing.after rest ∧ e.ahead? worker thread rest doing = some (.ok more, engine)
  | goes engine _ left more (.command inv editing) =>
    left = doing.after rest ∧ more = [] ∧ doing.IsOwn rest ∧
      engine.conclusion? inv editing = e.ahead? worker thread rest doing
  | goes _ _ _ _ (.awaiting _) => False
  | panics engine p => e.ahead? worker thread rest doing = some (.error p, engine)
  | _ => True

private theorem sound_beginning {e e' : Engine} {d : Deed} {rest : Work} {command : Command}
    (hd : e.does? worker thread d = e'.commanding? command) (n : Nat) :
    (e'.beginning n rest command).Sound worker thread e (d :: rest) .deeds := by
  have hahead : e.ahead? worker thread (d :: rest) .deeds = e'.commanding? command := hd
  unfold Engine.beginning
  unfold Engine.commanding? at hahead
  obtain ⟨f, e₁, h⟩ | ⟨e₁, h⟩ := e'.create_cases .current
  · rw [h] at hahead ⊢
    exact ⟨rfl, hahead⟩
  · rw [h] at hahead ⊢
    exact ⟨rfl, rfl, List.cons_ne_nil _ _, (conclusion?_begin e₁ n 0 command).trans hahead.symm⟩

private theorem sound_endingMove {e e' : Engine} {rest : Work} (doing : Doing) {o : Outcome}
    (h : e.ahead? worker thread rest doing = some (o.report, e')) :
    (Worker.endingMove (doing.after rest) e' o).Sound worker thread e rest doing := by
  cases o with
  | panicked p => exact h
  | _ => exact ⟨rfl, h⟩

variable {w : Worker} {barriers : List String} {n : Nat} {rest : Work} {m : UnitMove}

private theorem sound_commandMove {inv : Invocation} {editing : Bool}
    (h : w.commandMove? barriers rest inv editing = some m) :
    m.Sound w.name w.thread w.engine rest (.command inv editing) := by
  unfold Worker.commandMove? at h
  cases editing with
  | true =>
    cases hlines : w.engine.lines with
    | nil => simp [hlines] at h
    | cons line lines =>
      rw [if_pos rfl, hlines] at h
      cases h
      refine sound_endingMove (.command inv true) ?_
      rw [Engine.ahead?, Engine.conclusion?, if_pos rfl, hlines]
      rfl
  | false =>
    rw [if_neg Bool.false_ne_true] at h
    have hahead (next : Invocation) : w.engine.conclusion? next false =
        some ((w.engine.outcome next.output next.rest).report, w.engine.finish next false) := by
      simp [Engine.conclusion?]
    have houtcome := inv.turn_outcome w.engine barriers.contains
    have hon {next : Invocation}
        (hnext : w.engine.outcome next.output next.rest = w.engine.outcome inv.output inv.rest ∧
          next.counted = inv.counted) :
        (UnitMove.goes w.engine none rest [] (.command next false)).Sound w.name w.thread w.engine rest
          (.command inv false) := by
      refine ⟨rfl, rfl, trivial, ?_⟩
      rw [Engine.ahead?, hahead, hahead, hnext.1, Engine.finish, Engine.finish, hnext.2]
    cases hturn : inv.turn w.engine false barriers.contains with
    | stuck => simp [hturn] at h
    | ended o =>
      rw [hturn] at h houtcome
      cases h
      refine sound_endingMove (.command inv false) ?_
      rw [Engine.ahead?, hahead, houtcome]
    | _ =>
      rw [hturn] at h houtcome
      cases h
      exact hon houtcome

private theorem sound_deedMove {d : Deed} (h : w.deedMove? barriers n rest d = some m) :
    m.Sound w.name w.thread w.engine (d :: rest) .deeds := by
  cases d with
  | invoke command =>
    cases h
    exact sound_beginning rfl n
  | script editor text =>
    by_cases hfails : w.engine.failures.setVariable = true
    · simp only [Worker.deedMove?, Engine.setVariable, if_pos hfails] at h
      cases h
      exact ⟨rfl, by simp [Engine.ahead?, Engine.does?, Engine.setVariable, hfails]⟩
    · simp only [Worker.deedMove?, Engine.setVariable, if_neg hfails] at h
      cases h
      exact sound_beginning (by simp only [Engine.does?, Engine.setVariable, if_neg hfails]) n
  | set name v =>
    by_cases hfails : w.engine.failures.setVariable = true
    · simp only [Worker.deedMove?, Engine.setVariable, if_pos hfails] at h
      cases h
      exact ⟨rfl, by simp [Engine.ahead?, Engine.does?, Engine.setVariable, hfails]⟩
    · simp only [Worker.deedMove?, Engine.setVariable, if_neg hfails] at h
      cases h
      exact ⟨rfl, by simp [Engine.ahead?, Engine.does?, Engine.setVariable, hfails]⟩
  | submit name list =>
    simp only [Worker.deedMove?] at h
    split at h <;> cases h <;> trivial
  | barrier name =>
    simp only [Worker.deedMove?] at h
    split at h <;> cases h
    exact ⟨rfl, rfl⟩
  | panic p =>
    cases h
    rfl
  | dropOwner =>
    cases h
    trivial
  | _ =>
    cases h
    exact ⟨rfl, rfl⟩

/-- The moves of a unit are those of its deeds. -/
theorem sound_of_move? {doing : Doing} (h : w.move? barriers n rest doing = some m) :
    m.Sound w.name w.thread w.engine rest doing := by
  cases doing with
  | command inv editing => exact sound_commandMove h
  | awaiting ticket =>
    cases h
    trivial
  | deeds =>
    cases rest with
    | nil =>
      cases h
      trivial
    | cons d rest => exact sound_deedMove h

end SharedPrompt
