import Mathlib.Data.List.Induction
import SharedPrompt.Proofs.CrewTurns
import SharedPrompt.Proofs.FieldLists

/-!
# The variables of a worker

A worker keeps the engine that it was started with, and its thread. The variables of the engine are
those it was opened with, under those that the worker's own units have put there since; nothing else
that happens to a crew touches them.
-/

namespace SharedPrompt

def Deed.binding? : Deed → Option (String × Value)
  | .script editor _ => some (EditorView.variableName, editor)
  | .set name v => some (name, v)
  | _ => none

def Engine.takes (e : Engine) : Doing → Work → List (String × Value)
  | .deeds, d :: _ => if e.failures.setVariable then [] else d.binding?.toList
  | _, _ => []

def Worker.puts (w : Worker) : List (String × Value) :=
  (w.running.map fun run => w.engine.takes run.frame.doing run.frame.rest).getD []

structure Holding where
  thread : String
  opened : List Preload
  bindings : List (String × Value)

namespace Holding

def put (h : Holding) (more : List (String × Value)) : Holding :=
  { h with bindings := Value.insertFields h.bindings more }

@[simp] theorem put_nil (h : Holding) : h.put [] = h := rfl

theorem put_append (h : Holding) (more later : List (String × Value)) :
    h.put (more ++ later) = (h.put more).put later := by
  rw [put, Value.insertFields_append]
  rfl

end Holding

def Worker.holding (w : Worker) : Holding := ⟨w.thread, w.opened, w.engine.bindings⟩

/-! ## One move -/

def UnitMove.engineFrom (e : Engine) : UnitMove → Engine
  | goes engine .. | panics engine _ => engine
  | _ => e

namespace Engine

variable {e : Engine} {n : Nat} {rest : Work}

theorem takes_of_binding? {d : Deed} (h : d.binding? = none) (e : Engine) (rest : Work) :
    e.takes .deeds (d :: rest) = [] := by
  rw [takes, h]
  exact ite_self _

theorem setVariable_bindings (e : Engine) (name : String) (v : Value) :
    (e.setVariable name v).2.bindings =
      Value.insertFields e.bindings (if e.failures.setVariable then [] else [(name, v)]) := by
  unfold setVariable
  split <;> rfl

/-- An engine that begins a command begins that one, and keeps its variables. -/
theorem begin_command (e : Engine) (pipeline : Nat) (command : Command) (sink token : Nat) :
    (e.begin pipeline command sink token).1.bindings = e.bindings ∧
      (e.begin pipeline command sink token).2.1.command = command := by
  unfold Engine.begin
  split <;> exact ⟨rfl, rfl⟩

theorem create_bindings (e : Engine) (t : Trace) (mode : PipelineMode) :
    (e.create t mode).2.1.bindings = e.bindings := by
  unfold create
  dsimp only
  split
  · rfl
  · split <;> rfl

theorem finish_bindings (e : Engine) (inv : Invocation) (reading : Bool) :
    (e.finish inv reading).bindings = e.bindings := by
  unfold finish
  dsimp only
  split <;> split <;> rfl

theorem beginning_bindings (e e₀ : Engine) (n : Nat) (rest : Work) (command : Command) :
    ((e.beginning n rest command).engineFrom e₀).bindings = e.bindings := by
  have hcreate := e.create_bindings { pipelines := n } .current
  unfold beginning
  split <;> rename_i heq <;> rw [heq] at hcreate
  · exact hcreate
  · exact (begin_command _ _ _ _ _).1.trans hcreate

end Engine

namespace Worker

variable {w : Worker} {barriers : List String} {n : Nat} {rest : Work} {doing : Doing} {m : UnitMove}

theorem endingMove_engineFrom (e e₀ : Engine) (o : Outcome) : (endingMove rest e o).engineFrom e₀ = e := by
  cases o <;> rfl

theorem bindings_of_commandMove? {inv : Invocation} {editing : Bool}
    (h : w.commandMove? barriers rest inv editing = some m) :
    (m.engineFrom w.engine).bindings = w.engine.bindings := by
  unfold commandMove? at h
  split at h
  · split at h <;> cases h
    rw [endingMove_engineFrom, Engine.finish_bindings]
  · split at h <;> cases h
    case h_6 => rw [endingMove_engineFrom, Engine.finish_bindings]
    all_goals rfl

theorem bindings_of_deedMove? {d : Deed} (h : w.deedMove? barriers n rest d = some m) :
    (m.engineFrom w.engine).bindings =
      Value.insertFields w.engine.bindings (w.engine.takes .deeds (d :: rest)) := by
  cases d with
  | script editor text =>
    have hset := w.engine.setVariable_bindings EditorView.variableName editor
    simp only [deedMove?] at h
    split at h <;> rename_i heq <;> rw [heq] at hset <;> cases h
    · exact hset
    · exact (Engine.beginning_bindings ..).trans hset
  | set name v =>
    have hset := w.engine.setVariable_bindings name v
    simp only [deedMove?] at h
    split at h <;> rename_i heq <;> rw [heq] at hset <;> cases h <;> exact hset
  | invoke command =>
    rw [Engine.takes_of_binding? rfl]
    cases h
    exact Engine.beginning_bindings ..
  | submit name list =>
    rw [Engine.takes_of_binding? rfl]
    simp only [deedMove?] at h
    split at h <;> cases h <;> rfl
  | barrier name =>
    rw [Engine.takes_of_binding? rfl]
    simp only [deedMove?] at h
    split at h <;> cases h
    rfl
  | _ =>
    rw [Engine.takes_of_binding? rfl]
    cases h
    rfl

/-- A unit changes the variables by the deeds that put one there, and in no other way. -/
theorem bindings_of_move? (h : w.move? barriers n rest doing = some m) :
    (m.engineFrom w.engine).bindings =
      Value.insertFields w.engine.bindings (w.engine.takes doing rest) := by
  cases doing with
  | awaiting ticket =>
    cases h
    rfl
  | command inv editing => exact bindings_of_commandMove? h
  | deeds =>
    cases rest with
    | nil =>
      cases h
      rfl
    | cons d rest => exact bindings_of_deedMove? h

end Worker

namespace Crew

variable {c d : Crew} {name : String} {v : Worker}

def holding? (c : Crew) (name : String) : Option Holding := (c.worker? name).map Worker.holding

theorem holding?_map {f : Worker → Worker} (hf : ∀ w, (f w).holding = w.holding)
    (h : d.worker? name = (c.worker? name).map f) : d.holding? name = c.holding? name := by
  rw [holding?, holding?, h, Option.map_map]
  exact Option.map_congr fun w _ => hf w

theorem holding_without (tickets : List Nat) (w : Worker) :
    (w.without tickets).holding = w.holding := by
  unfold Worker.without
  split
  · split <;> rfl
  · rfl

theorem holding?_modifyWorker (c : Crew) {f : Worker → Worker} (hname : ∀ w, (f w).name = w.name)
    (hf : ∀ w, (f w).holding = w.holding) (other name : String) :
    (c.modifyWorker other f).holding? name = c.holding? name := by
  refine holding?_map (fun w => ?_) (worker?_modifyWorker c hname other name)
  split
  · exact hf w
  · rfl

theorem holding?_submit (c : Crew) (other : String) (holder : Option Nat) (list : Work)
    (name : String) : (c.submit other holder list).2.holding? name = c.holding? name := by
  refine holding?_map (fun w => ?_) (worker?_submit c other holder list name)
  split <;> rfl

theorem holding?_dropOwnerOf (c : Crew) (ticket : Nat) (name : String) :
    (c.dropOwnerOf ticket).holding? name = c.holding? name :=
  holding?_map (holding_without _) (worker?_dropOwnerOf c ticket name)

theorem holding?_discards (ms : List Message) (c : Crew) (name : String) :
    (ms.foldl discard c).holding? name = c.holding? name :=
  holding?_map (holding_without _) (worker?_discards ms c name)

/-- A worker that has put some variables into its engine. -/
theorem holding?_setWorker (hv : c.worker? v.name = some v) (u : Worker) (hname : u.name = v.name)
    (more : List (String × Value)) (hput : u.holding = v.holding.put more) (name : String) :
    (c.setWorker u).holding? name =
      (c.holding? name).map fun h => if name = v.name then h.put more else h := by
  rw [holding?, holding?, worker?_setWorker, Option.map_map, Option.map_map]
  refine Option.map_congr fun w hw => ?_
  by_cases heq : name = v.name
  · subst heq
    obtain rfl := Option.some.inj (hv.symm.trans hw)
    simp [hname, hput]
  · simp [hname, heq]

/-! ## One turn -/

/-- A unit goes on, or has come to its end, with an engine that has taken some variables. -/
theorem holding?_setRunning (hv : c.worker? v.name = some v) (r : Option Running) {e : Engine}
    {more : List (String × Value)} (hput : e.bindings = Value.insertFields v.engine.bindings more)
    (name : String) :
    (c.setWorker { v with engine := e, running := r }).holding? name =
      (c.holding? name).map fun h => if name = v.name then h.put more else h :=
  holding?_setWorker hv { v with engine := e, running := r } rfl more
    (congrArg (Holding.mk v.thread v.opened) hput) name

theorem holding?_finish (hv : c.worker? v.name = some v) (run : Running) (r : WorkResult)
    {e : Engine} {more : List (String × Value)}
    (hput : e.bindings = Value.insertFields v.engine.bindings more) (name : String) :
    (c.finish { v with engine := e } run r).holding? name =
      (c.holding? name).map fun h => if name = v.name then h.put more else h := by
  cases hbelow : run.below with
  | cons f below =>
    simp only [finish, hbelow]
    exact holding?_setRunning hv _ hput name
  | nil =>
    simp only [finish, hbelow]
    exact (holding?_dropOwnerOf _ _ name).trans (holding?_setRunning hv _ hput name)

theorem holding?_carryOut (hv : c.worker? v.name = some v) {run : Running} {m : UnitMove}
    (hm : c.nextMove? v run = some m) (hd : c.carryOut v run m = some d) (name : String) :
    d.holding? name = (c.holding? name).map fun h =>
      if name = v.name then h.put (v.engine.takes run.frame.doing run.frame.rest) else h := by
  have hput := Worker.bindings_of_move? hm
  cases m with
  | goes engine started rest more doing =>
    cases hd
    exact holding?_setRunning (c := { c with trace := c.trace.begun started }) hv _ hput name
  | enters rest inner =>
    cases hd
    exact holding?_setRunning hv _ hput name
  | handsOver worker inner rest =>
    cases hd
    have hne : ¬(v.name = worker ∧ v.phase ≠ .ended) := fun h => handsOver_ne hm h.1.symm
    have hv₁ : (c.submit worker (some run.holder) inner).2.worker? v.name = some v := by
      rw [worker?_submit, hv, Option.map_some, if_neg hne]
    refine (holding?_setRunning hv₁ _ hput name).trans ?_
    rw [holding?_submit]
  | hears ticket =>
    obtain ⟨r, -, rfl⟩ := Option.map_eq_some_iff.1 hd
    exact holding?_setRunning hv _ hput name
  | dropsOwner rest =>
    cases hd
    exact (holding?_dropOwnerOf _ _ name).trans (holding?_setRunning hv _ hput name)
  | returns =>
    cases hd
    exact holding?_finish hv run _ hput name
  | panics engine p =>
    cases hd
    exact holding?_finish (c := { c with trace := c.trace.notice (.unitPanicked p.message) }) hv run _
      hput name

/-- A worker without a unit at work leaves its engine alone. -/
theorem holding?_of_idle (hv : c.worker? v.name = some v) (hrun : v.running = none)
    (hd : c.stepWorker v = some d) (name : String) : d.holding? name = c.holding? name := by
  have hsame {u : Worker} (hname : u.name = v.name) (hholding : u.holding = v.holding) :
      (c.setWorker u).holding? name = c.holding? name := by
    simpa using holding?_setWorker hv u hname [] hholding name
  simp only [stepWorker, hrun] at hd
  split at hd
  · cases hd
  · cases hd
    exact (holding?_discards _ _ name).trans (hsame rfl rfl)
  · split at hd <;> cases hd
    exact hsame rfl rfl
  · cases hd
    exact hsame rfl rfl
  · cases hd
    exact hsame rfl rfl

/-- In its turn a worker puts into its engine what its unit says, and no other worker is touched. -/
theorem holding?_stepWorker (hv : c.worker? v.name = some v) (hd : c.stepWorker v = some d)
    (name : String) :
    d.holding? name = (c.holding? name).map fun h => if name = v.name then h.put v.puts else h := by
  cases hrun : v.running with
  | none =>
    rw [holding?_of_idle hv hrun hd]
    simp [Worker.puts, hrun]
  | some run =>
    rw [c.stepWorker_running v run hrun] at hd
    obtain ⟨m, hm, hd⟩ := Option.bind_eq_some_iff.1 hd
    rw [holding?_carryOut hv hm hd]
    simp [Worker.puts, hrun]

/-! ## A whole run -/

/-- The variables that a worker puts into its engine at an event: in its own turn, unless it has to
wait. -/
def changed (name : String) (c : Crew) : CrewEvent → List (String × Value)
  | .turn other =>
    if other = name ∧ (c.step name).isSome then ((c.worker? name).map Worker.puts).getD [] else []
  | _ => []

def changes (c : Crew) (name : String) (past : List CrewEvent) : List (String × Value) :=
  c.during (changed name) past

theorem holding?_turn (c : Crew) (other name : String) :
    (c.apply (.turn other)).holding? name =
      (c.holding? name).map (·.put (c.changed name (.turn other))) := by
  have hwaits (hstep : c.step other = none) : c.changed name (.turn other) = [] := by
    refine if_neg fun ⟨hname, hsome⟩ => ?_
    subst hname
    rw [hstep] at hsome
    cases hsome
  cases hstep : c.step other with
  | none =>
    rw [hwaits hstep, apply, hstep]
    simp
  | some d =>
    obtain ⟨v, hv, hd⟩ := Option.bind_eq_some_iff.1 hstep
    obtain rfl := name_of_worker? hv
    rw [apply, hstep, Option.getD_some, holding?_stepWorker hv hd]
    by_cases hname : name = v.name
    · subst hname
      simp [changed, hstep, hv]
    · simp [changed, hname, Ne.symm hname]

/-- Nothing that happens to a crew changes the variables of a worker, but what its units put there. -/
theorem holding?_apply (c : Crew) (e : CrewEvent) (name : String) :
    (c.apply e).holding? name = (c.holding? name).map (·.put (c.changed name e)) := by
  have hnone (d : Crew) (h : d.holding? name = c.holding? name) :
      d.holding? name = (c.holding? name).map (·.put []) := by
    simp [h]
  cases e with
  | turn other => exact holding?_turn c other name
  | submit worker list => exact hnone _ (holding?_submit c worker none list name)
  | submitOwner worker list =>
    refine hnone _ ((holding?_modifyWorker _ ?_ ?_ worker name).trans
      (holding?_submit c worker none list name)) <;> intro w <;> split <;> rfl
  | dropOwner worker =>
    refine hnone _ (holding?_modifyWorker c ?_ ?_ worker name) <;> intro w <;> split <;> rfl
  | openBarrier barrier => exact hnone _ rfl
  | _ => refine hnone _ (holding?_modifyWorker c ?_ ?_ _ name) <;> intro w <;> rfl

theorem holding?_run (c : Crew) (past : List CrewEvent) (name : String) :
    (c.run past).holding? name = (c.holding? name).map (·.put (c.changes name past)) := by
  induction past using List.reverseRecOn with
  | nil => simp [run, changes, during]
  | append_singleton past e ih =>
    rw [run_concat, holding?_apply, ih, Option.map_map]
    simp [changes, during_concat, Holding.put_append, Function.comp_def]

end Crew

/-! ## From the start -/

/-- A worker as some options have set it up, with the variables that have been put there since. -/
structure Worker.SetUp (o : WorkerOptions) (changes : List (String × Value)) (w : Worker) : Prop where
  thread : w.thread = o.thread
  /-- One engine was opened for it, and no other one since. -/
  opened : w.opened = [o.preload]
  /-- A variable is as it was put there last, or else as the options have it. -/
  found : ∀ x, w.engine.variable_ x = (changes.reverse.lookup x).or (o.preload.bindings.lookup x)

namespace Crew

variable {c : Crew} {name : String} {w : Worker} {options : WorkerOptions}

theorem holding?_start (hnew : c.worker? name = none) (behavior : Behavior) (options : WorkerOptions) :
    (c.start name behavior options).holding? name =
      some ⟨options.thread, [options.preload], Value.insertFields [] options.preload.bindings⟩ := by
  have hfind : c.workers.find? (·.name = name) = none := hnew
  rw [holding?, worker?, start, List.find?_append, hfind]
  simp [Worker.holding, Engine.opened, Value.insertFields]

/-- Whatever happens to a crew, its workers stay as they were set up, but for what their own units put
into their engines. -/
theorem setUp_run_start (hnew : c.worker? name = none) (behavior : Behavior)
    (hkeys : (options.preload.bindings.map Prod.fst).Nodup) (past : List CrewEvent) :
    ∃ w, ((c.start name behavior options).run past).worker? name = some w ∧
      w.SetUp options ((c.start name behavior options).changes name past) := by
  have hholding := holding?_run (c.start name behavior options) past name
  rw [holding?_start hnew, Option.map_some] at hholding
  obtain ⟨w, hw, heq⟩ := Option.map_eq_some_iff.1 hholding
  obtain ⟨hthread, hopened, hbindings⟩ := Holding.mk.inj heq
  refine ⟨w, hw, hthread, hopened, fun x => ?_⟩
  rw [Engine.variable_, hbindings, Value.lookup_insertFields, Value.lookup_insertFields_nil hkeys]

def doing? (c : Crew) (name : String) : Option Doing :=
  (c.worker? name).bind fun w => w.running.map (·.frame.doing)

/-- A command that asks for a variable puts out what the engine has. -/
theorem doing?_get (hw : c.worker? name = some w) {inv : Invocation} {x : String} {rest : List Action}
    (hdoing : c.doing? name = some (.command inv false)) (hrest : inv.rest = .get x :: rest) :
    (c.apply (.turn name)).doing? name =
      some (.command (inv.put ((w.engine.variable_ x).getD .null) rest) false) := by
  obtain rfl := name_of_worker? hw
  rw [doing?, hw, Option.bind_some] at hdoing
  obtain ⟨run, hrun, hcommand⟩ := Option.map_eq_some_iff.1 hdoing
  have hmove : c.nextMove? w run = some (.goes w.engine none run.frame.rest []
      (.command (inv.put ((w.engine.variable_ x).getD .null) rest) false)) := by
    simp [nextMove?, Worker.move?, Worker.commandMove?, hcommand, Invocation.turn, hrest]
  rw [apply, step, hw, Option.bind_some, c.stepWorker_running w run hrun, hmove, Option.bind_some,
    carryOut, Option.getD_some, doing?, worker?_setWorker]
  have hsame : ({ c with trace := c.trace.begun none } : Crew).worker? w.name = some w := hw
  simp [hsame]

end Crew

end SharedPrompt
