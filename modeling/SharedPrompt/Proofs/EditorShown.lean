import Mathlib.Data.List.Infix
import SharedPrompt.Proofs.CrewAccounts
import SharedPrompt.Proofs.EditorFields
import SharedPrompt.Proofs.WorkerVariables

/-!
# What scripts find under the editor's variable

A script begins with the editor of the file that it was called for, whatever was there before. Only
units of the same worker put something else there, and while the script goes on these are units that
it has called back in. Nothing brings its own editor back after them.
-/

namespace SharedPrompt

def Doing.script? : Doing → Option String
  | command inv _ => match inv.command with
    | .script text => some text
    | _ => none
  | deeds | awaiting _ => none

namespace Crew

variable {c d : Crew} {name : String} {w : Worker} {run : Running}

def running? (c : Crew) (name : String) : Option Running := (c.worker? name).bind (·.running)

/-- The script that a worker is at in the unit that stands on so many others. -/
def scriptAt? (c : Crew) (name : String) (height : Nat) : Option String :=
  (c.running? name).bind fun run =>
    (run.frame :: run.below).reverse[height]?.bind (·.doing.script?)

def editor? (c : Crew) (name : String) : Option Value :=
  (c.worker? name).bind (·.engine.variable_ EditorView.variableName)

def shows? (name : String) (c : Crew) : CallingEvent → Option Value
  | .event e => (c.changed name e).reverse.lookup EditorView.variableName
  | .callBack .. => none

def shown (name : String) : Crew → List CallingEvent → List Value
  | _, [] => []
  | c, e :: later => (c.shows? name e).toList ++ shown name (c.happen e) later

/-! ## The variable -/

theorem editor?_eq (c : Crew) (name : String) :
    c.editor? name = (c.holding? name).bind (·.bindings.lookup EditorView.variableName) := by
  rw [editor?, holding?, Option.bind_map]
  rfl

theorem changed_of_none (h : c.worker? name = none) (e : CrewEvent) : c.changed name e = [] := by
  cases e with
  | turn other =>
    refine if_neg fun ⟨hname, hstep⟩ => ?_
    rw [step, h] at hstep
    cases hstep
  | _ => rfl

theorem editor?_happen (c : Crew) (name : String) (e : CallingEvent) :
    (c.happen e).editor? name = (c.shows? name e).or (c.editor? name) := by
  cases e with
  | event e =>
    rw [happen, shows?, editor?_eq, editor?_eq, holding?_apply]
    cases hw : c.worker? name with
    | none => simp [holding?, hw, changed_of_none hw]
    | some w => simp [holding?, hw, Holding.put, Value.lookup_insertFields]
  | callBack other list =>
    have hsame : (c.callBack other list).holding? name = c.holding? name := by
      refine holding?_modifyWorker c (fun w => ?_) (fun w => ?_) other name
      · split <;> [split; skip] <;> rfl
      · split <;> [split; skip] <;> rfl
    rw [happen, shows?, editor?_eq, editor?_eq, hsame, Option.none_or]

theorem editor?_follow (c : Crew) (name : String) (later : List CallingEvent) :
    (c.follow later).editor? name = (c.shown name later).getLast?.or (c.editor? name) := by
  induction later generalizing c with
  | nil => rfl
  | cons e later ih =>
    have hfollow : c.follow (e :: later) = (c.happen e).follow later := rfl
    rw [hfollow, ih, editor?_happen, shown, List.getLast?_append, Option.or_assoc]
    cases c.shows? name e <;> rfl

theorem shown_append (c : Crew) (name : String) (before after : List CallingEvent) :
    c.shown name (before ++ after) = c.shown name before ++ (c.follow before).shown name after := by
  induction before generalizing c with
  | nil => rfl
  | cons e before ih =>
    rw [List.cons_append, shown, shown, ih, List.append_assoc]
    rfl

/-- Whatever is put under the variable is there at some time. -/
theorem exists_editor?_of_mem_shown {v : Value} {later : List CallingEvent}
    (h : v ∈ c.shown name later) :
    ∃ before, before <+: later ∧ (c.follow before).editor? name = some v := by
  induction later generalizing c with
  | nil => cases h
  | cons e later ih =>
    obtain hv | hv := List.mem_append.1 h
    · refine ⟨[e], ⟨later, rfl⟩, ?_⟩
      have hfollow : c.follow [e] = c.happen e := rfl
      rw [hfollow, editor?_happen, Option.mem_toList.1 hv, Option.some_or]
    · obtain ⟨before, hle, hbefore⟩ := ih hv
      exact ⟨e :: before, List.cons_prefix_cons.2 ⟨rfl, hle⟩, hbefore⟩

/-! ## The unit at work -/

theorem running?_map {f : Worker → Worker} (hf : ∀ w, (f w).running = w.running)
    (h : d.worker? name = (c.worker? name).map f) : d.running? name = c.running? name := by
  rw [running?, running?, h]
  cases c.worker? name with
  | none => rfl
  | some w => exact hf w

theorem running?_modifyWorker (c : Crew) {f : Worker → Worker} (hname : ∀ w, (f w).name = w.name)
    {other : String} (hf : name ≠ other ∨ ∀ w, (f w).running = w.running) :
    (c.modifyWorker other f).running? name = c.running? name := by
  refine running?_map (fun w => ?_) (worker?_modifyWorker c hname other name)
  obtain hne | hf := hf
  · rw [if_neg hne]
  · split
    · exact hf w
    · rfl

theorem running?_submit (c : Crew) (other : String) (holder : Option Nat) (list : Work)
    (name : String) : (c.submit other holder list).2.running? name = c.running? name := by
  refine running?_map (fun w => ?_) (worker?_submit c other holder list name)
  split <;> rfl

/-- Only in its own turn does a worker go on with its unit. -/
theorem running?_apply {e : CrewEvent} (h : e ≠ .turn name) :
    (c.apply e).running? name = c.running? name := by
  cases e with
  | submit worker list => exact running?_submit c worker none list name
  | submitOwner worker list =>
    refine (running?_modifyWorker _ ?_ (.inr ?_)).trans (running?_submit c worker none list name) <;>
      intro w <;> split <;> rfl
  | dropOwner worker =>
    refine running?_modifyWorker c ?_ (.inr ?_) <;> intro w <;> split <;> rfl
  | openBarrier _ => rfl
  | turn other =>
    rw [apply]
    cases hstep : c.step other with
    | none => rfl
    | some d =>
      obtain ⟨v, hv, hd⟩ := Option.bind_eq_some_iff.1 hstep
      obtain rfl := name_of_worker? hv
      obtain ⟨-, -, -, v', -, hafter⟩ := running_turned hd
      have hname : name ≠ v.name := fun heq => h (heq ▸ rfl)
      rw [Option.getD_some, running?, running?, hafter]
      simp only [if_neg hname]
  | _ => refine running?_modifyWorker c ?_ (.inr ?_) <;> intro w <;> rfl

theorem scriptAt?_of_running {text : String} {height : Nat} (h : c.scriptAt? name height = some text) :
    ∃ run, c.running? name = some run ∧ height ≤ run.below.length ∧
      (run.below.length = height → run.frame.doing.script? = some text) := by
  obtain ⟨run, hrun, hscript⟩ := Option.bind_eq_some_iff.1 h
  obtain ⟨frame, hframe, hscript⟩ := Option.bind_eq_some_iff.1 hscript
  refine ⟨run, hrun, ?_, fun heq => ?_⟩
  · obtain ⟨hlt, -⟩ := List.getElem?_eq_some_iff.1 hframe
    simpa [Nat.lt_succ_iff] using hlt
  · subst heq
    obtain rfl : run.frame = frame := by simpa using hframe
    exact hscript

theorem exists_command_of_script? {doing : Doing} {text : String} (h : doing.script? = some text) :
    ∃ inv editing, doing = .command inv editing := by
  cases doing with
  | command inv editing => exact ⟨inv, editing, rfl⟩
  | _ => cases h

/-- In a turn a command puts nothing on top of its unit. -/
theorem Acts.length_below {s : Option Submission} {took : List Message}
    {gave : List (Nat × WorkResult)} {v v' : Worker} (h : c.Acts s v took gave v')
    {run run' : Running} (hrun : v.running = some run) {text : String}
    (hscript : run.frame.doing.script? = some text) (hrun' : v'.running = some run') :
    run'.below.length ≤ run.below.length := by
  cases h with
  | rests =>
    obtain rfl := Option.some.inj (hrun.symm.trans hrun')
    exact Nat.le_refl _
  | moves hsome hmoves =>
    obtain rfl := Option.some.inj (hrun.symm.trans hsome)
    cases hrun'
    cases hmoves with
    | enters hmove =>
      obtain ⟨hdoing, -⟩ := (Worker.reaches_of_move? hmove).of_enters
      rw [hdoing] at hscript
      cases hscript
    | closes _ hbelow => simp [hbelow]
    | _ => exact Nat.le_refl _
  | ends _ _ _ => cases hrun'
  | takes hnone => simp [hrun] at hnone
  | stops hnone => simp [hrun] at hnone
  | forsaken hnone => simp [hrun] at hnone
  | closes hnone => simp [hrun] at hnone

/-- A worker is at a script, and nothing is at work that the script has called back in. -/
def AtScript (c : Crew) (name text : String) (height : Nat) : Prop :=
  ∃ run, c.running? name = some run ∧ run.below.length = height ∧
    run.frame.doing.script? = some text

section Script

variable {text : String} {height : Nat}

theorem AtScript.changed (h : c.AtScript name text height) (e : CrewEvent) :
    c.changed name e = [] := by
  obtain ⟨run, hrun, -, hscript⟩ := h
  obtain ⟨w, hw, hrun⟩ := Option.bind_eq_some_iff.1 hrun
  obtain ⟨inv, editing, hdoing⟩ := exists_command_of_script? hscript
  have hputs : w.puts = [] := by
    rw [Worker.puts, hrun]
    simp [hdoing, Engine.takes]
  cases e with
  | turn other =>
    rw [Crew.changed, hw, Option.map_some, Option.getD_some, hputs]
    exact ite_self _
  | _ => rfl

/-- A script that goes on is at work until it calls something back in. -/
theorem AtScript.happen (h : c.AtScript name text height) {e : CallingEvent}
    (hcall : ∀ list, e ≠ .callBack name list)
    (hnext : (c.happen e).scriptAt? name height = some text) :
    (c.happen e).AtScript name text height := by
  obtain ⟨run, hrun, hheight, hscript⟩ := h
  have hsame (heq : (c.happen e).running? name = c.running? name) :
      (c.happen e).AtScript name text height := ⟨run, heq.trans hrun, hheight, hscript⟩
  cases e with
  | callBack other list =>
    have hne : name ≠ other := fun heq => hcall list (heq ▸ rfl)
    refine hsame (running?_modifyWorker c (fun w => ?_) (.inl hne))
    split <;> [split; skip] <;> rfl
  | event e =>
    by_cases hturn : e = .turn name
    · subst hturn
      obtain ⟨run', hrun', hle, hscript'⟩ := scriptAt?_of_running hnext
      obtain ⟨v, hv, hsome⟩ := Option.bind_eq_some_iff.1 hrun
      obtain rfl := name_of_worker? hv
      cases hstep : c.stepWorker v with
      | none =>
        refine hsame ?_
        rw [Crew.happen, apply, step, hv, Option.bind_some, hstep]
        rfl
      | some d =>
        have happly : c.happen (.event (.turn v.name)) = d := by
          rw [Crew.happen, apply, step, hv, Option.bind_some, hstep, Option.getD_some]
        obtain ⟨_, _, _, v', hacts, hafter⟩ := running_turned hstep
        have hrunning : v'.running = some run' := by
          rw [← hrun', happly, running?, hafter, hv, Option.bind_some, if_pos rfl]
        -- The unit is not put on another one, and goes on, so it is still the innermost.
        have hlength := hacts.length_below hsome hscript hrunning
        have heq : run'.below.length = height := by omega
        exact ⟨run', hrun', heq, hscript' heq⟩
    · exact hsame (running?_apply hturn)

/-- A script that goes on without calling anything back in finds the same editor all the time. -/
theorem AtScript.shown (h : c.AtScript name text height) (later : List CallingEvent)
    (hgoes : ∀ before, before <+: later → (c.follow before).scriptAt? name height = some text)
    (hcall : ∀ list, .callBack name list ∉ later) : c.shown name later = [] := by
  induction later generalizing c with
  | nil => rfl
  | cons e later ih =>
    have hfirst : ∀ list, e ≠ .callBack name list := fun list heq =>
      hcall list (heq ▸ List.mem_cons_self)
    have hshows : c.shows? name e = none := by
      cases e with
      | callBack => rfl
      | event e => rw [shows?, h.changed, List.reverse_nil, List.lookup_nil]
    have hnext := h.happen hfirst (hgoes [e] ⟨later, rfl⟩)
    have hrest := ih hnext
      (fun before hle => hgoes (e :: before) (List.cons_prefix_cons.2 ⟨rfl, hle⟩))
      fun list hmem => hcall list (List.mem_cons_of_mem e hmem)
    rw [Crew.shown, hshows, hrest]
    rfl

/-! ## The beginning of a script -/

/-- A turn that goes on with the unit at work. -/
theorem running?_goes (hw : c.worker? name = some w) (hrun : w.running = some run) {engine : Engine}
    {started : Option Command} {rest : Work} {more : List Entry} {doing : Doing}
    (h : c.nextMove? w run = some (.goes engine started rest more doing)) :
    (c.apply (.turn name)).running? name =
      some { run with frame := { rest, entries := run.frame.entries ++ more, doing } } := by
  obtain rfl := name_of_worker? hw
  have hsame : ({ c with trace := c.trace.begun started } : Crew).worker? w.name = some w := hw
  rw [apply, step, hw, Option.bind_some, c.stepWorker_running w run hrun, h, Option.bind_some,
    carryOut, Option.getD_some, running?, worker?_setWorker, hsame]
  simp

/-- The deed that shows an editor to a script goes on, though not with the script if the engine does
not take the variable. -/
theorem exists_goes_script (w : Worker) (barriers : List String) (n : Nat) (rest : Work)
    (editor : Value) (text : String) : ∃ engine started left more doing,
      w.deedMove? barriers n rest (.script editor text) = some (.goes engine started left more doing) ∧
        (w.engine.failures.setVariable = true → doing = .deeds) := by
  have hbegins (e : Engine) : ∃ engine started left more doing,
      e.beginning n rest (.script text) = .goes engine started left more doing := by
    unfold Engine.beginning
    split <;> exact ⟨_, _, _, _, _, rfl⟩
  by_cases hfails : w.engine.failures.setVariable = true
  · rw [Worker.deedMove?, Engine.setVariable, if_pos hfails]
    exact ⟨_, _, _, _, _, rfl, fun _ => rfl⟩
  · rw [Worker.deedMove?, Engine.setVariable, if_neg hfails]
    obtain ⟨engine, started, left, more, doing, h⟩ := hbegins _
    exact ⟨engine, started, left, more, doing, congrArg some h, fun h => absurd h hfails⟩

/-- A script begins with the editor that it is to be shown. -/
theorem atScript_begins {editor : Value} (hrun : c.running? name = some run)
    (hdoing : run.frame.doing = .deeds) (hrest : run.frame.rest = [.script editor text])
    (hbegins : (c.apply (.turn name)).scriptAt? name run.below.length = some text) :
    (c.apply (.turn name)).AtScript name text run.below.length ∧
      (c.apply (.turn name)).editor? name = some editor := by
  obtain ⟨w, hw, hrun⟩ := Option.bind_eq_some_iff.1 hrun
  obtain ⟨engine, started, left, more, doing, hgoes, hfails⟩ :=
    exists_goes_script w c.barriers c.trace.pipelines [] editor text
  have hmove : c.nextMove? w run = some (.goes engine started left more doing) := by
    rw [nextMove?, hdoing, hrest]
    exact hgoes
  have hafter := running?_goes hw hrun hmove
  obtain ⟨run', hrun', -, hscript⟩ := scriptAt?_of_running hbegins
  obtain rfl := Option.some.inj (hrun'.symm.trans hafter)
  have hscript : doing.script? = some text := hscript rfl
  refine ⟨⟨_, hafter, rfl, hscript⟩, ?_⟩
  have hworks : w.engine.failures.setVariable = false := by
    by_contra h
    rw [hfails (by simpa using h)] at hscript
    cases hscript
  have hstep : (c.step name).isSome = true := by
    rw [step, hw, Option.bind_some, c.stepWorker_running w run hrun, hmove]
    rfl
  have hputs : w.puts = [(EditorView.variableName, editor)] := by
    rw [Worker.puts, hrun, Option.map_some, Option.getD_some, hdoing, hrest, Engine.takes, hworks]
    rfl
  have hchanged : c.changed name (.turn name) = [(EditorView.variableName, editor)] := by
    rw [Crew.changed, if_pos ⟨rfl, hstep⟩, hw, Option.map_some, Option.getD_some, hputs]
  have heditor := editor?_happen c name (.event (.turn name))
  rw [shows?, hchanged, List.reverse_singleton, List.lookup_cons_self, Option.some_or] at heditor
  exact heditor

end Script

/-! ## What a script finds -/

/-- A script finds the file under the editor's variable, with all that belongs to it and as that of no
other file. -/
structure FindsFile (c : Crew) (name : String) (f : ScriptFile) (v : Value) : Prop where
  editor : c.editor? name = some v
  own : f.ShownBy v
  only : ∀ g : ScriptFile, g.ShownBy v → g = f
  /-- That is what the script is given when it asks. -/
  given : ∀ inv rest, c.doing? name = some (.command inv false) →
    inv.rest = .get EditorView.variableName :: rest →
      (c.apply (.turn name)).doing? name = some (.command (inv.put v rest) false)

structure ScriptFinds (c : Crew) (name text : String) (height : Nat) (f : ScriptFile)
    (later : List CallingEvent) : Prop where
  /-- It finds its own file all the time if and only if nobody shows another one meanwhile. -/
  throughout : (∀ before, before <+: later → ∃ v, (c.follow before).FindsFile name f v) ↔
    ∀ v ∈ c.shown name later, f.ShownBy v
  /-- Nobody does so unless the script calls something back in. -/
  uncalled : (∀ before, before <+: later → (c.follow before).scriptAt? name height = some text) →
    (∀ list, .callBack name list ∉ later) →
      ∀ before, before <+: later → ∃ v, (c.follow before).FindsFile name f v

theorem finds_iff {f : ScriptFile} :
    (∃ v, c.FindsFile name f v) ↔ ∃ v, c.editor? name = some v ∧ f.ShownBy v := by
  constructor
  · rintro ⟨v, h⟩
    exact ⟨v, h.editor, h.own⟩
  · rintro ⟨v, heditor, hown⟩
    refine ⟨v, heditor, hown, fun g hg => hg.unique hown, fun inv rest hdoing hrest => ?_⟩
    obtain ⟨w, hw, hvariable⟩ := Option.bind_eq_some_iff.1 heditor
    rw [doing?_get hw hdoing hrest, hvariable, Option.getD_some]

/-- Somebody who finds a file finds it all the time if and only if nothing but its editor is put under
the variable meanwhile. -/
theorem finds_throughout_iff {f : ScriptFile} {editor : Value} (h : c.editor? name = some editor)
    (hown : f.ShownBy editor) (later : List CallingEvent) :
    (∀ before, before <+: later → ∃ v, (c.follow before).FindsFile name f v) ↔
      ∀ v ∈ c.shown name later, f.ShownBy v := by
  simp only [finds_iff]
  constructor
  · intro hfinds v hv
    obtain ⟨before, hle, hbefore⟩ := exists_editor?_of_mem_shown hv
    obtain ⟨u, hu, hshown⟩ := hfinds before hle
    obtain rfl := Option.some.inj (hbefore.symm.trans hu)
    exact hshown
  · rintro hshows before ⟨after, rfl⟩
    rw [editor?_follow, h]
    -- The last one that was put there is the one that is there now.
    cases hlast : (c.shown name before).getLast? with
    | none => exact ⟨editor, rfl, hown⟩
    | some v =>
      refine ⟨v, rfl, hshows v ?_⟩
      rw [shown_append]
      exact List.mem_append_left _ (List.mem_of_getLast? hlast)

def editorOf (path contents dir : String) : Value :=
  .obj [("contents", .str contents), ("filePath", .str path), ("window", .obj [("title", .null)]),
    ("workspacePath", .str dir)]

/-- Calls for two files on one worker. The script of the first one has panicked, and that of the
second one is about to begin. -/
def secondBegins : Crew :=
  (hired [("w", [("breaks", [.get "editor", .panic .other]),
      ("asks", [.get "editor", .barrier "g", .get "editor"]), ("asks once", [.get "editor"])], {})]).run
    (.submit "w" [.script (editorOf "/x/one" "1" "/x") "breaks"] ::
      .submit "w" [.script (editorOf "/y/two" "2" "/y") "asks"] :: List.replicate 5 (.turn "w"))

/-- While the second script waits, another call for the first file is handed over. -/
def thirdCall : List CallingEvent :=
  [.event (.turn "w"), .event (.submit "w" [.script (editorOf "/x/one" "1" "/x") "asks once"]),
    .event (.turn "w"), .event (.openBarrier "g"), .event (.turn "w")]

/-- The second script calls back in a call for the first file, which is done in place. -/
def calledBack : List CallingEvent :=
  .event (.turn "w") :: .callBack "w" [.script (editorOf "/x/one" "1" "/x") "asks once"] ::
    List.replicate 4 (.event (.turn "w"))

def pathsFound : WorkResult → List String
  | .ok [.values vs] => vs.filterMap fun v => (v.field? "filePath").bind Value.str?
  | _ => []

end Crew

end SharedPrompt
