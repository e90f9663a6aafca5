import SharedPrompt.Proofs.DeskRuns
import SharedPrompt.Proofs.DirectRoute
import SharedPrompt.Proofs.IdleRoute
import SharedPrompt.Proofs.ScriptEngines

/-!
# Both routes of a command agree

A plain command that waits for an idle moment comes to the same for its caller, for the engine and
for whoever gets its error records as one that is executed at once. The prompts and their tickets are
afterwards as they were, on both routes.
-/

namespace SharedPrompt

namespace Host

/-- The next caller has got `r`, the engine has been given its job once, and nobody else has got
anything. So many requests have been left for idle moments meanwhile. -/
structure Executed (before : Host) (job : Job) (sink : Option Nat) (r : RunResult)
    (texts : List String) (requests : Nat) (h : Host) : Prop where
  finished : h.finished = before.finished ++ [(before.nextTask, .ran r sink)]
  records : h.records = before.records ++ texts.map (job.sink, ·)
  commands : h.commands = before.commands ++ [(job.options, job.command)]
  nextId : h.slot.nextId = before.slot.nextId + requests

/-- The prompts are those there were before, with their tickets in the same places, and no ticket of
a prompt that has been opened meanwhile is missing. -/
structure Restored (before h : Host) : Prop where
  bottom : h.stack.bottom = before.stack.bottom
  line : h.stack.line = before.stack.line
  nested : h.stack.nested = before.stack.nested
  gates : ∃ more, h.stack.gates = before.stack.gates ++ more ∧ ∀ gate ∈ more, gate.isLeased = false
  turn : h.slot.turn = before.slot.turn
  locked : h.locked = before.locked

/-- The next caller has a job run with nobody else about. Whatever happens then, it gets `r` when it
has ended, and can always be brought to its end; the prompts are as they were when no thread is at
work for it any more. -/
structure Executes (before : Host) (job : Job) (sink : Option Nat) (r : RunResult)
    (texts : List String) (requests : Nat) : Prop where
  executed : ∀ events : List Event, (∀ e ∈ events, before.Own e) →
    let h := before.run (.start (.run job sink) :: events)
    h.task? before.nextTask = none → before.Executed job sink r texts requests h
  restored : ∀ events : List Event, (∀ e ∈ events, before.Own e) →
    let h := before.run (.start (.run job sink) :: events)
    h.task? before.nextTask = none → before.Rested h → before.Restored h
  ends : ∀ events : List Event, (∀ e ∈ events, before.Own e) →
    ∃ later : List Event, (∀ e ∈ later, before.Own e) ∧
      let h := before.run (.start (.run job sink) :: events ++ later)
      h.task? before.nextTask = none ∧ before.Rested h

section
variable {before : Host} {job : Job} {sink : Option Nat} {r : RunResult} {texts : List String}
  {actions : List Action} {requests m : Nat} {way : Way}

/-- A way that leads to its end brings a job there. -/
theorem Leading.executes (hl : before.Leading sink m way) (hc : before.Calm)
    (hstart : way (some (.start job)) none before.doings)
    (hended : ∀ h work, way none work h.doings → before.Executed job sink r texts requests h)
    (hleft : ∀ h, way none none h.doings → before.Restored h) :
    before.Executes job sink r texts requests := by
  have hat (events : List Event) (hown : ∀ e ∈ events, before.Own e) :
      ∃ run worker, before.At sink way run worker
        (before.run (.start (.run job sink) :: events)) := by
    rw [run_cons]
    exact (At.started hc hstart).run_of_own hl hown
  constructor
  · intro events hown h hdone
    obtain ⟨run, worker, ha⟩ := hat events hown
    obtain rfl : run = none := Option.map_eq_none_iff.1 (ha.task.symm.trans hdone)
    exact hended h _ ha.way
  · intro events hown h hdone hrested
    obtain ⟨run, worker, ha⟩ := hat events hown
    obtain rfl : run = none := Option.map_eq_none_iff.1 (ha.task.symm.trans hdone)
    obtain rfl := ha.unmanned hl hrested
    exact hleft h ha.way
  · intro events hown
    obtain ⟨run, worker, ha⟩ := hat events hown
    obtain ⟨later, hlater, hend⟩ := ha.finishes hl
    refine ⟨later, hlater, ?_⟩
    rw [run_append]
    exact ⟨hend.task, hend.rested⟩

theorem Vacant.executes (hv : before.Vacant) (hk : before.WellKept) (hb : before.Brings job actions) :
    before.Executes job sink (before.engine.outcome [] actions).result (errorTexts actions) 0 := by
  have hl : before.Leading sink _ _ := DirectWay.leading hv hk hb
  refine hl.executes ⟨hv.still, hk.numbered⟩ (.asking (.inl rfl)) ?_ ?_
  · intro h work hway
    generalize hd : h.doings = d at hway
    cases hway
    exact ⟨congrArg Doings.finished hd, congrArg Doings.records hd, congrArg Doings.commands hd,
      congrArg (·.slot.nextId) hd⟩
  · intro h hway
    generalize hd : h.doings = d at hway
    cases hway
    have hstack : h.stack = before.stack := congrArg Doings.stack hd
    refine ⟨by rw [hstack], by rw [hstack], by rw [hstack], ⟨[], ?_, nofun⟩,
      congrArg (·.slot.turn) hd, congrArg Doings.locked hd⟩
    rw [hstack, List.append_nil]

theorem Lending.executes (hl : before.Lending) (hn : before.Numbered)
    (hturn : before.slot.turn.tickets = ⟨[()], [], []⟩) (hb : before.Brings job actions) :
    before.Executes job sink (before.engine.outcome [] actions).result (errorTexts actions) 1 := by
  have hleads : before.Leading sink _ _ := IdleWay.leading hl hturn hb
  refine hleads.executes ⟨hl.still, hn⟩ (.asking (.inl rfl)) ?_ ?_
  · intro h work hway
    generalize hd : h.doings = d at hway
    cases hway with
    | ended hclosing =>
      cases hclosing <;>
        exact ⟨congrArg Doings.finished hd, congrArg Doings.records hd,
          congrArg Doings.commands hd, congrArg (·.slot.nextId) hd⟩
  · intro h hway
    generalize hd : h.doings = d at hway
    cases hway with
    | ended hclosing =>
      cases hclosing
      have hstack : h.stack =
          { before.stack with gates := before.stack.gates ++ [.new "nested"] } :=
        congrArg Doings.stack hd
      refine ⟨by rw [hstack], by rw [hstack], by rw [hstack], ⟨[.new "nested"], ?_, ?_⟩,
        congrArg (·.slot.turn) hd, congrArg Doings.locked hd⟩
      · rw [hstack]
      · intro gate hgate
        rw [List.mem_singleton.1 hgate]
        rfl

end

/-- A plain command is executed at once on a host on which no reader in the engine's process has the
line, and waits for an idle moment on one on which such a reader has it. With nobody else about, both
callers get the same, and always get it in the end; both hosts are given the same error records; both
engines are given the command once, with the same options; and the prompts and their tickets are
afterwards as they were. -/
theorem routes_agree (native follows : Bool) (engine : Engine) (console : Console Waiter)
    (tokens : Tokens) (past past' : List Event) (command : Command) (options : Options)
    (records token records' token' : Nat) (sink sink' : Option Nat) (actions : List Action) :
    let start : Host := { established native follows engine console with tokens }
    let direct := start.run past
    let idle := start.run past'
    direct.Vacant → idle.Lending →
      (∀ name, idle.engine.variable_ name = direct.engine.variable_ name) →
      direct.Brings ⟨command, options, records, token⟩ actions →
      idle.Brings ⟨command, options, records', token'⟩ actions →
        let r := (direct.engine.outcome [] actions).result
        direct.Executes ⟨command, options, records, token⟩ sink r (errorTexts actions) 0 ∧
          idle.Executes ⟨command, options, records', token'⟩ sink' r (errorTexts actions) 1 := by
  intro start direct idle hdirect hidle hvariables hbrings hbrings' r
  have hk : start.WellKept := (WellKept.established native follows engine console).setTokens tokens
  have hf : start.Fresh := fresh_established native follows engine console tokens
  obtain ⟨_, hdesk⟩ := (hf.deskKept past').atDesk
  have hturn : idle.slot.turn.tickets = ⟨[()], [], []⟩ := hdesk.inTurn.gate.tickets_eq hidle.turn
  refine ⟨hdirect.executes (hk.run past) hbrings, ?_⟩
  rw [show r = _ from congrArg Outcome.result (Engine.outcome_congr hvariables [] actions).symm]
  exact hidle.executes (hk.run past').numbered hturn hbrings'

/-- A host on whose engine the command `p` puts out a record and a value, and then fails. -/
def failing : Host :=
  { established true false
      { behavior := [("p", [.record "w", .out (.str "a"), .fail ⟨.runtime, "f", none, none⟩])] } {} with
    tokens := callersTokens 2 }

/-- A read takes the line, and its line editor has looked for a line and found none. -/
def readLooking : List Event :=
  .start (.read true 0) :: List.replicate 7 (.poll 0 []) ++ List.replicate 6 (.advance 0)

theorem routes_agree_failing :
    let r : RunResult := .error (.script ⟨.runtime, "f", none, none⟩)
    failing.Executes ⟨.script "p", {}, 0, 0⟩ (some 0) r ["w"] 0 ∧
      (failing.run readLooking).Executes ⟨.script "p", {}, 1, 1⟩ (some 1) r ["w"] 1 := by
  intro r
  have hdirect : failing.Vacant := ⟨⟨rfl, fun _ _ _ _ => ⟨rfl, rfl⟩⟩, rfl, rfl, rfl⟩
  have hidle : (failing.run readLooking).Lending :=
    ⟨⟨rfl, fun _ _ _ _ => ⟨rfl, rfl⟩⟩, rfl, rfl, rfl, by decide, rfl, rfl⟩
  have hplain : ∀ a ∈ [Action.record "w", .out (.str "a"), .fail ⟨.runtime, "f", none, none⟩],
      a.isPlain = true := by decide
  exact routes_agree true false _ {} (callersTokens 2) [] readLooking (.script "p") {} 0 0 1 1
    (some 0) (some 1) _ hdirect hidle (fun _ => rfl) ⟨rfl, rfl, ⟨true, rfl⟩, hplain⟩
    ⟨rfl, rfl, ⟨true, rfl⟩, hplain⟩

end Host

end SharedPrompt
