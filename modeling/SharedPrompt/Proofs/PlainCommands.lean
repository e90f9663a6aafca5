import SharedPrompt.Proofs.LoneRuns
import SharedPrompt.Proofs.UnitValues

/-!
# Commands that mind their own business

A command of the most common kind puts out values and error records, waits now and then, and ends
well, with a fault or with a panic. It asks neither for its token nor for prompts or idle moments. So
what it comes to is known before it begins, and is the same wherever it runs.
-/

namespace SharedPrompt

/-- An action that has to do with nothing but the output of its command and the barriers. -/
def Action.isPlain : Action → Bool
  | out _ | record _ | get _ | fail _ | panic _ | barrier _ => true
  | _ => false

def errorTexts : List Action → List String
  | [] => []
  | .record text :: rest => text :: errorTexts rest
  | .fail _ :: _ | .panic _ :: _ => []
  | _ :: rest => errorTexts rest

namespace Invocation

/-- An invocation on its way to the outcome `o`, with the error records `texts` in the end. So far it
has put out `told`. -/
structure Carries (inv : Invocation) (e : Engine) (o : Outcome) (texts : List String) (sink : Nat)
    (told : List String) : Prop where
  plain : ∀ a ∈ inv.rest, a.isPlain = true
  outcome : e.outcome inv.output inv.rest = o
  texts : told ++ errorTexts inv.rest = texts
  sink : inv.sink = sink

variable {inv : Invocation} {e e' : Engine} {o : Outcome} {texts told : List String} {sink : Nat}

/-- Every turn of a plain command leads to the outcome and the records that it had before, whatever
has become of its token. -/
theorem Carries.turn (hc : inv.Carries e o texts sink told)
    (hv : ∀ name, e'.variable_ name = e.variable_ name) (fired : Bool) (isOpen : String → Bool) :
    match inv.turn e' fired isOpen with
    | .on next => next.Carries e o texts sink told ∧ next.rest.length < inv.rest.length
    | .record text next =>
      next.Carries e o texts sink (told ++ [text]) ∧ next.rest.length < inv.rest.length
    | .ended o' => o' = o ∧ told = texts
    | .stuck => ∃ name rest, inv.rest = .barrier name :: rest ∧ isOpen name = false
    | _ => False := by
  obtain ⟨hplain, houtcome, htexts, hsink⟩ := hc
  unfold Invocation.turn
  cases hrest : inv.rest with
  | nil =>
    rw [hrest] at houtcome htexts
    exact ⟨houtcome, (List.append_nil told).symm.trans htexts⟩
  | cons a rest =>
    rw [hrest] at hplain houtcome htexts
    have ha : a.isPlain = true := hplain a List.mem_cons_self
    have hlater (b : Action) (hb : b ∈ rest) : b.isPlain = true :=
      hplain b (List.mem_cons_of_mem a hb)
    have hlt : rest.length < (a :: rest).length := Nat.lt_succ_self _
    cases a with
    | out v => exact ⟨⟨hlater, houtcome, htexts, hsink⟩, hlt⟩
    | record text =>
      refine ⟨⟨hlater, houtcome, ?_, hsink⟩, hlt⟩
      rw [List.append_assoc]
      exact htexts
    | get name =>
      refine ⟨⟨hlater, ?_, htexts, hsink⟩, hlt⟩
      rw [put, hv]
      exact houtcome
    | fail f => exact ⟨houtcome, (List.append_nil told).symm.trans htexts⟩
    | panic p => exact ⟨houtcome, (List.append_nil told).symm.trans htexts⟩
    | barrier name =>
      cases hopen : isOpen name with
      | true => simpa only [hopen] using ⟨⟨hlater, houtcome, htexts, hsink⟩, hlt⟩
      | false => simpa only [hopen] using ⟨name, rest, rfl, hopen⟩
    | _ => cases ha

end Invocation

namespace Host

/-- A job for the engine whose command is a plain one, of some actions. Nobody has stopped it. -/
structure Brings (h : Host) (job : Job) (actions : List Action) : Prop where
  ordinary : job.options.readLine = false
  unfired : h.tokens.isFired job.token = false
  plan : ∃ counted, h.engine.plan job.command = .actions counted actions
  plain : ∀ a ∈ actions, a.isPlain = true

def doingsBy (h : Host) (job : Job) (told : List String) : Doings :=
  { h.doings with
    records := h.records ++ told.map (job.sink, ·)
    commands := h.commands ++ [(job.options, job.command)] }

theorem doingsBy_nil (h : Host) (job : Job) : h.doingsBy job [] =
    { h.doings with commands := h.commands ++ [(job.options, job.command)] } := by
  rw [doingsBy, List.map_nil, List.append_nil]
  rfl

variable {before h : Host}

/-- More records are put out. -/
theorem records_doingsBy_append {job : Job} {told : List String}
    (hr : h.records = (before.doingsBy job told).records) (more : List String) :
    h.records ++ more.map (job.sink, ·) = (before.doingsBy job (told ++ more)).records := by
  rw [hr]
  simp only [doingsBy, List.map_append, List.append_assoc]

theorem plan_of_setting (hset : h.setting = before.setting) (command : Command) :
    h.engine.plan command = before.engine.plan command := by
  have hplan (e : Engine) : e.uncounted.plan command = e.plan command := by
    cases command <;> rfl
  rw [← hplan h.engine, ← hplan before.engine]
  exact congrArg (·.engine.plan command) hset

theorem variable_of_setting (hset : h.setting = before.setting) (name : String) :
    h.engine.variable_ name = before.engine.variable_ name :=
  congrArg (·.engine.variable_ name) hset

theorem mustPark_of_setting (hset : h.setting = before.setting) (hstack : h.stack = before.stack)
    (options : Options) : Execution.mustPark h options = Execution.mustPark before options := by
  have hbusy : h.lineBusy = before.lineBusy := congrArg PromptStack.lineBusy hstack
  have hprocess : h.engine.inProcess = before.engine.inProcess := congrArg (·.engine.inProcess) hset
  rw [Execution.mustPark, Execution.mustPark, hbusy, hprocess]

theorem Brings.unfired_of_setting {job : Job} {actions : List Action} (hb : before.Brings job actions)
    (hset : h.setting = before.setting) : h.tokens.isFired job.token = false :=
  (congrArg (·.fired job.token) hset).trans hb.unfired

end Host

namespace Activation

variable {before h : Host} {job : Job} {counted : Bool} {actions : List Action}

/-- A plain command begins, and all that it comes to is still to come. -/
theorem begin_plain (hset : h.setting = before.setting) (pipeline : Nat)
    (hplan : before.engine.plan job.command = .actions counted actions)
    (hplain : ∀ a ∈ actions, a.isPlain = true) (below : List Activation) :
    ∃ k inv, beginCommand h pipeline job below = (k, .command inv :: below) ∧ inv.rest = actions ∧
      inv.Carries before.engine (before.engine.outcome [] actions) (errorTexts actions) job.sink [] ∧
      k.setting = h.setting ∧
      k.doings = { h.doings with commands := h.commands ++ [(job.options, job.command)] } := by
  have hcommands : (h.trace.call (.started pipeline job.options job.command)).calls.filterMap
      Call.command? = h.commands ++ [(job.options, job.command)] := by
    simp [Trace.call, Host.commands, Call.command?]
  have hplan := (Host.plan_of_setting hset job.command).trans hplan
  cases counted with
  | true =>
    simp only [beginCommand, Engine.begin, hplan]
    refine ⟨_, _, rfl, rfl, ⟨hplain, rfl, rfl, rfl⟩, rfl, ?_⟩
    rw [← hcommands]
    rfl
  | false =>
    simp only [beginCommand, Engine.begin, hplan]
    refine ⟨_, _, rfl, rfl, ⟨hplain, rfl, rfl, rfl⟩, rfl, ?_⟩
    rw [← hcommands]
    rfl

/-- The activations that wait for a command on top of them, but for those of a request that is
answered at once. -/
def Awaits (a : Activation) : Prop :=
  (∃ work, a = .errand .called work) ∨ ∃ q permit n, a = .serve (.called q permit n)

variable {inv : Invocation} {o : Outcome} {texts told : List String} {sink : Nat} {a : Activation}

theorem end_plain (h : Host) (inv : Invocation) (o : Outcome) (ha : a.Awaits)
    (below : List Activation) :
    ∃ k, endCommand h inv false o (a :: below) = (k, deliver o.result (a :: below)) ∧
      k.setting = h.setting ∧ k.doings = h.doings := by
  have hengine : (h.engine.finish inv false).uncounted = h.engine.uncounted ∧
      (h.engine.finish inv false).attempts = h.engine.attempts := by
    obtain ⟨_, _, _, _, counted, _, _⟩ := inv
    cases counted <;> exact ⟨rfl, rfl⟩
  have hsetting {k : Host} (hk : k.setting = { h.setting with engine := k.engine.uncounted })
      (he : k.engine = h.engine.finish inv false) : k.setting = h.setting := by
    rw [hk, he, hengine.1]
    rfl
  have hdoings {k : Host} (hk : k.doings = { h.doings with attempts := k.engine.attempts })
      (he : k.engine = h.engine.finish inv false) : k.doings = h.doings := by
    rw [hk, he, hengine.2]
    rfl
  rcases ha with ⟨work, rfl⟩ | ⟨q, permit, n, rfl⟩ <;>
    · unfold endCommand
      cases o.notice? inv.command with
      | none => exact ⟨_, rfl, hsetting rfl rfl, hdoings rfl rfl⟩
      | some n => exact ⟨_, rfl, hsetting rfl rfl, hdoings rfl rfl⟩

/-- A plain command goes on until it has put out all its records and hands over its outcome. It only
stops where a barrier is closed. -/
theorem step_plain (hset : h.setting = before.setting)
    (hc : inv.Carries before.engine o texts sink told) (ha : a.Awaits)
    (below : List Activation) :
    (step h (.command inv :: a :: below) = none ∧
        ∃ name rest, inv.rest = .barrier name :: rest ∧ h.barriers.contains name = false) ∨
      (∃ k inv' more, step h (.command inv :: a :: below) = some (k, .command inv' :: a :: below) ∧
        inv'.Carries before.engine o texts sink (told ++ more) ∧
        inv'.rest.length < inv.rest.length ∧ k.setting = h.setting ∧
        k.doings = { h.doings with records := h.records ++ more.map (sink, ·) }) ∨
      ∃ k, step h (.command inv :: a :: below) = some (k, deliver o.result (a :: below)) ∧
        told = texts ∧ k.setting = h.setting ∧ k.doings = h.doings := by
  have hturn := hc.turn (Host.variable_of_setting hset) (h.tokens.isFired inv.token)
    h.barriers.contains
  cases ht : inv.turn h.engine (h.tokens.isFired inv.token) h.barriers.contains with
  | stuck =>
    rw [ht] at hturn
    refine .inl ⟨?_, hturn⟩
    simp only [step, stepCommand, ht]
  | on next =>
    rw [ht] at hturn
    refine .inr (.inl ⟨h, next, [], ?_, by rw [List.append_nil]; exact hturn.1, hturn.2, rfl, ?_⟩)
    · simp only [step, stepCommand, ht]
    · rw [List.map_nil, List.append_nil]
      rfl
  | record text next =>
    rw [ht] at hturn
    refine .inr (.inl ⟨{ h with records := h.records ++ [(next.sink, text)] }, next, [text], ?_,
      hturn.1, hturn.2, rfl, ?_⟩)
    · simp only [step, stepCommand, ht]
    · rw [hturn.1.sink]
      rfl
  | ended o' =>
    rw [ht] at hturn
    obtain ⟨rfl, htold⟩ := hturn
    obtain ⟨k, hend, hsetting, hdoings⟩ := end_plain h inv o' ha below
    refine .inr (.inr ⟨k, ?_, htold, hsetting, hdoings⟩)
    simp only [step, stepCommand, ht, hend]
  | _ =>
    rw [ht] at hturn
    exact hturn.elim

end Activation

end SharedPrompt
