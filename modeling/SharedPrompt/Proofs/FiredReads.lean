import SharedPrompt.Proofs.StoppedReads

/-!
# Reads whose token fires

When the token of a caller fires while its read is under way, the read ends with an empty line. It is
not so if the engine ends the command of the read with a fault that is no cancellation, if a read
from the console looks at its token once more before it begins, or if the console takes no notice of
tokens.
-/

namespace SharedPrompt

inductive ReadEnd where
  /-- The engine is done with the command of the read. -/
  | command (r : RunResult)
  /-- The token had fired before the read could ask for the console. -/
  | refused
  /-- The read had to wait for the console and gave that up. -/
  | gaveUp
  /-- The console had no key to give. -/
  | fault (f : ConsoleFault)
  /-- A key from the console accepts the line. -/
  | accepted (line : String)

def ReadEnd.isCommand : ReadEnd → Bool
  | command _ => true
  | _ => false

def ReadEnd.isUnheeding : ReadEnd → Bool
  | fault .cancelled => false
  | fault _ => true
  | accepted _ => true
  | _ => false

/-- What that comes to for a caller whose token has fired. -/
def ReadEnd.answer : ReadEnd → Except ReadFault String
  | command (.ok _) => .ok ""
  | command (.error f) => if f.isCancelled then .ok "" else .error (.run f)
  | refused => .error .cancelled
  | gaveUp => .ok ""
  | fault .cancelled => .ok ""
  | fault f => .error (.console f)
  | accepted line => .ok line

/-! ## How a read ends below -/

section
variable (h : Host) (me : Nat) (bias : List Bool)

def ConsoleRead.end? : ConsoleRead → Option ReadEnd
  | start _ token => if h.tokens.isFired token then some .refused else none
  | ask commandLine token =>
    match ((ask commandLine token).step h me bias).2 with
    | .done _ => some .gaveUp
    | _ => none
  | queued w commandLine token =>
    match ((queued w commandLine token).step h me bias).2 with
    | .done _ => some .gaveUp
    | _ => none
  | opened .. => none
  | key call line commandLine _ =>
    match (call.step h me bias).2 with
    | .done (.error f) => some (.fault f)
    | .done (.ok k) =>
      let edit := Edit.ofKey commandLine line k
      if edit.accepted then some (.accepted (String.ofList edit.line)) else none
    | _ => none

def Execution.end? (run : Execution) : Option ReadEnd :=
  match (run.step h me bias).2 with
  | .done r => some (.command r)
  | _ => none

def ReadCall.end? : ReadCall → Option ReadEnd
  | console call => call.end? h me bias
  | reading run _ _ _ => run.end? h me bias.tail
  | stopping none none (some r) _ _ => some (.command r)
  | stopping none (some run) _ _ _ => run.end? h me bias
  | _ => none

end

namespace ConsoleRead

variable {h : Host} {me : Nat} {bias : List Bool} {a : Answer}

theorem orFired_done {σ α : Type} {token : Nat} {eager : Bool} {abandon : Host → Host} {fired : α}
    {step : Host → Host × Poll σ α} (hstep : ∀ b, (step h).2 ≠ .done b) {b : α}
    (hs : (h.orFired me token eager abandon fired step).2 = .done b) : b = fired := by
  simp only [Host.orFired] at hs
  split at hs
  · exact (Poll.done.inj hs).symm
  · split at hs
    · split at hs
      · exact (Poll.done.inj hs).symm
      · cases hs
    · cases hs
    next hr => exact absurd (congrArg Prod.snd hr) (hstep _)

/-- The end of a read from the console decides its answer. -/
theorem end?_of_done {c : ConsoleRead} (hs : (c.step h me bias).2 = .done a) :
    ∃ u, c.end? h me bias = some u ∧ a = u.answer ∧ u.isCommand = false := by
  cases c with
  | start commandLine token =>
    simp only [step] at hs
    split at hs
    next hfired => exact ⟨.refused, if_pos hfired, (Poll.done.inj hs).symm, rfl⟩
    next => cases hs
  | ask commandLine token =>
    refine ⟨.gaveUp, by simp only [end?, hs], ?_, rfl⟩
    simp only [step] at hs
    split at hs
    · exact (Poll.done.inj hs).symm
    · cases hs
  | queued w commandLine token =>
    refine ⟨.gaveUp, by simp only [end?, hs], orFired_done (fun b => ?_) hs, rfl⟩
    dsimp only
    split <;> exact fun hdone => by cases hdone
  | opened commandLine token => cases hs
  | key call line commandLine own =>
    rcases hcall : call.step h me bias with ⟨k, p⟩
    simp only [step, hcall] at hs
    simp only [end?, hcall]
    rcases p with _ | call' | (f | press)
    · cases hs
    · cases hs
    · refine ⟨.fault f, rfl, ?_, rfl⟩
      cases f <;> exact (Poll.done.inj hs).symm
    · dsimp only at hs
      split at hs
      next haccepted =>
        exact ⟨.accepted _, if_pos haccepted, (Poll.done.inj hs).symm, rfl⟩
      next => cases hs

/-- At a console that takes notice of tokens, a read whose token has fired gets no key. -/
theorem end?_of_stopped {call : KeyCall} (hstopped : KeyCall.stopped h call.token = true)
    {line : List Char} {commandLine : Bool} {own : Nat} {u : ReadEnd}
    (hu : (key call line commandLine own).end? h me bias = some u) : u = .fault .cancelled := by
  have hmeets := KeyCall.step_of_stopped hstopped me bias
  simp only [end?] at hu
  generalize (call.step h me bias).2 = p at hmeets hu
  rcases p with _ | _ | r
  · cases hu
  · cases hu
  · obtain rfl : r = .error .cancelled := hmeets
    exact (Option.some.inj hu).symm

end ConsoleRead

theorem ReadCall.interpret_fired (r : RunResult) :
    interpret true r = (ReadEnd.command r).answer := by
  cases r <;> rfl

/-! ## For whom a read is under way -/

/-- The read is for the caller with the token, whose token stops it; `ts` has all the tokens. -/
def ConsoleRead.Serves (ts : Tokens) (token : Nat) : ConsoleRead → Prop
  | start _ caller | ask _ caller | queued _ _ caller | opened _ caller => caller = token
  | key _ _ _ own => own ∈ ts.derivedOf token ∨ ts.isFired own = true

def ReadCall.Serves (ts : Tokens) (token : Nat) (edits : Bool) : ReadCall → Prop
  | start .. => False
  | console call => edits = false ∧ call.Serves ts token
  | clearing _ caller | enter caller | reading _ _ caller _ | stopping _ _ _ _ caller =>
    edits = true ∧ caller = token

section
variable {h k : Host} {me : Nat} {bias : List Bool} {ts : Tokens} {token : Nat} {edits : Bool}

theorem ConsoleRead.Serves.step {c c' : ConsoleRead} (hc : c.Serves ts token)
    (hlt : token < h.tokens.all.length) (hs : c.step h me bias = (k, .next c'))
    (hts : k.tokens.Steps ts) : c'.Serves ts token := by
  cases c with
  | start commandLine caller =>
    simp only [ConsoleRead.step] at hs
    split at hs
    · cases hs
    · cases hs
      exact hc
  | ask commandLine caller =>
    simp only [ConsoleRead.step] at hs
    split at hs
    · cases hs
    · obtain ⟨-, hnext⟩ := Prod.mk.inj hs
      cases hnext
      split <;> exact hc
  | queued w commandLine caller =>
    simp only [ConsoleRead.step, Host.orFired] at hs
    split at hs
    · cases hs
    · cases hcollect : h.reader.gate.collect? w with
      | none =>
        simp only [hcollect] at hs
        split at hs <;> cases hs
      | some gate =>
        simp only [hcollect] at hs
        cases hs
        exact hc
  | opened commandLine caller =>
    -- The read gets a token of its own here, which has fired if that of the caller has.
    obtain rfl : caller = token := hc
    cases hs
    have hown : (h.tokens.derive caller).1 = h.tokens.all.length := h.tokens.derive_fst caller
    change (h.tokens.derive caller).1 ∈ _ ∨ ts.isFired (h.tokens.derive caller).1 = true
    rw [hown]
    have hsteps : (h.tokens.derive caller).2.Steps ts := hts
    by_cases hfired : h.tokens.isFired caller = true
    · right
      apply hsteps.isFired
      rw [Tokens.isFired_derive, if_pos rfl, hfired]
    · left
      apply hsteps.mem_derivedOf
      rw [Tokens.derivedOf_derive, if_pos ⟨rfl, hlt, by simpa using hfired⟩]
      simp
  | key call line commandLine own =>
    rcases hcall : call.step h me bias with ⟨k', p⟩
    simp only [ConsoleRead.step, hcall] at hs
    rcases p with _ | call' | (f | press)
    · cases hs
    · cases hs
      exact hc
    · cases f <;> cases hs
    · dsimp only at hs
      split at hs
      · cases hs
      · cases hs
        exact hc

theorem ReadCall.Serves.step {call call' : ReadCall} (hc : call.Serves ts token edits)
    (hlt : token < h.tokens.all.length) (hs : call.step h me bias = (k, .next call'))
    (hts : k.tokens.Steps ts) : call'.Serves ts token edits := by
  cases call with
  | start commandLine caller => exact hc.elim
  | console c =>
    obtain ⟨c', hc', rfl⟩ := Poll.map_eq_next (Prod.mk.inj hs).2
    exact ⟨hc.1, hc.2.step hlt (Prod.ext (Prod.mk.inj hs).1 hc') hts⟩
  | clearing abort caller =>
    obtain ⟨-, hnext⟩ := Prod.mk.inj hs
    generalize (abort.step h me bias).2 = p at hnext
    cases p <;> cases hnext <;> exact hc
  | enter caller =>
    obtain ⟨-, hnext⟩ := Prod.mk.inj hs
    cases hnext
    exact hc
  | reading run id caller own =>
    simp only [ReadCall.step] at hs
    split at hs
    · cases hs
      exact hc
    · split at hs
      · split at hs <;> cases hs
        exact hc
      · cases hs
        exact hc
      · cases hs
  | stopping abort run result id caller =>
    rcases abort with - | abort <;> rcases run with - | run
    · cases result <;> cases hs
    · simp only [ReadCall.step, stepRun] at hs
      split at hs <;> cases hs
      exact hc
    · simp only [ReadCall.step] at hs
      split at hs <;> cases hs <;> exact hc
    · simp only [ReadCall.step] at hs
      split at hs
      · cases hs
        exact hc
      · cases hs
        exact hc
      · split at hs <;> cases hs <;> exact hc

/-- A read that has found its token unfired goes to the line editor or to the console. -/
theorem ReadCall.serves_start {commandLine : Bool} (hfired : h.tokens.isFired token = false) :
    ∃ call, (start commandLine token).step h me bias = (h, .next call) ∧
      call.Serves ts token (h.native && commandLine) := by
  simp only [ReadCall.step, hfired, Bool.false_eq_true, if_false]
  split
  next hconsole =>
    refine ⟨_, rfl, ?_, rfl⟩
    cases hnative : h.native <;> cases commandLine <;> simp_all
  next heditor =>
    have hedits : (h.native && commandLine) = true := by
      cases hnative : h.native <;> cases commandLine <;> simp_all
    refine ⟨_, rfl, ?_⟩
    rw [hedits]
    split <;> exact ⟨rfl, rfl⟩

/-- When a read ends whose token has fired, what is below it has ended, and that decides its
answer. -/
theorem ReadCall.Serves.end?_of_done {call : ReadCall} (hc : call.Serves ts token edits)
    (hfired : h.tokens.isFired token = true) {a : Answer}
    (hs : (call.step h me bias).2 = .done a) :
    ∃ u, call.end? h me bias = some u ∧ a = u.answer ∧ u.isCommand = edits := by
  have hrun {run : Execution} {b : List Bool} {k : Host} {r : RunResult}
      (hr : run.step h me b = (k, .done r)) : k.tokens.isFired token = true := by
    have hoff := run.offReads_step h me b
    rw [hr] at hoff
    exact hoff.tokens.isFired hfired
  cases call with
  | start commandLine caller => exact hc.elim
  | console c =>
    obtain ⟨hedits, -⟩ := hc
    simp only [ReadCall.step] at hs
    have hdone : (c.step h me bias).2 = .done a := by
      generalize (c.step h me bias).2 = p at hs
      cases p <;> cases hs
      rfl
    obtain ⟨u, hu, ha, hconsole⟩ := ConsoleRead.end?_of_done hdone
    exact ⟨u, hu, ha, hconsole.trans hedits.symm⟩
  | clearing abort caller =>
    simp only [ReadCall.step] at hs
    generalize (abort.step h me bias).2 = p at hs
    cases p <;> cases hs
  | enter caller => cases hs
  | reading run id caller own =>
    obtain ⟨hedits, rfl⟩ := hc
    simp only [ReadCall.step] at hs
    split at hs
    · cases hs
    · split at hs
      · split at hs <;> cases hs
      · cases hs
      next k r hr =>
        refine ⟨.command r, by simp only [end?, Execution.end?, hr], ?_, hedits.symm⟩
        have hk : (k.forgetToken caller me).tokens.isFired caller = true :=
          (Tokens.isFired_forget ..).trans (hrun hr)
        simp only [finish, hk] at hs
        rw [← Poll.done.inj hs, interpret_fired]
  | stopping abort run result id caller =>
    obtain ⟨hedits, rfl⟩ := hc
    rcases abort with - | abort <;> rcases run with - | run
    · cases result with
      | none => cases hs
      | some r =>
        refine ⟨.command r, rfl, ?_, hedits.symm⟩
        simp only [ReadCall.step, finish, hfired] at hs
        rw [← Poll.done.inj hs, interpret_fired]
    · simp only [ReadCall.step, stepRun] at hs
      split at hs
      · cases hs
      · cases hs
      next k r hr =>
        refine ⟨.command r, by simp only [end?, Execution.end?, hr], ?_, hedits.symm⟩
        simp only [finish, hrun hr] at hs
        rw [← Poll.done.inj hs, interpret_fired]
    · simp only [ReadCall.step] at hs
      split at hs <;> cases hs
    · simp only [ReadCall.step] at hs
      split at hs
      · cases hs
      · cases hs
      · split at hs <;> cases hs

end

/-- When the console takes notice of the token, only a refusal and a fault that is no cancellation
keep the answer from being the empty line. -/
theorem ReadEnd.answer_eq_empty {u : ReadEnd} (hu : u.isUnheeding = false) :
    u.answer = .ok "" ↔ u ≠ .refused ∧ ∀ f, u = .command (.error f) → f.isCancelled = true := by
  cases u with
  | command r =>
    cases r with
    | ok vs => simp [answer]
    | error f => by_cases hf : f.isCancelled = true <;> simp [answer, hf]
  | refused => simp [answer]
  | gaveUp => simp [answer]
  | fault f =>
    cases f with
    | cancelled => simp [answer]
    | closed | device => cases hu
  | accepted line => cases hu

/-! ## The whole -/

namespace Host

/-- How the read `t`, whose token has fired, ends in its next step, and with what answer; `edits` if
it is for the line editor. -/
structure EndsFired (h : Host) (t : Nat) (bias : List Bool) (edits : Bool) (call : ReadCall)
    (u : ReadEnd) (a : ReadCall.Answer) : Prop where
  task : h.task? t = some (.read call)
  ends : call.end? h t bias = some u
  /-- The engine ends the reads of the line editor, and no others. -/
  route : u.isCommand = edits
  answer : a = u.answer
  /-- At a console that takes notice of tokens, the answer is the empty line unless the read was
  refused, or the engine ended its command with a fault that is no cancellation. -/
  empty : h.console.deaf = false →
    (a = .ok "" ↔ u ≠ .refused ∧ ∀ f, u = .command (.error f) → f.isCancelled = true)

variable {h : Host} {t token : Nat} {bias : List Bool} {edits : Bool}

/-- A console that takes notice of tokens does so with a read whose token has fired. -/
theorem KeyboardKept.end?_heeding (hkeys : h.KeyboardKept) {call : ReadCall}
    (ht : h.task? t = some (.read call))
    (hown : ∀ c own, call = .console c → c.keys? = some own → h.tokens.isFired own = true)
    (hdeaf : h.console.deaf = false) {u : ReadEnd} (hu : call.end? h t bias = some u) :
    u.isUnheeding = false := by
  have hcommand {run : Execution} {b : List Bool} (hu : run.end? h t b = some u) :
      u.isUnheeding = false := by
    simp only [Execution.end?] at hu
    split at hu <;> cases hu
    rfl
  cases call with
  | console c =>
    cases c with
    | key call line commandLine own =>
      have hattuned : (ConsoleRead.key call line commandLine own).Attuned :=
        hkeys.attuned t _ (by rw [Option.mem_def, consoleOf?, ht]; rfl)
      have htoken : call.token = own := hattuned
      have hstopped : KeyCall.stopped h call.token = true := by
        rw [KeyCall.stopped, hdeaf, htoken, hown _ own rfl rfl]
        rfl
      have hkey : (ConsoleRead.key call line commandLine own).end? h t bias = some u := hu
      rw [ConsoleRead.end?_of_stopped hstopped hkey]
      rfl
    | start commandLine token =>
      simp only [ReadCall.end?, ConsoleRead.end?] at hu
      split at hu <;> cases hu
      rfl
    | opened commandLine token => cases hu
    | ask | queued =>
      simp only [ReadCall.end?, ConsoleRead.end?] at hu
      split at hu <;> cases hu
      rfl
  | reading run id token own => exact hcommand hu
  | stopping abort run result id token =>
    rcases abort with - | abort <;> rcases run with - | run
    · cases result <;> cases hu
      rfl
    · exact hcommand hu
    · cases hu
    · cases hu
  | start | clearing | enter => cases hu

theorem KeyboardKept.endsFired (hkeys : h.KeyboardKept) {n : Nat} (hleads : h.tokens.Leads n)
    (htoken : token < n) (hfired : h.tokens.isFired token = true) {call : ReadCall}
    (ht : h.task? t = some (.read call)) (hc : call.Serves h.tokens token edits)
    {a : ReadCall.Answer} (hs : (call.step h t bias).2 = .done a) :
    ∃ u, h.EndsFired t bias edits call u a := by
  obtain ⟨u, hu, rfl, hroute⟩ := hc.end?_of_done hfired hs
  have hown (c : ConsoleRead) (own : Nat) (hcall : call = .console c) (hkey : c.keys? = some own) :
      h.tokens.isFired own = true := by
    subst hcall
    cases c with
    | key key line commandLine own' =>
      obtain rfl := Option.some.inj hkey
      exact hc.2.elim (hleads.fired token htoken hfired _) id
    | _ => cases hkey
  exact ⟨u, ht, hu, hroute, rfl, fun hdeaf =>
    ReadEnd.answer_eq_empty (hkeys.end?_heeding ht hown hdeaf hu)⟩

/-- A read that serves a token does so until it ends. -/
theorem course_serves {k : Host} (hk : k.WellKept) {call : ReadCall}
    (ht : k.task? t = some (.read call)) (htoken : token < k.tokens.all.length) (later : List Event)
    (hc : call.Serves (k.run later).tokens token edits) :
    (k.run later).Course t fun task =>
      ∃ call, task = .read call ∧ call.Serves (k.run later).tokens token edits := by
  refine ((Course.of_task hk.numbered ht ⟨call, rfl, hc⟩).run hk later (R := fun _ => True) ?_).1
  rintro before b _ ⟨rest, hrest⟩ htask ⟨call, rfl, hc⟩
  rcases hs : call.step (k.run before) t b with ⟨k', p⟩
  simp only [Task.step, hs]
  apply Poll.Meets.map
  rcases p with _ | call' | a
  · trivial
  · have hstep : (Task.read call).step (k.run before) t b = (k', .next (.read call')) := by
      simp only [Task.step, hs]
      rfl
    have hafter : (k.run (before ++ [.poll t b])).tokens = k'.tokens := by
      rw [run_concat, apply_poll htask hstep]
      rfl
    have hsteps : k'.tokens.Steps (k.run later).tokens := by
      have hlater := steps_tokens_run (hk.run (before ++ [.poll t b])) rest
      rwa [← run_append, hrest, hafter] at hlater
    have hlength : token < (k.run before).tokens.all.length :=
      htoken.trans_le (steps_tokens_run hk before).length_le
    exact ⟨call', rfl, hc.step hlength hs hsteps⟩
  · trivial

/-- A read whose caller's token had not fired when it was called, and has fired when what is below it
has ended, ends as that says: with an empty line, with a fault of the engine that is no
cancellation, or as a console that takes no notice of tokens has it. It is refused only if the token
fires before a read from the console has begun. -/
theorem fired_read_ends (native follows : Bool) (engine : Engine) (console : Console Waiter) (n : Nat)
    (past later : List Event) (t token : Nat) (commandLine : Bool) (first bias : List Bool)
    (a : ReadCall.Answer) :
    let start : Host := { established native follows engine console with tokens := callersTokens n }
    let h := start.run (past ++ .poll t first :: later)
    token < n → (start.run past).task? t = some (.read (.start commandLine token)) →
      (start.run past).tokens.isFired token = false → h.tokens.isFired token = true →
        h.ending? (.poll t bias) = some (t, .line a) →
          ∃ call u, h.EndsFired t bias (native && commandLine) call u a := by
  intro start h htoken ht hunfired hfired hends
  have hf : start.Fresh := fresh_established native follows engine console (callersTokens n)
  have hreader : start.reader = {} :=
    congrArg Prod.fst (keyboard_established native follows engine console)
  have hreads : h.ReadsKept n (start.entries (past ++ .poll t first :: later)) :=
    ReadsKept.run hf.kept (.established native follows engine console n) _
  have hkeys : h.KeyboardKept := (KeyboardKept.fresh hf.tasks hreader).run hf.kept _
  have hnative : (start.run past).native = native := (native_run hf.kept past).trans
    (congrArg (·.2.1) (offReads_established native follows engine console).reads)
  -- After its first step the read serves the token, until it ends.
  have hfirst : ∃ call, (ReadCall.start commandLine token).step (start.run past) t first =
      (start.run past, .next call) ∧
        call.Serves h.tokens token ((start.run past).native && commandLine) :=
    ReadCall.serves_start hunfired
  obtain ⟨call₁, hstep₁, hserves₁⟩ := hfirst
  rw [hnative] at hserves₁
  let k := (start.run past).apply (.poll t first)
  have hk : k.WellKept := (hf.kept.run past).apply _
  have hrun : h = k.run later := by
    change start.run (past ++ .poll t first :: later) = _
    rw [List.append_cons, run_append, run_concat]
  have htask₁ : (Task.read (.start commandLine token)).step (start.run past) t first =
      (start.run past, .next (.read call₁)) := by
    simp only [Task.step, hstep₁]
    rfl
  have hlength : n ≤ k.tokens.all.length := by
    have hreads := ReadsKept.run hf.kept (.established native follows engine console n)
      (past ++ [.poll t first])
    rw [run_concat] at hreads
    exact hreads.first_le
  rw [hrun] at hserves₁
  have hcourse := course_serves hk (task?_poll ht htask₁) (htoken.trans_le hlength) later hserves₁
  -- So the call that ends serves it, too.
  obtain ⟨bias', task, he, htask, hdone⟩ := ending?_eq_some hends
  cases he
  have hlast : (k.run later).task? t = some task := hrun ▸ htask
  obtain ⟨call, rfl, hc⟩ := hcourse.holds task hlast
  rw [← hrun] at hc
  have hanswer : (call.step h t bias).2 = .done a := by
    simp only [Task.step] at hdone
    generalize (call.step h t bias).2 = p at hdone
    cases p <;> cases hdone
    rfl
  obtain ⟨u, hu⟩ := hkeys.endsFired hreads.leads htoken hfired htask hc hanswer
  exact ⟨call, u, hu⟩

/-- A host for one caller with a token, whose engine waits for a barrier when it is to read a line,
and then does the rest. -/
def waitingEditor (rest : List Action) : Host :=
  { established true false { behavior := [(Behavior.readLineKey, .barrier "g" :: rest)] } {} with
    tokens := callersTokens 1 }

/-- The token fires when the engine has come to the barrier, which is opened then. -/
def firedAtBarrier : List Event :=
  List.replicate 6 (.poll 0 []) ++ [.advance 0, .advance 0, .fire 0, .barrier "g" true] ++
    List.replicate 7 (.advance 0)

/-- The line that the engine has read after that is not the caller's any more. -/
theorem fired_read_ends_lateLine :
    let start := waitingEditor [.out (.str "x")]
    let h := start.run ([.start (.read true 0)] ++ .poll 0 [] :: firedAtBarrier)
    (start.run [.start (.read true 0)]).task? 0 = some (.read (.start true 0)) ∧
      (start.run [.start (.read true 0)]).tokens.isFired 0 = false ∧ h.tokens.isFired 0 = true ∧
      h.ending? (.poll 0 []) = some (0, .line (.ok "")) ∧
      ∃ call u, h.EndsFired 0 [] true call u (.ok "") :=
  ⟨rfl, rfl, rfl, rfl, fired_read_ends true false
    { behavior := [(Behavior.readLineKey, [.barrier "g", .out (.str "x")])] } {} 1
    [.start (.read true 0)] firedAtBarrier 0 0 true [] [] (.ok "") Nat.one_pos rfl rfl rfl rfl⟩

/-- If the engine fails after that, the caller gets the fault and not the empty line. -/
theorem failedAfterFiring_isFault :
    let start := waitingEditor [.fail ⟨.runtime, "lost", none, none⟩]
    let h := start.run ([.start (.read true 0)] ++ .poll 0 [] :: firedAtBarrier)
    (start.run [.start (.read true 0)]).task? 0 = some (.read (.start true 0)) ∧
      (start.run [.start (.read true 0)]).tokens.isFired 0 = false ∧ h.tokens.isFired 0 = true ∧
      h.ending? (.poll 0 []) =
        some (0, .line (.error (.run (.script ⟨.runtime, "lost", none, none⟩)))) :=
  ⟨rfl, rfl, rfl, rfl⟩

end Host

end SharedPrompt
