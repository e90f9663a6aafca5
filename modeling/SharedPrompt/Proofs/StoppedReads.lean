import SharedPrompt.Proofs.AbortTarget
import SharedPrompt.Proofs.SeenEnds

/-!
# Reads that are stopped

A host that is not native reads from the console alone. There an abort fires the token of the read
that takes keys, which then takes no more of them and ends with an empty line. A native host stops
reads of its line editor alone: a read from its console goes on, whoever aborts and waits.
-/

namespace SharedPrompt

/-! ## A read that takes keys -/

namespace ConsoleRead

variable (h : Host) (me : Nat) (bias : List Bool)

def accepts? : ConsoleRead → Option String
  | key call line commandLine _ =>
    match (call.step h me bias).2 with
    | .done (.ok k) =>
      let edit := Edit.ofKey commandLine line k
      if edit.accepted then some (String.ofList edit.line) else none
    | _ => none
  | _ => none

/-- A read that takes keys goes on taking them under the same token. It ends with an empty line, a
fault, or the line that it accepts. -/
theorem step_of_keys {c : ConsoleRead} {own : Nat} (hc : c.keys? = some own) :
    (c.step h me bias).2.Meets (fun c' => c'.keys? = some own)
      fun a => a = .ok "" ∨ (∃ f, a = .error f) ∨
        ∃ s, c.accepts? h me bias = some s ∧ a = .ok s := by
  cases c with
  | key call line commandLine own' =>
    rcases hs : call.step h me bias with ⟨k, r⟩
    simp only [step, accepts?, hs]
    rcases r with _ | call' | (f | press)
    · trivial
    · exact hc
    · cases f
      · exact .inl rfl
      all_goals exact .inr (.inl ⟨_, rfl⟩)
    · dsimp only
      split
      next haccepted => exact .inr (.inr ⟨_, rfl, rfl⟩)
      next => exact hc
  | _ => cases hc

end ConsoleRead

/-- A read of a key that is stopped comes to no key. -/
theorem KeyCall.step_of_stopped {h : Host} {call : KeyCall} (hstopped : stopped h call.token = true)
    (me : Nat) (bias : List Bool) :
    (call.step h me bias).2.Meets (fun _ => True) fun a => a = .error .cancelled := by
  cases call with
  | start token => trivial
  | look token =>
    have hlook : stopped h token = true := hstopped
    simp only [step, hlook]
    rfl
  | arm token =>
    simp only [step]
    split
    · rfl
    · trivial
  | listen w token =>
    have hlisten : stopped h token = true := hstopped
    simp only [step, hlisten]
    split
    · rfl
    · split
      · trivial
      · rfl

/-- So a read whose token has fired ends with an empty line, at a console that takes notice of
that. -/
theorem ConsoleRead.step_of_stopped {h : Host} {c : ConsoleRead} {own : Nat}
    (hc : c.keys? = some own) (hattuned : c.Attuned) (hstopped : KeyCall.stopped h own = true)
    (me : Nat) (bias : List Bool) :
    (c.step h me bias).2.Meets (fun _ => True) fun a => a = .ok "" := by
  cases c with
  | key call line commandLine own' =>
    cases hc
    have htoken : call.token = own := hattuned
    have hkey := KeyCall.step_of_stopped (htoken ▸ hstopped) me bias
    rcases hs : call.step h me bias with ⟨k, r⟩
    rw [hs] at hkey
    simp only [step, hs]
    rcases r with _ | call' | r
    · trivial
    · trivial
    · obtain rfl : r = .error .cancelled := hkey
      rfl
  | _ => cases hc

theorem Task.step_of_console (h : Host) (me : Nat) (bias : List Bool) {task : Task}
    {c : ConsoleRead} (hc : task.console? = some c) :
    ∃ f : ConsoleRead → Task, (∀ c', (f c').console? = some c') ∧
      (task.step h me bias).2 = (c.step h me bias).2.map f .line := by
  cases task with
  | read call =>
    obtain rfl := ReadCall.eq_console hc
    refine ⟨fun c => .read (.console c), fun _ => rfl, ?_⟩
    simp only [step, ReadCall.step]
    cases (c.step h me bias).2 <;> rfl
  | line call =>
    cases hc
    exact ⟨.line, fun _ => rfl, rfl⟩
  | _ => cases hc

namespace Host

variable {h : Host} {t own : Nat}

/-- What a read from the console can end with: an empty line, a fault, or a line that it accepts in
one of its polls. -/
def EndsTyping (h : Host) (events : List Event) (t : Nat) (r : TaskResult) : Prop :=
  r = .line (.ok "") ∨ (∃ f, r = .line (.error f)) ∨
    ∃ before bias c s, before ++ [.poll t bias] <+: events ∧
      (h.run before).consoleOf? t = some c ∧ c.accepts? (h.run before) t bias = some s ∧
        r = .line (.ok s)

/-- What a read with the line editor can end with when the engine is done with its command: an empty
line, the line that the engine has read, or the fault of the engine. -/
def EndsReading (result : RunResult) (r : TaskResult) : Prop :=
  r = .line (.ok "") ∨ (∃ vs, result = .ok vs ∧ r = .line (.ok (ReadCall.lineOf vs))) ∨
    ∃ f, result = .error f ∧ r = .line (.error (.run f))

theorem endsReading_interpret (fired : Bool) (result : RunResult) :
    EndsReading result (.line (ReadCall.interpret fired result)) := by
  rcases ReadCall.interpret_cases fired result with hempty | ⟨vs, hvs, hline⟩ | ⟨f, hf, hfault⟩
  · exact .inl (congrArg _ hempty)
  · exact .inr (.inl ⟨vs, hvs, congrArg _ hline⟩)
  · exact .inr (.inr ⟨f, hf, congrArg _ hfault⟩)

theorem exists_task_of_keysOf (ho : h.keysOf? t = some own) :
    ∃ task c, h.task? t = some task ∧ task.console? = some c ∧ c.keys? = some own := by
  obtain ⟨c, hc, hkeys⟩ := Option.bind_eq_some_iff.1 ho
  obtain ⟨task, ht, hconsole⟩ := Option.bind_eq_some_iff.1 hc
  exact ⟨task, c, ht, hconsole, hkeys⟩

/-- A task takes keys until it ends. -/
theorem course_of_keys (hk : h.WellKept) (ho : h.keysOf? t = some own) (events : List Event) :
    (h.run events).Course t (fun task => task.console?.bind ConsoleRead.keys? = some own) ∧
      ∀ r, (t, r) ∈ h.results events → h.EndsTyping events t r := by
  obtain ⟨task, c, ht, hc, hkeys⟩ := exists_task_of_keysOf ho
  refine (Course.of_task hk.numbered ht (by rw [hc]; exact hkeys)).run hk events ?_
  intro before bias task hle ht hq
  obtain ⟨c, hc, hkeys⟩ := Option.bind_eq_some_iff.1 hq
  obtain ⟨f, hf, hstep⟩ := Task.step_of_console (h.run before) t bias hc
  have hconsole : (h.run before).consoleOf? t = some c := by
    rw [consoleOf?, ht]
    exact hc
  have hmeets := c.step_of_keys (h.run before) t bias hkeys
  rw [hstep]
  apply Poll.Meets.map
  generalize (c.step (h.run before) t bias).2 = p at hmeets
  rcases p with - | c' | a
  · trivial
  · change (f c').console?.bind _ = _
    rw [hf]
    exact hmeets
  · rcases hmeets with rfl | ⟨f, rfl⟩ | ⟨s, hs, rfl⟩
    · exact .inl rfl
    · exact .inr (.inl ⟨f, rfl⟩)
    · exact .inr (.inr ⟨before, bias, c, s, hle, hconsole, hs, rfl⟩)

/-- A task whose token has fired ends with an empty line. -/
theorem results_of_fired (hk : h.WellKept) (hkeys : h.KeyboardKept) (ho : h.keysOf? t = some own)
    (hfired : h.tokens.isFired own = true) (hdeaf : h.console.deaf = false) (events : List Event)
    {r : TaskResult} (hr : (t, r) ∈ h.results events) : r = .line (.ok "") := by
  have hstopped (before : List Event) : KeyCall.stopped (h.run before) own = true := by
    have hsteps : h.tokens.Steps (h.run before).tokens := steps_tokens_run hk before
    rw [KeyCall.stopped, deaf_run hk, hdeaf, hsteps.isFired hfired]
    rfl
  obtain ⟨task, c, ht, hc, hkeysOf⟩ := exists_task_of_keysOf ho
  have hcourse := (Course.of_task (Q := fun task => task.console?.bind ConsoleRead.keys? = some own)
    hk.numbered ht (by rw [hc]; exact hkeysOf)).run hk events (R := fun r => r = .line (.ok "")) ?_
  · exact hcourse.2 r hr
  intro before bias task hle ht hq
  obtain ⟨c, hc, hkeysOf⟩ := Option.bind_eq_some_iff.1 hq
  obtain ⟨f, hf, hstep⟩ := Task.step_of_console (h.run before) t bias hc
  have hconsole : (h.run before).consoleOf? t = some c := by
    rw [consoleOf?, ht]
    exact hc
  have hmeets := c.step_of_keys (h.run before) t bias hkeysOf
  have hempty := ConsoleRead.step_of_stopped hkeysOf ((hkeys.run hk before).attuned t c hconsole)
    (hstopped before) t bias
  rw [hstep]
  apply Poll.Meets.map
  generalize (c.step (h.run before) t bias).2 = p at hmeets hempty
  rcases p with - | c' | a
  · trivial
  · change (f c').console?.bind _ = _
    rw [hf]
    exact hmeets
  · obtain rfl : a = .ok "" := hempty
    rfl

/-! ## Aborting at the console -/

/-- An abort in a host that is not native fires the token of the read that takes keys. -/
theorem isFired_stopReader (hkeys : h.KeyboardKept) (ho : h.keysOf? t = some own) :
    h.stopReader.tokens.isFired own = true := by
  obtain ⟨hactive, hlt⟩ := hkeys.keys t own ho
  rw [stopReader, hactive, tokens_fireToken, Tokens.isFired_fire, Tokens.family_eq]
  by_cases hfired : h.tokens.isFired own = true
  · exact .inl hfired
  · exact .inr ⟨by simpa using hfired, by simp, hlt⟩

def BeginsAbort (h : Host) (u : Nat) : Prop :=
  h.task? u = some (.abort .start) ∨ ∃ job sink, h.task? u = some (.command (.aborting .start job) sink)

theorem BeginsAbort.keysOf? {u : Nat} (hb : h.BeginsAbort u) : h.keysOf? u = none := by
  rcases hb with ht | ⟨job, sink, ht⟩ <;> rw [Host.keysOf?, consoleOf?, ht] <;> rfl

theorem isFired_of_beginsAbort (hkeys : h.KeyboardKept) (ho : h.keysOf? t = some own)
    (hnative : h.native = false) {u : Nat} (hb : h.BeginsAbort u) (bias : List Bool) :
    (h.apply (.poll u bias)).tokens.isFired own = true ∧
      ∀ r, (t, r) ∉ (h.ending? (.poll u bias)).toList := by
  have hne : t ≠ u := by
    rintro rfl
    rw [hb.keysOf?] at ho
    cases ho
  have htask : ∃ task r, h.task? u = some task ∧ task.step h u bias = (h.stopReader, r) := by
    rcases hb with ht | ⟨job, sink, ht⟩
    · refine ⟨_, .done .done, ht, ?_⟩
      simp only [Task.step, AbortCall.step, AbortCall.begin, hnative]
      rfl
    · refine ⟨_, .next (.command (.exiting .start job) sink), ht, ?_⟩
      simp only [Task.step, CommandCall.step, AbortCall.step, AbortCall.begin, hnative]
      rfl
  obtain ⟨task, r, ht, hs⟩ := htask
  constructor
  · have htokens : (h.stopReader.afterPoll u r).tokens = h.stopReader.tokens := by
      rcases r with _ | _ | (_ | _ | _ | _ | _) <;> rfl
    rw [apply_poll ht hs, htokens]
    exact isFired_stopReader hkeys ho
  · intro r hr
    obtain ⟨bias', _, he, -⟩ := ending?_eq_some (Option.mem_toList.1 hr)
    cases he
    exact hne rfl

/-! ## Abort and wait -/

/-- What has become of the reads that were in progress after `past`, after some more events, when
somebody who waits for the end of a read has seen it. -/
structure ReadsOver (start : Host) (past events : List Event) : Prop where
  /-- No read is in the line editor. -/
  editor : ∀ t ρ, ¬ (start.run (past ++ events)).InEditor t ρ
  /-- In a host that is not native, a read that took keys is over. -/
  console : start.native = false → ∀ t own, (start.run past).keysOf? t = some own →
    (start.run (past ++ events)).task? t = none
  /-- A read that was in the line editor ends with what the engine was done with. -/
  answered : ∀ t ρ r later, (start.run past).InEditor t ρ →
    (t, r) ∈ (start.run past).results (events ++ later) →
      ∃ result, .ended ρ result ∈ start.notes (past ++ (events ++ later)) ∧ EndsReading result r
  /-- A read that took keys ends with an empty line, a fault, or a line that it accepts. -/
  typed : ∀ t own r later, (start.run past).keysOf? t = some own →
    (t, r) ∈ (start.run past).results (events ++ later) →
      (start.run past).EndsTyping (events ++ later) t r

structure Stopped (start : Host) (past events : List Event) : Prop extends
    start.ReadsOver past events where
  /-- In a host that is not native, a read that took keys accepts no line any more, if the console
  takes notice of tokens. -/
  emptied : start.native = false → start.console.deaf = false → ∀ t own r later,
    (start.run past).keysOf? t = some own →
      (t, r) ∈ (start.run past).results (events ++ later) → r = .line (.ok "")

section
variable {start : Host} {past : List Event} {u : Nat}

theorem SeesEnd.readsOver (hf : start.Fresh) (hreader : start.reader = {}) {events : List Event}
    (hsees : (start.run (past ++ events)).SeesEnd u) (bias : List Bool) :
    start.ReadsOver past (events ++ [.poll u bias]) where
  editor t ρ := by
    rw [← List.append_assoc, run_concat]
    exact hsees.not_inEditor_apply hf bias t ρ
  console hnative t own ho := by
    have hnone := hsees.keysOf? hf hreader hnative t
    have hcourse := (course_of_keys (hf.kept.run past) ho events).1
    rw [← run_append] at hcourse
    have hgone : (start.run (past ++ events)).Course t fun _ => False := by
      refine ⟨hcourse.old, fun task ht => ?_⟩
      rw [Host.keysOf?, consoleOf?, ht, Option.bind_some, hcourse.holds task ht] at hnone
      cases hnone
    have hafter := (hgone.run (hf.kept.run _) [.poll u bias] (R := fun _ => False)
      fun _ _ _ _ _ hq => hq.elim).1
    rw [← run_append, List.append_assoc] at hafter
    rw [Option.eq_none_iff_forall_ne_some]
    exact fun task ht => hafter.holds task ht
  answered t ρ r later hin hr := by
    obtain ⟨result, -, -, -, hended, -, -, -, rfl⟩ := hin.result hf hr
    exact ⟨result, hended, endsReading_interpret _ result⟩
  typed t own r later ho hr := (course_of_keys (hf.kept.run past) ho _).2 r hr

/-- When an abort has begun and then the end of reads has been seen, these are stopped. -/
theorem SeesEnd.stopped (hf : start.Fresh) (hreader : start.reader = {}) {ab : Nat}
    (hb : (start.run past).BeginsAbort ab) {bias : List Bool} {later : List Event}
    (hsees : (start.run (past ++ .poll ab bias :: later)).SeesEnd u) (bias' : List Bool) :
    start.Stopped past (.poll ab bias :: later ++ [.poll u bias']) where
  toReadsOver := hsees.readsOver hf hreader bias'
  emptied hnative hdeaf t own r more ho hr := by
    have hk := hf.kept.run past
    have hkeys := (KeyboardKept.fresh hf.tasks hreader).run hf.kept past
    obtain ⟨hfired, hnot⟩ :=
      isFired_of_beginsAbort hkeys ho ((native_run hf.kept past).trans hnative) hb bias
    have hsame : ((start.run past).apply (.poll ab bias)).keysOf? t = some own := by
      obtain ⟨task, ht⟩ : ∃ task, (start.run past).task? ab = some task := by
        rcases hb with ht | ⟨job, sink, ht⟩ <;> exact ⟨_, ht⟩
      have hne : t ≠ ab := by
        rintro rfl
        rw [hb.keysOf?] at ho
        cases ho
      rw [Host.keysOf?, (keyboardTurn_poll bias ht).others t hne]
      exact ho
    have hquiet : ((start.run past).apply (.poll ab bias)).console.deaf = false := by
      rw [← run_concat, deaf_run hf.kept, hdeaf]
    have hsplit : (start.run past).results (.poll ab bias :: later ++ [.poll u bias'] ++ more) =
        ((start.run past).ending? (.poll ab bias)).toList ++
          ((start.run past).apply (.poll ab bias)).results (later ++ [.poll u bias'] ++ more) := rfl
    rw [hsplit] at hr
    rcases List.mem_append.1 hr with hr | hr
    · exact absurd hr (hnot r)
    · exact results_of_fired (hk.apply _) (hkeys.apply hk.numbered _) hsame hfired hquiet _ hr

end

/-- When an abort has begun and then a call that waits for the end of reads has ended, no read with
the line editor is in progress. In a host that is not native, no read from the console is that took
keys when the abort began, and each of these has ended with an empty line if the console takes notice
of tokens. -/
theorem abort_and_exit_end_reads (native follows : Bool) (engine : Engine)
    (console : Console Waiter) (tokens : Tokens) (past later : List Event) (ab u : Nat)
    (bias bias' : List Bool) :
    let start : Host := { established native follows engine console with tokens }
    (start.run past).task? ab = some (.abort .start) →
    (start.run (past ++ .poll ab bias :: later)).SeesEnd u →
      start.Stopped past (.poll ab bias :: later ++ [.poll u bias']) := by
  intro start hab hsees
  have hreader : start.reader = {} :=
    congrArg Prod.fst (keyboard_established native follows engine console)
  exact hsees.stopped (fresh_established native follows engine console tokens) hreader (.inl hab)
    bias'

/-- A host that reads everything from its console, for a caller with a token. -/
def consoleOnly : Host := { established false false {} {} with tokens := { all := [.fresh] } }

def keysAborted : List Event :=
  .start (.read true 0) :: List.replicate 4 (.poll 0 []) ++ [.start .abort]

def keysEnded : List Event := [.start .exit, .poll 2 [], .poll 0 [], .poll 0 []]

def editorAborted : List Event :=
  .start (.read true 0) :: List.replicate 7 (.poll 0 []) ++
    [.advance 0, .advance 0, .start .abort]

/-- Somebody waits for its end, and a line is typed. -/
def editorEnded : List Event :=
  [.start .exit, .typeLine "x"] ++ List.replicate 4 (.advance 0) ++ List.replicate 3 (.poll 2 [])

/-- The read from the console ends with an empty line, and the other one is not in the editor any
more. -/
theorem abort_and_exit_end_reads_onOneRead :
    ((consoleOnly.run keysAborted).keysOf? 0 = some 1 ∧
      (0, .line (.ok "")) ∈ (consoleOnly.run keysAborted).results (.poll 1 [] :: keysEnded) ∧
      consoleOnly.Stopped keysAborted (.poll 1 [] :: keysEnded ++ [.poll 2 []])) ∧
    (oneToken.run editorAborted).InEditor 0 0 ∧
      oneToken.Stopped editorAborted (.poll 1 [] :: editorEnded ++ [.poll 2 []]) := by
  have hkeys : (consoleOnly.run (keysAborted ++ .poll 1 [] :: keysEnded)).SeesEnd 2 :=
    ⟨_, _, rfl, rfl, rfl⟩
  have hresults : (consoleOnly.run keysAborted).results (.poll 1 [] :: keysEnded) =
      [(1, .done), (0, .line (.ok ""))] := rfl
  have heditor : (oneToken.run (editorAborted ++ .poll 1 [] :: editorEnded)).SeesEnd 2 :=
    ⟨_, _, rfl, rfl, rfl⟩
  have hin : (oneToken.run editorAborted).InEditor 0 0 :=
    ⟨⟨_, rfl, rfl⟩, _, List.mem_singleton_self _, ⟨⟨1, some 0, true⟩, 1,
      ⟨.readLine, .reading, 0, 1⟩, 0⟩, List.mem_cons_of_mem _ (List.mem_singleton_self _), rfl⟩
  refine ⟨⟨rfl, ?_, ?_⟩, hin, ?_⟩
  · simp [hresults]
  · exact abort_and_exit_end_reads false false {} {} { all := [.fresh] } keysAborted keysEnded 1 2
      [] [] rfl hkeys
  · exact abort_and_exit_end_reads true false {} {} { all := [.fresh] } editorAborted editorEnded
      1 2 [] [] rfl heditor

/-- A read takes keys in a native host when an abort begins, and somebody waits for its end. -/
def keysNotAborted : List Event :=
  .start (.read false 0) :: List.replicate 4 (.poll 0 []) ++ .start .abort :: .poll 1 [] ::
    .start .exit :: List.replicate 4 (.poll 2 [])

/-- Both are told at once that no read is in progress, and the read goes on. -/
theorem keysNotAborted_goOn :
    let h := oneToken.run (.start (.read false 0) :: List.replicate 4 (.poll 0 []))
    let k := oneToken.run keysNotAborted
    h.native = true ∧ h.keysOf? 0 = some 1 ∧
      oneToken.results keysNotAborted = [(1, .done), (2, .done)] ∧
      k.keysOf? 0 = some 1 ∧ k.tokens.isFired 1 = false :=
  ⟨rfl, rfl, rfl, rfl, rfl⟩

end Host

end SharedPrompt
