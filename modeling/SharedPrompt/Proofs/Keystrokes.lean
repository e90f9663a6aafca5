import SharedPrompt.Proofs.KeysTaken

/-!
# What an event does to the keys and the lines

Where the reader alone uses the console, an event presses a key, or leaves the keys and the screen as
they are, or it is the step of one read that takes the first key, edits its line with it and writes
its echo. So the keys that were taken and those to come make up what was pressed, in that order, and
the line of each read is what the keys type that it has taken.
-/

namespace SharedPrompt

/-! ## Tasks at the reader -/

theorem ExitCall.console_step {h : Host} (hnative : h.native = false) (me : Nat) {call : ExitCall}
    (hcall : (Task.exit call).atReader = true) : (call.step h me).1.console = h.console ∧
      (call.step h me).2.Meets (fun c => (Task.exit c).atReader = true) fun _ => True := by
  cases call with
  | start =>
    simp only [step, hnative, Bool.false_eq_true, if_false]
    split
    · exact ⟨Host.console_releaseReader _, trivial⟩
    · exact ⟨rfl, rfl⟩
  | leasing lease => cases hcall
  | queued w =>
    simp only [step]
    split
    · exact ⟨Host.console_releaseReader _, trivial⟩
    · exact ⟨rfl, trivial⟩

theorem AbortCall.step_start {h : Host} (hnative : h.native = false) (me : Nat) (bias : List Bool) :
    AbortCall.start.step h me bias = (h.stopReader, .done ()) := by
  simp only [step, begin, hnative]
  rfl

/-- A read of a line as the keys have it that its task has taken. -/
structure ConsoleRead.Typed (c : ConsoleRead) (keys : List KeyPress) : Prop where
  text : c.text = typed c.isCommandLine keys
  open_ : ∀ p ∈ keys, p.isEnter = false

namespace Host

variable {h : Host}

theorem console_afterPoll (k : Host) (t : Nat) (r : Poll Task TaskResult) :
    (k.afterPoll t r).console = k.console := by
  rcases r with _ | _ | (_ | _ | _ | _ | _) <;> rfl

theorem consoleOf?_poll {t : Nat} {bias : List Bool} {task : Task} {k : Host}
    {r : Poll Task TaskResult} (ht : h.task? t = some task) (hs : task.step h t bias = (k, r)) :
    (h.apply (.poll t bias)).consoleOf? t = (r.task? task).bind Task.console? := by
  rw [consoleOf?, task?_poll ht hs]

theorem consoleOf?_drop {t : Nat} {task : Task} (ht : h.task? t = some task) :
    (h.apply (.drop t)).consoleOf? t = none := by
  rw [consoleOf?, apply_drop ht, task?, removeTask, lookup_remove_self]
  rfl

/-- A read of a line is all that has to do with the console, of the tasks at the reader. -/
theorem AtReader.task_cases (ho : h.AtReader) {t : Nat} {task : Task} (ht : h.task? t = some task) :
    (∃ c, task = .line c) ∨ task.console? = none ∧ (∀ c, task ≠ .line c) := by
  have htask := ho.tasks t task ht
  cases task with
  | line c => exact .inl ⟨c, rfl⟩
  | abort call => exact .inr ⟨rfl, fun _ hc => by cases hc⟩
  | exit call => exact .inr ⟨rfl, fun _ hc => by cases hc⟩
  | _ => cases htask

theorem AtReader.consoleOf? (ho : h.AtReader) {t : Nat} {c : ConsoleRead}
    (hc : h.consoleOf? t = some c) : h.task? t = some (.line c) := by
  obtain ⟨task, ht, hconsole⟩ := Option.bind_eq_some_iff.1 hc
  rcases ho.task_cases ht with ⟨c', rfl⟩ | ⟨hnone, -⟩
  · cases hconsole
    exact ht
  · rw [hnone] at hconsole
    cases hconsole

/-- A task that is no read leaves the console alone, and does not begin to read. -/
theorem AtReader.step_other (ho : h.AtReader) {t : Nat} {task : Task} (ht : h.task? t = some task)
    (hother : ∀ c, task ≠ .line c) (me : Nat) (bias : List Bool) :
    (task.step h me bias).1.console = h.console ∧
      (task.step h me bias).2.Meets (fun task' => task'.atReader = true ∧ task'.console? = none)
        fun _ => True := by
  have htask := ho.tasks t task ht
  cases task with
  | line c => exact absurd rfl (hother c)
  | abort call =>
    cases call with
    | start =>
      simp only [Task.step, AbortCall.step_start ho.native]
      exact ⟨h.console_stopReader, trivial⟩
    | _ => cases htask
  | exit call =>
    obtain ⟨hconsole, hmeets⟩ := ExitCall.console_step ho.native me htask
    simp only [Task.step]
    refine ⟨hconsole, .map ?_⟩
    generalize (call.step h me).2 = p at hmeets
    cases p with
    | next c => exact ⟨hmeets, rfl⟩
    | _ => trivial
  | _ => cases htask

theorem AtReader.console_abandon (ho : h.AtReader) {t : Nat} {task : Task}
    (ht : h.task? t = some task) (me : Nat) :
    (task.abandon h me).console.face = h.console.face := by
  have htask := ho.tasks t task ht
  cases task with
  | line c => exact c.face_abandon me
  | abort call =>
    cases call with
    | start => rfl
    | _ => cases htask
  | exit call =>
    cases call with
    | start => rfl
    | leasing lease => cases htask
    | queued w => exact congrArg Console.face (h.console_leaveReader w)
  | _ => cases htask

/-! ## Events at the reader -/

/-- What an event makes of the keys, the screen and the lines of a host that it takes to `h'`. -/
inductive Stroke (h : Host) (e : Event) (h' : Host) : Prop where
  /-- Nothing is pressed and nothing taken. Reads keep their lines, and a new one has none yet. -/
  | still (htakes : h.takes? e = none) (hpressed : e.pressed? = none)
      (hface : h'.console.face = h.console.face)
      (hreads : ∀ t c', h'.consoleOf? t = some c' →
        (∃ c, h.consoleOf? t = some c ∧ c.GoesOn c') ∨
          ∃ commandLine token, e = .start (.line commandLine token) ∧ t = h.nextTask ∧
            c' = .start commandLine token)
  /-- A key is pressed. -/
  | pressed (p : KeyPress) (he : e = .key (.press p))
      (hface : h'.console.face =
        (h.console.keys ++ [.press p], h.console.written, h.console.cursor))
      (hreads : ∀ t, h'.consoleOf? t = h.consoleOf? t)
  /-- The task `t` takes the first key, and ends with its line if that is Enter. -/
  | struck (t : Nat) (bias : List Bool) (p : KeyPress) (rest : List KeyEvent) (call : KeyCall)
      (line : List Char) (commandLine : Bool) (own : Nat) (he : e = .poll t bias)
      (hread : h.consoleOf? t = some (.key call line commandLine own))
      (htakes : h.takes? e = some (t, p)) (hkeys : h.console.keys = .press p :: rest)
      (hface : h'.console.face = (rest, h.console.written ++ (Edit.ofKey commandLine line p).echo,
        (Edit.ofKey commandLine line p).echo.foldl Cursor.advance h.console.cursor))
      (hreads : ∀ u, u ≠ t → h'.consoleOf? u = h.consoleOf? u)
      (hends : p.isEnter = true → h.ending? e = some (t, .line (.ok (String.ofList line))) ∧
        h'.consoleOf? t = none)
      (hgoes : p.isEnter = false → h'.consoleOf? t =
        some (.key (.start own) (p.edit commandLine line) commandLine own))

theorem takes?_poll {t : Nat} {bias : List Bool} {c : ConsoleRead} (hc : h.consoleOf? t = some c) :
    h.takes? (.poll t bias) = (c.takes? h).map (t, ·) := by
  rw [takes?, hc, Option.bind_some]

theorem takes?_poll_of_none {t : Nat} {bias : List Bool} (hc : h.consoleOf? t = none) :
    h.takes? (.poll t bias) = none := by
  rw [takes?, hc]
  rfl

/-- An event that keeps the reads. -/
theorem Stroke.quiet {e : Event} {h' : Host} (htakes : h.takes? e = none)
    (hpressed : e.pressed? = none) (hface : h'.console.face = h.console.face)
    (hreads : ∀ t c', h'.consoleOf? t = some c' → h.consoleOf? t = some c') : h.Stroke e h' :=
  .still htakes hpressed hface fun t c' hc => .inl ⟨c', hreads t c' hc, .refl c'⟩

theorem AtReader.stroke_line (ho : h.AtReader) {t : Nat} (bias : List Bool) {c : ConsoleRead}
    (ht : h.task? t = some (.line c)) :
    h.Stroke (.poll t bias) (h.apply (.poll t bias)) := by
  have hc : h.consoleOf? t = some c := by rw [Host.consoleOf?, ht]; rfl
  have hothers := (keyboardTurn_poll bias ht).others
  rcases hs : c.step h t bias with ⟨k, r⟩
  have hstep : (Task.line c).step h t bias = (k, r.map .line .line) := by simp only [Task.step, hs]
  have hself := consoleOf?_poll ht hstep
  have hface : (h.apply (.poll t bias)).console.face = k.console.face := by
    rw [apply_poll ht hstep, console_afterPoll]
  -- A step that takes no key leaves the line of this read as it was.
  have hstill (htakes : c.takes? h = none) (hk : k.console.face = h.console.face)
      (hmeets : r.Meets c.GoesOn fun _ => True) :
      h.Stroke (.poll t bias) (h.apply (.poll t bias)) := by
    refine .still ?_ rfl (hface.trans hk) fun u c' hc' => .inl ?_
    · rw [takes?_poll hc, htakes]
      rfl
    · by_cases hu : u = t
      · subst hu
        rw [hself] at hc'
        refine ⟨c, hc, ?_⟩
        cases r with
        | blocked =>
          cases hc'
          exact .refl c
        | next c'' =>
          cases hc'
          exact hmeets
        | done a => cases hc'
      · exact ⟨c', (hothers u hu).symm.trans hc', .refl c'⟩
  cases hkeys : c.keys? with
  | none =>
    have hstep := ConsoleRead.step_unopened (h := h) t bias hkeys
    have htakes : c.takes? h = none := by
      cases c with
      | key call line commandLine own => cases hkeys
      | _ => rfl
    rw [hs] at hstep
    refine hstill htakes (congrArg Console.face hstep.1) ?_
    cases r with
    | next c' => exact hstep.2
    | _ => trivial
  | some own =>
    cases c with
    | key call line commandLine own' =>
      have hstrikes := ConsoleRead.strikes t bias ho.presses call line commandLine own'
      rw [hs] at hstrikes
      cases hstrikes with
      | none htakes hk hr =>
        refine hstill htakes hk ?_
        cases r with
        | next c' =>
          obtain ⟨call', rfl⟩ := hr
          exact ⟨rfl, rfl, fun _ => id, le_rfl⟩
        | _ => trivial
      | press p rest htakes hrest hk hr =>
        refine .struck t bias p rest call line commandLine own' rfl hc ?_ hrest (hface.trans hk)
          hothers (fun henter => ?_) fun henter => ?_
        · rw [takes?_poll hc, ConsoleRead.takes?, htakes]
          rfl
        · rw [if_pos henter] at hr
          rw [hr] at hself hstep
          refine ⟨?_, hself⟩
          rw [ending?, ht, Option.bind_some, hstep]
          rfl
        · rw [henter, if_neg Bool.false_ne_true] at hr
          rw [hr] at hself
          exact hself
    | _ => cases hkeys

theorem AtReader.stroke (ho : h.AtReader) (hn : h.Numbered) {n : Nat} {e : Event}
    (he : e.atReader n = true) : h.Stroke e (h.apply e) := by
  have hsame (hoff : e.ofTask = false) (t : Nat) : (h.apply e).consoleOf? t = h.consoleOf? t := by
    rw [Host.consoleOf?, Host.consoleOf?, task?, task?, h.tasks_apply hoff]
  cases e with
  | poll t bias =>
    cases ht : h.task? t with
    | none =>
      have hnone : h.consoleOf? t = none := by rw [Host.consoleOf?, ht]; rfl
      have happly : h.apply (.poll t bias) = h := by simp only [Host.apply, stepTask, ht]
      rw [happly]
      exact .quiet (takes?_poll_of_none hnone) rfl rfl fun _ _ => id
    | some task =>
      rcases ho.task_cases ht with ⟨c, rfl⟩ | ⟨hnone, hother⟩
      · exact ho.stroke_line bias ht
      · rcases hs : task.step h t bias with ⟨k, r⟩
        obtain ⟨hk, hmeets⟩ := ho.step_other ht hother t bias
        rw [hs] at hk hmeets
        have hconsole : h.consoleOf? t = none := by rw [Host.consoleOf?, ht]; exact hnone
        refine .quiet (takes?_poll_of_none hconsole) rfl ?_ fun u c' hc' => ?_
        · rw [apply_poll ht hs, console_afterPoll, hk]
        · by_cases hu : u = t
          · subst hu
            rw [consoleOf?_poll ht hs] at hc'
            cases r with
            | blocked =>
              rw [Poll.task?, Option.bind_some, hnone] at hc'
              cases hc'
            | next task' =>
              rw [Poll.task?, Option.bind_some, hmeets.2] at hc'
              cases hc'
            | done a => cases hc'
          · exact ((keyboardTurn_poll bias ht).others u hu).symm.trans hc'
  | drop t =>
    cases ht : h.task? t with
    | none =>
      have happly : h.apply (.drop t) = h := by simp only [Host.apply, dropTask, ht]
      rw [happly]
      exact .quiet rfl rfl rfl fun _ _ => id
    | some task =>
      refine .quiet rfl rfl ?_ fun u c' hc' => ?_
      · rw [apply_drop ht]
        exact ho.console_abandon ht t
      · by_cases hu : u = t
        · subst hu
          rw [consoleOf?_drop ht] at hc'
          cases hc'
        · exact ((keyboardTurn_drop ht).others u hu).symm.trans hc'
  | start call =>
    have hface : (h.apply (.start call)).console.face = h.console.face :=
      congrArg Console.face (console_wake (h.addTask call.task) h.nextTask)
    refine .still rfl rfl hface fun u c' hc' => ?_
    by_cases hu : u = h.nextTask
    · subst hu
      have htask : (h.apply (.start call)).task? h.nextTask = some call.task := by
        have hwake := (h.addTask call.task).aside_wake h.nextTask
        change ((h.addTask call.task).wake h.nextTask).task? h.nextTask = _
        rw [task?, hwake.tasks, ← task?, task?_addTask_self hn]
      rw [Host.consoleOf?, htask] at hc'
      cases call with
      | line commandLine token =>
        cases hc'
        exact .inr ⟨commandLine, token, rfl, rfl, rfl⟩
      | _ => cases hc'
    · exact .inl ⟨c', ((keyboardTurn_start hn call).others u hu).symm.trans hc', .refl c'⟩
  | fire token =>
    exact .quiet rfl rfl (congrArg Console.face (h.console_fireToken token)) fun t c' hc' =>
      (hsame rfl t).symm.trans hc'
  | key k =>
    cases k with
    | press p => exact .pressed p rfl (h.face_pushKey _) (hsame rfl)
    | fault f => cases he
  | _ => cases he

namespace AtReader

theorem apply (ho : h.AtReader) (hk : h.WellKept) {n : Nat} {e : Event} (he : e.atReader n = true) :
    (h.apply e).AtReader where
  native := (native_run hk [e]).trans ho.native
  tasks t task' ht' := by
    cases task?_apply hk.numbered ht' with
    | same ht => exact ho.tasks t task' ht
    | started call hnew hcall =>
      subst hcall
      cases call with
      | line commandLine token => rfl
      | abort => rfl
      | exit => rfl
      | _ => cases he
    | @polled bias task k r ht hs hf hr =>
      rcases ho.task_cases ht with ⟨c, rfl⟩ | ⟨-, hother⟩
      · have hline : (r.task? (.line c)) = some task' → ∃ c', task' = .line c' := by
          obtain rfl : ((c.step h t bias).2.map Task.line TaskResult.line) = r := congrArg Prod.snd hs
          cases (c.step h t bias).2 <;> intro hr <;> cases hr <;> exact ⟨_, rfl⟩
        obtain ⟨c', rfl⟩ := hline hr
        rfl
      · obtain ⟨-, hmeets⟩ := ho.step_other ht hother t bias
        rw [hs] at hmeets
        cases r with
        | blocked =>
          cases hr
          exact ho.tasks t task' ht
        | next task'' =>
          cases hr
          exact hmeets.1
        | done a => cases hr
  presses k hkmem := by
    have hkeys {keys : List KeyEvent} {written : List Char} {cursor : Cursor}
        (hface : (h.apply e).console.face = (keys, written, cursor)) : k ∈ keys := by
      rwa [show keys = (h.apply e).console.keys from (congrArg Prod.fst hface).symm]
    cases ho.stroke hk.numbered he with
    | still htakes hpressed hface hreads => exact ho.presses k (hkeys hface)
    | pressed p he hface hreads =>
      rcases List.mem_append.1 (hkeys hface) with hmem | hmem
      · exact ho.presses k hmem
      · exact ⟨p, List.mem_singleton.1 hmem⟩
    | struck t bias p rest call line commandLine own he hread htakes hold hface hreads =>
      refine ho.presses k ?_
      rw [hold]
      exact List.mem_cons_of_mem _ (hkeys hface)

theorem run (ho : h.AtReader) (hk : h.WellKept) {n : Nat} {events : List Event}
    (he : ∀ e ∈ events, e.atReader n = true) : (h.run events).AtReader := by
  induction events using List.reverseRecOn with
  | nil => exact ho
  | append_singleton past e ih =>
    rw [run_concat]
    exact (ih fun e' he' => he e' (List.mem_append_left _ he')).apply (hk.run past)
      (he e (List.mem_append_right _ (List.mem_singleton_self e)))

theorem reading (n : Nat) (cursor : Cursor) : (reading n cursor).AtReader where
  native := rfl
  tasks t task ht := by cases ht
  presses k hk := by cases hk

end AtReader

theorem wellKept_reading (n : Nat) (cursor : Cursor) : (reading n cursor).WellKept :=
  (WellKept.initial false {} { cursor }).setTokens (callersTokens n)

/-! ## Runs -/

section
variable {start : Host} {n : Nat}

/-- The keys that were taken and those to come are the keys that were pressed, in that order. -/
theorem AtReader.taken_append_keys (ho : start.AtReader) (hk : start.WellKept)
    (hkeys : start.console.keys = []) {events : List Event}
    (he : ∀ e ∈ events, e.atReader n = true) :
    (start.taken events).map (fun p => KeyEvent.press p.2) ++ (start.run events).console.keys =
      (SharedPrompt.pressed events).map .press := by
  induction events using List.reverseRecOn with
  | nil => exact hkeys
  | append_singleton past e ih =>
    have hpast e' (he' : e' ∈ past) := he e' (List.mem_append_left _ he')
    have hbefore := ih hpast
    have hstroke := (ho.run hk hpast).stroke (hk.run past).numbered
      (he e (List.mem_append_right _ (List.mem_singleton_self e)))
    rw [run_concat, taken, during_concat, ← taken, pressed_concat, List.map_append, List.map_append,
      ← hbefore]
    cases hstroke with
    | still htakes hpressed hface hreads =>
      rw [htakes, hpressed, show ((start.run past).apply e).console.keys =
        (start.run past).console.keys from congrArg Prod.fst hface]
      simp
    | pressed p he hface hreads =>
      subst he
      rw [show ((start.run past).apply (.key (.press p))).console.keys =
        (start.run past).console.keys ++ [.press p] from congrArg Prod.fst hface]
      simp [takes?, Event.pressed?]
    | struck t bias p rest call line commandLine own he hread htakes hold hface hreads =>
      subst he
      rw [htakes, hold, show ((start.run past).apply (.poll t bias)).console.keys = rest from
        congrArg Prod.fst hface]
      simp [Event.pressed?]

/-- The line of each read is what the keys type that it has taken, and none of them is Enter. Only a
task that was started has taken keys. -/
theorem AtReader.typed (ho : start.AtReader) (hk : start.WellKept) (htasks : start.tasks = [])
    {events : List Event} (he : ∀ e ∈ events, e.atReader n = true) :
    (∀ t c, (start.run events).consoleOf? t = some c → c.Typed (start.takenBy events t)) ∧
      ∀ t, (start.run events).nextTask ≤ t → start.takenBy events t = [] := by
  induction events using List.reverseRecOn with
  | nil =>
    refine ⟨fun t c hc => ?_, fun t ht => rfl⟩
    rw [Host.run, List.foldl_nil, Host.consoleOf?, task?, htasks] at hc
    cases hc
  | append_singleton past e ih =>
    have hpast e' (he' : e' ∈ past) := he e' (List.mem_append_left _ he')
    obtain ⟨hlines, hnew⟩ := ih hpast
    have hgrows : (start.run past).nextTask ≤ ((start.run past).apply e).nextTask :=
      ((start.run past).grows_apply e).nextTask
    have hstroke := (ho.run hk hpast).stroke (hk.run past).numbered
      (he e (List.mem_append_right _ (List.mem_singleton_self e)))
    rw [run_concat]
    cases hstroke with
    | still htakes hpressed hface hreads =>
      refine ⟨fun t c' hc' => ?_, fun t ht => ?_⟩
      · rw [takenBy_concat_of_none _ htakes]
        rcases hreads t c' hc' with ⟨c, hc, hgoes⟩ | ⟨commandLine, token, rfl, rfl, rfl⟩
        · obtain ⟨htext, hopen⟩ := hlines t c hc
          exact ⟨by rw [hgoes.text, hgoes.mode, htext], hopen⟩
        · rw [hnew _ le_rfl]
          exact ⟨rfl, fun _ hp => by cases hp⟩
      · rw [takenBy_concat_of_none _ htakes]
        exact hnew t (hgrows.trans ht)
    | pressed p he hface hreads =>
      subst he
      refine ⟨fun t c hc => ?_, fun t ht => ?_⟩
      · rw [takenBy_concat_of_none start (e := .key (.press p)) rfl]
        exact hlines t c ((hreads t).symm.trans hc)
      · rw [takenBy_concat_of_none start (e := .key (.press p)) rfl]
        exact hnew t (hgrows.trans ht)
    | struck t bias p rest call line commandLine own he hread htakes hold hface hreads hends
        hgoes =>
      subst he
      have hstarted : t < (start.run past).nextTask :=
        lt_nextTask (hk.run past).numbered ((ho.run hk hpast).consoleOf? hread)
      refine ⟨fun u c' hc' => ?_, fun u hu => ?_⟩
      · rw [takenBy_concat_of_some _ htakes]
        by_cases hut : u = t
        · subst hut
          obtain ⟨htext, hopen⟩ := hlines u _ hread
          cases henter : p.isEnter with
          | true =>
            rw [(hends henter).2] at hc'
            cases hc'
          | false =>
            rw [hgoes henter] at hc'
            cases hc'
            rw [if_pos rfl]
            refine ⟨?_, fun q hq => ?_⟩
            · rw [typed_concat]
              exact congrArg (p.edit commandLine) htext
            · rcases List.mem_append.1 hq with hq | hq
              · exact hopen q hq
              · rw [List.mem_singleton.1 hq, henter]
        · rw [if_neg (Ne.symm hut), List.append_nil]
          exact hlines u c' ((hreads u hut).symm.trans hc')
      · have hold := hgrows.trans hu
        rw [takenBy_concat_of_some _ htakes, if_neg (by omega), List.append_nil]
        exact hnew u hold

end

end Host

end SharedPrompt
