import SharedPrompt.Proofs.SharedKeys

/-!
# One read after the other

A console where no read is stopped and the next one begins when the last one has ended. Then a read
never finds the gate taken, a signal that a key was pressed is never lost, and a read that is polled
goes on until it comes to Enter or to the end of the keys.
-/

namespace SharedPrompt

/-- Keys are pressed, reads begin and have their turns, and nobody stops one. -/
def Event.inTurn (n : Nat) : Event → Bool
  | poll .. => true
  | start (.line _ token) => token < n
  | key (.press _) => true
  | _ => false

theorem Event.atReader_of_inTurn {n : Nat} {e : Event} (he : e.inTurn n = true) :
    e.atReader n = true := by
  cases e with
  | poll t bias => rfl
  | start call =>
    cases call with
    | line commandLine token => exact he
    | _ => cases he
  | key k =>
    cases k with
    | press p => rfl
    | fault f => cases he
  | _ => cases he

/-! ## The signal and the gate -/

/-- A read of a key that misses no signal: none is outstanding for somebody else, one is kept if a
key has been pressed since it looked, and one is handed to it if a key has been pressed since it
began to wait. -/
def KeyCall.Alert (h : Host) : KeyCall → Prop
  | start _ => ∃ items, h.console.signal = ⟨items, [], []⟩
  | look _ => ∃ items, h.console.signal = ⟨items, [], []⟩
  | arm _ => ∃ items, h.console.signal = ⟨items, [], []⟩ ∧ (h.console.keys ≠ [] → items ≠ [])
  | listen w _ => h.console.signal = ⟨[], [w], []⟩ ∧ h.console.keys = [] ∨
      ∃ items, h.console.signal = ⟨items, [], [(w, ())]⟩

def ConsoleRead.Alone (h : Host) : ConsoleRead → Prop
  | start .. => h.reader.gate.tickets = ⟨[()], [], []⟩ ∧ ∃ items, h.console.signal = ⟨items, [], []⟩
  | ask .. => h.reader.gate.tickets = ⟨[()], [], []⟩ ∧ ∃ items, h.console.signal = ⟨items, [], []⟩
  | queued .. => False
  | opened .. => h.reader.gate.tickets = ⟨[], [], []⟩ ∧ ∃ items, h.console.signal = ⟨items, [], []⟩
  | key call _ _ _ => h.reader.gate.tickets = ⟨[], [], []⟩ ∧ call.Alert h

namespace Host

structure NoRead (h : Host) : Prop where
  tasks : h.tasks = []
  gate : h.reader.gate.tickets = ⟨[()], [], []⟩
  signal : ∃ items, h.console.signal = ⟨items, [], []⟩

structure OneRead (h : Host) (t : Nat) (c : ConsoleRead) : Prop where
  tasks : h.tasks = [(t, .line c)]
  alone : c.Alone h

theorem OneRead.task? {h : Host} {t : Nat} {c : ConsoleRead} (ho : h.OneRead t c) :
    h.task? t = some (.line c) := by
  rw [Host.task?, ho.tasks]
  simp

theorem OneRead.consoleOf? {h : Host} {t : Nat} {c : ConsoleRead} (ho : h.OneRead t c) :
    h.consoleOf? t = some c := by
  rw [Host.consoleOf?, ho.task?]
  rfl

theorem OneRead.eq {h : Host} {t u : Nat} {c : ConsoleRead} (ho : h.OneRead t c) {task : Task}
    (ht : h.task? u = some task) : u = t := by
  rw [Host.task?, ho.tasks, List.lookup_cons] at ht
  by_contra hne
  have hfalse : (u == t) = false := by simpa using hne
  rw [hfalse] at ht
  cases ht

end Host

/-! ## One step -/

structure Host.SameReader (h k : Host) : Prop where
  reader : k.reader = h.reader
  console : k.console = h.console

theorem ConsoleRead.Alone.same {h k : Host} (hs : h.SameReader k) {c : ConsoleRead}
    (hc : c.Alone h) : c.Alone k := by
  obtain ⟨hreader, hconsole⟩ := hs
  cases c with
  | key call line commandLine own =>
    refine ⟨by rw [hreader]; exact hc.1, ?_⟩
    have halert := hc.2
    cases call <;> simp only [KeyCall.Alert, hconsole] at halert ⊢ <;> exact halert
  | queued w commandLine token => exact hc
  | start => exact ⟨by rw [hreader]; exact hc.1, by rw [hconsole]; exact hc.2⟩
  | ask => exact ⟨by rw [hreader]; exact hc.1, by rw [hconsole]; exact hc.2⟩
  | opened => exact ⟨by rw [hreader]; exact hc.1, by rw [hconsole]; exact hc.2⟩

theorem KeyCall.step_alert {h : Host} (hunfired : ∀ x, h.tokens.isFired x = false) (me : Nat)
    (bias : List Bool) {call : KeyCall} (halert : call.Alert h) :
    match call.step h me bias with
    | (k, .blocked) => call.Alert k ∧ k.reader = h.reader
    | (k, .next call') => call'.Alert k ∧ k.reader = h.reader
    | (k, .done a) => (∃ items, k.console.signal = ⟨items, [], []⟩) ∧ k.reader = h.reader ∧
        ∃ key rest, h.console.keys = key :: rest ∧ a = key.result := by
  have hstopped (token : Nat) : stopped h token = false := by
    rw [stopped, hunfired, Bool.and_false]
  cases call with
  | start token => exact ⟨halert, rfl⟩
  | look token =>
    simp only [step, hstopped]
    cases hkeys : h.console.keys with
    | nil =>
      simp only [Console.popKey?, hkeys]
      obtain ⟨items, hsignal⟩ := halert
      exact ⟨⟨items, hsignal, fun hne => absurd hkeys hne⟩, rfl⟩
    | cons key rest =>
      simp only [Console.popKey?, hkeys]
      exact ⟨halert, rfl, key, rest, rfl, rfl⟩
  | arm token =>
    obtain ⟨items, hsignal, hitems⟩ := halert
    simp only [step, hstopped, Bool.and_false]
    cases items with
    | nil =>
      have hkeys : h.console.keys = [] := by
        by_contra hne
        exact hitems hne rfl
      have hjoin : (h.drawTurn me).2.console.signal.join (h.drawTurn me).1 =
          (none, ⟨[], [(h.drawTurn me).1], []⟩) := by
        change h.console.signal.join _ = _
        rw [hsignal]
        rfl
      rw [hjoin]
      exact ⟨.inl ⟨rfl, hkeys⟩, rfl⟩
    | cons a items =>
      have hjoin : (h.drawTurn me).2.console.signal.join (h.drawTurn me).1 =
          (some a, ⟨items, [], []⟩) := by
        change h.console.signal.join _ = _
        rw [hsignal]
        rfl
      rw [hjoin]
      exact ⟨⟨items, rfl⟩, rfl⟩
  | listen w token =>
    simp only [step, hstopped, Bool.and_false]
    rcases halert with ⟨hsignal, hkeys⟩ | ⟨items, hsignal⟩
    · have hcollect : h.console.signal.collect? w = none := by
        rw [hsignal]
        rfl
      simp only [hcollect, Bool.false_eq_true, if_false]
      split
      · exact ⟨.inl ⟨hsignal, hkeys⟩, rfl⟩
      · exact ⟨.inl ⟨hsignal, hkeys⟩, rfl⟩
    · have hcollect : h.console.signal.collect? w = some ((), ⟨items, [], []⟩) := by
        rw [hsignal]
        simp [WaitQueue.collect?, WaitQueue.handed?]
      rw [hcollect]
      exact ⟨⟨items, rfl⟩, rfl⟩

namespace ConsoleRead

/-- A read that nobody stops goes on alone, or takes Enter and leaves the gate in place. -/
theorem step_alone {h : Host} (hunfired : ∀ x, h.tokens.isFired x = false)
    (hpresses : ∀ k ∈ h.console.keys, ∃ p, k = .press p) (me : Nat) (bias : List Bool)
    {c : ConsoleRead} (halone : c.Alone h) :
    match c.step h me bias with
    | (k, .blocked) => c.Alone k
    | (k, .next c') => c'.Alone k
    | (k, .done _) => k.reader.gate.tickets = ⟨[()], [], []⟩ ∧
        (∃ items, k.console.signal = ⟨items, [], []⟩) ∧
          ∃ p, c.takes? h = some p ∧ p.isEnter = true := by
  cases c with
  | start commandLine token =>
    simp only [step, hunfired]
    refine ⟨?_, ?_⟩
    · split
      next hleased =>
        rw [TicketGate.isLeased, halone.1] at hleased
        cases hleased
      next => exact halone.1
    · split
      · rw [Host.console_stopReader]
        exact halone.2
      · exact halone.2
  | ask commandLine token =>
    have hjoin : (h.drawTurn me).2.reader.gate.join (h.drawTurn me).1 =
        (true, { h.reader.gate with tickets := ⟨[], [], []⟩ }) := by
      change h.reader.gate.join _ = _
      rw [TicketGate.join, halone.1]
      rfl
    simp only [step, hunfired, Bool.and_false, hjoin]
    exact ⟨rfl, halone.2⟩
  | queued w commandLine token => exact halone.elim
  | opened commandLine token => exact halone
  | key call line commandLine own =>
    obtain ⟨hgate, halert⟩ := halone
    have hcall := call.step_alert hunfired me bias halert
    have htakes := call.step_takes hpresses me bias
    rcases hs : call.step h me bias with ⟨k, r⟩
    rw [hs] at hcall htakes
    simp only [step, hs]
    rcases r with _ | call' | a
    · exact ⟨by rw [hcall.2]; exact hgate, hcall.1⟩
    · exact ⟨by rw [hcall.2]; exact hgate, hcall.1⟩
    · obtain ⟨hsignal, hreader, key, rest, hkeys, rfl⟩ := hcall
      obtain ⟨p, rfl⟩ := hpresses key (by simp [hkeys])
      have htaken : call.takes? h = some p := by
        rcases htakes with ⟨-, -, hcancelled⟩ | ⟨q, rest', hq, hkeys', -⟩
        · cases hcancelled
        · rw [hkeys] at hkeys'
          cases hkeys'
          exact hq
      have hclose (k' : Host) (hgate' : k'.reader.gate.tickets = ⟨[], [], []⟩) :
          (close k').reader.gate.tickets = ⟨[()], [], []⟩ := by
        have hk := Host.keyboard_wakeWaiter
          { k'.setReading none with
            reader := { (k'.setReading none).reader with gate := k'.reader.gate.release } }
          k'.reader.gate.next?
        have hreader' : (close k').reader = { (k'.setReading none).reader with
            gate := k'.reader.gate.release } := congrArg Prod.fst hk
        rw [hreader']
        change k'.reader.gate.tickets.put () = _
        rw [hgate']
        rfl
      simp only [KeyEvent.result, Edit.accepted_ofKey]
      by_cases henter : p.isEnter = true
      · rw [if_pos henter]
        refine ⟨hclose _ ?_, ?_, p, htaken, henter⟩
        · change k.reader.gate.tickets = _
          rw [hreader, hgate]
        · rw [Host.console_close]
          exact hsignal
      · rw [if_neg henter]
        refine ⟨?_, hsignal⟩
        change k.reader.gate.tickets = _
        rw [hreader, hgate]

/-- A read is told of a key that is pressed. -/
theorem Alone.press {h : Host} {c : ConsoleRead} (hc : c.Alone h) (k : KeyEvent) :
    c.Alone (h.pushKey k) := by
  have hconsole : (h.pushKey k).console = h.console.pushKey k := Host.console_wakeWaiter _ _
  have hreader : (h.pushKey k).reader = h.reader := congrArg Prod.fst (h.keyboard_pushKey k)
  have hquiet (hsignal : ∃ items, h.console.signal = ⟨items, [], []⟩) :
      ∃ items, (h.pushKey k).console.signal = ⟨items, [], []⟩ ∧ items ≠ [] := by
    obtain ⟨items, hsignal⟩ := hsignal
    rw [hconsole, Console.pushKey, Console.raise]
    cases items with
    | nil =>
      rw [hsignal]
      exact ⟨[()], rfl, by simp⟩
    | cons a items =>
      rw [hsignal]
      exact ⟨a :: items, rfl, by simp⟩
  have hsome (hsignal : ∃ items, h.console.signal = ⟨items, [], []⟩) :
      ∃ items, (h.pushKey k).console.signal = ⟨items, [], []⟩ :=
    (hquiet hsignal).imp fun _ => And.left
  cases c with
  | start commandLine token => exact ⟨by rw [hreader]; exact hc.1, hsome hc.2⟩
  | ask commandLine token => exact ⟨by rw [hreader]; exact hc.1, hsome hc.2⟩
  | queued w commandLine token => exact hc
  | opened commandLine token => exact ⟨by rw [hreader]; exact hc.1, hsome hc.2⟩
  | key call line commandLine own =>
    obtain ⟨hgate, halert⟩ := hc
    refine ⟨by rw [hreader]; exact hgate, ?_⟩
    cases call with
    | start token => exact hsome halert
    | look token => exact hsome halert
    | arm token =>
      obtain ⟨items, hsignal, -⟩ := halert
      obtain ⟨items', hsignal', hne⟩ := hquiet ⟨items, hsignal⟩
      exact ⟨items', hsignal', fun _ => hne⟩
    | listen w token =>
      right
      rw [hconsole, Console.pushKey, Console.raise]
      rcases halert with ⟨hsignal, -⟩ | ⟨items, hsignal⟩
      · rw [hsignal]
        exact ⟨[], rfl⟩
      · cases items with
        | nil =>
          rw [hsignal]
          exact ⟨[()], rfl⟩
        | cons a items =>
          rw [hsignal]
          exact ⟨a :: items, rfl⟩

/-- No token fires in a step of a read that nobody stops. -/
theorem Alone.unfired {h : Host} {c : ConsoleRead} (hc : c.Alone h)
    (hunfired : ∀ x, h.tokens.isFired x = false) {k : Host} {r : Poll ConsoleRead Answer}
    (ht : c.Turn h (k, r)) (x : Nat) : k.tokens.isFired x = false := by
  have hlike (hl : h.tokens.Like k.tokens) : k.tokens.isFired x = false :=
    (hl.fired x).trans (hunfired x)
  cases ht with
  | refused _ htokens => rw [htokens, hunfired]
  | begun _ htokens =>
    have hfree : h.reader.gate.isLeased = false := by
      rw [TicketGate.isLeased, hc.1]
      rfl
    rw [htokens, hfree]
    exact hunfired x
  | waits _ _ _ _ hl => exact hlike hl
  | gaveUp _ _ _ _ hl => exact hlike hl
  | opens _ htokens =>
    rw [htokens, Tokens.isFired_derive]
    split
    · exact hunfired _
    · exact hunfired x
  | types _ _ _ hl => exact hlike hl
  | stops _ _ _ hl => exact hlike hl
  | accepts _ _ _ hl => exact hlike hl

/-! ### Coming to the next key -/

end ConsoleRead

def KeyCall.stage : KeyCall → Nat
  | start _ => 3
  | look _ => 1
  | arm _ => 2
  | listen .. => 2

def ConsoleRead.stage : ConsoleRead → Nat
  | start .. => 6
  | ask .. => 5
  | queued .. => 5
  | opened .. => 4
  | key call _ _ _ => call.stage

theorem KeyCall.step_stage {h : Host} (hunfired : ∀ x, h.tokens.isFired x = false) (me : Nat)
    (bias : List Bool) {call : KeyCall} (halert : call.Alert h) (hkeys : h.console.keys ≠ [])
    (hpresses : ∀ k ∈ h.console.keys, ∃ p, k = .press p) (htakes : call.takes? h = none) :
    ∃ k call', call.step h me bias = (k, .next call') ∧ call'.stage < call.stage := by
  have hstopped (token : Nat) : stopped h token = false := by
    rw [stopped, hunfired, Bool.and_false]
  cases call with
  | start token => exact ⟨_, _, rfl, by simp [stage]⟩
  | look token =>
    obtain ⟨key, rest, hcons⟩ := List.exists_cons_of_ne_nil hkeys
    obtain ⟨p, rfl⟩ := hpresses key (by simp [hcons])
    simp only [takes?, hcons, hstopped] at htakes
    cases htakes
  | arm token =>
    obtain ⟨items, hsignal, hitems⟩ := halert
    obtain ⟨a, items, rfl⟩ := List.exists_cons_of_ne_nil (hitems hkeys)
    have hjoin : (h.drawTurn me).2.console.signal.join (h.drawTurn me).1 =
        (some a, ⟨items, [], []⟩) := by
      change h.console.signal.join _ = _
      rw [hsignal]
      rfl
    simp only [step, hstopped, Bool.and_false, hjoin]
    exact ⟨_, _, rfl, by simp [stage]⟩
  | listen w token =>
    rcases halert with ⟨-, hnone⟩ | ⟨items, hsignal⟩
    · exact absurd hnone hkeys
    · have hcollect : h.console.signal.collect? w = some ((), ⟨items, [], []⟩) := by
        rw [hsignal]
        simp [WaitQueue.collect?, WaitQueue.handed?]
      simp only [step, hstopped, Bool.and_false, hcollect]
      exact ⟨_, _, rfl, by simp [stage]⟩

/-- As long as there are keys to come, a read comes closer to taking one. -/
theorem ConsoleRead.step_stage {h : Host} (hunfired : ∀ x, h.tokens.isFired x = false) (me : Nat)
    (bias : List Bool) {c : ConsoleRead} (halone : c.Alone h) (hkeys : h.console.keys ≠ [])
    (hpresses : ∀ k ∈ h.console.keys, ∃ p, k = .press p) (htakes : c.takes? h = none) :
    ∃ k c', c.step h me bias = (k, .next c') ∧ c'.stage < c.stage := by
  cases c with
  | start commandLine token =>
    simp only [step, hunfired]
    exact ⟨_, _, rfl, by simp [stage]⟩
  | ask commandLine token =>
    have hjoin : (h.drawTurn me).2.reader.gate.join (h.drawTurn me).1 =
        (true, { h.reader.gate with tickets := ⟨[], [], []⟩ }) := by
      change h.reader.gate.join _ = _
      rw [TicketGate.join, halone.1]
      rfl
    simp only [step, hunfired, Bool.and_false, hjoin]
    exact ⟨_, _, rfl, by simp [stage]⟩
  | queued w commandLine token => exact halone.elim
  | opened commandLine token => exact ⟨_, _, rfl, by simp [stage, KeyCall.stage]⟩
  | key call line commandLine own =>
    obtain ⟨k, call', hs, hlt⟩ := call.step_stage hunfired me bias halone.2 hkeys hpresses htakes
    simp only [step, hs]
    exact ⟨k, _, rfl, hlt⟩

/-! ## Events -/

namespace Host

def overlap? (h : Host) : Event → Option Nat
  | .start _ => h.tasks.head?.map Prod.fst
  | _ => none

def overlaps (h : Host) (events : List Event) : List Nat := h.during overlap? events

/-- A host whose reads come one after the other, where no token has fired. -/
structure InTurn (h : Host) : Prop where
  atReader : h.AtReader
  keyboard : h.KeyboardKept
  unfired : ∀ x, h.tokens.isFired x = false
  one : h.NoRead ∨ ∃ t c, h.OneRead t c

variable {h : Host} {t : Nat} {c : ConsoleRead}

theorem NoRead.start (hno : h.NoRead) (commandLine : Bool) (token : Nat) :
    (h.apply (.start (.line commandLine token))).OneRead h.nextTask (.start commandLine token) := by
  have hwake := (h.addTask (.line (.start commandLine token))).aside_wake h.nextTask
  have hk := keyboard_wake (h.addTask (.line (.start commandLine token))) h.nextTask
  refine ⟨hwake.tasks.trans ?_, ConsoleRead.Alone.same (h := h) ⟨?_, ?_⟩ ⟨hno.gate, hno.signal⟩⟩
  · rw [addTask, hno.tasks]
    rfl
  · exact congrArg Prod.fst hk
  · exact console_wake (h.addTask (.line (.start commandLine token))) h.nextTask

theorem NoRead.press (hno : h.NoRead) (k : KeyEvent) : (h.apply (.key k)).NoRead := by
  have hstart := ConsoleRead.Alone.press (c := .start true 0) ⟨hno.gate, hno.signal⟩ k
  exact ⟨(h.tasks_apply rfl).trans hno.tasks, hstart.1, hstart.2⟩

theorem OneRead.press (ho : h.OneRead t c) (k : KeyEvent) : (h.apply (.key k)).OneRead t c :=
  ⟨(h.tasks_apply rfl).trans ho.tasks, ho.alone.press k⟩

/-- A poll of the read takes it on, or ends it with Enter. -/
theorem OneRead.poll (ho : h.OneRead t c) (hin : h.InTurn) (bias : List Bool) :
    (∃ c', (h.apply (.poll t bias)).OneRead t c' ∧ h.ending? (.poll t bias) = none) ∨
      (h.apply (.poll t bias)).NoRead ∧ ∃ p, c.takes? h = some p ∧ p.isEnter = true := by
  have hstep := ConsoleRead.step_alone hin.unfired hin.atReader.presses t bias ho.alone
  have htasks := ((Task.line c).step_moves h t 0 bias).spawns.tasks
  rcases hs : c.step h t bias with ⟨k, r⟩
  have htask : (Task.line c).step h t bias = (k, r.map .line .line) := by simp only [Task.step, hs]
  rw [hs] at hstep
  rw [htask] at htasks
  have hk : k.tasks = [(t, .line c)] := htasks.trans ho.tasks
  rw [apply_poll ho.task? htask, ending?, ho.task?, Option.bind_some, htask]
  rcases r with _ | c' | a
  · exact .inl ⟨c, ⟨hk, hstep⟩, rfl⟩
  · refine .inl ⟨c', ⟨?_, ConsoleRead.Alone.same ⟨rfl, rfl⟩ hstep⟩, rfl⟩
    simp only [Poll.map, afterPoll, setTask, hk, List.map_cons, if_true, List.map_nil]
  · obtain ⟨hgate, hsignal, p, htakes, henter⟩ := hstep
    refine .inr ⟨⟨?_, hgate, hsignal⟩, p, htakes, henter⟩
    simp [Poll.map, afterPoll, finishTask, removeTask, hk]

theorem apply_poll_of_none (bias : List Bool) (ht : h.task? t = none) :
    h.apply (.poll t bias) = h := by
  simp only [apply, stepTask, ht]

namespace InTurn

/-- There is no read but one. -/
theorem oneRead (hin : h.InTurn) {task : Task} (ht : h.task? t = some task) :
    ∃ c, task = .line c ∧ h.OneRead t c := by
  rcases hin.one with hno | ⟨u, c, ho⟩
  · rw [task?, hno.tasks] at ht
    cases ht
  · obtain rfl := ho.eq ht
    exact ⟨c, Option.some.inj (ht.symm.trans ho.task?), ho⟩

theorem apply (hin : h.InTurn) (hk : h.WellKept) {n : Nat} {e : Event} (he : e.inTurn n = true)
    (hone : h.overlap? e = none) : (h.apply e).InTurn where
  atReader := hin.atReader.apply hk (Event.atReader_of_inTurn he)
  keyboard := hin.keyboard.apply hk.numbered e
  unfired x := by
    cases hin.atReader.turn hin.keyboard hk.numbered (Event.atReader_of_inTurn he) with
    | line t bias c k r hpoll hread hs hturn htokens =>
      obtain ⟨c', hc', ho⟩ := hin.oneRead hread
      cases hc'
      rw [htokens]
      exact ho.alone.unfired hin.unfired hturn x
    | aborted t bias hpoll htask =>
      obtain ⟨c', hc', -⟩ := hin.oneRead htask
      cases hc'
    | fired token hfire =>
      subst hfire
      cases he
    | dropped t c hdrop =>
      subst hdrop
      cases he
    | started _ _ _ htokens => rw [htokens, hin.unfired]
    | quiet htokens => rw [htokens, hin.unfired]
  one := by
    cases e with
    | poll t bias =>
      cases ht : h.task? t with
      | none =>
        rw [apply_poll_of_none bias ht]
        exact hin.one
      | some task =>
        obtain ⟨c, -, ho⟩ := hin.oneRead ht
        rcases ho.poll hin bias with ⟨c', ho', -⟩ | ⟨hno, -⟩
        · exact .inr ⟨t, c', ho'⟩
        · exact .inl hno
    | start call =>
      cases call with
      | line commandLine token =>
        rcases hin.one with hno | ⟨t, c, ho⟩
        · exact .inr ⟨_, _, hno.start commandLine token⟩
        · rw [overlap?, ho.tasks] at hone
          cases hone
      | _ => cases he
    | key k =>
      rcases hin.one with hno | ⟨t, c, ho⟩
      · exact .inl (hno.press k)
      · exact .inr ⟨t, c, ho.press k⟩
    | _ => cases he

theorem overlaps_concat (start : Host) (past : List Event) (e : Event) :
    start.overlaps (past ++ [e]) = [] ↔
      start.overlaps past = [] ∧ (start.run past).overlap? e = none := by
  rw [overlaps, during_concat, List.append_eq_nil_iff, Option.toList_eq_nil_iff]
  rfl

theorem reading {n : Nat} {cursor : Cursor} {past : List Event}
    (hpast : ∀ e ∈ past, e.inTurn n = true)
    (hone : (reading n cursor).overlaps past = []) : ((Host.reading n cursor).run past).InTurn := by
  have hk := wellKept_reading n cursor
  induction past using List.reverseRecOn with
  | nil =>
    exact ⟨.reading n cursor, keyboardKept_reading n cursor,
      ReaderKept.isFired_callersTokens n, .inl ⟨rfl, rfl, [], rfl⟩⟩
  | append_singleton past e ih =>
    obtain ⟨hbefore, hnone⟩ := (overlaps_concat _ past e).1 hone
    rw [run_concat]
    exact (ih (fun e' he' => hpast e' (List.mem_append_left _ he')) hbefore).apply (hk.run past)
      (hpast e (List.mem_append_right _ (List.mem_singleton_self e))) hnone

end InTurn

end Host

end SharedPrompt
