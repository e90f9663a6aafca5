import SharedPrompt.Proofs.Keystrokes
import SharedPrompt.Proofs.StoppedReads

/-!
# Turns at the reader

What a step of a read from the console does to the tokens and to what the reader names as the read in
progress. A read that takes keys under a token of its own ends when that token fires or a line is
accepted, and the reader names no read from then on until another one begins to take keys.
-/

namespace SharedPrompt

/-! ## Tokens in which nothing fires -/

namespace Tokens

structure Like (ts ts' : Tokens) : Prop where
  fired : ∀ x, ts'.isFired x = ts.isFired x
  derived : ∀ x, ts'.derivedOf x = ts.derivedOf x
  length : ts'.all.length = ts.all.length

namespace Like

theorem refl (ts : Tokens) : ts.Like ts := ⟨fun _ => rfl, fun _ => rfl, rfl⟩

theorem await (ts : Tokens) (id task : Nat) : ts.Like (ts.await id task) :=
  ⟨ts.isFired_await id task, ts.derivedOf_await id task, ts.length_modify id _⟩

theorem forget (ts : Tokens) (id task : Nat) : ts.Like (ts.forget id task) :=
  ⟨ts.isFired_forget id task, ts.derivedOf_forget id task, ts.length_modify id _⟩

end Like

end Tokens

namespace Host

variable (h : Host)

@[simp] theorem tokens_wakeWaiter (w : Option Waiter) : (h.wakeWaiter w).tokens = h.tokens :=
  (h.atGates_wakeWaiter w).same Host.tokens fun _ _ _ => rfl

@[simp] theorem tokens_releaseReader : h.releaseReader.tokens = h.tokens := tokens_wakeWaiter _ _

@[simp] theorem tokens_leaveReader (w : Waiter) : (h.leaveReader w).tokens = h.tokens :=
  tokens_wakeWaiter _ _

@[simp] theorem tokens_ignoreSignal (w : Waiter) : (h.ignoreSignal w).tokens = h.tokens :=
  tokens_wakeWaiter _ _

@[simp] theorem tokens_close : (ConsoleRead.close h).tokens = h.tokens :=
  (h.setReading none).tokens_releaseReader

theorem like_forgetToken {h k : Host} (hk : k.tokens = h.tokens) (token me : Nat) :
    h.tokens.Like (k.forgetToken token me).tokens := by
  rw [forgetToken, hk]
  exact .forget _ _ _

theorem active_close : (ConsoleRead.close h).reader.active = none :=
  (ConsoleRead.size_releaseReader (h.setReading none)).2.1

theorem active_eq {h k : Host} (hk : k.keyboard = h.keyboard) :
    k.reader.active = h.reader.active :=
  congrArg LineReader.active (congrArg Prod.fst hk)

end Host

/-! ## A step of a read -/

/-- The read of a key goes on, or is stopped by its token, or comes to a key. -/
theorem KeyCall.step_tokens {h : Host} (me : Nat) (bias : List Bool) (call : KeyCall) :
    h.tokens.Like (call.step h me bias).1.tokens ∧
      (call.step h me bias).2.Meets (fun _ => True) fun a =>
        a = .error .cancelled ∧ h.tokens.isFired call.token = true ∨
          ∃ k rest, h.console.keys = k :: rest ∧ a = k.result := by
  have hfired {token : Nat} (hstopped : stopped h token = true) :
      h.tokens.isFired token = true := (Bool.and_eq_true_iff.1 hstopped).2
  cases call with
  | start token => exact ⟨.refl _, trivial⟩
  | look token =>
    simp only [step]
    split
    next hstopped => exact ⟨.refl _, .inl ⟨rfl, hfired hstopped⟩⟩
    next =>
      cases hkeys : h.console.keys with
      | nil =>
        simp only [Console.popKey?, hkeys]
        exact ⟨.refl _, trivial⟩
      | cons k rest =>
        simp only [Console.popKey?, hkeys]
        exact ⟨.refl _, .inr ⟨k, rest, rfl, rfl⟩⟩
  | arm token =>
    simp only [step]
    split
    next hstopped => exact ⟨.refl _, .inl ⟨rfl, hfired (Bool.and_eq_true_iff.1 hstopped).2⟩⟩
    next => exact ⟨.refl _, trivial⟩
  | listen w token =>
    have hgive := Host.like_forgetToken (h.tokens_ignoreSignal w) token me
    simp only [step]
    split
    next hstopped => exact ⟨hgive, .inl ⟨rfl, hfired (Bool.and_eq_true_iff.1 hstopped).2⟩⟩
    next =>
      split
      · exact ⟨.forget _ _ _, trivial⟩
      · split
        next hstopped => exact ⟨hgive, .inl ⟨rfl, hfired hstopped⟩⟩
        next =>
          refine ⟨?_, trivial⟩
          dsimp only
          split
          · exact .refl _
          · exact .await _ _ _

namespace ConsoleRead

inductive Turn (h : Host) : ConsoleRead → Host × Poll ConsoleRead Answer → Prop where
  /-- The caller's token had fired before the read began. -/
  | refused {commandLine : Bool} {token : Nat} {k : Host}
      (hfired : h.tokens.isFired token = true) (htokens : k.tokens = h.tokens)
      (hactive : k.reader.active = h.reader.active) :
      Turn h (start commandLine token) (k, .done (.error .cancelled))
  | begun {commandLine : Bool} {token : Nat} {k : Host} (hfired : h.tokens.isFired token = false)
      (htokens : k.tokens =
        (if h.reader.gate.isLeased then h.stopReader else h).tokens)
      (hactive : k.reader.active = h.reader.active) :
      Turn h (start commandLine token) (k, .next (ask commandLine token))
  | waits {c c' : ConsoleRead} {k : Host} {r : Poll ConsoleRead Answer}
      (hstart : ∀ commandLine token, c ≠ start commandLine token) (hkeys : c.keys? = none)
      (hkeys' : c'.keys? = none) (hgoes : c.GoesOn c') (htokens : h.tokens.Like k.tokens)
      (hactive : k.reader.active = h.reader.active) (hr : c.after r = some c')
      (hdone : ∀ a, r ≠ .done a) : Turn h c (k, r)
  /-- The caller's token has fired while the read waited for the gate. -/
  | gaveUp {c : ConsoleRead} {token : Nat} {k : Host}
      (hstart : ∀ commandLine token, c ≠ start commandLine token) (hkeys : c.keys? = none)
      (hcaller : token ∈ c.caller?) (hfired : h.tokens.isFired token = true)
      (htokens : h.tokens.Like k.tokens) (hactive : k.reader.active = h.reader.active) :
      Turn h c (k, .done (.ok ""))
  | opens {commandLine : Bool} {token own : Nat} {k : Host} (hown : own = h.tokens.all.length)
      (htokens : k.tokens = (h.tokens.derive token).2) (hactive : k.reader.active = some own) :
      Turn h (opened commandLine token) (k, .next (key (.start own) [] commandLine own))
  | types {c c' : ConsoleRead} {own : Nat} {k : Host} {r : Poll ConsoleRead Answer}
      (hkeys : c.keys? = some own) (hkeys' : c'.keys? = some own)
      (hmode : c'.isCommandLine = c.isCommandLine) (htokens : h.tokens.Like k.tokens)
      (hactive : k.reader.active = h.reader.active) (hr : c.after r = some c')
      (hdone : ∀ a, r ≠ .done a) : Turn h c (k, r)
  /-- The read's own token has fired. -/
  | stops {c : ConsoleRead} {own : Nat} {k : Host} (hkeys : c.keys? = some own)
      (htakes : c.takes? h = none) (hfired : h.tokens.isFired own = true) (htokens : h.tokens.Like k.tokens)
      (hactive : k.reader.active = none) : Turn h c (k, .done (.ok ""))
  | accepts {c : ConsoleRead} {own : Nat} {p : KeyPress} {k : Host} (hkeys : c.keys? = some own)
      (htakes : c.takes? h = some p) (henter : p.isEnter = true)
      (htokens : h.tokens.Like k.tokens) (hactive : k.reader.active = none) :
      Turn h c (k, .done (.ok (String.ofList c.text)))

variable {h : Host} (me : Nat) (bias : List Bool)

theorem turn_ask (commandLine : Bool) (token : Nat) :
    Turn h (ask commandLine token) ((ask commandLine token).step h me bias) := by
  have hstart : ∀ commandLine' token', ask commandLine token ≠ start commandLine' token' :=
    fun _ _ hc => by cases hc
  simp only [step]
  split
  next hfired =>
    exact .gaveUp hstart rfl rfl (Bool.and_eq_true_iff.1 hfired).2 (.refl _) rfl
  next =>
    refine @Turn.waits _ _ (if _ then opened commandLine token else queued _ commandLine token) _ _
      hstart rfl ?_ ?_ (.refl _) rfl rfl fun _ hdone => by cases hdone
    · split <;> rfl
    · split <;> exact ⟨rfl, rfl, fun _ => id, Nat.zero_le _⟩

theorem turn_queued (w : Waiter) (commandLine : Bool) (token : Nat) :
    Turn h (queued w commandLine token) ((queued w commandLine token).step h me bias) := by
  have hstart : ∀ commandLine' token', queued w commandLine token ≠ start commandLine' token' :=
    fun _ _ hc => by cases hc
  have hgive : h.tokens.Like ((h.forgetToken token me).leaveReader w).tokens := by
    rw [Host.tokens_leaveReader]
    exact .forget _ _ _
  have hsame : ((h.forgetToken token me).leaveReader w).reader.active = h.reader.active :=
    (size_leaveReader (h.forgetToken token me) w).2.1
  simp only [step, Host.orFired]
  split
  next hfired =>
    exact .gaveUp hstart rfl rfl (Bool.and_eq_true_iff.1 hfired).2 hgive hsame
  next =>
    cases h.reader.gate.collect? w with
    | some gate =>
      exact @Turn.waits _ _ (opened commandLine token) _ _ hstart rfl rfl
        ⟨rfl, rfl, fun _ => id, Nat.zero_le _⟩ (.forget _ _ _) rfl rfl fun _ hdone => by cases hdone
    | none =>
      dsimp only
      split
      next hfired => exact .gaveUp hstart rfl rfl hfired hgive hsame
      next =>
        exact .waits hstart rfl rfl (.refl _) (.await _ _ _) rfl rfl fun _ hdone => by cases hdone

theorem turn_key (hpresses : ∀ k ∈ h.console.keys, ∃ p, k = .press p) {call : KeyCall}
    {line : List Char} {commandLine : Bool} {own : Nat} (hattuned : call.token = own) :
    Turn h (key call line commandLine own) ((key call line commandLine own).step h me bias) := by
  obtain ⟨hlike, hmeets⟩ := call.step_tokens (h := h) me bias
  have hkeyboard := call.keyboard_step h me bias
  rcases call.step_takes hpresses me bias with ⟨htakes, -, hcancelled⟩ | ⟨p, rest, htakes, hkeys, hs⟩
  · rcases hs : call.step h me bias with ⟨k, r⟩
    rw [hs] at hlike hmeets hkeyboard hcancelled
    simp only [step, hs]
    have hactive := Host.active_eq hkeyboard
    rcases r with _ | call' | a
    · exact .types rfl rfl rfl hlike hactive rfl fun _ hdone => by cases hdone
    · exact @Turn.types _ _ (key call' line commandLine own) _ _ _ rfl rfl rfl hlike hactive rfl
        fun _ hdone => by cases hdone
    · obtain rfl : a = .error .cancelled := hcancelled
      rcases hmeets with ⟨-, hfired⟩ | ⟨key, rest, hkeys, hresult⟩
      · rw [hattuned] at hfired
        refine .stops rfl htakes hfired ?_ (Host.active_close k)
        rw [Host.tokens_close]
        exact hlike
      · obtain ⟨p, rfl⟩ := hpresses key (by simp [hkeys])
        cases hresult
  · simp only [step, hs, Edit.accepted_ofKey]
    by_cases henter : p.isEnter = true
    · rw [if_pos henter, Edit.line_ofKey, KeyPress.edit_of_isEnter henter]
      refine .accepts rfl htakes henter ?_ (Host.active_close _)
      rw [Host.tokens_close]
      exact .refl _
    · rw [if_neg henter]
      exact @Turn.types _ _ (key (.start own) (Edit.ofKey commandLine line p).line commandLine own)
        _ _ _ rfl rfl rfl (.refl _) rfl rfl fun _ hdone => by cases hdone

theorem turn (hpresses : ∀ k ∈ h.console.keys, ∃ p, k = .press p) {c : ConsoleRead}
    (hattuned : c.Attuned) : Turn h c (c.step h me bias) := by
  cases c with
  | start commandLine token =>
    simp only [step]
    split
    next hfired => exact .refused hfired rfl rfl
    next hfired =>
      refine .begun (by simpa using hfired) rfl ?_
      split
      · exact Host.active_eq h.keyboard_stopReader
      · rfl
  | ask commandLine token => exact turn_ask me bias commandLine token
  | queued w commandLine token => exact turn_queued me bias w commandLine token
  | opened commandLine token => exact .opens (h.tokens.derive_fst token) rfl rfl
  | key call line commandLine own => exact turn_key me bias hpresses hattuned

/-- A read that is given up fires no token, and is not named any more. -/
theorem abandon_turn (c : ConsoleRead) : h.tokens.Like (c.abandon h me).tokens ∧
    (c.abandon h me).reader.active = if c.keys?.isSome then none else h.reader.active := by
  cases c with
  | start commandLine token => exact ⟨.refl _, rfl⟩
  | ask commandLine token => exact ⟨.refl _, rfl⟩
  | queued w commandLine token =>
    exact ⟨Host.like_forgetToken (h.tokens_leaveReader w) token me, (size_leaveReader h w).2.1⟩
  | opened commandLine token =>
    refine ⟨?_, (size_releaseReader h).2.1⟩
    rw [abandon, h.tokens_releaseReader]
    exact .refl _
  | key call line commandLine own =>
    refine ⟨?_, Host.active_close _⟩
    rw [abandon, Host.tokens_close]
    cases call with
    | listen w token => exact Host.like_forgetToken (h.tokens_ignoreSignal w) token me
    | _ => exact .refl _

end ConsoleRead

/-! ## Events -/

namespace Host

/-- In an event somebody aborts the read in progress: an abort has its turn, or a read that begins
finds the gate taken. -/
def aborts (h : Host) : Event → Bool
  | .poll t _ =>
    match h.task? t with
    | some (.abort .start) => true
    | some (.line (.start _ token)) => !h.tokens.isFired token && h.reader.gate.isLeased
    | _ => false
  | _ => false

inductive ReaderTurn (h : Host) (e : Event) (h' : Host) : Prop where
  | line (t : Nat) (bias : List Bool) (c : ConsoleRead) (k : Host)
      (r : Poll ConsoleRead ConsoleRead.Answer) (he : e = .poll t bias)
      (hread : h.task? t = some (.line c)) (hs : c.step h t bias = (k, r)) (hturn : c.Turn h (k, r))
      (htokens : h'.tokens = k.tokens) (hactive : h'.reader.active = k.reader.active)
      (hself : h'.consoleOf? t = c.after r)
      (hothers : ∀ u, u ≠ t → h'.consoleOf? u = h.consoleOf? u)
  | aborted (t : Nat) (bias : List Bool) (he : e = .poll t bias)
      (htask : h.task? t = some (.abort .start)) (htokens : h'.tokens = h.stopReader.tokens)
      (hactive : h'.reader.active = h.reader.active)
      (hreads : ∀ u, h'.consoleOf? u = h.consoleOf? u)
  | fired (token : Nat) (he : e = .fire token) (htokens : h'.tokens = (h.tokens.fire token).1)
      (hactive : h'.reader.active = h.reader.active)
      (hreads : ∀ u, h'.consoleOf? u = h.consoleOf? u)
  | dropped (t : Nat) (c : ConsoleRead) (he : e = .drop t) (hread : h.consoleOf? t = some c)
      (htokens : h.tokens.Like h'.tokens)
      (hactive : h'.reader.active = if c.keys?.isSome then none else h.reader.active)
      (hself : h'.consoleOf? t = none) (hothers : ∀ u, u ≠ t → h'.consoleOf? u = h.consoleOf? u)
  | started (commandLine : Bool) (token : Nat) (he : e = .start (.line commandLine token))
      (htokens : h'.tokens = h.tokens) (hactive : h'.reader.active = h.reader.active)
      (hnew : h.consoleOf? h.nextTask = none)
      (hself : h'.consoleOf? h.nextTask = some (.start commandLine token))
      (hothers : ∀ u, u ≠ h.nextTask → h'.consoleOf? u = h.consoleOf? u)
  | quiet (htokens : h'.tokens = h.tokens) (hactive : h'.reader.active = h.reader.active)
      (hreads : ∀ u, h'.consoleOf? u = h.consoleOf? u) (haborts : h.aborts e = false)
      (hends : ∀ t r, h.ending? e ≠ some (t, .line r)) (hfire : ∀ token, e ≠ .fire token)

variable {h : Host}

/-- Without a poll, no read is aborted and none ends. -/
theorem ReaderTurn.unpolled {e : Event} {h' : Host} (htokens : h'.tokens = h.tokens)
    (hactive : h'.reader.active = h.reader.active) (hreads : ∀ u, h'.consoleOf? u = h.consoleOf? u)
    (hpoll : ∀ t bias, e ≠ .poll t bias) (hfire : ∀ token, e ≠ .fire token) :
    h.ReaderTurn e h' := by
  refine .quiet htokens hactive hreads ?_ (fun t r hends => ?_) hfire
  · cases e with
    | poll t bias => exact absurd rfl (hpoll t bias)
    | _ => rfl
  · cases e with
    | poll t bias => exact hpoll t bias rfl
    | _ => cases hends

/-- A call that waits for the end of a read does nothing else at the reader. -/
theorem AtReader.exit_step (ho : h.AtReader) {t : Nat} {call : ExitCall}
    (ht : h.task? t = some (.exit call)) :
    (call.step h t).1.tokens = h.tokens ∧ (call.step h t).1.reader.active = h.reader.active := by
  have hcall := ho.tasks t _ ht
  have hactive := (call.typing h t).active rfl
  refine ⟨?_, hactive⟩
  cases call with
  | start =>
    simp only [ExitCall.step, ho.native, Bool.false_eq_true, if_false]
    split
    · exact tokens_releaseReader _
    · rfl
  | leasing lease => cases hcall
  | queued w =>
    simp only [ExitCall.step]
    split
    · exact tokens_releaseReader _
    · rfl

theorem AtReader.exit_abandon (ho : h.AtReader) {t : Nat} {call : ExitCall}
    (ht : h.task? t = some (.exit call)) :
    (call.abandon h).tokens = h.tokens ∧ (call.abandon h).reader.active = h.reader.active := by
  have hcall := ho.tasks t _ ht
  refine ⟨?_, (call.typing_abandon h).active rfl⟩
  cases call with
  | start => rfl
  | leasing lease => cases hcall
  | queued w => exact h.tokens_leaveReader w

/-- What an event comes to in which a read has its turn. -/
theorem ending?_line {t : Nat} {bias : List Bool} {c : ConsoleRead} {k : Host}
    {r : Poll ConsoleRead ConsoleRead.Answer} (ht : h.task? t = some (.line c))
    (hs : c.step h t bias = (k, r)) {u : Nat} {a : ConsoleRead.Answer}
    (hends : h.ending? (.poll t bias) = some (u, .line a)) : u = t ∧ r = .done a := by
  have hstep : (Task.line c).step h t bias = (k, r.map .line .line) := by simp only [Task.step, hs]
  rw [ending?, ht, Option.bind_some, hstep] at hends
  cases r with
  | done a' =>
    cases hends
    exact ⟨rfl, rfl⟩
  | _ => cases hends

theorem afterPoll_reader (k : Host) (t : Nat) (r : Poll Task TaskResult) :
    (k.afterPoll t r).tokens = k.tokens ∧ (k.afterPoll t r).reader = k.reader := by
  rcases r with _ | _ | (_ | _ | _ | _ | _) <;> exact ⟨rfl, rfl⟩

theorem AtReader.turn_poll (ho : h.AtReader) (hkeys : h.KeyboardKept) {t : Nat} (bias : List Bool)
    {task : Task} (ht : h.task? t = some task) :
    h.ReaderTurn (.poll t bias) (h.apply (.poll t bias)) := by
  have htask := ho.tasks t task ht
  have hothers := (keyboardTurn_poll bias ht).others
  -- A task that is no read, before and after its step.
  have hnoread {k : Host} {r : Poll Task TaskResult} (hs : task.step h t bias = (k, r))
      (hnone : task.console? = none) (hr : r.Meets (fun task' => task'.console? = none) fun _ => True)
      (u : Nat) : (h.apply (.poll t bias)).consoleOf? u = h.consoleOf? u := by
    by_cases hu : u = t
    · subst hu
      rw [consoleOf?_poll ht hs, Host.consoleOf?, ht]
      cases r with
      | next task' => exact hr.trans hnone.symm
      | blocked => rfl
      | done a => exact hnone.symm
    · exact hothers u hu
  cases task with
  | line c =>
    rcases hs : c.step h t bias with ⟨k, r⟩
    have hstep : (Task.line c).step h t bias = (k, r.map .line .line) := by
      simp only [Task.step, hs]
    have hc : h.consoleOf? t = some c := by rw [Host.consoleOf?, ht]; rfl
    have hturn := ConsoleRead.turn (h := h) t bias ho.presses (hkeys.attuned t c hc)
    rw [hs] at hturn
    obtain ⟨htokens, hreader⟩ := k.afterPoll_reader t (r.map Task.line TaskResult.line)
    rw [← apply_poll ht hstep] at htokens hreader
    refine .line t bias c k r rfl ht hs hturn htokens (congrArg LineReader.active hreader) ?_ hothers
    rw [consoleOf?_poll ht hstep]
    cases r <;> rfl
  | abort call =>
    cases call with
    | start =>
      have hs : (Task.abort .start).step h t bias = (h.stopReader, .done .done) := by
        simp only [Task.step, AbortCall.step_start ho.native]
        rfl
      refine .aborted t bias rfl ht ?_ ?_ (hnoread hs rfl trivial)
      · rw [apply_poll ht hs]
        rfl
      · rw [apply_poll ht hs]
        exact active_eq h.keyboard_stopReader
    | _ => cases htask
  | exit call =>
    rcases hs : call.step h t with ⟨k, r⟩
    have hstep : (Task.exit call).step h t bias = (k, r.map .exit fun _ => .done) := by
      simp only [Task.step, hs]
    obtain ⟨htokens, hactive⟩ := ho.exit_step ht
    rw [hs] at htokens hactive
    obtain ⟨hafter, hreader⟩ := k.afterPoll_reader t (r.map Task.exit fun _ => TaskResult.done)
    rw [← apply_poll ht hstep] at hafter hreader
    refine .quiet (hafter.trans htokens) ((congrArg LineReader.active hreader).trans hactive)
      (hnoread hstep rfl ?_) ?_ (fun u a hends => ?_) fun _ hc => by cases hc
    · cases r <;> trivial
    · rw [aborts, ht]
    · rw [ending?, ht, Option.bind_some, hstep] at hends
      cases r <;> cases hends
  | _ => cases htask

theorem AtReader.turn (ho : h.AtReader) (hkeys : h.KeyboardKept) (hn : h.Numbered) {n : Nat}
    {e : Event} (he : e.atReader n = true) : h.ReaderTurn e (h.apply e) := by
  have hsame (hoff : e.ofTask = false) (t : Nat) : (h.apply e).consoleOf? t = h.consoleOf? t := by
    rw [Host.consoleOf?, Host.consoleOf?, task?, task?, h.tasks_apply hoff]
  cases e with
  | poll t bias =>
    cases ht : h.task? t with
    | none =>
      have happly : h.apply (.poll t bias) = h := by simp only [Host.apply, stepTask, ht]
      rw [happly]
      refine .quiet rfl rfl (fun _ => rfl) ?_ (fun u r hends => ?_) fun _ hc => by cases hc
      · rw [aborts, ht]
      · rw [ending?, ht] at hends
        cases hends
    | some task => exact ho.turn_poll hkeys bias ht
  | drop t =>
    cases ht : h.task? t with
    | none =>
      have happly : h.apply (.drop t) = h := by simp only [Host.apply, dropTask, ht]
      rw [happly]
      exact .unpolled rfl rfl (fun _ => rfl) (fun _ _ hc => by cases hc) fun _ hc => by cases hc
    | some task =>
      have htask := ho.tasks t task ht
      have hothers := (keyboardTurn_drop ht).others
      have hnoread (hnone : task.console? = none) (u : Nat) :
          (h.apply (.drop t)).consoleOf? u = h.consoleOf? u := by
        by_cases hu : u = t
        · subst hu
          rw [consoleOf?_drop ht, Host.consoleOf?, ht]
          exact hnone.symm
        · exact hothers u hu
      cases task with
      | line c =>
        have hc : h.consoleOf? t = some c := by rw [Host.consoleOf?, ht]; rfl
        obtain ⟨htokens, hactive⟩ := c.abandon_turn (h := h) t
        refine .dropped t c rfl hc ?_ ?_ (consoleOf?_drop ht) hothers
        · rw [apply_drop ht]
          exact htokens
        · rw [apply_drop ht]
          exact hactive
      | abort call =>
        cases call with
        | start =>
          refine .unpolled ?_ ?_ (hnoread rfl) (fun _ _ hc => by cases hc) fun _ hc => by cases hc
          · rw [apply_drop ht]
            rfl
          · rw [apply_drop ht]
            rfl
        | _ => cases htask
      | exit call =>
        obtain ⟨htokens, hactive⟩ := ho.exit_abandon ht
        refine .unpolled ?_ ?_ (hnoread rfl) (fun _ _ hc => by cases hc) fun _ hc => by cases hc
        · rw [apply_drop ht]
          exact htokens
        · rw [apply_drop ht]
          exact hactive
      | _ => cases htask
  | start call =>
    have hk := keyboard_wake (h.addTask call.task) h.nextTask
    have htokens : ((h.addTask call.task).wake h.nextTask).tokens = h.tokens :=
      ((h.addTask call.task).atGates_wake h.nextTask).same Host.tokens fun _ _ _ => rfl
    have hothers := (keyboardTurn_start hn call).others
    have htask : (h.apply (.start call)).task? h.nextTask = some call.task := by
      have hwake := (h.addTask call.task).aside_wake h.nextTask
      change ((h.addTask call.task).wake h.nextTask).task? h.nextTask = _
      rw [task?, hwake.tasks, ← task?, task?_addTask_self hn]
    have hnoread (hnone : call.task.console? = none) (u : Nat) :
        (h.apply (.start call)).consoleOf? u = h.consoleOf? u := by
      by_cases hu : u = h.nextTask
      · subst hu
        rw [Host.consoleOf?, htask, Option.bind_some, hnone, Host.consoleOf?, task?_nextTask hn]
        rfl
      · exact hothers u hu
    cases call with
    | line commandLine token =>
      refine .started commandLine token rfl htokens (active_eq hk) ?_ ?_ hothers
      · rw [Host.consoleOf?, task?_nextTask hn]
        rfl
      · rw [Host.consoleOf?, htask]
        rfl
    | abort =>
      exact .unpolled htokens (active_eq hk) (hnoread rfl) (fun _ _ hc => by cases hc)
        fun _ hc => by cases hc
    | exit =>
      exact .unpolled htokens (active_eq hk) (hnoread rfl) (fun _ _ hc => by cases hc)
        fun _ hc => by cases hc
    | _ => cases he
  | fire token =>
    exact .fired token rfl (h.tokens_fireToken token) (active_eq (h.keyboard_fireToken token))
      (hsame rfl)
  | key k =>
    refine .unpolled ?_ (active_eq (h.keyboard_pushKey k)) (hsame rfl) (fun _ _ hc => by cases hc)
      fun _ hc => by cases hc
    exact tokens_wakeWaiter _ _
  | _ => cases he

end Host

end SharedPrompt
