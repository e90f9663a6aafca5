import SharedPrompt.Proofs.EnteredReads
import SharedPrompt.Proofs.OffKeyboard

/-!
# The gate of the console's reader

The reader's gate has one ticket, and a read that takes keys holds it. So one read at a time takes
keys, it is the one that the reader names as in progress, and whoever else comes by the ticket sees
that nobody takes keys.
-/

namespace SharedPrompt

/-! ## One gate -/

namespace TicketGate

variable {ω : Type}

/-- Joining takes the ticket, or leaves the tickets as they are. -/
theorem size_join (g : TicketGate ω) (w : ω) :
    (g.join w).2.size + (if (g.join w).1 then 1 else 0) = g.size := by
  rcases g.tickets.join_cases w with ⟨a, rest, hitems, hj⟩ | ⟨hitems, hj⟩
  · simp only [join, hj, size, WaitQueue.size, hitems, Option.isSome_some, if_true,
      List.length_cons]
    omega
  · simp [join, hj, size, WaitQueue.size]

variable [DecidableEq ω]

theorem size_collect {g g' : TicketGate ω} {w : ω} (hc : g.collect? w = some g') :
    g'.size + 1 = g.size := by
  obtain ⟨⟨a, q⟩, hq, rfl⟩ := Option.map_eq_some_iff.1 hc
  exact WaitQueue.size_collect hq

@[simp] theorem size_leave (g : TicketGate ω) (w : ω) : (g.leave w).size = g.size :=
  WaitQueue.size_leave _ w

end TicketGate

/-! ## Reads from the console -/

def KeyCall.token : KeyCall → Nat
  | start token => token
  | look token => token
  | arm token => token
  | listen _ token => token

namespace ConsoleRead

def tickets : ConsoleRead → Nat
  | opened .. => 1
  | key .. => 1
  | _ => 0

def keys? : ConsoleRead → Option Nat
  | key _ _ _ own => some own
  | _ => none

/-- Each key is read under the token of the whole line. -/
def Attuned : ConsoleRead → Prop
  | key call _ _ own => call.token = own
  | _ => True

theorem tickets_of_keys {c : ConsoleRead} {own : Nat} (hc : c.keys? = some own) :
    c.tickets = 1 := by
  cases c with
  | key call line commandLine own' => rfl
  | _ => cases hc

end ConsoleRead

def ReadCall.console? : ReadCall → Option ConsoleRead
  | console call => some call
  | _ => none

theorem ReadCall.eq_console {call : ReadCall} {c : ConsoleRead} (hc : call.console? = some c) :
    call = .console c := by
  cases call with
  | console call => rw [Option.some.inj hc]
  | _ => cases hc

def Task.console? : Task → Option ConsoleRead
  | read call => call.console?
  | line call => some call
  | _ => none

def ticketsOf (c : Option ConsoleRead) : Nat := c.elim 0 ConsoleRead.tickets

/-- What a step does at the keyboard, when the task that takes it has `before` under way and then
`after`. -/
structure Typing (h k : Host) (before after : Option ConsoleRead) : Prop where
  gate : k.reader.gate.size + ticketsOf after = h.reader.gate.size + ticketsOf before
  deaf : k.console.deaf = h.console.deaf
  active : ticketsOf before = 0 → k.reader.active = h.reader.active
  keys : ∀ own, after.bind ConsoleRead.keys? = some own →
    before.bind ConsoleRead.keys? = some own ∧ k.reader.active = h.reader.active ∨
      k.reader.active = some own ∧ own = h.tokens.all.length ∧ own < k.tokens.all.length
  attuned : (∀ c ∈ before, c.Attuned) → ∀ c ∈ after, c.Attuned

namespace Typing

variable {h k : Host}

theorem of_keyboard (hk : k.keyboard = h.keyboard) (c : Option ConsoleRead) : Typing h k c c where
  gate := by rw [show k.reader = h.reader from congrArg Prod.fst hk]
  deaf := congrArg Prod.snd hk
  active _ := by rw [show k.reader = h.reader from congrArg Prod.fst hk]
  keys own ho := .inl ⟨ho, by rw [show k.reader = h.reader from congrArg Prod.fst hk]⟩
  attuned hc := hc

/-- A read that has just begun has no part in what goes on at the keyboard. -/
theorem start (hk : k.keyboard = h.keyboard) (commandLine : Bool) (token : Nat) :
    Typing h k none (some (.start commandLine token)) where
  gate := by rw [show k.reader = h.reader from congrArg Prod.fst hk]; rfl
  deaf := congrArg Prod.snd hk
  active _ := by rw [show k.reader = h.reader from congrArg Prod.fst hk]
  keys own ho := by cases ho
  attuned _ c hc := by
    cases hc
    trivial

end Typing

theorem KeyCall.token_step {h k : Host} {me : Nat} {bias : List Bool} {call call' : KeyCall}
    (hs : call.step h me bias = (k, .next call')) : call'.token = call.token := by
  cases call with
  | start token => cases hs; rfl
  | look token =>
    simp only [step] at hs
    split at hs
    · cases hs
    · split at hs <;> cases hs
      rfl
  | arm token =>
    simp only [step] at hs
    split at hs
    · cases hs
    · cases hs
      split <;> rfl
  | listen w token =>
    simp only [step] at hs
    split at hs
    · cases hs
    · split at hs
      · cases hs; rfl
      · split at hs <;> cases hs

namespace ConsoleRead

variable (h : Host) (me : Nat)

theorem size_releaseReader : h.releaseReader.reader.gate.size = h.reader.gate.size + 1 ∧
    h.releaseReader.reader.active = h.reader.active ∧
      h.releaseReader.console.deaf = h.console.deaf := by
  have hk := Host.keyboard_wakeWaiter
    { h with reader := { h.reader with gate := h.reader.gate.release } } h.reader.gate.next?
  have hreader : h.releaseReader.reader = { h.reader with gate := h.reader.gate.release } :=
    congrArg Prod.fst hk
  refine ⟨?_, ?_, congrArg Prod.snd hk⟩
  · rw [hreader]
    exact TicketGate.size_release _
  · rw [hreader]

theorem size_leaveReader (w : Waiter) : (h.leaveReader w).reader.gate.size = h.reader.gate.size ∧
    (h.leaveReader w).reader.active = h.reader.active ∧
      (h.leaveReader w).console.deaf = h.console.deaf := by
  have hk := Host.keyboard_wakeWaiter
    { h with reader := { h.reader with gate := h.reader.gate.leave w } } (h.reader.gate.heir? w)
  have hreader : (h.leaveReader w).reader = { h.reader with gate := h.reader.gate.leave w } :=
    congrArg Prod.fst hk
  refine ⟨?_, ?_, congrArg Prod.snd hk⟩
  · rw [hreader]
    exact TicketGate.size_leave _ w
  · rw [hreader]

/-- A read that ends has given the ticket back. -/
theorem typing_close {k : Host} (hk : k.keyboard = h.keyboard) {c : ConsoleRead}
    (hc : c.tickets = 1) : Typing h (close k) (some c) none := by
  obtain ⟨hsize, -, hdeaf⟩ := size_releaseReader (k.setReading none)
  have hreader : k.reader = h.reader := congrArg Prod.fst hk
  have hone : ticketsOf (some c) = 1 := hc
  refine ⟨?_, hdeaf.trans (congrArg Prod.snd hk), fun hnone => ?_, fun own ho => ?_, ?_⟩
  · rw [close, hsize, hone]
    change k.reader.gate.size + 1 + 0 = h.reader.gate.size + 1
    rw [hreader]
  · omega
  · cases ho
  · intro _ c hc
    cases hc

/-- A read that goes away without the ticket. -/
theorem typing_gone {k : Host} {c : ConsoleRead} (hc : c.tickets = 0)
    (hsize : k.reader.gate.size = h.reader.gate.size)
    (hactive : k.reader.active = h.reader.active) (hdeaf : k.console.deaf = h.console.deaf) :
    Typing h k (some c) none := by
  have hnone : ticketsOf (some c) = 0 := hc
  refine ⟨?_, hdeaf, fun _ => hactive, fun own ho => ?_, ?_⟩
  · rw [hsize, hnone]
    rfl
  · cases ho
  · intro _ c hc
    cases hc

/-- A read that goes on without the ticket. -/
theorem typing_waits {k : Host} {c c' : ConsoleRead} (hc : c.tickets = 0) (hc' : c'.tickets = 0)
    (hsize : k.reader.gate.size = h.reader.gate.size)
    (hactive : k.reader.active = h.reader.active) (hdeaf : k.console.deaf = h.console.deaf) :
    Typing h k (some c) (some c') := by
  have hnone : ticketsOf (some c) = 0 := hc
  have hnone' : ticketsOf (some c') = 0 := hc'
  refine ⟨?_, hdeaf, fun _ => hactive, fun own ho => ?_, ?_⟩
  · rw [hsize, hnone, hnone']
  · rw [tickets_of_keys ho] at hc'
    cases hc'
  · intro _ d hd
    cases hd
    cases c' with
    | key call line commandLine own => cases hc'
    | _ => trivial

/-- A read that has come by the ticket. -/
theorem typing_opens {k : Host} {c : ConsoleRead} (hc : c.tickets = 0) (commandLine : Bool)
    (token : Nat) (hsize : k.reader.gate.size + 1 = h.reader.gate.size)
    (hactive : k.reader.active = h.reader.active) (hdeaf : k.console.deaf = h.console.deaf) :
    Typing h k (some c) (some (.opened commandLine token)) := by
  have hnone : ticketsOf (some c) = 0 := hc
  refine ⟨?_, hdeaf, fun _ => hactive, fun own ho => ?_, ?_⟩
  · rw [hnone]
    exact hsize
  · cases ho
  · intro _ d hd
    cases hd
    trivial

def after (call : ConsoleRead) : Poll ConsoleRead Answer → Option ConsoleRead
  | .blocked => some call
  | .next call' => some call'
  | .done _ => none

theorem typing_ask (bias : List Bool) (commandLine : Bool) (token : Nat) :
    Typing h ((ask commandLine token).step h me bias).1 (some (ask commandLine token))
      ((ask commandLine token).after ((ask commandLine token).step h me bias).2) := by
  have hjoin : (h.reader.gate.join (h.drawTurn me).1).2.size +
      (if (h.reader.gate.join (h.drawTurn me).1).1 then 1 else 0) = h.reader.gate.size :=
    TicketGate.size_join _ _
  simp only [step]
  split
  · exact typing_gone h rfl rfl rfl rfl
  · change Typing h { (h.drawTurn me).2 with reader := { h.reader with
        gate := (h.reader.gate.join (h.drawTurn me).1).2 } } _ (some (if
          (h.reader.gate.join (h.drawTurn me).1).1 then _ else _))
    cases htaken : (h.reader.gate.join (h.drawTurn me).1).1 with
    | true =>
      rw [htaken, if_pos rfl] at hjoin
      exact typing_opens h rfl commandLine token hjoin rfl rfl
    | false =>
      rw [htaken, if_neg Bool.false_ne_true, Nat.add_zero] at hjoin
      exact typing_waits h rfl rfl hjoin rfl rfl

theorem typing_queued (bias : List Bool) (w : Waiter) (commandLine : Bool) (token : Nat) :
    Typing h ((queued w commandLine token).step h me bias).1 (some (queued w commandLine token))
      ((queued w commandLine token).after
        ((queued w commandLine token).step h me bias).2) := by
  have hgive (k : Host) (hk : k.keyboard = h.keyboard) :
      Typing h ((k.forgetToken token me).leaveReader w) (some (queued w commandLine token))
        none := by
    obtain ⟨hsize, hactive, hdeaf⟩ := size_leaveReader (k.forgetToken token me) w
    have hreader : k.reader = h.reader := congrArg Prod.fst hk
    refine typing_gone h rfl (hsize.trans ?_) (hactive.trans ?_)
      (hdeaf.trans (congrArg Prod.snd hk))
    · exact congrArg (fun r => r.gate.size) hreader
    · exact congrArg LineReader.active hreader
  simp only [step, Host.orFired]
  split
  · exact hgive h rfl
  · cases hc : h.reader.gate.collect? w with
    | some gate =>
      exact typing_opens h rfl commandLine token (TicketGate.size_collect hc) rfl rfl
    | none =>
      dsimp only
      split
      · exact hgive h rfl
      · exact Typing.of_keyboard (h.keyboard_awaitToken token me) (some _)

/-- A read begins to take keys under a new token. -/
theorem typing_opened (bias : List Bool) (commandLine : Bool) (token : Nat) :
    Typing h ((opened commandLine token).step h me bias).1 (some (opened commandLine token))
      ((opened commandLine token).after ((opened commandLine token).step h me bias).2) where
  gate := rfl
  deaf := rfl
  active hnone := by cases hnone
  keys own ho := by
    obtain rfl : (h.tokens.derive token).1 = own := Option.some.inj ho
    refine .inr ⟨rfl, h.tokens.derive_fst token, ?_⟩
    change (h.tokens.derive token).1 < (h.tokens.derive token).2.all.length
    rw [Tokens.derive_fst, Tokens.length_derive]
    exact Nat.lt_succ_self _
  attuned _ c hc := by
    cases hc
    rfl

/-- A read that goes on taking keys. -/
theorem typing_goesOn {k : Host} (hk : k.keyboard = h.keyboard) {call call' : KeyCall}
    {line line' : List Char} (commandLine : Bool) {own : Nat}
    (htoken : call.token = own → call'.token = own) :
    Typing h k (some (key call line commandLine own)) (some (key call' line' commandLine own)) where
  gate := by rw [show k.reader = h.reader from congrArg Prod.fst hk]; rfl
  deaf := congrArg Prod.snd hk
  active hnone := by cases hnone
  keys own' ho := .inl ⟨ho, by rw [show k.reader = h.reader from congrArg Prod.fst hk]⟩
  attuned hc c hmem := by
    cases hmem
    exact htoken (hc _ rfl)

theorem typing_key (bias : List Bool) (call : KeyCall) (line : List Char) (commandLine : Bool)
    (own : Nat) :
    Typing h ((key call line commandLine own).step h me bias).1
      (some (key call line commandLine own))
      ((key call line commandLine own).after
        ((key call line commandLine own).step h me bias).2) := by
  rcases hs : call.step h me bias with ⟨k, r⟩
  have hk : k.keyboard = h.keyboard := by
    rw [← call.keyboard_step h me bias, hs]
  simp only [step, hs]
  rcases r with _ | call' | (f | press)
  · exact typing_goesOn h hk commandLine id
  · exact typing_goesOn h hk commandLine fun ho => (KeyCall.token_step hs).trans ho
  · cases f <;> exact typing_close h hk rfl
  · have hwrite : (k.modifyConsole (·.write (Edit.ofKey commandLine line press).echo)).keyboard =
        h.keyboard := hk
    dsimp only
    split
    · exact typing_close h hwrite rfl
    · exact typing_goesOn h hwrite commandLine fun _ => rfl

theorem typing (bias : List Bool) (call : ConsoleRead) :
    Typing h (call.step h me bias).1 (some call) (call.after (call.step h me bias).2) := by
  cases call with
  | start commandLine token =>
    simp only [step]
    split
    · exact typing_gone h rfl rfl rfl rfl
    · have hk : (if h.reader.gate.isLeased then h.stopReader else h).keyboard = h.keyboard := by
        split
        · exact h.keyboard_stopReader
        · rfl
      exact typing_waits h rfl rfl (congrArg (fun r => r.gate.size) (congrArg Prod.fst hk))
        (congrArg LineReader.active (congrArg Prod.fst hk)) (congrArg Prod.snd hk)
  | ask commandLine token => exact typing_ask h me bias commandLine token
  | queued w commandLine token => exact typing_queued h me bias w commandLine token
  | opened commandLine token => exact typing_opened h me bias commandLine token
  | key call line commandLine own => exact typing_key h me bias call line commandLine own

/-- A read that is given up gives the ticket back. -/
theorem typing_abandon (call : ConsoleRead) : Typing h (call.abandon h me) (some call) none := by
  cases call with
  | start commandLine token => exact typing_gone h rfl rfl rfl rfl
  | ask commandLine token => exact typing_gone h rfl rfl rfl rfl
  | queued w commandLine token =>
    obtain ⟨hsize, hactive, hdeaf⟩ := size_leaveReader h w
    exact typing_gone h rfl hsize hactive hdeaf
  | opened commandLine token =>
    obtain ⟨hsize, hactive, hdeaf⟩ := size_releaseReader h
    refine ⟨hsize, hdeaf, fun _ => hactive, fun own ho => ?_, fun _ c hc => ?_⟩
    · cases ho
    · cases hc
  | key call line commandLine own => exact typing_close h (call.keyboard_abandon h me) rfl

end ConsoleRead

/-! ## Tasks -/

namespace Typing

variable {h k : Host}

/-- A step of somebody who is not at the keyboard, but may wait there for the end of a read. -/
theorem aloof (hsize : k.reader.gate.size = h.reader.gate.size)
    (hactive : k.reader.active = h.reader.active) (hdeaf : k.console.deaf = h.console.deaf) :
    Typing h k none none where
  gate := by rw [hsize]
  deaf := hdeaf
  active _ := hactive
  keys own ho := by cases ho
  attuned _ c hc := by cases hc

end Typing

namespace ExitCall

variable (h : Host) (me : Nat)

/-- A ticket that is taken and given back is there again. -/
theorem typing_passed {k : Host} (hsize : k.reader.gate.size + 1 = h.reader.gate.size)
    (hactive : k.reader.active = h.reader.active) (hdeaf : k.console.deaf = h.console.deaf) :
    Typing h k.releaseReader none none := by
  obtain ⟨hrelease, hactive', hdeaf'⟩ := ConsoleRead.size_releaseReader k
  exact .aloof (hrelease.trans hsize) (hactive'.trans hactive) (hdeaf'.trans hdeaf)

theorem typing (call : ExitCall) : Typing h (call.step h me).1 none none := by
  cases call with
  | start =>
    have hjoin := (h.drawTurn me).2.reader.gate.size_join (h.drawTurn me).1
    simp only [step]
    split
    · exact .of_keyboard rfl none
    · split
      next htaken =>
        rw [if_pos htaken] at hjoin
        exact typing_passed h hjoin rfl rfl
      next htaken =>
        rw [if_neg htaken] at hjoin
        exact .aloof hjoin rfl rfl
  | leasing lease =>
    have hlease := lease.keyboard_step h me
    simp only [step]
    split <;> rename_i hr <;> rw [hr] at hlease
    · exact .of_keyboard hlease none
    · exact .of_keyboard hlease none
    · exact .of_keyboard ((Host.keyboard_releasePermit _ _).trans hlease) none
  | queued w =>
    simp only [step]
    split
    next gate hc => exact typing_passed h (TicketGate.size_collect hc) rfl rfl
    next => exact .of_keyboard rfl none

theorem typing_abandon (call : ExitCall) : Typing h (call.abandon h) none none := by
  cases call with
  | start => exact .of_keyboard rfl none
  | leasing lease => exact .of_keyboard (lease.keyboard_abandon h) none
  | queued w =>
    obtain ⟨hsize, hactive, hdeaf⟩ := ConsoleRead.size_leaveReader h w
    exact .aloof hsize hactive hdeaf

end ExitCall

namespace CommandCall

variable (h : Host) (me : Nat)

theorem typing (bias : List Bool) (call : CommandCall) :
    Typing h (call.step h me bias).1 none none := by
  cases call with
  | start job => exact .of_keyboard rfl none
  | aborting abort job => exact .of_keyboard (abort.keyboard_step h me bias) none
  | exiting exit job => exact exit.typing h me
  | running run => exact .of_keyboard (run.keyboard_step h me bias) none

theorem typing_abandon (call : CommandCall) : Typing h (call.abandon h me) none none := by
  cases call with
  | start job => exact .of_keyboard rfl none
  | aborting abort job => exact .of_keyboard (abort.keyboard_abandon h) none
  | exiting exit job => exact exit.typing_abandon h
  | running run => exact .of_keyboard (run.keyboard_abandon h me) none

end CommandCall

namespace ReadCall

variable (h : Host) (me : Nat) (bias : List Bool)

theorem keyboard_stopping (abort : Option AbortCall) (run : Option Execution)
    (result : Option RunResult) (id token : Nat) :
    ((stopping abort run result id token).step h me bias).1.keyboard = h.keyboard := by
  have hfinish {k : Host} (hk : k.keyboard = h.keyboard) (r : RunResult) :
      (finish k id token r).1.keyboard = h.keyboard := (keyboard_clearActive k id).trans hk
  cases abort with
  | none =>
    cases run with
    | none =>
      cases result with
      | none => rfl
      | some r => exact hfinish rfl r
    | some run =>
      have hrun := run.keyboard_step h me bias
      simp only [step, stepRun]
      split <;> rename_i hr <;> rw [hr] at hrun
      · exact hrun
      · exact hrun
      · exact hfinish hrun _
  | some abort =>
    have habort := abort.keyboard_step h me bias
    simp only [step]
    split <;> rename_i hr <;> rw [hr] at habort
    · exact habort
    · exact habort
    · cases run with
      | none => exact habort
      | some run =>
        rename_i k
        have hrun := run.keyboard_step k me bias.tail
        dsimp only
        split <;> rename_i hr' <;> rw [hr'] at hrun <;> exact hrun.trans habort

/-- A read that is not at the keyboard leaves it alone. -/
theorem keyboard_step {call : ReadCall} (hc : call.console? = none) :
    (call.step h me bias).1.keyboard = h.keyboard := by
  cases call with
  | start commandLine token =>
    simp only [step]
    split
    · rfl
    · split <;> rfl
  | console call => cases hc
  | clearing abort token => exact abort.keyboard_step h me bias
  | enter token => rfl
  | reading run id token own =>
    have hrun := run.keyboard_step h me bias.tail
    simp only [step]
    split
    · rfl
    · split <;> rename_i hr <;> rw [hr] at hrun
      · split
        · exact hrun
        · exact hrun
      · exact hrun
      · exact (keyboard_clearActive _ _).trans hrun
  | stopping abort run result id token => exact keyboard_stopping h me bias abort run result id token

/-- If it goes there, it has just begun to. -/
theorem console?_step {call call' : ReadCall} (hc : call.console? = none)
    (hs : (call.step h me bias).2 = .next call') :
    call'.console? = none ∨ ∃ commandLine token, call' = .console (.start commandLine token) := by
  cases call with
  | start commandLine token =>
    simp only [step] at hs
    split at hs
    · cases hs
    · split at hs <;> cases hs
      · exact .inr ⟨_, _, rfl⟩
      · split <;> exact .inl rfl
  | console call => cases hc
  | clearing abort token =>
    simp only [step] at hs
    generalize (abort.step h me bias).2 = r at hs
    cases r <;> cases hs <;> exact .inl rfl
  | enter token =>
    cases hs
    exact .inl rfl
  | reading run id token own =>
    simp only [step] at hs
    split at hs
    · cases hs
      exact .inl rfl
    · split at hs
      · split at hs <;> cases hs
        exact .inl rfl
      · cases hs
        exact .inl rfl
      · cases hs
  | stopping abort run result id token =>
    left
    rcases abort with - | abort <;> rcases run with - | run
    · cases result <;> cases hs
    · simp only [step, stepRun] at hs
      split at hs <;> cases hs
      rfl
    · simp only [step] at hs
      split at hs <;> cases hs <;> rfl
    · simp only [step] at hs
      split at hs
      · cases hs
        rfl
      · cases hs
        rfl
      · split at hs <;> cases hs <;> rfl

theorem keyboard_abandon {call : ReadCall} (hc : call.console? = none) :
    (call.abandon h me).keyboard = h.keyboard := by
  cases call with
  | start commandLine token => rfl
  | console call => cases hc
  | clearing abort token => exact abort.keyboard_abandon h
  | enter token => rfl
  | reading run id token own =>
    exact (keyboard_clearActive _ _).trans (run.keyboard_abandon h me)
  | stopping abort run result id token =>
    have habort : (abort.elim h fun a => a.abandon h).keyboard = h.keyboard := by
      cases abort with
      | none => rfl
      | some abort => exact abort.keyboard_abandon h
    refine (keyboard_clearActive _ _).trans (Eq.trans ?_ habort)
    cases run with
    | none => rfl
    | some run => exact run.keyboard_abandon _ me

end ReadCall

namespace Task

variable (h : Host) (me : Nat) (bias : List Bool)

/-- Somebody who is not at the keyboard and does not go there. -/
theorem typing_map {σ α : Type} {k : Host} (hk : Typing h k none none) (p : Poll σ α) {task : Task}
    {f : σ → Task} {g : α → TaskResult} (htask : task.console? = none)
    (hf : ∀ s, (f s).console? = none) :
    Typing h k none (((p.map f g).task? task).bind console?) := by
  cases p with
  | blocked => rwa [Poll.map, Poll.task?, Option.bind_some, htask]
  | next s => rwa [Poll.map, Poll.task?, Option.bind_some, hf]
  | done a => exact hk

theorem typing_console (call : ConsoleRead) {f : ConsoleRead → Task} {g : ConsoleRead.Answer → TaskResult}
    (hf : ∀ c, (f c).console? = some c) :
    Typing h (call.step h me bias).1 (some call)
      (((((call.step h me bias).2).map f g).task? (f call)).bind console?) := by
  have hcall := call.typing h me bias
  generalize (call.step h me bias).2 = p at hcall ⊢
  cases p with
  | blocked => rwa [Poll.map, Poll.task?, Option.bind_some, hf]
  | next s => rwa [Poll.map, Poll.task?, Option.bind_some, hf]
  | done a => exact hcall

/-- What a step of a task does at the keyboard. -/
theorem typing (task : Task) :
    Typing h (task.step h me bias).1 task.console?
      (((task.step h me bias).2.task? task).bind console?) := by
  cases task with
  | command call sink => exact typing_map h (call.typing h me bias) _ rfl fun _ => rfl
  | idle call sink => exact typing_map h (.of_keyboard (call.keyboard_step h me) none) _ rfl fun _ => rfl
  | read call =>
    cases hc : call.console? with
    | some c =>
      obtain rfl := ReadCall.eq_console hc
      have hcall := typing_console h me bias c (f := fun c => .read (.console c)) (g := .line)
        fun _ => rfl
      simp only [step, ReadCall.step]
      generalize (c.step h me bias).2 = p at hcall ⊢
      cases p <;> exact hcall
    | none =>
      have hk := call.keyboard_step h me bias hc
      have hnext {call' : ReadCall} (hs : (call.step h me bias).2 = .next call') :=
        call.console?_step h me bias hc hs
      simp only [step, console?, hc]
      generalize (call.step h me bias).2 = p at hnext ⊢
      cases p with
      | blocked =>
        rw [Poll.map, Poll.task?, Option.bind_some, console?, hc]
        exact .of_keyboard hk none
      | next call' =>
        rw [Poll.map, Poll.task?, Option.bind_some, console?]
        rcases hnext rfl with hnone | ⟨commandLine, token, rfl⟩
        · rw [hnone]
          exact .of_keyboard hk none
        · exact .start hk commandLine token
      | done a => exact .of_keyboard hk none
  | line call => exact typing_console h me bias call fun _ => rfl
  | abort call => exact typing_map h (.of_keyboard (call.keyboard_step h me bias) none) _ rfl fun _ => rfl
  | exit call => exact typing_map h (call.typing h me) _ rfl fun _ => rfl
  | lease call => exact typing_map h (.of_keyboard (call.keyboard_step h me) none) _ rfl fun _ => rfl
  | key call => exact typing_map h (.of_keyboard (call.keyboard_step h me bias) none) _ rfl fun _ => rfl

theorem typing_abandon (task : Task) : Typing h (task.abandon h me) task.console? none := by
  cases task with
  | command call sink => exact call.typing_abandon h me
  | idle call sink => exact .of_keyboard (call.keyboard_abandon h) none
  | read call =>
    cases hc : call.console? with
    | some c =>
      obtain rfl := ReadCall.eq_console hc
      exact c.typing_abandon h me
    | none =>
      rw [console?, hc]
      exact .of_keyboard (ReadCall.keyboard_abandon h me hc) none
  | line call => exact call.typing_abandon h me
  | abort call => exact .of_keyboard (call.keyboard_abandon h) none
  | exit call => exact call.typing_abandon h
  | lease call => exact .of_keyboard (call.keyboard_abandon h) none
  | key call => exact .of_keyboard (call.keyboard_abandon h me) none

end Task

end SharedPrompt
