import SharedPrompt.Proofs.LatestRead
import SharedPrompt.Proofs.SeenEnds
import SharedPrompt.Proofs.TypedLines

/-!
# Keys that reads take

A console whose reader alone uses it: reads of lines, aborts, and calls that wait for the end of a
read come and go, callers fire their tokens, and keys are pressed. A read takes a key in one event,
and in the same event the key edits the line of that read and is echoed.
-/

namespace SharedPrompt

/-! ## The console without its signal -/

namespace Console

variable {ω : Type}

/-- The keys to come, what has been written, and where the cursor is. -/
def face (c : Console ω) : List KeyEvent × List Char × Cursor := (c.keys, c.written, c.cursor)

@[simp] theorem face_raise (c : Console ω) : c.raise.face = c.face := by
  unfold raise
  split <;> rfl

@[simp] theorem face_ignore [DecidableEq ω] (c : Console ω) (w : ω) :
    (c.ignore w).face = c.face := by
  unfold ignore
  split
  · exact face_raise _
  · rfl

end Console

/-! ## Users of the reader -/

/-- The calls of the reader: reading a line for one of `n` callers, aborting the read in progress,
and waiting for its end. -/
def Start.atReader (n : Nat) : Start → Bool
  | line _ token => token < n
  | abort => true
  | exit => true
  | _ => false

def Event.atReader (n : Nat) : Event → Bool
  | poll .. => true
  | drop _ => true
  | start call => call.atReader n
  | fire token => token < n
  | key (.press _) => true
  | _ => false

def Task.atReader : Task → Bool
  | line _ => true
  | abort .start => true
  | exit .start => true
  | exit (.queued _) => true
  | _ => false

def Host.reading (n : Nat) (cursor : Cursor) : Host :=
  { native := false, tokens := callersTokens n, console := { cursor } }

structure Host.AtReader (h : Host) : Prop where
  native : h.native = false
  tasks : ∀ t task, h.task? t = some task → task.atReader = true
  presses : ∀ k ∈ h.console.keys, ∃ p, k = .press p

/-! ## Taking a key -/

def KeyCall.takes? (h : Host) : KeyCall → Option KeyPress
  | look token =>
    match h.console.keys with
    | .press p :: _ => if stopped h token then none else some p
    | _ => none
  | _ => none

namespace ConsoleRead

def takes? (h : Host) : ConsoleRead → Option KeyPress
  | key call _ _ _ => call.takes? h
  | _ => none

def text : ConsoleRead → List Char
  | key _ line _ _ => line
  | _ => []

def isCommandLine : ConsoleRead → Bool
  | start commandLine _ => commandLine
  | ask commandLine _ => commandLine
  | queued _ commandLine _ => commandLine
  | opened commandLine _ => commandLine
  | key _ _ commandLine _ => commandLine

/-- The token of the caller, as long as the read does not take keys. -/
def caller? : ConsoleRead → Option Nat
  | start _ token => some token
  | ask _ token => some token
  | queued _ _ token => some token
  | opened _ token => some token
  | key .. => none

structure GoesOn (c c' : ConsoleRead) : Prop where
  text : c'.text = c.text
  mode : c'.isCommandLine = c.isCommandLine
  caller : ∀ token ∈ c'.caller?, token ∈ c.caller?
  ticket : c.tickets ≤ c'.tickets

theorem GoesOn.refl (c : ConsoleRead) : c.GoesOn c := ⟨rfl, rfl, fun _ => id, le_rfl⟩

end ConsoleRead

namespace Host

/-- The key that is taken in an event, and the task of the read that takes it. -/
def takes? (h : Host) : Event → Option (Nat × KeyPress)
  | .poll t _ => ((h.consoleOf? t).bind (ConsoleRead.takes? h)).map (t, ·)
  | _ => none

def taken (h : Host) (events : List Event) : List (Nat × KeyPress) := h.during takes? events

def takenBy (h : Host) (events : List Event) (t : Nat) : List KeyPress :=
  ((h.taken events).filter (·.1 = t)).map (·.2)

end Host

def Event.pressed? : Event → Option KeyPress
  | key (.press p) => some p
  | _ => none

def pressed (events : List Event) : List KeyPress := events.filterMap Event.pressed?

namespace Host

variable (h : Host)

theorem takenBy_concat (past : List Event) (e : Event) (t : Nat) :
    h.takenBy (past ++ [e]) t =
      h.takenBy past t ++ (((h.run past).takes? e).toList.filter (·.1 = t)).map (·.2) := by
  rw [takenBy, taken, during_concat, List.filter_append, List.map_append]
  rfl

theorem takenBy_concat_of_none {past : List Event} {e : Event}
    (he : (h.run past).takes? e = none) (t : Nat) :
    h.takenBy (past ++ [e]) t = h.takenBy past t := by
  rw [takenBy_concat, he]
  exact List.append_nil _

theorem takenBy_concat_of_some {past : List Event} {e : Event} {u : Nat} {p : KeyPress}
    (he : (h.run past).takes? e = some (u, p)) (t : Nat) :
    h.takenBy (past ++ [e]) t = h.takenBy past t ++ if u = t then [p] else [] := by
  rw [takenBy_concat, he]
  by_cases hu : u = t <;> simp [hu]

theorem pressed_concat (past : List Event) (e : Event) :
    pressed (past ++ [e]) = pressed past ++ e.pressed?.toList := by
  rw [pressed, List.filterMap_append]
  cases he : e.pressed? <;> simp [pressed, he]

/-! ## What leaves the console alone -/

@[simp] theorem console_wake (task : Nat) : (h.wake task).console = h.console :=
  (h.atGates_wake task).same Host.console fun _ _ _ => rfl

@[simp] theorem console_wakeAll (tasks : List Nat) : (h.wakeAll tasks).console = h.console := by
  induction tasks generalizing h with
  | nil => rfl
  | cons t rest ih => exact (ih (h.wake t)).trans (h.console_wake t)

@[simp] theorem console_wakeWaiter (w : Option Waiter) : (h.wakeWaiter w).console = h.console :=
  (h.atGates_wakeWaiter w).same Host.console fun _ _ _ => rfl

@[simp] theorem console_fireToken (token : Nat) : (h.fireToken token).console = h.console :=
  console_wakeAll _ _

@[simp] theorem console_stopReader : h.stopReader.console = h.console := by
  unfold stopReader
  split
  · exact h.console_fireToken _
  · rfl

@[simp] theorem console_releaseReader : h.releaseReader.console = h.console :=
  console_wakeWaiter _ _

@[simp] theorem console_leaveReader (w : Waiter) : (h.leaveReader w).console = h.console :=
  console_wakeWaiter _ _

@[simp] theorem console_close : (ConsoleRead.close h).console = h.console :=
  console_releaseReader _

theorem face_pushKey (k : KeyEvent) : (h.pushKey k).console.face =
    (h.console.keys ++ [k], h.console.written, h.console.cursor) := by
  rw [pushKey, console_wakeWaiter]
  exact Console.face_raise _

theorem face_ignoreSignal (w : Waiter) : (h.ignoreSignal w).console.face = h.console.face := by
  rw [ignoreSignal, console_wakeWaiter]
  exact Console.face_ignore _ w

end Host

/-! ## One step of a read -/

/-- A step of the read of a key leaves the keys and the screen, or takes the first key. -/
theorem KeyCall.step_takes {h : Host} (hpresses : ∀ k ∈ h.console.keys, ∃ p, k = .press p)
    (me : Nat) (bias : List Bool) (call : KeyCall) :
    (call.takes? h = none ∧ (call.step h me bias).1.console.face = h.console.face ∧
        (call.step h me bias).2.Meets (fun _ => True) fun a => a = .error .cancelled) ∨
      ∃ p rest, call.takes? h = some p ∧ h.console.keys = .press p :: rest ∧
        call.step h me bias = ({ h with console := { h.console with keys := rest } },
          .done (.ok p)) := by
  cases call with
  | start token => exact .inl ⟨rfl, rfl, trivial⟩
  | look token =>
    cases hkeys : h.console.keys with
    | nil =>
      left
      refine ⟨by simp only [takes?, hkeys], ?_⟩
      simp only [step, Console.popKey?, hkeys]
      split
      · exact ⟨rfl, rfl⟩
      · exact ⟨rfl, trivial⟩
    | cons k rest =>
      obtain ⟨p, rfl⟩ := hpresses k (by simp [hkeys])
      by_cases hstopped : stopped h token = true
      · left
        refine ⟨by simp only [takes?, hkeys, hstopped, if_true], ?_⟩
        rw [step, if_pos hstopped]
        exact ⟨rfl, rfl⟩
      · right
        refine ⟨p, rest, ?_, rfl, ?_⟩
        · simp only [takes?, hkeys, if_neg hstopped]
        · simp only [step, Console.popKey?, hkeys, if_neg hstopped]
          rfl
  | arm token =>
    left
    refine ⟨rfl, ?_⟩
    simp only [step]
    split
    · exact ⟨rfl, rfl⟩
    · exact ⟨rfl, trivial⟩
  | listen w token =>
    have hgive : ((h.ignoreSignal w).forgetToken token me).console.face = h.console.face :=
      h.face_ignoreSignal w
    left
    refine ⟨rfl, ?_⟩
    simp only [step]
    split
    · exact ⟨hgive, rfl⟩
    · split
      · exact ⟨rfl, trivial⟩
      · split
        · exact ⟨hgive, rfl⟩
        · refine ⟨?_, trivial⟩
          dsimp only
          split <;> rfl

namespace ConsoleRead

variable {h : Host} (me : Nat) (bias : List Bool)

/-- What the step of a read that takes keys makes of the keys, the screen and the line. -/
inductive Strikes (h : Host) (call : KeyCall) (line : List Char) (commandLine : Bool) (own : Nat) :
    Host × Poll ConsoleRead Answer → Prop where
  | none {k : Host} {r : Poll ConsoleRead Answer} (htakes : call.takes? h = none)
      (hface : k.console.face = h.console.face)
      (hr : r.Meets (fun c => ∃ call', c = .key call' line commandLine own) fun a => a = .ok "") :
      Strikes h call line commandLine own (k, r)
  | press {k : Host} {r : Poll ConsoleRead Answer} (p : KeyPress) (rest : List KeyEvent)
      (htakes : call.takes? h = some p) (hkeys : h.console.keys = .press p :: rest)
      (hface : k.console.face = (rest, h.console.written ++ (Edit.ofKey commandLine line p).echo,
        (Edit.ofKey commandLine line p).echo.foldl Cursor.advance h.console.cursor))
      (hr : r = if p.isEnter then .done (.ok (String.ofList line))
        else .next (.key (.start own) (p.edit commandLine line) commandLine own)) :
      Strikes h call line commandLine own (k, r)

theorem strikes (hpresses : ∀ k ∈ h.console.keys, ∃ p, k = .press p) (call : KeyCall)
    (line : List Char) (commandLine : Bool) (own : Nat) :
    Strikes h call line commandLine own ((key call line commandLine own).step h me bias) := by
  rcases call.step_takes hpresses me bias with ⟨htakes, hface, hmeets⟩ | ⟨p, rest, htakes, hkeys, hs⟩
  · rcases hs : call.step h me bias with ⟨k, r⟩
    rw [hs] at hface hmeets
    simp only [step, hs]
    rcases r with _ | call' | a
    · exact .none htakes hface trivial
    · exact .none htakes hface ⟨call', rfl⟩
    · obtain rfl : a = .error .cancelled := hmeets
      refine .none htakes ?_ rfl
      rw [Host.console_close]
      exact hface
  · simp only [step, hs, Edit.accepted_ofKey, Edit.line_ofKey]
    by_cases henter : p.isEnter = true
    · rw [if_pos henter]
      refine .press p rest htakes hkeys ?_ ?_
      · rw [Host.console_close]
        rfl
      · rw [if_pos henter, KeyPress.edit_of_isEnter henter]
    · rw [if_neg henter]
      refine .press p rest htakes hkeys rfl ?_
      rw [if_neg henter]

/-- A read that does not take keys yet leaves the console alone. -/
theorem step_unopened {c : ConsoleRead} (hc : c.keys? = none) :
    (c.step h me bias).1.console = h.console ∧
      (c.step h me bias).2.Meets c.GoesOn fun a => a = .ok "" ∨ a = .error .cancelled := by
  cases c with
  | start commandLine token =>
    simp only [step]
    split
    · exact ⟨rfl, .inr rfl⟩
    · refine ⟨?_, rfl, rfl, fun _ => id, le_rfl⟩
      dsimp only
      split
      · exact h.console_stopReader
      · rfl
  | ask commandLine token =>
    simp only [step]
    split
    · exact ⟨rfl, .inl rfl⟩
    · refine ⟨rfl, ?_⟩
      dsimp only
      split <;> exact ⟨rfl, rfl, fun _ => id, Nat.zero_le _⟩
  | queued w commandLine token =>
    simp only [step, Host.orFired]
    split
    · exact ⟨Host.console_leaveReader _ w, .inl rfl⟩
    · cases h.reader.gate.collect? w with
      | some gate => exact ⟨rfl, rfl, rfl, fun _ => id, Nat.zero_le _⟩
      | none =>
        dsimp only
        split
        · exact ⟨Host.console_leaveReader _ w, .inl rfl⟩
        · exact ⟨rfl, trivial⟩
  | opened commandLine token => exact ⟨rfl, rfl, rfl, (fun _ hnone => by cases hnone), le_rfl⟩
  | key call line commandLine own => cases hc

/-- A read that is given up takes no key and writes nothing. -/
theorem face_abandon (c : ConsoleRead) : (c.abandon h me).console.face = h.console.face := by
  cases c with
  | start commandLine token => rfl
  | ask commandLine token => rfl
  | queued w commandLine token => exact congrArg Console.face (h.console_leaveReader w)
  | opened commandLine token => exact congrArg Console.face h.console_releaseReader
  | key call line commandLine own =>
    rw [abandon, Host.console_close]
    cases call with
    | listen w token => exact h.face_ignoreSignal w
    | _ => rfl

end ConsoleRead

end SharedPrompt
