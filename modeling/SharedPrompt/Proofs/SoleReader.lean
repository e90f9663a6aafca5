import SharedPrompt.Proofs.KeyboardGate

/-!
# One read at a time takes keys

Of all reads from the console one at most has the ticket of the reader's gate. While one has it, the
gate is empty, and the reader names the token of the read that takes keys. So firing that token stops
this read, and whoever else comes by the ticket sees that no read takes keys.
-/

namespace SharedPrompt

namespace Host

def consoleOf? (h : Host) (t : Nat) : Option ConsoleRead := (h.task? t).bind Task.console?

def keysOf? (h : Host) (t : Nat) : Option Nat := (h.consoleOf? t).bind ConsoleRead.keys?

def readerTickets (h : Host) (t : Nat) : Nat := ticketsOf (h.consoleOf? t)

variable {h h' : Host}

theorem readerTickets_of_keysOf {t own : Nat} (hown : h.keysOf? t = some own) :
    h.readerTickets t = 1 := by
  obtain ⟨c, hc, hkeys⟩ := Option.bind_eq_some_iff.1 hown
  rw [readerTickets, hc]
  exact ConsoleRead.tickets_of_keys hkeys

theorem readerTickets_le (h : Host) (t : Nat) : h.readerTickets t ≤ 1 := by
  unfold readerTickets
  rcases h.consoleOf? t with - | c
  · exact Nat.zero_le 1
  · cases c <;> simp [ticketsOf, ConsoleRead.tickets]

/-! ## What an event does at the keyboard -/

theorem keyboard_teardown (h : Host) : h.teardown.keyboard = h.keyboard := by
  have hfold (k : Host) (l : List Nat) : (l.foldl (fun h _ =>
      h.notice (.resubscribeFailed (.subscribe "idle" Engine.injected))) k).keyboard =
      k.keyboard := by
    induction l generalizing k with
    | nil => rfl
    | cons _ rest ih => exact (ih _).trans rfl
  exact (hfold _ _).trans rfl

theorem keyboard_setThread (h : Host) (id : Nat) (stack : List Activation) :
    (h.setThread id stack).keyboard = h.keyboard := by
  unfold setThread
  split <;> rfl

theorem keyboard_apply {e : Event} (he : e.ofTask = false) : (h.apply e).keyboard = h.keyboard := by
  have hcreate := h.keyboard_createPipeline .nested
  cases e with
  | poll t bias => cases he
  | start call => cases he
  | drop t => cases he
  | advance id =>
    simp only [apply, stepThread]
    split
    · rfl
    · split
      · rfl
      next hs => exact (keyboard_setThread _ _ _).trans (Activation.keyboard_step hs)
  | release owner =>
    simp only [apply, releaseOwned]
    split
    · exact keyboard_releasePermit _ _
    · rfl
  | fire token => exact h.keyboard_fireToken token
  | key k => exact h.keyboard_pushKey k
  | teardown => exact h.keyboard_teardown
  | enter kind => exact h.keyboard_enterPrompt kind
  | leave => exact h.keyboard_leavePrompt
  | push debugger =>
    simp only [apply, pushPrompt]
    split <;> rename_i hr <;> rw [hr] at hcreate <;> exact hcreate
  | pushLeased debugger =>
    simp only [apply, pushLeasedPrompt]
    split <;> rename_i hr <;> rw [hr] at hcreate <;> exact hcreate
  | lock pipeline =>
    simp only [apply]
    split <;> rfl
  | _ => rfl

/-- What an event does at the keyboard is what one task does there. -/
structure KeyboardTurn (h h' : Host) (t : Nat) : Prop where
  typing : Typing h h' (h.consoleOf? t) (h'.consoleOf? t)
  others : ∀ u, u ≠ t → h'.consoleOf? u = h.consoleOf? u

/-- An event that leaves the keyboard and the reads there alone. -/
theorem KeyboardTurn.still (hk : h'.keyboard = h.keyboard)
    (hsame : ∀ t, h'.consoleOf? t = h.consoleOf? t) (t : Nat) : h.KeyboardTurn h' t where
  typing := by
    rw [hsame]
    exact .of_keyboard hk _
  others u _ := hsame u

/-- Filing what has become of a task does nothing at the keyboard. -/
theorem typing_filed {k : Host} {before after : Option ConsoleRead}
    (ht : Typing h k before after) (hk : h'.keyboard = k.keyboard) (htokens : h'.tokens = k.tokens) :
    Typing h h' before after := by
  have hreader : h'.reader = k.reader := congrArg Prod.fst hk
  refine ⟨?_, (congrArg Prod.snd hk).trans ht.deaf, fun hnone => ?_, fun own ho => ?_, ht.attuned⟩
  · rw [hreader]
    exact ht.gate
  · rw [hreader]
    exact ht.active hnone
  · rw [hreader, htokens]
    exact ht.keys own ho

theorem keyboardTurn_poll {t : Nat} (bias : List Bool) {task : Task} (ht : h.task? t = some task) :
    h.KeyboardTurn (h.apply (.poll t bias)) t := by
  have htyping := task.typing h t bias
  have htasks := (task.step_moves h t 0 bias).spawns.tasks
  rcases hs : task.step h t bias with ⟨k, r⟩
  rw [hs] at htyping htasks
  rw [apply_poll ht hs]
  have hk (u : Nat) : k.task? u = h.task? u := by rw [task?, htasks, task?]
  have hfiled : (k.afterPoll t r).keyboard = k.keyboard ∧ (k.afterPoll t r).tokens = k.tokens := by
    rcases r with _ | _ | (_ | _ | _ | _ | _) <;> exact ⟨rfl, rfl⟩
  constructor
  · rw [consoleOf?, ht, Option.bind_some, consoleOf?, task?_afterPoll_self ((hk t).trans ht)]
    exact typing_filed htyping hfiled.1 hfiled.2
  · intro u hu
    rw [consoleOf?, task?_afterPoll_ne _ hu, hk, consoleOf?]

theorem keyboardTurn_drop {t : Nat} {task : Task} (ht : h.task? t = some task) :
    h.KeyboardTurn (h.apply (.drop t)) t := by
  have htyping := task.typing_abandon h t
  have htasks := (task.abandon_moves h t 0).moves.spawns.tasks
  rw [apply_drop ht]
  constructor
  · have hgone : ((task.abandon h t).removeTask t).consoleOf? t = none := by
      rw [consoleOf?, task?, removeTask, lookup_remove_self]
      rfl
    rw [consoleOf?, ht, Option.bind_some, hgone]
    exact typing_filed htyping rfl rfl
  · intro u hu
    rw [consoleOf?, task?, removeTask, lookup_remove_ne _ t hu, htasks, consoleOf?, task?]

theorem keyboardTurn_start (hn : h.Numbered) (call : Start) :
    h.KeyboardTurn (h.apply (.start call)) h.nextTask := by
  have hwake := (h.addTask call.task).aside_wake h.nextTask
  have hk : (h.apply (.start call)).keyboard = h.keyboard :=
    keyboard_wake (h.addTask call.task) h.nextTask
  have htask (u : Nat) : (h.apply (.start call)).task? u = (h.addTask call.task).task? u := by
    change ((h.addTask call.task).wake h.nextTask).task? u = _
    rw [task?, hwake.tasks, task?]
  constructor
  · rw [consoleOf?, consoleOf?, task?_nextTask hn, htask, task?_addTask_self hn]
    cases call with
    | line commandLine token => exact .start hk commandLine token
    | _ => exact .of_keyboard hk none
  · intro u hu
    rw [consoleOf?, htask, task?_addTask_ne h _ hu, consoleOf?]

theorem exists_keyboardTurn (hn : h.Numbered) (e : Event) : ∃ t, h.KeyboardTurn (h.apply e) t := by
  have hoff (he : e.ofTask = false) : ∃ t, h.KeyboardTurn (h.apply e) t := by
    refine ⟨0, .still (keyboard_apply he) (fun t => ?_) 0⟩
    rw [consoleOf?, consoleOf?, task?, task?, h.tasks_apply he]
  have hsame : ∃ t, h.KeyboardTurn h t := ⟨0, .still rfl (fun _ => rfl) 0⟩
  cases e with
  | poll t bias =>
    cases ht : h.task? t with
    | none => simpa only [apply, stepTask, ht] using hsame
    | some task => exact ⟨t, keyboardTurn_poll bias ht⟩
  | drop t =>
    cases ht : h.task? t with
    | none => simpa only [apply, dropTask, ht] using hsame
    | some task => exact ⟨t, keyboardTurn_drop ht⟩
  | start call => exact ⟨h.nextTask, keyboardTurn_start hn call⟩
  | _ => exact hoff rfl

/-! ## What is kept -/

structure KeyboardKept (h : Host) : Prop where
  size_le : h.reader.gate.size ≤ 1
  sole : ∀ t u, h.readerTickets t = 1 → h.readerTickets u = 1 → t = u
  taken : ∀ t, h.readerTickets t = 1 → h.reader.gate.size = 0
  keys : ∀ t own, h.keysOf? t = some own →
    h.reader.active = some own ∧ own < h.tokens.all.length
  attuned : ∀ t, ∀ c ∈ h.consoleOf? t, c.Attuned

namespace KeyboardKept

theorem turn (hk : h.KeyboardKept) {t : Nat} (hturn : h.KeyboardTurn h' t)
    (htokens : h.tokens.all.length ≤ h'.tokens.all.length) : h'.KeyboardKept := by
  have hgate : h'.reader.gate.size + h'.readerTickets t = h.reader.gate.size + h.readerTickets t :=
    hturn.typing.gate
  have hother {u : Nat} (hu : u ≠ t) : h'.readerTickets u = h.readerTickets u := by
    rw [readerTickets, hturn.others u hu, readerTickets]
  have hsize := hk.size_le
  have hbefore := h.readerTickets_le t
  -- Where the task held the ticket before, nobody else did, and the gate was empty.
  have halone {u : Nat} (hu : u ≠ t) (hholds : h.readerTickets u = 1) : h.readerTickets t = 0 := by
    have hne : h.readerTickets t ≠ 1 := fun ht => hu (hk.sole u t hholds ht)
    omega
  constructor
  · by_cases hholds : h.readerTickets t = 1
    · have := hk.taken t hholds
      omega
    · omega
  · intro u v hu hv
    by_contra hne
    have hclash {x y : Nat} (hx : x = t) (hy : y ≠ t) (hxt : h'.readerTickets x = 1)
        (hyt : h'.readerTickets y = 1) : False := by
      rw [hother hy] at hyt
      have := hk.taken y hyt
      have := halone hy hyt
      rw [hx] at hxt
      omega
    by_cases hut : u = t
    · exact hclash hut (fun hvt => hne (hut.trans hvt.symm)) hu hv
    · by_cases hvt : v = t
      · exact hclash hvt hut hv hu
      · rw [hother hut] at hu
        rw [hother hvt] at hv
        exact hne (hk.sole u v hu hv)
  · intro u hu
    by_cases hut : u = t
    · rw [hut] at hu
      by_cases hholds : h.readerTickets t = 1
      · have := hk.taken t hholds
        omega
      · omega
    · rw [hother hut] at hu
      have := hk.taken u hu
      have := halone hut hu
      omega
  · intro u own ho
    by_cases hut : u = t
    · rw [hut] at ho
      rcases hturn.typing.keys own ho with ⟨hold, hactive⟩ | ⟨hnew, -, hlt⟩
      · obtain ⟨hbefore, hlt⟩ := hk.keys t own hold
        exact ⟨hactive.trans hbefore, hlt.trans_le htokens⟩
      · exact ⟨hnew, hlt⟩
    · rw [keysOf?, hturn.others u hut] at ho
      obtain ⟨hactive, hlt⟩ := hk.keys u own ho
      refine ⟨?_, hlt.trans_le htokens⟩
      rw [hturn.typing.active (halone hut (readerTickets_of_keysOf ho)), hactive]
  · intro u
    by_cases hut : u = t
    · rw [hut]
      exact hturn.typing.attuned (hk.attuned t)
    · rw [hturn.others u hut]
      exact hk.attuned u

theorem apply (hk : h.KeyboardKept) (hn : h.Numbered) (e : Event) : (h.apply e).KeyboardKept := by
  obtain ⟨t, hturn⟩ := exists_keyboardTurn hn e
  exact hk.turn hturn (steps_tokens_apply hn e).length_le

theorem run (hk : h.KeyboardKept) (hkept : h.WellKept) (past : List Event) :
    (h.run past).KeyboardKept := by
  induction past using List.reverseRecOn with
  | nil => exact hk
  | append_singleton past e ih =>
    rw [run_concat]
    exact ih.apply (hkept.run past).numbered e

/-- A host at whose gate nobody has been. -/
theorem fresh (htasks : h.tasks = []) (hreader : h.reader = {}) : h.KeyboardKept := by
  have hnone (t : Nat) : h.consoleOf? t = none := by
    rw [consoleOf?, task?, htasks]
    rfl
  constructor
  · rw [hreader]
    decide
  · intro t u ht
    rw [readerTickets, hnone] at ht
    cases ht
  · intro t ht
    rw [readerTickets, hnone] at ht
    cases ht
  · intro t own ho
    rw [keysOf?, hnone] at ho
    cases ho
  · intro t c hc
    rw [hnone] at hc
    cases hc

end KeyboardKept

/-- Whether the console takes notice of tokens never changes. -/
theorem deaf_run (hkept : h.WellKept) (past : List Event) :
    (h.run past).console.deaf = h.console.deaf := by
  induction past using List.reverseRecOn with
  | nil => rfl
  | append_singleton past e ih =>
    rw [run_concat, ← ih]
    obtain ⟨t, hturn⟩ := exists_keyboardTurn (hkept.run past).numbered e
    exact hturn.typing.deaf

theorem keyboard_established (native follows : Bool) (engine : Engine) (console : Console Waiter) :
    (established native follows engine console).keyboard = ({}, console.deaf) := by
  have hmain := keyboard_createPipeline { native, engine, console } .current
  unfold established establish
  split <;> rename_i hr <;> rw [hr] at hmain
  · exact hmain
  · rename_i k
    have hline := (k.keyboard_createPipeline .current).trans hmain
    split <;> rename_i hr' <;> rw [hr'] at hline
    · exact hline
    · split
      · exact hline
      · dsimp only
        split <;> exact hline

end Host

end SharedPrompt
