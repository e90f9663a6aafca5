import SharedPrompt.Proofs.AbortTarget

/-!
# A host with nobody else about

One caller has a command run while all others keep still. Only its task is polled, only threads
go on that are sent for it or that sit in the line editor or that tell of an idle moment, and
barriers open and close. What such an event can change is little, and is collected here.
-/

namespace SharedPrompt

def Engine.uncounted (e : Engine) : Engine :=
  { e with attempts := 0, created := [], invoked := [], active := 0, peak := 0 }

/-- What stays as it is while one command is run. -/
structure Setting where
  engine : Engine
  fired : Nat → Bool
  keys : Bool
  subscribers : List Nat

/-- What changes while one command is run, and is seen by others. -/
structure Doings where
  attempts : Nat
  pipelines : Nat
  stack : PromptStack
  slot : IdleSlot
  replies : List Reply
  locked : List Nat
  records : List (Nat × String)
  commands : List (Options × Command)
  finished : List (Nat × TaskResult)

/-! ## Gates that nobody stands at -/

/-- A gate with its ticket in place is one that nobody stands at. -/
theorem TicketGate.Balanced.tickets_eq {gate : Gate} {turn held : Nat} {placed : Waiter → Nat}
    (hb : gate.Balanced turn held placed) (hfree : gate.isLeased = false) :
    gate.tickets = ⟨[()], [], []⟩ := by
  obtain ⟨name, items, waiting, handed⟩ := gate
  have hone : items.length + handed.length + held = 1 := hb.one
  cases items with
  | nil => cases hfree
  | cons a rest =>
    rw [List.length_cons] at hone
    obtain rfl : rest = [] := List.length_eq_zero_iff.1 (by omega)
    obtain rfl : handed = [] := List.length_eq_zero_iff.1 (by omega)
    have hwaiting : waiting = [] := by
      by_contra hne
      cases hb.orderly hne
    subst hwaiting
    rfl

theorem TicketGate.join_of_tickets {gate : Gate} (hg : gate.tickets = ⟨[()], [], []⟩) (w : Waiter) :
    gate.join w = (true, { gate with tickets := {} }) := by
  simp [TicketGate.join, WaitQueue.join, WaitQueue.take?, hg]

theorem TicketGate.release_of_taken {gate : Gate} (hg : gate.tickets = ⟨[()], [], []⟩) :
    ({ gate with tickets := {} } : Gate).release = gate := by
  obtain ⟨name, tickets⟩ := gate
  obtain rfl : tickets = _ := hg
  rfl

namespace PromptStack

variable {s : PromptStack}

/-- Only what becomes of the gate itself matters. -/
theorem modifyGate_congr {g : Nat} {f f' : Gate → Gate} (hf : f (s.gate g) = f' (s.gate g)) :
    s.modifyGate g f = s.modifyGate g f' := by
  have hgates : s.gates.modify g f = s.gates.modify g f' := by
    refine List.ext_getElem? fun i => ?_
    rw [List.getElem?_modify, List.getElem?_modify]
    by_cases hi : g = i
    · subst hi
      cases hget : s.gates[g]? with
      | none => rfl
      | some found =>
        have hfound : s.gate g = found := by simp [gate, List.getD_eq_getElem?_getD, hget]
        rw [hfound] at hf
        simp [hf]
    · simp [hi]
  rw [modifyGate, hgates, modifyGate]

theorem modifyGate_modifyGate (s : PromptStack) (g : Nat) (f f' : Gate → Gate) :
    (s.modifyGate g f).modifyGate g f' = s.modifyGate g fun gate => f' (f gate) := by
  simp only [modifyGate, List.modify_modify_eq]
  rfl

theorem modifyGate_of_eq {g : Nat} {f : Gate → Gate} (hf : f (s.gate g) = s.gate g) :
    s.modifyGate g f = s := by
  have hid : f (s.gate g) = id (s.gate g) := hf
  rw [modifyGate_congr hid, modifyGate, List.modify_id]

end PromptStack

namespace Host

def setting (h : Host) : Setting :=
  ⟨h.engine.uncounted, h.tokens.isFired, h.console.keyAvailable, h.subscriptions.subscribers⟩

def doings (h : Host) : Doings :=
  ⟨h.engine.attempts, h.trace.pipelines, h.stack, h.slot, h.replies, h.locked, h.records, h.commands,
    h.finished⟩

def lane (h : Host) (i : Nat) : Option (List Activation) := (h.thread? i).map Thread.stack

/-! ## What elementary changes come to -/

variable (h : Host)

@[simp] theorem setting_wake (task : Nat) : (h.wake task).setting = h.setting := by
  unfold wake
  split <;> rfl

@[simp] theorem doings_wake (task : Nat) : (h.wake task).doings = h.doings := by
  unfold wake
  split <;> rfl

@[simp] theorem setting_wakeWaiter (w : Option Waiter) :
    (h.wakeWaiter w).setting = h.setting := by
  cases w with
  | none => rfl
  | some w => exact h.setting_wake w.task

@[simp] theorem doings_wakeWaiter (w : Option Waiter) : (h.wakeWaiter w).doings = h.doings := by
  cases w with
  | none => rfl
  | some w => exact h.doings_wake w.task

theorem setting_of_isFired {k : Host} (hrest : k.setting = { h.setting with fired := k.tokens.isFired })
    (hfired : ∀ x, k.tokens.isFired x = h.tokens.isFired x) : k.setting = h.setting := by
  rw [hrest, funext hfired]
  rfl

@[simp] theorem setting_awaitToken (token task : Nat) :
    (h.awaitToken token task).setting = h.setting :=
  h.setting_of_isFired rfl (h.tokens.isFired_await token task)

@[simp] theorem setting_forgetToken (token task : Nat) :
    (h.forgetToken token task).setting = h.setting :=
  h.setting_of_isFired rfl (h.tokens.isFired_forget token task)

@[simp] theorem setting_newToken : h.newToken.2.setting = h.setting :=
  h.setting_of_isFired rfl h.tokens.isFired_new

@[simp] theorem doings_forgetToken (token task : Nat) :
    (h.forgetToken token task).doings = h.doings := rfl

@[simp] theorem setting_setThread (i : Nat) (stack : List Activation) :
    (h.setThread i stack).setting = h.setting := by
  rw [setThread_eq]
  rfl

@[simp] theorem doings_setThread (i : Nat) (stack : List Activation) :
    (h.setThread i stack).doings = h.doings := by
  rw [setThread_eq]
  rfl

theorem setting_sendReply (reply : Nat) (r : RunResult) :
    (h.sendReply reply r).setting = h.setting := by
  unfold sendReply
  split
  · exact setting_wake _ _
  · rfl

section
variable {h} {replies : List Reply} {reply : Reply} {task : Nat}

theorem reply_of_last (hr : h.replies = replies ++ [reply]) :
    h.replies[replies.length]? = some reply := by
  simp [hr]

/-- The latest request is answered. -/
theorem doings_sendReply (hr : h.replies = replies ++ [.open_ task]) (r : RunResult) :
    (h.sendReply replies.length r).doings =
      { h.doings with replies := replies ++ [.sent r] } := by
  have hset : h.replies.set replies.length (.sent r) = replies ++ [.sent r] := by simp [hr]
  rw [sendReply, reply_of_last hr, ← hset]
  exact doings_wake _ _

/-- The answer to the latest request has been taken. -/
theorem doings_closeReply (hr : h.replies = replies ++ [reply]) :
    (h.closeReply replies.length).doings =
      { h.doings with replies := replies ++ [.closed] } := by
  have hset : h.replies.set replies.length .closed = replies ++ [.closed] := by simp [hr]
  rw [← hset]
  rfl

end

/-- A call after a step, while the task also waits for a token that has not fired. -/
def besideToken {σ α : Type} (k : Host) (me token : Nat) : Poll σ α → Host × Poll σ α
  | .blocked => (k.awaitToken token me, .blocked)
  | .next s => (k, .next s)
  | .done a => (k.forgetToken token me, .done a)

theorem orFired_of_unfired {σ α : Type} {h k : Host} {token : Nat} {step : Host → Host × Poll σ α}
    {r : Poll σ α} (hs : step h = (k, r)) (hh : h.tokens.isFired token = false)
    (hk : k.tokens.isFired token = false) (me : Nat) (eager : Bool) (abandon : Host → Host)
    (fired : α) : h.orFired me token eager abandon fired step = k.besideToken me token r := by
  unfold orFired
  dsimp only
  rw [hh, Bool.and_false, if_neg Bool.false_ne_true, hs]
  cases r with
  | blocked =>
    dsimp only
    rw [hk, if_neg Bool.false_ne_true]
    rfl
  | _ => rfl

theorem setting_releaseGate (g : Nat) : (h.releaseGate g).setting = h.setting :=
  setting_wakeWaiter _ _

theorem doings_releaseGate (g : Nat) : (h.releaseGate g).doings =
    { h.doings with stack := h.stack.modifyGate g TicketGate.release } :=
  doings_wakeWaiter _ _

theorem setting_releaseTurn : h.releaseTurn.setting = h.setting := setting_wakeWaiter _ _

theorem doings_releaseTurn : h.releaseTurn.doings =
    { h.doings with slot := { h.slot with turn := h.slot.turn.release } } :=
  doings_wakeWaiter _ _

/-! ## Threads, looked up by their numbers -/

section
variable {h} {i j : Nat} {stack stack' : List Activation}

def stackOf (stack : List Activation) : Option (List Activation) :=
  if stack = [] then none else some stack

theorem lane_of_threads {k : Host} (hk : k.threads = h.threads) (i : Nat) : k.lane i = h.lane i := by
  rw [lane, thread?, hk]
  rfl

theorem lane_setThread_self (hl : h.lane i = some stack) :
    (h.setThread i stack').lane i = stackOf stack' := by
  obtain ⟨th, hth, -⟩ := Option.map_eq_some_iff.1 hl
  by_cases hne : stack' = []
  · subst hne
    have hnone : (h.setThread i []).thread? i = none := by
      rw [thread?, List.find?_eq_none]
      intro u hu
      simpa using (List.mem_filter.1 hu).2
    rw [lane, hnone, stackOf, if_pos rfl]
    rfl
  · rw [lane, thread?_setThread_self hth hne, stackOf, if_neg hne]
    rfl

theorem lane_setThread_ne (hj : j ≠ i) : (h.setThread i stack).lane j = h.lane j := by
  have hfind : (h.setThread i stack).thread? j = h.thread? j := by
    unfold setThread thread?
    split
    · generalize h.threads = threads
      induction threads with
      | nil => rfl
      | cons u rest ih =>
        by_cases hu : u.id = i
        · have huj : u.id ≠ j := fun heq => hj (heq.symm.trans hu)
          rw [List.filter_cons_of_neg (by simpa using hu), List.find?_cons_of_neg (by simpa using huj)]
          exact ih
        · rw [List.filter_cons_of_pos (by simpa using hu), List.find?_cons, List.find?_cons, ih]
    · generalize h.threads = threads
      induction threads with
      | nil => rfl
      | cons u rest ih =>
        rw [List.map_cons]
        by_cases hu : u.id = i
        · have huj : u.id ≠ j := fun heq => hj (heq.symm.trans hu)
          rw [if_pos hu, List.find?_cons_of_neg (by simpa using hj.symm),
            List.find?_cons_of_neg (by simpa using huj)]
          exact ih
        · rw [if_neg hu, List.find?_cons, List.find?_cons, ih]
  rw [lane, hfind, lane]

theorem lane_spawnThread_self (hfresh : h.lane h.nextThread = none) :
    (h.spawnThread stack).lane h.nextThread = some stack := by
  rw [lane, Option.map_eq_none_iff, thread?] at hfresh
  rw [lane, thread?, spawnThread, List.find?_append, hfresh]
  simp

theorem lane_spawnThread_ne (hj : j ≠ h.nextThread) : (h.spawnThread stack).lane j = h.lane j := by
  rw [lane, lane, thread?, thread?, spawnThread, List.find?_append, List.find?_cons_of_neg]
  · simp
  · simpa using hj.symm

theorem lane_of_le (hn : h.Numbered) (hi : h.nextThread ≤ i) : h.lane i = none := by
  rw [lane, Option.map_eq_none_iff, thread?, List.find?_eq_none]
  intro th hth heq
  have hlt := hn.threads_lt th.id (List.mem_map_of_mem hth)
  have : th.id = i := by simpa using heq
  omega

end

/-! ## The threads that may go on -/

/-- A thread that is not there yet, or one that sits in the line editor and has looked for a line. -/
def Free (i : Nat) : Prop :=
  h.nextThread ≤ i ∨ ∃ inv below, h.lane i = some (.edit inv false :: below)

/-- An event that nobody but the next caller has a part in. -/
def Own : Event → Prop
  | .poll t _ => t = h.nextTask
  | .advance i => h.Free i
  | .idle => True
  | .barrier _ _ => True
  | _ => False

structure Still : Prop where
  pending : h.slot.pending = none
  editors : ∀ i inv below, h.lane i = some (.edit inv false :: below) →
    h.engine.lines = [] ∧ (h.engine.cancellable && h.tokens.isFired inv.token) = false

structure Calm : Prop extends h.Still where
  numbered : h.Numbered

/-- A thread as it was before, or one that besides tells of an idle moment and has found nothing to
serve there yet. -/
inductive Spare (i : Nat) : Option (List Activation) → Prop
  | same : Spare i (h.lane i)
  | notify (hfree : h.Free i) (rest : List Nat) :
    Spare i (some (.notify rest :: (h.lane i).getD []))
  | look (hfree : h.Free i) (rest : List Nat) :
    Spare i (some (.serve .look :: .notify rest :: (h.lane i).getD []))
  | take (hfree : h.Free i) (rest : List Nat) :
    Spare i (some (.serve .take :: .notify rest :: (h.lane i).getD []))

structure Staffed (before : Host) (worker : Option (Nat × List Activation)) : Prop where
  spare : ∀ i, (∀ work, worker ≠ some (i, work)) → before.Spare i (h.lane i)
  busy : ∀ i work, worker = some (i, work) → before.Free i ∧ work ≠ [] ∧
    ∃ below, before.Spare i (stackOf below) ∧ h.lane i = some (work ++ below)
  next : before.nextThread ≤ h.nextThread
  fresh : ∀ i, h.nextThread ≤ i → h.lane i = none

/-- In an event one thread goes on, and `d` is what comes of it. -/
structure Turned (k : Host) (i : Nat) (d : Doings) (stack : List Activation) : Prop where
  was : h.lane i ≠ none
  setting : k.setting = h.setting
  doings : k.doings = d
  task? : ∀ t, k.task? t = h.task? t
  lane : k.lane i = stackOf stack
  others : ∀ j, j ≠ i → k.lane j = h.lane j
  nextThread : k.nextThread = h.nextThread

section
variable {h} {before k : Host} {i : Nat} {stack stack' : List Activation}

theorem turned_advance (hl : h.lane i = some stack)
    (hs : Activation.step h stack = some (k, stack')) (hset : k.setting = h.setting) :
    h.Turned (h.apply (.advance i)) i k.doings stack' := by
  obtain ⟨th, hth, rfl⟩ := Option.map_eq_some_iff.1 hl
  have hcalls := (Activation.step_shifts 0 hs).sameCalls
  have hlane (j : Nat) : k.lane j = h.lane j := lane_of_threads hcalls.threads j
  rw [apply_advance hth hs]
  constructor
  · rw [hl]
    exact Option.some_ne_none _
  · rw [setting_setThread, hset]
  · rw [doings_setThread]
  · intro t
    rw [setThread_eq, Host.task?, hcalls.tasks, Host.task?]
  · exact lane_setThread_self ((hlane i).trans hl)
  · intro j hj
    rw [lane_setThread_ne hj, hlane]
  · rw [setThread_eq]
    exact hcalls.nextThread

theorem advance_of_blocked (hl : h.lane i = some stack) (hs : Activation.step h stack = none) :
    h.apply (.advance i) = h := by
  obtain ⟨th, hth, rfl⟩ := Option.map_eq_some_iff.1 hl
  simp only [apply, stepThread, hth, hs]

theorem advance_of_none (hl : h.lane i = none) : h.apply (.advance i) = h := by
  simp only [apply, stepThread, Option.map_eq_none_iff.1 hl]

namespace Calm

theorem lane_eq_none (hc : before.Calm) (hi : before.nextThread ≤ i) : before.lane i = none :=
  lane_of_le hc.numbered hi

theorem stackOf_lane (hc : before.Calm) (hfree : before.Free i) :
    stackOf ((before.lane i).getD []) = before.lane i := by
  rcases hfree with hi | ⟨inv, below, hl⟩
  · rw [hc.lane_eq_none hi]
    rfl
  · rw [hl]
    rfl

end Calm

/-- A thread that has nothing to do with the command goes on, and finds at most the request that has
been left for an idle moment. -/
theorem Spare.advance (hc : before.Calm) (hset : h.setting = before.setting)
    (hfree : before.Free i) (hs : before.Spare i (h.lane i)) :
    h.apply (.advance i) = h ∨
      (∃ stack, h.Turned (h.apply (.advance i)) i h.doings stack ∧ before.Spare i (stackOf stack)) ∨
      ∃ q below, h.slot.pending = some q ∧ before.Spare i (stackOf below) ∧
        h.Turned (h.apply (.advance i)) i { h.doings with slot := { h.slot with pending := none } }
          (.serve (.openPrompt q) :: below) := by
  have hsame : before.Spare i (stackOf ((before.lane i).getD [])) := by
    rw [hc.stackOf_lane hfree]
    exact .same
  have hgoes {stack stack' : List Activation} (hl : h.lane i = some stack)
      (hspare : before.Spare i (some stack')) (hne : stack' ≠ [])
      (hstep : Activation.step h stack = some (h, stack')) :
      ∃ stack, h.Turned (h.apply (.advance i)) i h.doings stack ∧ before.Spare i (stackOf stack) :=
    ⟨stack', turned_advance hl hstep rfl, by rwa [stackOf, if_neg hne]⟩
  generalize hl : h.lane i = l at hs
  cases hs with
  | same =>
    rcases hfree with hi | ⟨inv, below, hedit⟩
    · exact .inl (advance_of_none (hl.trans (hc.lane_eq_none hi)))
    · obtain ⟨hlines, hunfired⟩ := hc.editors i inv below hedit
      have hlines : h.engine.lines = [] :=
        (congrArg (·.engine.lines) hset : h.engine.lines = before.engine.lines).trans hlines
      have hcancel : h.engine.cancellable = before.engine.cancellable :=
        congrArg (·.engine.cancellable) hset
      have hfired : h.tokens.isFired inv.token = before.tokens.isFired inv.token :=
        congrArg (·.fired inv.token) hset
      have hnotify := Spare.notify (.inr ⟨inv, below, hedit⟩) h.subscriptions.subscribers
      rw [hedit] at hnotify
      refine .inr (.inl (hgoes (hl.trans hedit) hnotify (List.cons_ne_nil _ _) ?_))
      rw [← hcancel, ← hfired] at hunfired
      simp only [Activation.step, Activation.stepEdit, hlines, hunfired]
      rfl
  | notify _ rest =>
    cases rest with
    | nil => exact .inr (.inl ⟨_, turned_advance hl rfl rfl, hsame⟩)
    | cons s rest =>
      by_cases halive : h.alive = true
      · refine .inr (.inl (hgoes hl (.look hfree rest) (List.cons_ne_nil _ _) ?_))
        simp only [Activation.step, halive, if_true]
      · refine .inr (.inl (hgoes hl (.notify hfree rest) (List.cons_ne_nil _ _) ?_))
        simp only [Activation.step, halive]
        rfl
  | look _ rest =>
    by_cases hpass : (h.slot.pending.isNone || h.console.keyAvailable) = true
    · refine .inr (.inl (hgoes hl (.notify hfree rest) (List.cons_ne_nil _ _) ?_))
      simp only [Activation.step, Activation.stepServing, hpass, if_true]
    · refine .inr (.inl (hgoes hl (.take hfree rest) (List.cons_ne_nil _ _) ?_))
      simp only [Activation.step, Activation.stepServing, hpass]
      rfl
  | take _ rest =>
    cases hpending : h.slot.pending with
    | none =>
      refine .inr (.inl (hgoes hl (.notify hfree rest) (List.cons_ne_nil _ _) ?_))
      simp only [Activation.step, Activation.stepServing, hpending]
    | some q =>
      have hstep : Activation.step h (.serve .take :: .notify rest :: (before.lane i).getD []) =
          some ({ h with slot := { h.slot with pending := none } },
            .serve (.openPrompt q) :: .notify rest :: (before.lane i).getD []) := by
        simp only [Activation.step, Activation.stepServing, hpending]
      exact .inr (.inr ⟨q, .notify rest :: (before.lane i).getD [], rfl, .notify hfree rest,
        turned_advance hl hstep rfl⟩)

namespace Staffed

variable {worker : Option (Nat × List Activation)} {d : Doings} {work work' below : List Activation}

theorem of_threads (hs : h.Staffed before worker) (hthreads : k.threads = h.threads)
    (hnext : k.nextThread = h.nextThread) : k.Staffed before worker where
  spare i hi := lane_of_threads hthreads i ▸ hs.spare i hi
  busy i work hi := lane_of_threads hthreads i ▸ hs.busy i work hi
  next := hnext ▸ hs.next
  fresh i hi := (lane_of_threads hthreads i).trans (hs.fresh i (hnext ▸ hi))

theorem of_setting (hc : before.Calm) : before.Staffed before none where
  spare _ _ := .same
  busy i work hi := by cases hi
  next := le_rfl
  fresh i hi := hc.lane_eq_none hi

private theorem lt_of_turned (hs : h.Staffed before worker) (ht : h.Turned k i d stack) :
    i < h.nextThread := by
  by_contra hle
  exact ht.was (hs.fresh i (Nat.le_of_not_lt hle))

private theorem fresh_of_turned (hs : h.Staffed before worker) (ht : h.Turned k i d stack) :
    ∀ j, k.nextThread ≤ j → k.lane j = none := by
  intro j hj
  rw [ht.nextThread] at hj
  have hlt := hs.lt_of_turned ht
  rw [ht.others j (by omega), hs.fresh j hj]

/-- Another thread than the worker goes on. -/
theorem spares (hs : h.Staffed before worker) (hi : ∀ work, worker ≠ some (i, work))
    (ht : h.Turned k i d stack) (hspare : before.Spare i (stackOf stack)) :
    k.Staffed before worker where
  spare j hj := by
    by_cases hji : j = i
    · rw [hji, ht.lane]
      exact hspare
    · rw [ht.others j hji]
      exact hs.spare j hj
  busy j work hj := by
    have hji : j ≠ i := by
      rintro rfl
      exact hi work hj
    rw [ht.others j hji]
    exact hs.busy j work hj
  next := ht.nextThread ▸ hs.next
  fresh := hs.fresh_of_turned ht

/-- The worker goes on with its work, or a thread has got some. -/
theorem works (hs : h.Staffed before worker) (hi : ∀ j work, worker = some (j, work) → j = i)
    (ht : h.Turned k i d (work' ++ below)) (hfree : before.Free i) (hne : work' ≠ [])
    (hbelow : before.Spare i (stackOf below)) : k.Staffed before (some (i, work')) where
  spare j hj := by
    have hji : j ≠ i := by
      rintro rfl
      exact hj work' rfl
    rw [ht.others j hji]
    exact hs.spare j fun work hw => hji (hi j work hw)
  busy j work hj := by
    obtain ⟨rfl, rfl⟩ := Prod.mk.inj (Option.some.inj hj)
    exact ⟨hfree, hne, below, hbelow, by rw [ht.lane, stackOf, if_neg (by simp [hne])]⟩
  next := ht.nextThread ▸ hs.next
  fresh := hs.fresh_of_turned ht

/-- The worker has done its work. -/
theorem done (hs : h.Staffed before (some (i, work))) (ht : h.Turned k i d below)
    (hbelow : before.Spare i (stackOf below)) : k.Staffed before none where
  spare j _ := by
    by_cases hji : j = i
    · rw [hji, ht.lane]
      exact hbelow
    · rw [ht.others j hji]
      refine hs.spare j fun work hw => hji ?_
      exact (congrArg Prod.fst (Option.some.inj hw)).symm
  busy j work hj := by cases hj
  next := ht.nextThread ▸ hs.next
  fresh := hs.fresh_of_turned ht

/-- A thread is sent with some work. -/
theorem sent (hc : before.Calm) (hs : h.Staffed before none) (hne : stack ≠ []) :
    (h.spawnThread stack).Staffed before (some (h.nextThread, stack)) where
  spare j hj := by
    have hji : j ≠ h.nextThread := by
      rintro rfl
      exact hj stack rfl
    rw [lane_spawnThread_ne hji]
    exact hs.spare j fun work hw => by cases hw
  busy j work hj := by
    obtain ⟨rfl, rfl⟩ := Prod.mk.inj (Option.some.inj hj)
    refine ⟨.inl hs.next, hne, [], ?_, ?_⟩
    · have hsame : before.Spare h.nextThread (before.lane h.nextThread) := .same
      rwa [hc.lane_eq_none hs.next] at hsame
    · rw [lane_spawnThread_self (hs.fresh _ le_rfl), List.append_nil]
  next := hs.next.trans (Nat.le_succ _)
  fresh j hj := by
    have hlt : h.nextThread < j := hj
    rw [lane_spawnThread_ne hlt.ne', hs.fresh j hlt.le]

/-- A thread is sent that tells of an idle moment. -/
theorem idle (hc : before.Calm) (hs : h.Staffed before worker) :
    (h.apply .idle).Staffed before worker where
  spare j hj := by
    by_cases hji : j = h.nextThread
    · have hnotify := Spare.notify (.inl hs.next) h.subscriptions.subscribers
      rw [hc.lane_eq_none hs.next] at hnotify
      rw [hji, apply, lane_spawnThread_self (hs.fresh _ le_rfl)]
      exact hnotify
    · rw [apply, lane_spawnThread_ne hji]
      exact hs.spare j hj
  busy j work hj := by
    obtain ⟨hfree, hne, below, hbelow, hl⟩ := hs.busy j work hj
    have hji : j ≠ h.nextThread := by
      rintro rfl
      rw [hs.fresh _ le_rfl] at hl
      cases hl
    rw [apply, lane_spawnThread_ne hji]
    exact ⟨hfree, hne, below, hbelow, hl⟩
  next := hs.next.trans (Nat.le_succ _)
  fresh j hj := by
    have hlt : h.nextThread < j := hj
    rw [apply, lane_spawnThread_ne hlt.ne', hs.fresh j hlt.le]

end Staffed

end

end Host

end SharedPrompt
