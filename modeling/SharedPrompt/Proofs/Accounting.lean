import SharedPrompt.Proofs.Balance
import SharedPrompt.Proofs.Moves
import SharedPrompt.Proofs.Shifts

/-!
# Every change keeps the books

The books of a host balance with some parts when those of its gates do. The elementary moves of
calls and the elementary shifts of threads keep them balanced.
-/

namespace SharedPrompt

open Relation SharedPrompt.Part

/-- The permits in the engine's own process: for a command the ticket of one prompt, for a reader
that of the line prompt as well. -/
def Permit.Proper (p : Permit) : Prop := ∃ g, g ≠ 1 ∧ (p = ⟨g, none, false⟩ ∨ p = ⟨1, some g, true⟩)

def Permit.prompt (p : Permit) : Nat := p.main.getD p.lease

theorem Permit.prompt_mem_gates (p : Permit) : p.prompt ∈ p.gates := by
  unfold prompt gates
  cases p.main <;> simp

theorem Permit.Proper.prompt_ne_one {p : Permit} (hp : p.Proper) : p.prompt ≠ 1 := by
  obtain ⟨g, hg, rfl | rfl⟩ := hp
  · exact hg
  · exact hg

/-- The permits there can be. Outside the engine's process no permit has a second ticket. -/
def Permit.Fits (inProcess : Bool) (p : Permit) : Prop :=
  if inProcess then p.Proper else p.main = none

namespace Permit.Fits

theorem command {g : Nat} (hg : g ≠ 1) (inProcess : Bool) : Fits inProcess ⟨g, none, false⟩ := by
  cases inProcess with
  | true => exact ⟨g, hg, .inl rfl⟩
  | false => rfl

theorem reader {g : Nat} (hg : g ≠ 1) : Fits true ⟨1, some g, true⟩ := ⟨g, hg, .inr rfl⟩

/-- The second ticket of a permit is that of a prompt, and the first one then that of the line
prompt. -/
theorem lease_of_main {inProcess : Bool} {p : Permit} (hp : p.Fits inProcess) {g : Nat}
    (hg : p.main = some g) : p.lease = 1 ∧ g ≠ 1 := by
  cases inProcess with
  | false => cases hg.symm.trans hp
  | true =>
    obtain ⟨g', hg', rfl | rfl⟩ := hp
    · cases hg
    · cases hg
      exact ⟨rfl, hg'⟩

end Permit.Fits

/-- What a part asks for is there, and it comes to a permit that there can be. -/
structure Part.Known (h : Host) (x : Part) : Prop where
  asked : ∀ g, x.asked? = some g → g < h.stack.gates.length
  fits : ∀ p, x.goal? 1 = some p → p.Fits h.engine.inProcess

namespace Part.Known

variable {h h' : Host} {x : Part}

theorem proper (hx : x.Known h) (hin : h.engine.inProcess = true) (p : Permit)
    (hp : x.goal? 1 = some p) : p.Proper := by
  have hfits := hx.fits p hp
  rwa [hin] at hfits

theorem mono (hx : x.Known h) (hlen : h.stack.gates.length ≤ h'.stack.gates.length)
    (hin : h'.engine.inProcess = h.engine.inProcess) : x.Known h' where
  asked g hg := (hx.asked g hg).trans_le hlen
  fits p hp := by
    rw [hin]
    exact hx.fits p hp

end Part.Known

/-- The books of a host balance with some parts, and these make sense to it. -/
structure Host.Balanced (h : Host) (c : Multiset Part) : Prop where
  books : h.stack.Balanced h.nextTurn (held c) (placed c)
  known : ∀ x ∈ c, x.Known h

private theorem forall_mem_add {P : Part → Prop} {a b : Multiset Part} (ha : ∀ x ∈ a, P x)
    (hb : ∀ x ∈ b, P x) :
    ∀ x ∈ a + b, P x :=
  fun x hx => (Multiset.mem_add.1 hx).elim (ha x) (hb x)

private theorem length_modifyGate (s : PromptStack) (g : Nat) (f : Gate → Gate) :
    (s.modifyGate g f).gates.length = s.gates.length := by
  simp [PromptStack.modifyGate]

namespace Host.Balanced

variable {h h' : Host} {a b c : Multiset Part} {x : Part}

/-- The same prompts and turns that are not drawn again keep the books. -/
theorem sameStack (hb : h.Balanced c) (hs : h'.stack = h.stack) (ht : h.nextTurn ≤ h'.nextTurn)
    (hin : h'.engine.inProcess = h.engine.inProcess) : h'.Balanced c where
  books := by
    rw [hs]
    exact hb.books.later ht
  known x hx := (hb.known x hx).mono (by rw [hs]) hin

theorem quiet (hb : h.Balanced c) (hq : h.Quiet h') : h'.Balanced c :=
  hb.sameStack hq.stack hq.turns hq.inProcess

theorem known_left (hb : h.Balanced ({x} + c)) : x.Known h :=
  hb.known x (Multiset.mem_add.2 (.inl (Multiset.mem_singleton_self x)))

theorem known_right (hb : h.Balanced (a + c)) : ∀ x ∈ c, x.Known h :=
  fun x hx => hb.known x (Multiset.mem_add.2 (.inr hx))

/-- Other parts that have the same tickets and places. -/
theorem exchange (hb : h.Balanced (a + c)) (hheld : held a = held b) (hplaced : placed a = placed b)
    (hknown : ∀ x ∈ b, x.Known h) : h.Balanced (b + c) where
  books := by
    have heldEq : held (b + c) = held (a + c) := by
      funext g
      simp [hheld]
    have placedEq : placed (b + c) = placed (a + c) := by
      funext g w
      simp [hplaced]
    rw [heldEq, placedEq]
    exact hb.books
  known := forall_mem_add hknown hb.known_right

/-- A ticket that only `a` has is given back, and `b` is what `a` has besides. -/
theorem releaseGate {g : Nat} (hb : h.Balanced (a + c))
    (hheld : ∀ g', held a g' = [g].count g' + held b g') (hplaced : placed a = placed b)
    (hknown : ∀ x ∈ b, x.Known h) : (h.releaseGate g).Balanced (b + c) := by
  have hstack : (h.stack.modifyGate g TicketGate.release).Balanced h.nextTurn (held (b + c))
      (placed (b + c)) := by
    refine PromptStack.Balanced.release ?_
    have heldEq : (fun g' => [g].count g' + held (b + c) g') = held (a + c) := by
      funext g'
      simp only [held_add, hheld g']
      omega
    have placedEq : placed (b + c) = placed (a + c) := by
      funext g w
      simp [hplaced]
    rw [heldEq, placedEq]
    exact hb.books
  have hset : ({ h with stack := h.stack.modifyGate g TicketGate.release } : Host).Balanced
      (b + c) :=
    ⟨hstack, fun x hx =>
      (forall_mem_add hknown hb.known_right x hx).mono (length_modifyGate _ _ _).ge rfl⟩
  exact hset.quiet (Host.aside_wakeWaiter _ _).quiet

/-- The one ticket that a part has left is given back. -/
theorem releaseRest {main : Option Nat} (hb : h.Balanced (a + c))
    (hheld : ∀ g, held a g = main.toList.count g) (hplaced : ∀ g w, placed a g w = 0) :
    (main.toList.foldl Host.releaseGate h).Balanced c := by
  have hzero : placed a = placed 0 := by
    funext g w
    exact hplaced g w
  rw [← zero_add c]
  cases main with
  | none =>
    exact hb.exchange (by funext g; exact hheld g) hzero fun x hx =>
      absurd hx (Multiset.notMem_zero x)
  | some g => exact hb.releaseGate hheld hzero fun x hx => absurd hx (Multiset.notMem_zero x)

theorem giveFirst {p : Permit} (hb : h.Balanced ({.permit p} + c)) :
    (h.releaseGate p.lease).Balanced ({.remnant p} + c) := by
  refine hb.releaseGate (fun g => ?_) rfl fun x hx => ?_
  · simp only [held_singleton, tickets, Permit.gates, List.count_cons, List.count_nil]
    omega
  · rw [Multiset.mem_singleton.1 hx]
    exact ⟨fun _ hg => (by cases hg), hb.known_left.fits⟩

theorem giveRest {p : Permit} (hb : h.Balanced ({.remnant p} + c)) :
    (p.main.toList.foldl Host.releaseGate h).Balanced c :=
  hb.releaseRest (fun g => by simp [tickets]) fun g w => by simp [places]

theorem releasePermit {p : Permit} (hb : h.Balanced ({.permit p} + c)) :
    (h.releasePermit p).Balanced c :=
  hb.giveFirst.giveRest

end Host.Balanced

/-! ## Taking a permit -/

namespace Purpose

def part (line gate : Nat) : Purpose → Part
  | command => .permit ⟨gate, none, false⟩
  | main => .lease (.ask line (.line (some gate)))
  | Purpose.line held => .permit ⟨gate, held, true⟩

variable (line gate : Nat) (purpose : Purpose)

theorem leaseParts_granted (l : Leasing) :
    (purpose.granted line gate).leaseParts l = {purpose.part line gate} := by
  cases purpose <;> rfl

theorem tickets_part : (purpose.part line gate).tickets = gate :: purpose.held.toList := by
  cases purpose <;> rfl

theorem places_part : (purpose.part line gate).places = [] := by
  cases purpose <;> rfl

theorem asked?_part {g : Nat} (hg : (purpose.part line gate).asked? = some g) : g = line := by
  cases purpose with
  | main => exact (Option.some.inj hg).symm
  | _ => cases hg

/-- Taking a ticket on the way does not change where the lease goes. -/
theorem goal?_part : (purpose.part line gate).goal? line = some (purpose.permit line gate) := by
  cases purpose <;> rfl

end Purpose

namespace Leasing

variable {h : Host} {c : Multiset Part}

theorem choose_balanced (me : Nat) (readLine : Bool)
    (hb : h.Balanced ({.lease (.choose readLine)} + c)) :
    ((choose readLine).step h me).1.Balanced
      (((choose readLine).step h me).2.leaseParts (choose readLine) + c) := by
  have hs := hb.books.sound
  have hask (g : Nat) (purpose : Purpose) (hg : g < h.stack.gates.length)
      (hnone : purpose.held = none)
      (hfits : (purpose.permit 1 g).Fits h.engine.inProcess) :
      h.Balanced ({.lease (.ask g purpose)} + c) := by
    refine hb.exchange ?_ ?_ fun x hx => ?_
    · funext g'
      simp [Part.tickets, Leasing.tickets, hnone]
    · funext g' w
      simp [Part.places, Leasing.places]
    · rw [Multiset.mem_singleton.1 hx]
      refine ⟨fun g' hg' => ?_, fun p hp => ?_⟩
      · rwa [← Option.some.inj hg']
      · rwa [← Option.some.inj hp]
  have htop : h.stack.top.gate ≠ 1 := by
    rcases hs.top_cases with ⟨-, htop⟩ | ⟨-, htop⟩ <;> omega
  cases readLine with
  | false => exact hask _ _ hs.top_lt rfl (.command htop _)
  | true =>
    simp only [step, Poll.leaseParts, Poll.parts]
    split
    next hin =>
      refine hask _ _ hs.top_lt rfl ?_
      rw [hin]
      exact .reader htop
    next hout =>
      refine hask _ _ hs.line_lt rfl ?_
      rw [Bool.eq_false_iff.2 hout]
      rfl

/-- A ticket that is taken is one more ticket of the lease. -/
theorem granted_balanced {g : Nat} {purpose : Purpose} (hs : h.stack.Sound)
    (hbooks : h.stack.Balanced h.nextTurn
      (fun g' => [g].count g' + (purpose.held.toList.count g' + held c g')) (placed c))
    (hknown : ∀ x ∈ c, x.Known h) (hfits : (purpose.permit 1 g).Fits h.engine.inProcess)
    (l : Leasing) :
    h.Balanced ((purpose.granted h.stack.line.gate g).leaseParts l + c) := by
  rw [Purpose.leaseParts_granted]
  refine ⟨?_, forall_mem_add (fun x hx => ?_) hknown⟩
  · have heldEq : held ({purpose.part h.stack.line.gate g} + c)
        = fun g' => [g].count g' + (purpose.held.toList.count g' + held c g') := by
      funext g'
      rw [held_add, held_singleton, Purpose.tickets_part, ← List.singleton_append,
        List.count_append, add_assoc]
    rw [heldEq, placed_singleton_add_of_nil c (Purpose.places_part _ _ _)]
    exact hbooks
  · rw [Multiset.mem_singleton.1 hx]
    refine ⟨fun g' hg' => ?_, fun p hp => ?_⟩
    · rw [Purpose.asked?_part _ _ _ hg']
      exact hs.line_lt
    · rw [hs.line, Purpose.goal?_part] at hp
      rwa [← Option.some.inj hp]

theorem ask_balanced (me g : Nat) (purpose : Purpose)
    (hb : h.Balanced ({.lease (.ask g purpose)} + c)) :
    ((ask g purpose).step h me).1.Balanced
      (((ask g purpose).step h me).2.leaseParts (ask g purpose) + c) := by
  have hg : g < h.stack.gates.length := hb.known_left.asked g rfl
  have hbooks := hb.books
  rw [held_singleton_add, placed_singleton_add_of_nil c rfl] at hbooks
  simp only [step, Host.drawTurn, Host.joinGate]
  have hknown (f : Gate → Gate) (x : Part) (hx : x.Known h) :
      x.Known { h with nextTurn := h.nextTurn + 1, stack := h.stack.modifyGate g f } :=
    hx.mono (length_modifyGate _ _ _).ge rfl
  rcases hbooks.join hg ⟨me, h.nextTurn⟩ rfl with ⟨htaken, hnew⟩ | ⟨hwait, hnew⟩
  · simp only [htaken]
    exact granted_balanced
      (h := { h with nextTurn := h.nextTurn + 1, stack := h.stack.modifyGate g _ })
      hnew.sound hnew (fun x hx => hknown _ x (hb.known_right x hx)) (hb.known_left.fits _ rfl) _
  · simp only [hwait, Poll.leaseParts, Poll.parts]
    refine ⟨?_, forall_mem_add (fun x hx => ?_) fun x hx => hknown _ x (hb.known_right x hx)⟩
    · rw [held_singleton_add, placed_singleton_add]
      exact hnew
    · rw [Multiset.mem_singleton.1 hx]
      exact ⟨fun _ hg => (by cases hg), hb.known_left.fits⟩

section
variable {g : Nat} {w : Waiter} {purpose : Purpose}

private theorem wait_books (hb : h.Balanced ({.lease (.wait g w purpose)} + c)) :
    h.stack.Balanced h.nextTurn (fun g' => purpose.held.toList.count g' + held c g')
      fun g' v => [(g, w)].count (g', v) + placed c g' v := by
  have hbooks := hb.books
  rwa [held_singleton_add, placed_singleton_add] at hbooks

theorem wait_balanced (me : Nat) (hb : h.Balanced ({.lease (.wait g w purpose)} + c)) :
    ((wait g w purpose).step h me).1.Balanced
      (((wait g w purpose).step h me).2.leaseParts (wait g w purpose) + c) := by
  simp only [step]
  split
  next h' hc =>
    obtain ⟨gate, hgate, rfl⟩ := Option.map_eq_some_iff.1 hc
    have hnew := (wait_books hb).collect hgate
    exact granted_balanced (h := { h with stack := h.stack.modifyGate g fun _ => gate })
      hnew.sound hnew
      (fun x hx => (hb.known_right x hx).mono (length_modifyGate _ _ _).ge rfl)
      (hb.known_left.fits _ rfl) _
  next => exact hb

theorem step_balanced (me : Nat) (l : Leasing) (hb : h.Balanced ({.lease l} + c)) :
    (l.step h me).1.Balanced ((l.step h me).2.leaseParts l + c) := by
  cases l with
  | choose readLine => exact choose_balanced me readLine hb
  | ask g purpose => exact ask_balanced me g purpose hb
  | wait g w purpose => exact wait_balanced me hb

/-- Out of the line, a lease has the tickets it had and could ask again. -/
theorem leaveGate_balanced (hb : h.Balanced ({.lease (.wait g w purpose)} + c)) :
    (h.leaveGate g w).Balanced ({.lease (.ask g purpose)} + c) := by
  have hbooks := wait_books hb
  have hg : g < h.stack.gates.length :=
    hbooks.lt_of_placed (w := w) (by simp only [List.count_singleton_self]; omega)
  have hset : ({ h with stack := h.stack.modifyGate g (·.leave w) } : Host).Balanced
      ({.lease (.ask g purpose)} + c) := by
    refine ⟨?_, forall_mem_add (fun x hx => ?_) fun x hx =>
      (hb.known_right x hx).mono (length_modifyGate _ _ _).ge rfl⟩
    · rw [held_singleton_add, placed_singleton_add_of_nil c rfl]
      exact hbooks.leave
    · rw [Multiset.mem_singleton.1 hx]
      refine ⟨fun g' hg' => ?_, hb.known_left.fits⟩
      rw [length_modifyGate, ← Option.some.inj hg']
      exact hg
  exact hset.quiet (Host.aside_wakeWaiter _ _).quiet

/-- A lease that is given up leaves nothing behind. -/
theorem abandon_balanced (l : Leasing) (hb : h.Balanced ({.lease l} + c)) :
    (l.abandon h).Balanced c := by
  cases l with
  | choose readLine =>
    change ((none : Option Nat).toList.foldl Host.releaseGate h).Balanced c
    exact hb.releaseRest (fun g => by simp [Part.tickets, Leasing.tickets])
      fun g w => by simp [Part.places, Leasing.places]
  | ask g purpose =>
    exact hb.releaseRest (fun g' => by simp [Part.tickets, Leasing.tickets])
      fun g' v => by simp [Part.places, Leasing.places]
  | wait g w purpose =>
    exact (leaveGate_balanced hb).releaseRest (fun g' => by simp [Part.tickets, Leasing.tickets])
      fun g' v => by simp [Part.places, Leasing.places]

end

end Leasing

/-! ## Moves and shifts -/

namespace Host

/-- The parts of threads and owners are those of the same threads and owners. -/
theorem SameCalls.afield {h h' : Host} (hs : h.SameCalls h') : h'.afield = h.afield := by
  rw [Host.afield, Host.afield, hs.threads, hs.permits]

theorem afield_dispatch (h : Host) (me : Nat) (p : Permit) (job : Job) :
    (h.dispatch me p job).2.afield = {.permit p} + h.afield := by
  simp only [afield, dispatch, newReply, spawnThread, List.map_append, List.sum_append,
    List.map_cons, List.map_nil, List.sum_singleton, Activation.partsOf_cons,
    Activation.partsOf_nil, Activation.parts, Errand.parts, add_zero]
  rw [add_right_comm, add_comm]

def Books (a : Host × Multiset Part) : Prop := a.1.Balanced (a.1.afield + a.2)

theorem books_of_sameCalls {h h' : Host} {c' : Multiset Part} (hs : h.SameCalls h')
    (hb : h'.Balanced (h.afield + c')) : Books (h', c') := by
  unfold Books
  rwa [hs.afield]

end Host

/-- What a call does with its leases keeps the books. -/
theorem LeaseMove.books {a b : Host × Multiset Part} (hm : LeaseMove a b) (hb : Host.Books a) :
    Host.Books b := by
  cases hm with
  | aside c ha => exact Host.books_of_sameCalls ha.sameCalls (hb.quiet ha.quiet)
  | begin h c readLine =>
    have hzero : h.Balanced (0 + (h.afield + c)) := by rwa [zero_add]
    have hnew := hzero.exchange (b := {.lease (.choose readLine)})
      (by funext g; simp [tickets, Leasing.tickets])
      (by funext g w; simp [places, Leasing.places]) fun x hx => by
        rw [Multiset.mem_singleton.1 hx]
        exact ⟨fun _ hg => (by cases hg), fun _ hp => (by cases hp)⟩
    unfold Host.Books
    rwa [add_left_comm]
  | advance h c me l =>
    unfold Host.Books at hb
    rw [add_left_comm] at hb
    refine Host.books_of_sameCalls (l.sameCalls_step h me) ?_
    rw [add_left_comm]
    exact l.step_balanced me hb
  | leave h c l =>
    unfold Host.Books at hb
    rw [add_left_comm] at hb
    exact Host.books_of_sameCalls (l.sameCalls_abandon h) (l.abandon_balanced hb)
  | giveBack h c p =>
    unfold Host.Books at hb
    rw [add_left_comm] at hb
    exact Host.books_of_sameCalls (h.sameCalls_releasePermit p) hb.releasePermit

/-- What a call does keeps the books. -/
theorem Move.books {a b : Host × Multiset Part} (hm : Move a b) (hb : Host.Books a) :
    Host.Books b := by
  cases hm with
  | lease hm => exact hm.books hb
  | dispatch h c me p job =>
    unfold Host.Books at hb ⊢
    rw [add_left_comm] at hb
    rw [Host.afield_dispatch, add_assoc]
    exact hb.sameStack rfl le_rfl rfl

theorem Moves.books {a b : Host × Multiset Part} (hm : Moves a b) (hb : Host.Books a) :
    Host.Books b := by
  induction hm with
  | refl => exact hb
  | tail _ hlast ih => exact hlast.books ih

/-- What a thread or an owner does keeps the books. -/
theorem Shift.balanced {a b : Host × Multiset Part} (hs : Shift a b) (hb : a.1.Balanced a.2) :
    b.1.Balanced b.2 := by
  cases hs with
  | quiet c hq => exact hb.quiet hq
  | push h c pipeline debugger =>
    refine ⟨hb.books.push pipeline debugger, fun x hx => (hb.known x hx).mono ?_ rfl⟩
    simp [PromptStack.push]
  | pushLeased h c pipeline debugger =>
    refine ⟨?_, forall_mem_add (fun x hx => ?_) fun x hx => (hb.known x hx).mono ?_ rfl⟩
    · rw [held_singleton_add, placed_singleton_add_of_nil c rfl]
      exact hb.books.pushLeased pipeline debugger
    · rw [Multiset.mem_singleton.1 hx]
      refine ⟨fun _ hg => (by cases hg), fun p hp => ?_⟩
      rw [← Option.some.inj hp]
      exact .command (Nat.ne_of_gt hb.books.sound.count) _
    · simp [PromptStack.pushLeased, PromptStack.push]
  | pop h c => exact ⟨hb.books.pop, fun x hx => (hb.known x hx).mono le_rfl rfl⟩
  | giveFirst h c p => exact hb.giveFirst
  | giveRest h c p => exact hb.giveRest

theorem Shifts.balanced {a b : Host × Multiset Part} (hs : Shifts a b) (hb : a.1.Balanced a.2) :
    b.1.Balanced b.2 := by
  induction hs with
  | refl => exact hb
  | tail _ hlast ih => exact hlast.balanced ih

end SharedPrompt
