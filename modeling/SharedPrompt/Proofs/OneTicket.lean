import SharedPrompt.Proofs.KeyboardGate
import SharedPrompt.Proofs.KeyedLists
import SharedPrompt.Proofs.NoOvertaking
import SharedPrompt.TicketGate.Op

/-!
# One ticket, held bare or by a lease

The ticket of a gate is in place, on its way to a caller, held, or lost. Whoever gives it back, or
is dropped with it in hand, passes it to the oldest of those that wait. Once it is lost nobody ever
has it again.
-/

namespace SharedPrompt

def GateOp.begins? : GateOp → Option String
  | .acquire id _ => some id
  | _ => none

def GateAnswer.isTaken : GateAnswer → Bool
  | .got _ | .taken true => true
  | _ => false

namespace TicketGate

variable {ω : Type}

def enroll (g : TicketGate ω) (w : ω) : TicketGate ω :=
  { g with tickets := { g.tickets with waiting := g.tickets.waiting ++ [w] } }

/-- Joining takes the ticket if it is in place, and else goes to the end of the line. -/
theorem join_cases (g : TicketGate ω) (w : ω) :
    (∃ g', g.take? = some g' ∧ g.join w = (true, g')) ∨
      (g.tickets.items = [] ∧ g.join w = (false, g.enroll w)) := by
  rcases g.tickets.join_cases w with ⟨a, rest, hitems, hj⟩ | ⟨hitems, hj⟩
  · exact .inl ⟨{ g with tickets := { g.tickets with items := rest } },
      by simp [take?, WaitQueue.take?, hitems], by simp [join, hj]⟩
  · exact .inr ⟨hitems, by simp [join, hj, enroll]⟩

/-- Taking takes a ticket that is in place, and nothing else. -/
theorem take?_eq_some {g g' : TicketGate ω} (h : g.take? = some g') :
    ∃ rest, g.tickets.items = () :: rest ∧
      g' = { g with tickets := { g.tickets with items := rest } } := by
  obtain ⟨⟨a, q⟩, hq, rfl⟩ := Option.map_eq_some_iff.1 h
  cases hi : g.tickets.items with
  | nil => simp [WaitQueue.take?, hi] at hq
  | cons a rest =>
    simp only [WaitQueue.take?, hi, Option.some.injEq, Prod.mk.injEq] at hq
    exact ⟨rest, rfl, by rw [← hq.2]⟩

theorem size_take {g g' : TicketGate ω} (h : g.take? = some g') : g'.size + 1 = g.size := by
  obtain ⟨rest, hitems, rfl⟩ := take?_eq_some h
  simp only [size, WaitQueue.size, hitems, List.length_cons]
  omega

theorem line_take {g g' : TicketGate ω} (h : g.take? = some g') : g'.line = g.line := by
  obtain ⟨rest, -, rfl⟩ := take?_eq_some h
  rfl

theorem orderly_take {g g' : TicketGate ω} (ho : g.tickets.Orderly) (h : g.take? = some g') :
    g'.tickets.Orderly := by
  obtain ⟨rest, hitems, rfl⟩ := take?_eq_some h
  intro hwaiting
  rw [ho hwaiting] at hitems
  cases hitems

end TicketGate

namespace TicketBook

/-- The operation gives the ticket back: its holder lets go of it, or a caller is dropped that had
it in hand. -/
def givesBack (b : TicketBook) : GateOp → Bool
  | .giveBack id hold => b.holds id hold
  | .drop id => b.woken.contains id
  | _ => false

def loses (b : TicketBook) : GateOp → Bool
  | .forget id => b.holds id .bare
  | _ => false

def lost (b : TicketBook) : List GateOp → Bool
  | [] => false
  | op :: rest => b.loses op || (b.perform op).2.lost rest

/-- The call has begun, and has neither finished nor been handed the ticket. -/
def waits (b : TicketBook) (id : String) : Bool :=
  (b.calls.map (·.1)).contains id && !b.woken.contains id

def queueOp? (b : TicketBook) : GateOp → Option (QueueOp String Unit)
  | .acquire id _ => some (.get id)
  | .tryAcquire _ _ => some .take
  | .poll id => some (.poll id)
  | .drop id => some (.drop id)
  | .giveBack id hold => if b.holds id hold then some (.put ()) else none
  | .forget _ => none

def queueOps (b : TicketBook) : List GateOp → List (QueueOp String Unit)
  | [] => []
  | op :: rest => (b.queueOp? op).toList ++ (b.perform op).2.queueOps rest

def size (b : TicketBook) : Nat := b.gate.size + b.holders.length

inductive Does (b : TicketBook) : GateOp → GateAnswer × TicketBook → Prop where
  | begins {id : String} {hold : Hold} {gate : TicketGate String}
    (hgate : b.gate.take? = some gate) :
    b.Does (.acquire id hold) (.got hold, { b with gate, holders := (id, hold) :: b.holders })
  | takes {id : String} {hold : Hold} {gate : TicketGate String}
    (hgate : b.gate.take? = some gate) :
    b.Does (.tryAcquire id hold) (.taken true, { b with gate, holders := (id, hold) :: b.holders })
  | joins {id : String} {hold : Hold} (hitems : b.gate.tickets.items = []) :
    b.Does (.acquire id hold)
      (.pending, { b with gate := b.gate.enroll id, calls := (id, hold) :: b.calls })
  | collects {id : String} {hold : Hold} {gate : TicketGate String}
    (hcall : b.calls.lookup id = some hold) (hgate : b.gate.collect? id = some gate) :
    b.Does (.poll id)
      (.got hold, { gate, calls := b.calls.erase (id, hold), holders := (id, hold) :: b.holders })
  | leaves {id : String} {hold : Hold} (hcall : b.calls.lookup id = some hold) :
    b.Does (.drop id)
      (.existed true, { b with gate := b.gate.leave id, calls := b.calls.erase (id, hold) })
  | returns {id : String} {hold : Hold} (hheld : (id, hold) ∈ b.holders) :
    b.Does (.giveBack id hold)
      (.existed true, { b with gate := b.gate.release, holders := b.holders.erase (id, hold) })
  | loses {id : String} (hheld : (id, .bare) ∈ b.holders) :
    b.Does (.forget id) (.existed true, { b with holders := b.holders.erase (id, .bare) })
  | nothing {op : GateOp} {answer : GateAnswer} (hop : op.begins? = none)
    (hans : answer.isTaken = false) (hlost : b.loses op = false) : b.Does op (answer, b)

theorem does_perform (b : TicketBook) (op : GateOp) : b.Does op (b.perform op) := by
  have hholds {id : String} {hold : Hold} (h : b.holds id hold = true) : (id, hold) ∈ b.holders :=
    List.contains_iff_mem.1 h
  cases op with
  | acquire id hold =>
    rcases TicketGate.join_cases b.gate id with ⟨gate, ht, hj⟩ | ⟨hitems, hj⟩
    · simpa only [perform, hj] using .begins ht
    · simpa only [perform, hj] using .joins hitems
  | tryAcquire id hold =>
    cases ht : b.gate.take? with
    | none => simpa only [perform, ht] using .nothing rfl rfl rfl
    | some gate => simpa only [perform, ht] using .takes ht
  | poll id =>
    cases hl : b.calls.lookup id with
    | none => simpa only [perform, hl] using .nothing rfl rfl rfl
    | some hold =>
      cases hc : b.gate.collect? id with
      | none => simpa only [perform, hl, hc] using .nothing rfl rfl rfl
      | some gate => simpa only [perform, hl, hc] using .collects hl hc
  | drop id =>
    cases hl : b.calls.lookup id with
    | none => simpa only [perform, hl] using .nothing rfl rfl rfl
    | some hold => simpa only [perform, hl] using .leaves hl
  | giveBack id hold =>
    by_cases hh : b.holds id hold = true
    · simpa only [perform, hh, if_true] using .returns (hholds hh)
    · simpa only [perform, hh] using .nothing rfl rfl rfl
  | forget id =>
    by_cases hh : b.holds id .bare = true
    · simpa only [perform, hh, if_true] using .loses (hholds hh)
    · simpa only [perform, hh] using .nothing rfl rfl (by simpa [TicketBook.loses] using hh)

structure Kept (begun : List String) (b : TicketBook) : Prop where
  names : (b.calls.map (·.1)).Perm b.gate.line
  inOrder : b.gate.line.Sublist begun
  orderly : b.gate.tickets.Orderly

theorem Kept.new (name : String) : (new name).Kept [] :=
  ⟨List.Perm.nil, List.Sublist.refl _, fun h => absurd rfl h⟩

/-! ## One operation -/

private theorem map_erase_of_lookup {l : List (String × Hold)} {id : String} {hold : Hold}
    (h : l.lookup id = some hold) : (l.erase (id, hold)).map (·.1) = (l.map (·.1)).erase id := by
  induction l with
  | nil => cases h
  | cons p rest ih =>
    obtain ⟨v, k⟩ := p
    by_cases hv : v = id
    · subst hv
      obtain rfl : k = hold := by simpa using h
      simp
    · have hid : (id == v) = false := by simpa using Ne.symm hv
      have hrest := ih (by simpa [List.lookup_cons, hid] using h)
      rw [List.erase_cons_tail (by simp [hv]), List.map_cons, List.map_cons,
        List.erase_cons_tail (by simpa using hv), hrest]

variable {b : TicketBook} {begun : List String} {op : GateOp} {r : GateAnswer × TicketBook}

/-- Only the ticket that an operation loses goes out of the books, and none comes in. -/
theorem Does.size_eq (h : b.Does op r) : r.2.size + (b.loses op).toNat = b.size := by
  cases h with
  | begins hgate =>
    have := TicketGate.size_take hgate
    simp only [TicketBook.loses, size, List.length_cons, Bool.toNat_false]
    omega
  | takes hgate =>
    have := TicketGate.size_take hgate
    simp only [TicketBook.loses, size, List.length_cons, Bool.toNat_false]
    omega
  | joins hitems => rfl
  | collects hcall hgate =>
    have := TicketGate.size_collect hgate
    simp only [TicketBook.loses, size, List.length_cons, Bool.toNat_false]
    omega
  | leaves hcall => simp [TicketBook.loses, size]
  | returns hheld =>
    have := List.length_erase_add_one hheld
    simp only [TicketBook.loses, size, TicketGate.size_release, Bool.toNat_false]
    omega
  | loses hheld =>
    have := List.length_erase_add_one hheld
    simp only [TicketBook.loses, holds, List.contains_iff_mem.2 hheld, size, Bool.toNat_true]
    omega
  | nothing hop hans hlost => simp [hlost]

/-- Whoever gets the ticket gets one that is in the books. -/
theorem Does.size_pos (h : b.Does op r) (hans : r.1.isTaken = true) : 0 < b.size := by
  have hsize := h.size_eq
  have hheld : r.2.holders.length ≤ r.2.size := Nat.le_add_left _ _
  suffices 0 < r.2.holders.length by omega
  cases h with
  | begins hgate => exact Nat.succ_pos _
  | takes hgate => exact Nat.succ_pos _
  | collects hcall hgate => exact Nat.succ_pos _
  | nothing hop hno hlost =>
    rw [hno] at hans
    cases hans
  | _ => cases hans

theorem Kept.does (hk : b.Kept begun) (h : b.Does op r) :
    r.2.Kept (begun ++ op.begins?.toList) := by
  obtain ⟨hnames, horder, hne⟩ := hk
  -- Whatever takes a call out of the books takes it out of the line.
  have hout {id : String} {hold : Hold} {gate : TicketGate String} {holders : List (String × Hold)}
      (hl : b.calls.lookup id = some hold) (hline : gate.line = b.gate.line.erase id)
      (ho : gate.tickets.Orderly) :
      ({ gate, calls := b.calls.erase (id, hold), holders } : TicketBook).Kept (begun ++ []) := by
    refine ⟨?_, ?_, ho⟩
    · rw [map_erase_of_lookup hl, hline]
      exact hnames.erase id
    · rw [hline, List.append_nil]
      exact List.erase_sublist.trans horder
  have hin {gate : TicketGate String} {holders : List (String × Hold)} (new : List String)
      (hline : gate.line = b.gate.line) (ho : gate.tickets.Orderly) :
      ({ b with gate, holders } : TicketBook).Kept (begun ++ new) :=
    ⟨by rwa [hline], hline ▸ horder.trans (List.sublist_append_left _ _), ho⟩
  cases h with
  | begins hgate => exact hin _ (TicketGate.line_take hgate) (TicketGate.orderly_take hne hgate)
  | takes hgate => exact hin _ (TicketGate.line_take hgate) (TicketGate.orderly_take hne hgate)
  | @joins id hold hitems =>
    have hline : (b.gate.enroll id).line = b.gate.line ++ [id] := by
      simp only [TicketGate.line, WaitQueue.line, TicketGate.enroll, List.append_assoc]
    refine ⟨?_, ?_, fun _ => hitems⟩
    · rw [hline]
      exact (hnames.cons id).trans (List.perm_append_singleton id _).symm
    · rw [hline]
      exact horder.append_right [id]
  | collects hcall hgate =>
    refine hout hcall (TicketGate.line_collect hgate) ?_
    obtain ⟨⟨a, q⟩, hq, rfl⟩ := Option.map_eq_some_iff.1 hgate
    exact hne.collect hq
  | leaves hcall => exact hout hcall (TicketGate.line_leave _ _) (hne.leave _)
  | returns hheld => exact hin _ (TicketGate.line_release _) (hne.put ())
  | loses hheld => exact hin _ rfl hne
  | nothing hop hans hlost => exact hin _ rfl hne

/-- Whoever waits stands in the line, and those that stand there wait. -/
theorem Kept.waits_iff (hk : b.Kept begun) (hbegun : begun.Nodup) {id : String} :
    b.waits id = true ↔ id ∈ b.gate.tickets.waiting := by
  have hline : (b.woken ++ b.gate.tickets.waiting).Nodup := hbegun.sublist hk.inOrder
  have hknown : id ∈ b.calls.map (·.1) ↔ id ∈ b.woken ∨ id ∈ b.gate.tickets.waiting :=
    hk.names.mem_iff.trans List.mem_append
  simp only [waits, Bool.and_eq_true, Bool.not_eq_true', List.contains_iff_mem,
    ← Bool.not_eq_true, hknown]
  constructor
  · rintro ⟨hwoken | hwaiting, hnot⟩
    · exact absurd hwoken hnot
    · exact hwaiting
  · intro hwaiting
    obtain ⟨-, -, hapart⟩ := List.nodup_append.1 hline
    exact ⟨.inr hwaiting, fun hwoken => hapart id hwoken id hwaiting rfl⟩

/-- The call that has waited longest is the first in line. -/
theorem Kept.find?_waits (hk : b.Kept begun) (hbegun : begun.Nodup) :
    begun.find? b.waits = b.gate.next? :=
  find?_of_sublist hbegun ((List.sublist_append_right _ _).trans hk.inOrder) fun _ _ =>
    hk.waits_iff hbegun

/-- A call that is not in the books is not in line. -/
private theorem Kept.not_mem_line (hk : b.Kept begun) {id : String}
    (hl : b.calls.lookup id = none) : id ∉ b.gate.tickets.line := fun hmem =>
  lookup_eq_none_iff.1 hl (hk.names.mem_iff.2 hmem)

/-- The tickets lie in the queue that the operations come to. -/
theorem Kept.tickets_perform (hk : b.Kept begun) (op : GateOp) :
    (b.perform op).2.gate.tickets =
      (b.gate.tickets.performAll (b.queueOp? op).toList).2 := by
  cases op with
  | acquire id hold =>
    rcases b.gate.tickets.join_cases id with ⟨a, rest, hitems, hj⟩ | ⟨hitems, hj⟩ <;>
      simp [perform, queueOp?, TicketGate.join, WaitQueue.performAll, WaitQueue.perform, hj]
  | tryAcquire id hold =>
    cases hi : b.gate.tickets.items <;>
      simp [perform, queueOp?, TicketGate.take?, WaitQueue.performAll, WaitQueue.perform,
        WaitQueue.take?, hi]
  | poll id =>
    cases hl : b.calls.lookup id with
    | none =>
      simp [perform, queueOp?, WaitQueue.performAll, WaitQueue.perform, hl,
        WaitQueue.collect?_of_not_mem (hk.not_mem_line hl)]
    | some hold =>
      cases hc : b.gate.tickets.collect? id <;>
        simp [perform, queueOp?, TicketGate.collect?, WaitQueue.performAll, WaitQueue.perform, hl,
          hc]
  | drop id =>
    cases hl : b.calls.lookup id with
    | none =>
      simp [perform, queueOp?, WaitQueue.performAll, WaitQueue.perform, hl,
        WaitQueue.leave_of_not_mem (hk.not_mem_line hl)]
    | some hold =>
      simp [perform, queueOp?, TicketGate.leave, WaitQueue.performAll, WaitQueue.perform, hl]
  | giveBack id hold =>
    by_cases hh : b.holds id hold = true <;>
      simp [perform, queueOp?, TicketGate.release, WaitQueue.performAll, WaitQueue.perform, hh]
  | forget id =>
    by_cases hh : b.holds id .bare = true <;> simp [perform, queueOp?, WaitQueue.performAll, hh]

/-- The first ticket to come into a queue goes to whoever is first in line, or is stored. -/
private theorem put_of_size_eq_zero {q : WaitQueue String Unit} (hsize : q.size = 0) :
    match q.next? with
    | some id => (q.put ()).woken = [id]
    | none => (q.put ()).items.isEmpty = false := by
  have hhanded : q.handed = [] := List.length_eq_zero_iff.1 (Nat.eq_zero_of_add_eq_zero hsize).2
  cases hw : q.waiting <;> simp [WaitQueue.next?, WaitQueue.put, WaitQueue.woken, hw, hhanded]

/-- A ticket that is given back goes to the call that is first in line, or is in place again. -/
theorem Kept.passes (hk : b.Kept begun) (hsize : b.size ≤ 1) (hop : b.givesBack op = true) :
    match b.gate.next? with
    | some id => (b.perform op).2.woken = [id]
    | none => (b.perform op).2.gate.isLeased = false := by
  rw [size, TicketGate.size] at hsize
  cases op with
  | giveBack id hold =>
    have hheld := List.length_pos_of_mem (List.contains_iff_mem.1 hop)
    simp only [perform, show b.holds id hold = true from hop, if_true]
    exact put_of_size_eq_zero (by omega)
  | drop id =>
    have hwoken : id ∈ b.gate.tickets.handed.map (·.1) := List.contains_iff_mem.1 hop
    -- The call is in the books, and the ticket in its hands is the only one.
    cases hl : b.calls.lookup id with
    | none => exact absurd (List.mem_append_left _ hwoken) (hk.not_mem_line hl)
    | some hold =>
      cases hc : b.gate.tickets.collect? id with
      | none => exact absurd hwoken (WaitQueue.collect?_eq_none hc)
      | some r =>
        obtain ⟨a, q⟩ := r
        have hcollect := WaitQueue.size_collect hc
        obtain ⟨-, -, hwaiting, -⟩ := WaitQueue.collect?_eq_some hc
        have hput := put_of_size_eq_zero (q := q) (by omega)
        rw [WaitQueue.next?, hwaiting] at hput
        simp only [perform, hl, TicketGate.leave, WaitQueue.leave, hc]
        exact hput
  | _ => cases hop

theorem perform_of_free (hfree : b.gate.isLeased = false) (id : String) (hold : Hold) :
    (b.perform (.acquire id hold)).1 = .got hold ∧
      (b.perform (.tryAcquire id hold)).1 = .taken true := by
  obtain ⟨a, rest, hitems⟩ := List.exists_cons_of_ne_nil (List.isEmpty_eq_false_iff.1 hfree)
  simp [perform, TicketGate.join, TicketGate.take?, WaitQueue.join, WaitQueue.take?, hitems]

theorem perform_of_leased (hleased : b.gate.isLeased = true) (id : String) (hold : Hold) :
    (b.perform (.acquire id hold)).1 = .pending ∧
      (b.perform (.tryAcquire id hold)).1 = .taken false := by
  have hitems : b.gate.tickets.items = [] := List.isEmpty_iff.1 hleased
  simp [perform, TicketGate.join, TicketGate.take?, WaitQueue.join, WaitQueue.take?, hitems]

theorem perform_poll {id : String} {hold : Hold} (hl : b.calls.lookup id = some hold) :
    (b.perform (.poll id)).1 = if b.woken.contains id then .got hold else .pending := by
  have hwoken : id ∈ b.woken ↔ (b.gate.tickets.handed? id).isSome :=
    WaitQueue.handed?_isSome_iff.symm
  cases hh : b.gate.tickets.handed? id <;>
    simp [perform, hl, TicketGate.collect?, WaitQueue.collect?, hwoken, hh]

/-! ## Any operations -/

theorem Kept.performAll (hk : b.Kept begun) (ops : List GateOp) :
    (b.performAll ops).2.Kept (begun ++ ops.filterMap (·.begins?)) := by
  induction ops generalizing b begun with
  | nil => simpa [performAll] using hk
  | cons op rest ih =>
    have hbegun : begun ++ (op :: rest).filterMap (·.begins?) =
        (begun ++ op.begins?.toList) ++ rest.filterMap (·.begins?) := by
      cases h : op.begins? <;> simp [h]
    rw [hbegun]
    exact ih (hk.does (b.does_perform op))

theorem Kept.tickets_performAll (hk : b.Kept begun) (ops : List GateOp) :
    (b.performAll ops).2.gate.tickets = (b.gate.tickets.performAll (b.queueOps ops)).2 := by
  induction ops generalizing b begun with
  | nil => rfl
  | cons op rest ih =>
    rw [queueOps, WaitQueue.performAll_append, ← hk.tickets_perform]
    exact ih (hk.does (b.does_perform op))

/-- The ticket is in the books until it is lost. -/
theorem size_performAll (hsize : b.size ≤ 1) (ops : List GateOp) :
    (b.performAll ops).2.size + (b.lost ops).toNat = b.size := by
  induction ops generalizing b with
  | nil => rfl
  | cons op rest ih =>
    have hstep := (b.does_perform op).size_eq
    have hrest := ih (b := (b.perform op).2) (by omega)
    rw [performAll, lost]
    cases hl : b.loses op with
    | false => rw [Bool.false_or, hrest, ← hstep, hl]; rfl
    | true =>
      rw [hl, Bool.toNat_true] at hstep
      cases hr : (b.perform op).2.lost rest <;> simp [hr] at hrest ⊢ <;> omega

/-- Without a ticket in the books nobody ever gets one. -/
theorem isTaken_of_size_eq_zero (hsize : b.size = 0) (ops : List GateOp) :
    ∀ answer ∈ (b.performAll ops).1, answer.isTaken = false := by
  induction ops generalizing b with
  | nil => simp [performAll]
  | cons op rest ih =>
    have hstep := (b.does_perform op).size_eq
    rw [performAll]
    rintro answer (_ | ⟨_, hmem⟩)
    · rw [← Bool.not_eq_true]
      intro htaken
      have := (b.does_perform op).size_pos htaken
      omega
    · exact ih (by omega) answer hmem

theorem begins_queueOps (b : TicketBook) (ops : List GateOp) :
    (b.queueOps ops).filterMap (·.begins?) = ops.filterMap (·.begins?) := by
  induction ops generalizing b with
  | nil => rfl
  | cons op rest ih =>
    have hop : (b.queueOp? op).toList.filterMap (·.begins?) = op.begins?.toList := by
      cases op with
      | giveBack id hold =>
        cases hh : b.holds id hold <;> simp [queueOp?, hh, QueueOp.begins?, GateOp.begins?]
      | _ => rfl
    rw [queueOps, List.filterMap_append, hop, ih]
    cases h : op.begins? <;> simp [h]

/-- How the one ticket stands in the books `b` after some operations on a new gate. -/
structure OneTicket (name : String) (ops : List GateOp) (b : TicketBook) : Prop where
  /-- The ticket is in place, in a caller's hands, held, or lost, and there is no other. -/
  one : b.gate.tickets.items.length + b.woken.length + b.holders.length +
    ((new name).lost ops).toNat = 1
  free : b.gate.isLeased = false ↔
    b.woken = [] ∧ b.holders = [] ∧ (new name).lost ops = false
  atOnce : b.gate.isLeased = false → ∀ id hold,
    (b.perform (.acquire id hold)).1 = .got hold ∧
      (b.perform (.tryAcquire id hold)).1 = .taken true
  refused : b.gate.isLeased = true → ∀ id hold,
    (b.perform (.acquire id hold)).1 = .pending ∧
      (b.perform (.tryAcquire id hold)).1 = .taken false
  /-- A caller that has been handed the ticket gets it when it polls, and no other call does. -/
  polled : ∀ id hold, b.calls.lookup id = some hold →
    (b.perform (.poll id)).1 = if b.woken.contains id then .got hold else .pending
  called : ∀ id ∈ b.woken, ∃ hold, b.calls.lookup id = some hold
  /-- Who gives the ticket back passes it to the oldest call that waits, or puts it in place. -/
  passes : ∀ op, b.givesBack op = true →
    match (ops.filterMap (·.begins?)).find? b.waits with
    | some id => (b.perform op).2.woken = [id]
    | none => (b.perform op).2.gate.isLeased = false
  /-- Nobody ever gets a ticket again that is lost. -/
  gone : (new name).lost ops = true → ∀ later, ∀ answer ∈ (b.performAll later).1,
    answer.isTaken = false
  /-- The tickets lie in the queue that is kept by one-shot channels. -/
  channels : b.gate.tickets =
    (ChannelQueue.performAll {} (.put () :: (new name).queueOps ops)).2.toQueue

/-- Whatever the callers of a gate do, holding its ticket bare or by a lease, it has one ticket,
which is where the books say and passes on in the order of arrival, until it is lost. -/
theorem oneTicket_performAll (name : String) (ops : List GateOp)
    (hnames : (ops.filterMap (·.begins?)).Nodup) :
    OneTicket name ops ((new name).performAll ops).2 := by
  have hk := (Kept.new name).performAll ops
  have hsize := size_performAll (b := new name) le_rfl ops
  have htickets := (Kept.new name).tickets_performAll ops
  rw [List.nil_append] at hk
  have hchannels : ((new name).gate.tickets.performAll ((new name).queueOps ops)).2 =
      (ChannelQueue.performAll {} (.put () :: (new name).queueOps ops)).2.toQueue := by
    have hbegins : ((.put () :: (new name).queueOps ops).filterMap QueueOp.begins?).Nodup := by
      rw [List.filterMap_cons_none rfl, begins_queueOps]
      exact hnames
    exact congrArg Prod.snd (ChannelQueue.Sound.empty.performAll hbegins (by simp)).2
  generalize hlost : (new name).lost ops = lost at hsize
  generalize ((new name).performAll ops).2 = b at hk hsize htickets ⊢
  rw [show (new name).size = 1 from rfl] at hsize
  have hone : b.gate.tickets.items.length + b.woken.length + b.holders.length + lost.toNat = 1 := by
    simpa [size, TicketGate.size, WaitQueue.size, woken] using hsize
  refine
    { one := hlost ▸ hone
      free := ?_
      atOnce := perform_of_free
      refused := perform_of_leased
      polled := fun id hold => perform_poll
      called := fun id hid => ?_
      passes := fun op hop => ?_
      gone := fun h later => ?_
      channels := htickets.trans hchannels }
  · have hnot : lost = false ↔ lost.toNat = 0 := by cases lost <;> decide
    rw [hlost, TicketGate.isLeased, List.isEmpty_eq_false_iff, ← List.length_pos_iff, hnot,
      ← List.length_eq_zero_iff, ← List.length_eq_zero_iff]
    omega
  · cases hl : b.calls.lookup id with
    | some hold => exact ⟨hold, rfl⟩
    | none => exact absurd (List.mem_append_left _ hid) (hk.not_mem_line hl)
  · rw [hk.find?_waits hnames]
    exact hk.passes (by omega) hop
  · rw [hlost] at h
    exact isTaken_of_size_eq_zero (by rw [h, Bool.toNat_true] at hsize; omega) later

/-- Three calls wait behind a bare holder. One is dropped in line and one with the ticket in its
hands, so that the third has it by a lease; whoever takes it then loses it. -/
def droppedInHand : List GateOp :=
  [.acquire "a" .bare, .acquire "b" .lease, .acquire "c" .bare, .acquire "d" .lease, .drop "c",
    .giveBack "a" .bare, .tryAcquire "e" .bare, .drop "b", .poll "d", .giveBack "d" .lease,
    .tryAcquire "e" .bare, .forget "e", .acquire "f" .bare]

theorem oneTicket_performAll_droppedInHand :
    (droppedInHand.filterMap (·.begins?)).Nodup ∧
      ((new "g").performAll droppedInHand).1 =
        [.got .bare, .pending, .pending, .pending, .existed true, .existed true, .taken false,
          .existed true, .got .lease, .existed true, .taken true, .existed true, .pending] ∧
      (new "g").lost droppedInHand = true ∧
      OneTicket "g" droppedInHand ((new "g").performAll droppedInHand).2 := by
  have hnames : (droppedInHand.filterMap (·.begins?)).Nodup := by decide
  exact ⟨hnames, by decide, by decide, oneTicket_performAll "g" droppedInHand hnames⟩

end TicketBook

end SharedPrompt
