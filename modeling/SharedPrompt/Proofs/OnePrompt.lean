import Mathlib.Algebra.Order.BigOperators.Group.List
import Mathlib.Data.Multiset.OrderedMonoid
import SharedPrompt.Proofs.Growth
import SharedPrompt.Proofs.Running
import SharedPrompt.Proofs.TicketConservation

/-!
# While no prompt is opened

As long as no prompt has been opened over the bottom, every permit in the engine's process is one
for the bottom prompt. So whoever runs a command, or is about to, holds the one ticket of that
prompt, and the line prompt's ticket is free for the reader among them.
-/

namespace SharedPrompt

namespace Execution

/-- Whether an execution has the ticket of its prompt and has not handed it to a thread. -/
def owns : Execution → Bool
  | leasing (.ask _ (.line _)) _ => true
  | leasing (.wait _ _ (.line _)) _ => true
  | granted _ _ => true
  | _ => false

end Execution

namespace Activation

/-- Whether an activation works under a permit and has not begun to give it back. -/
def underPermit? : Activation → Option Permit
  | errand .start work => some work.permit
  | errand .lock work => some work.permit
  | errand .called work => some work.permit
  | _ => none

theorem parts_of_underPermit {a : Activation} {p : Permit} (ha : a.underPermit? = some p) :
    a.parts = {.permit p} := by
  unfold underPermit? at ha
  split at ha <;> cases ha <;> rfl

end Activation

/-! ## Where parts are found -/

theorem Task.parts_execution_le {task : Task} {run : Execution}
    (hrun : task.execution? = some run) : run.parts ≤ task.parts := by
  unfold execution? at hrun
  split at hrun
  · cases hrun
    exact le_rfl
  · cases hrun
    exact le_rfl
  · cases hrun
    exact Multiset.le_add_left _ _
  · cases hrun

namespace Host

variable {h : Host}

theorem parts_threads (h : Host) : (h.threads.map fun t => Activation.partsOf t.stack).sum =
    ((h.threads.flatMap Thread.stack).map Activation.parts).sum := by
  induction h.threads with
  | nil => rfl
  | cons t rest ih =>
    rw [List.map_cons, List.sum_cons, ih, List.flatMap_cons, List.map_append, List.sum_append]
    rfl

theorem execution_le {t : Nat} {run : Execution} (hrun : h.execution? t = some run) :
    run.parts ≤ (h.tasks.map fun t => t.2.parts).sum := by
  obtain ⟨task, ht, hexec⟩ := Option.bind_eq_some_iff.1 hrun
  exact (Task.parts_execution_le hexec).trans
    (List.le_sum_of_mem
      (List.mem_map_of_mem (f := fun t : Nat × Task => t.2.parts) (mem_of_lookup ht)))

theorem activation_le {th : Thread} (hth : th ∈ h.threads) {a : Activation} (ha : a ∈ th.stack) :
    a.parts ≤ h.afield := by
  rw [afield, parts_threads]
  exact (List.le_sum_of_mem (List.mem_map_of_mem (List.mem_flatMap.2 ⟨th, hth, ha⟩))).trans
    (Multiset.le_add_right _ _)

theorem mem_parts_of_leasing {t : Nat} {l : Leasing} {job : Job}
    (hrun : h.execution? t = some (.leasing l job)) : .lease l ∈ h.parts :=
  Multiset.singleton_le.1 ((execution_le hrun).trans (Multiset.le_add_right _ _))

theorem activation_add_activation_le {th th' : Thread} (hth : th ∈ h.threads)
    (hth' : th' ∈ h.threads) {a b : Activation} (ha : a ∈ th.stack) (hb : b ∈ th'.stack)
    (hne : b ≠ a) : a.parts + b.parts ≤ h.parts := by
  obtain ⟨pre, post, hsplit⟩ := List.append_of_mem (List.mem_flatMap.2 ⟨th, hth, ha⟩)
  have hmem : b ∈ pre ++ post := by
    have hb := List.mem_flatMap.2 ⟨th', hth', hb⟩
    rw [hsplit] at hb
    simpa [hne] using hb
  have hboth : a.parts + b.parts ≤ ((h.threads.flatMap Thread.stack).map Activation.parts).sum := by
    rw [hsplit, List.map_append, List.map_cons, List.sum_append, List.sum_cons, add_left_comm,
      ← List.sum_append, ← List.map_append]
    exact add_le_add_right (List.le_sum_of_mem (List.mem_map_of_mem hmem)) _
  rw [parts, afield, parts_threads]
  exact (hboth.trans (Multiset.le_add_right _ _)).trans (Multiset.le_add_left _ _)

/-! ## Lines that move -/

/-- Nobody in a line waits for somebody who is gone: whoever is in line is a call that still waits,
and when nobody holds the ticket the first in line has been handed it. Whoever waits for the
line prompt in the engine's process does not wait at all. -/
structure Moving (h : Host) : Prop where
  present : ∀ g, ∀ w ∈ (h.stack.gate g).line, ∃ x ∈ h.parts, (g, w) ∈ x.places
  next : ∀ g, h.held g = 0 → ∀ w ∈ (h.stack.gate g).line.head?,
    ((h.stack.gate g).tickets.handed? w).isSome
  second : ∀ x ∈ h.parts, ∀ w, (1, w) ∈ x.places → ((h.stack.gate 1).tickets.handed? w).isSome

namespace WellKept

theorem exists_place (hk : h.WellKept) {g : Nat} {w : Waiter} (hw : w ∈ (h.stack.gate g).line) :
    ∃ x ∈ h.parts, (g, w) ∈ x.places := by
  by_contra hnone
  have hline := (hk.balanced.books.gates g).line w
  have hzero : Part.placed h.parts g w = 0 := by
    refine Multiset.sum_eq_zero fun n hn => ?_
    obtain ⟨x, hx, rfl⟩ := Multiset.mem_map.1 hn
    exact List.count_eq_zero.2 fun hmem => hnone ⟨x, hx, hmem⟩
  have hpos := List.count_pos_iff.2 hw
  omega

theorem exists_ticket {c : Multiset Part} {g : Nat} (hheld : 0 < Part.held c g) :
    ∃ x ∈ c, g ∈ x.tickets := by
  by_contra hnone
  have hzero : Part.held c g = 0 := by
    refine Multiset.sum_eq_zero fun n hn => ?_
    obtain ⟨x, hx, rfl⟩ := Multiset.mem_map.1 hn
    exact List.count_eq_zero.2 fun hmem => hnone ⟨x, hx, hmem⟩
  omega

/-- A ticket that nobody holds has been handed to the first in line. -/
theorem handed_first (hk : h.WellKept) {g : Nat} (hheld : h.held g = 0) {w : Waiter}
    (hw : w ∈ (h.stack.gate g).line.head?) : ((h.stack.gate g).tickets.handed? w).isSome := by
  have hgate := hk.balanced.books.gates g
  have hone := hgate.one
  simp only [Host.held] at hheld
  simp only [hheld, TicketGate.size, WaitQueue.size, add_zero] at hone
  simp only [TicketGate.line, WaitQueue.line] at hw
  rw [WaitQueue.handed?_isSome_iff]
  cases hhanded : (h.stack.gate g).tickets.handed with
  | nil =>
    rw [hhanded, List.map_nil, List.nil_append] at hw
    have hitems := hgate.orderly fun hnil => by
      rw [hnil] at hw
      cases hw
    rw [hitems, hhanded] at hone
    cases hone
  | cons v rest =>
    rw [hhanded, List.map_cons, List.cons_append, List.head?_cons] at hw
    rw [List.map_cons, ← Option.some.inj hw]
    exact List.mem_cons_self

end WellKept

/-! ## One gate for all -/

/-- A host in the engine's process in which no prompt was ever opened. -/
structure Single (h : Host) : Prop where
  kept : h.WellKept
  inProcess : h.engine.inProcess = true
  gates : h.stack.gates.length = 2

/-- A run that opens no prompt has opened none before. -/
theorem gates_before (hk : h.WellKept) {before past : List Event} (hbefore : before <+: past)
    (hnone : (h.run past).stack.gates.length = 2) : (h.run before).stack.gates.length = 2 := by
  obtain ⟨rest, rfl⟩ := hbefore
  have hgrows := ((h.run before).grows_run rest).gates
  have hcount := (hk.run before).balanced.books.sound.count
  rw [show h.run (before ++ rest) = (h.run before).run rest from List.foldl_append] at hnone
  omega

namespace Single

theorem of_run (hk : h.WellKept) (hin : h.engine.inProcess = true) {past : List Event}
    (hnone : (h.run past).stack.gates.length = 2) : (h.run past).Single :=
  ⟨hk.run past, (h.inProcess_run past).trans hin, hnone⟩

/-- Whoever has the ticket of the prompt that it is for has the ticket of the bottom. -/
theorem held_bottom (hs : h.Single) {x : Part} (hx : x ∈ h.parts) {p : Permit}
    (hgoal : x.goal? 1 = some p) (hmem : p.prompt ∈ x.tickets) : 0 < Part.held {x} 0 := by
  have hlt := hs.kept.balanced.books.lt_of_held (Part.held_pos _ hx hmem)
  have hne := ((hs.kept.balanced.known x hx).proper hs.inProcess p hgoal).prompt_ne_one
  rw [hs.gates] at hlt
  have hzero : p.prompt = 0 := by omega
  exact Part.held_pos 0 (Multiset.mem_singleton_self x) (hzero ▸ hmem)

theorem permit_held (hs : h.Single) {p : Permit} (hp : ({.permit p} : Multiset Part) ≤ h.parts) :
    0 < Part.held {.permit p} 0 :=
  hs.held_bottom (Multiset.singleton_le.1 hp) rfl p.prompt_mem_gates

theorem activation_held (hs : h.Single) {th : Thread} (hth : th ∈ h.threads) {a : Activation}
    (ha : a ∈ th.stack) {p : Permit} (hp : a.underPermit? = some p) : 0 < Part.held a.parts 0 := by
  have hle : a.parts ≤ h.parts := (activation_le hth ha).trans (Multiset.le_add_left _ _)
  rw [Activation.parts_of_underPermit hp] at hle ⊢
  exact hs.permit_held hle

theorem execution_held (hs : h.Single) {t : Nat} {run : Execution}
    (hrun : h.execution? t = some run) (howns : run.owns = true) : 0 < Part.held run.parts 0 := by
  have hle : run.parts ≤ h.parts := (execution_le hrun).trans (Multiset.le_add_right _ _)
  -- On its way from the prompt's ticket to that of the line prompt, a lease has the former.
  have hline (l : Leasing) (g : Nat) (main : Option Nat) (hmem : .lease l ∈ h.parts)
      (hgoal : l.goal? 1 = some ⟨g, main, true⟩) (htickets : l.tickets = main.toList) :
      0 < Part.held {.lease l} 0 := by
    obtain ⟨g', -, heq | heq⟩ := (hs.kept.balanced.known _ hmem).proper hs.inProcess _ hgoal
    · cases heq
    · cases heq
      exact hs.held_bottom hmem hgoal (by simp [Part.tickets, htickets, Permit.prompt])
  cases run with
  | granted p job => exact hs.permit_held hle
  | leasing l job =>
    have hmem := mem_parts_of_leasing hrun
    cases l with
    | choose readLine => cases howns
    | ask g purpose =>
      cases purpose with
      | line main => exact hline _ g main hmem rfl rfl
      | _ => cases howns
    | wait g w purpose =>
      cases purpose with
      | line main => exact hline _ g main hmem rfl rfl
      | _ => cases howns
  | _ => cases howns

/-- A prompt's gate that somebody asks or waits at is that of the bottom. -/
theorem gate_eq_zero (hs : h.Single) {l : Leasing} (hl : .lease l ∈ h.parts) {g : Nat} {p : Permit}
    (hgoal : l.goal? 1 = some p) (hp : p.prompt = g) (hlt : g < h.stack.gates.length) : g = 0 := by
  have hne := ((hs.kept.balanced.known _ hl).proper hs.inProcess p hgoal).prompt_ne_one
  rw [hs.gates] at hlt
  omega

/-- Whoever waits for the line prompt has the ticket of the bottom. -/
theorem waiting_held (hs : h.Single) {x : Part} (hx : x ∈ h.parts) {w : Waiter}
    (hw : (1, w) ∈ x.places) : 0 < Part.held {x} 0 := by
  cases x with
  | lease l =>
    cases l with
    | wait g v purpose =>
      obtain ⟨rfl, rfl⟩ := Prod.mk.inj (List.mem_singleton.1 hw)
      obtain ⟨g, hg, heq | heq⟩ := (hs.kept.balanced.known _ hx).proper hs.inProcess _ rfl
      · cases purpose with
        | command =>
          cases heq
          exact absurd rfl hg
        | _ => cases heq
      · cases purpose with
        | command => cases heq
        | main =>
          cases heq
          exact absurd rfl hg
        | line main =>
          cases heq
          exact hs.held_bottom hx rfl (List.mem_singleton_self _)
    | _ => cases hw
  | _ => cases hw

/-- Whoever has the ticket of the line prompt has that of the bottom as well. -/
theorem line_held (hs : h.Single) {x : Part} (hx : x ∈ h.parts) (hg : 1 ∈ x.tickets) :
    (∃ p, x = .permit p) ∧ 0 < Part.held {x} 0 := by
  have hproper := (hs.kept.balanced.known x hx).proper hs.inProcess
  cases x with
  | permit p => exact ⟨⟨p, rfl⟩, hs.held_bottom hx rfl p.prompt_mem_gates⟩
  | remnant p =>
    obtain ⟨g, hne, rfl | rfl⟩ := hproper p rfl
    · cases hg
    · exact absurd (List.mem_singleton.1 hg).symm hne
  | lease l =>
    have hmain (g' : Nat) (main : Option Nat) (hgoal : l.goal? 1 = some ⟨g', main, true⟩)
        (htickets : 1 ∈ main.toList) : False := by
      obtain ⟨g, hne, heq | heq⟩ := hproper _ hgoal
      · cases heq
      · cases heq
        exact hne (List.mem_singleton.1 htickets).symm
    cases l with
    | choose readLine => cases hg
    | ask g purpose =>
      cases purpose with
      | line main => exact (hmain g main rfl hg).elim
      | _ => cases hg
    | wait g w purpose =>
      cases purpose with
      | line main => exact (hmain g main rfl hg).elim
      | _ => cases hg

/-- Two parts do not both hold the ticket of the bottom. -/
theorem eq_of_held (hs : h.Single) {x y : Part} (hx : x ∈ h.parts) (hy : y ∈ h.parts)
    (hxg : 0 < Part.held {x} 0) (hyg : 0 < Part.held {y} 0) : x = y := by
  by_contra hne
  obtain ⟨c, hc⟩ := Multiset.exists_cons_of_mem hx
  have hmem : y ∈ c := by
    rw [hc] at hy
    exact (Multiset.mem_cons.1 hy).resolve_left (Ne.symm hne)
  have hle : ({x} + {y} : Multiset Part) ≤ h.parts := by
    rw [hc, ← Multiset.singleton_add]
    exact add_le_add_right (Multiset.singleton_le.2 hmem) _
  have hnone := hs.kept.not_both hle hxg
  omega

theorem moving (hs : h.Single) : h.Moving where
  present g w hw := hs.kept.exists_place hw
  next g hheld w hw := hs.kept.handed_first hheld hw
  second x hx w hw := by
    have hxg := hs.waiting_held hx hw
    have hheld : h.held 1 = 0 := by
      by_contra hne
      obtain ⟨y, hy, hticket⟩ := WellKept.exists_ticket (c := h.parts) (Nat.pos_of_ne_zero hne)
      obtain ⟨⟨p, rfl⟩, hyg⟩ := hs.line_held hy hticket
      rw [hs.eq_of_held hx hy hxg hyg] at hw
      cases hw
    -- Nobody else waits there, so the first in line is this one.
    have hline : ∀ v ∈ (h.stack.gate 1).line, v = w := by
      intro v hv
      obtain ⟨y, hy, hplace⟩ := hs.kept.exists_place hv
      have heq := hs.eq_of_held hx hy hxg (hs.waiting_held hy hplace)
      rw [← heq] at hplace
      rcases x.places_cases with hnil | ⟨p, hp⟩
      · rw [hnil] at hw
        cases hw
      · rw [hp, List.mem_singleton] at hw hplace
        exact congrArg Prod.snd (hplace.trans hw.symm)
    have hmem : w ∈ (h.stack.gate 1).line := by
      have hplaced := (hs.kept.balanced.books.gates 1).line w
      exact List.count_pos_iff.1 (hplaced ▸ Part.placed_pos 1 w hx hw)
    obtain ⟨v, hv⟩ := Option.isSome_iff_exists.1 (List.isSome_head?.2 (List.ne_nil_of_mem hmem))
    have hfirst := hs.kept.handed_first hheld (Option.mem_def.2 hv)
    rwa [hline v (List.mem_of_mem_head? hv)] at hfirst

/-- At most one command is running. -/
theorem length_invocations_le (hs : h.Single) {P : Assignment → Prop} (hshape : h.Shaped P) :
    h.invocations.length ≤ 1 := by
  have hheld : ∀ o ∈ h.invocations, 0 < Part.held o.parts 0 := fun o ho => by
    have hle : o.parts ≤ h.parts :=
      (List.le_sum_of_mem (List.mem_map_of_mem ho)).trans hshape.parts_invocations_le
    rcases hshape.origin_cases ho with ⟨work, rfl, -⟩ | ⟨permit, rfl⟩
    · exact hs.permit_held hle
    · exact hs.permit_held hle
  have hlength : ∀ l : List Origin, (∀ o ∈ l, 0 < Part.held o.parts 0) →
      l.length ≤ Part.held (l.map Origin.parts).sum 0 := by
    intro l hl
    induction l with
    | nil => exact Nat.zero_le _
    | cons o rest ih =>
      have hhead := hl o List.mem_cons_self
      have htail := ih fun o' ho' => hl o' (List.mem_cons_of_mem o ho')
      rw [List.length_cons, List.map_cons, List.sum_cons, Part.held_add]
      omega
  have hone := hs.kept.one_ticket 0
  have hle := (hlength _ hheld).trans (Part.held_mono 0 hshape.parts_invocations_le)
  simp only [Host.held] at hone
  omega

end Single

end Host

end SharedPrompt
