import SharedPrompt.Proofs.UnitFates
import SharedPrompt.Worker.Settle
import Mathlib.Algebra.BigOperators.Group.Finset.Basic
import Mathlib.Algebra.GroupWithZero.Nat
import Mathlib.Algebra.Order.BigOperators.Group.Finset
import Mathlib.Data.Prod.Lex

/-!
# A crew comes to rest

Every turn that a worker makes use of takes away from what is left to do: first from the deeds, then
from the actions of the command that a deed has begun. Hence, if every worker gets its turn again and
again, a crew to which nothing more is handed comes to rest.
-/

namespace SharedPrompt

theorem Deed.two_le_load (d : Deed) : 2 ≤ d.load := by
  cases d <;> simp [load]

@[simp] theorem tally_append {α : Type} (f : α → Nat) (l m : List α) :
    tally f (l ++ m) = tally f l + tally f m := by
  induction l with
  | nil => exact (Nat.zero_add _).symm
  | cons a l ih => simp only [List.cons_append, tally, ih, Nat.add_assoc]

/-! ## Moves -/

/-- A turn takes an action away from an invocation. -/
theorem Invocation.turn_shorter (inv : Invocation) (e : Engine) (fired : Bool) (isOpen : String → Bool) :
    match inv.turn e fired isOpen with
    | .on next | .record _ next | .idle next | .enter _ next | .leave next =>
      next.rest.length < inv.rest.length
    | _ => True := by
  unfold Invocation.turn
  cases hrest : inv.rest with
  | nil => trivial
  | cons a rest =>
    cases a with
    | barrier name => by_cases hopen : isOpen name = true <;> simp [hopen]
    | barrierOrFired name => by_cases hopen : isOpen name = true <;> cases fired <;> simp [hopen]
    | _ => simp [Invocation.put]

private theorem endingMove_ne {engine e : Engine} {started : Option Command} {rest left : Work}
    {more : List Entry} {next : Invocation} {editing : Bool} (o : Outcome) :
    Worker.endingMove rest e o ≠ .goes engine started left more (.command next editing) := by
  cases o <;> intro h <;> cases h

/-- A command that goes on has fewer actions left. -/
private theorem actions_of_goes {w : Worker} {barriers : List String} {n : Nat} {rest left : Work}
    {inv next : Invocation} {editing editing' : Bool} {engine : Engine} {started : Option Command}
    {more : List Entry}
    (h : w.move? barriers n rest (.command inv editing) =
      some (.goes engine started left more (.command next editing'))) :
    next.rest.length < inv.rest.length := by
  change w.commandMove? barriers rest inv editing = _ at h
  have hshorter := inv.turn_shorter w.engine false barriers.contains
  unfold Worker.commandMove? at h
  cases editing with
  | true =>
    cases hlines : w.engine.lines with
    | nil => simp [hlines] at h
    | cons line lines =>
      rw [if_pos rfl, hlines] at h
      exact absurd (Option.some.inj h) (endingMove_ne _)
  | false =>
    rw [if_neg Bool.false_ne_true] at h
    cases hturn : inv.turn w.engine false barriers.contains with
    | stuck => simp [hturn] at h
    | ended o =>
      rw [hturn] at h
      exact absurd (Option.some.inj h) (endingMove_ne _)
    | _ =>
      rw [hturn] at h hshorter
      cases h
      exact hshorter

/-- A unit that goes on has less left to do. -/
theorem load_of_goes {w : Worker} {barriers : List String} {n : Nat} {rest left : Work}
    {doing doing' : Doing} {engine : Engine} {started : Option Command} {more : List Entry}
    (h : w.move? barriers n rest doing = some (.goes engine started left more doing')) :
    Deed.loads left + doing'.load < Deed.loads rest + doing.load ∨
      Deed.loads left + doing'.load = Deed.loads rest + doing.load ∧ doing'.actions < doing.actions := by
  have hsound := sound_of_move? h
  have hle : doing'.load ≤ 1 := by cases doing' <;> simp [Doing.load]
  obtain ⟨rfl, hown⟩ : left = doing.after rest ∧ doing.IsOwn rest := by
    cases doing' with
    | awaiting t => exact hsound.elim
    | command inv editing => exact ⟨hsound.1, hsound.2.2.1⟩
    | deeds =>
      refine ⟨hsound.1, ?_⟩
      have hahead := hsound.2
      cases doing with
      | deeds => rintro rfl; cases hahead
      | command inv editing => trivial
      | awaiting t => cases hahead
  cases doing with
  | awaiting t => exact hown.elim
  | deeds =>
    cases rest with
    | nil => exact absurd rfl hown
    | cons d rest =>
      have hd := d.two_le_load
      have hdeeds : Doing.deeds.load = 0 := rfl
      simp only [Doing.after, List.tail_cons, Deed.loads, hdeeds]
      omega
  | command inv editing =>
    cases doing' with
    | awaiting t => exact hsound.elim
    | deeds => exact .inl (Nat.lt_succ_self _)
    | command next editing' =>
      exact .inr ⟨rfl, actions_of_goes h⟩

/-! ## Crews -/

theorem Frame.load_told (f : Frame) (r : WorkResult) : (f.told r).load = f.load := by
  unfold told
  split <;> simp only [load, *]

namespace Crew

variable {c d : Crew} {w : Worker} {run : Running}

def total (c : Crew) (f : Worker → Nat) : Nat := ∑ name ∈ c.names.toFinset, (c.worker? name).elim 0 f

theorem total_setWorker (c : Crew) (f : Worker → Nat) {v : Worker} (hw : c.worker? v.name = some w) :
    (c.setWorker v).total f + f w = c.total f + f v := by
  have hmem : v.name ∈ c.names.toFinset :=
    List.mem_toFinset.2 ((exists_worker?_iff c v.name).1 ⟨w, hw⟩)
  have hothers : ∑ name ∈ c.names.toFinset.erase v.name, ((c.setWorker v).worker? name).elim 0 f =
      ∑ name ∈ c.names.toFinset.erase v.name, (c.worker? name).elim 0 f := by
    refine Finset.sum_congr rfl fun name hname => ?_
    have hne := Finset.ne_of_mem_erase hname
    rw [worker?_setWorker]
    cases c.worker? name <;> simp [hne]
  rw [total, total, names_setWorker, ← Finset.add_sum_erase _ _ hmem, ← Finset.add_sum_erase _ _ hmem,
    hothers, worker?_setWorker, hw]
  simp only [Option.map_some, if_true, Option.elim_some]
  omega

theorem total_le (f : Worker → Nat) (hnames : d.names = c.names)
    (h : ∀ name w, c.worker? name = some w → ∃ w', d.worker? name = some w' ∧ f w' ≤ f w) :
    d.total f ≤ c.total f := by
  rw [total, total, hnames]
  refine Finset.sum_le_sum fun name hname => ?_
  obtain ⟨w, hw⟩ := (exists_worker?_iff c name).2 (List.mem_toFinset.1 hname)
  obtain ⟨w', hw', hle⟩ := h name w hw
  rw [hw, hw']
  exact hle

theorem total_congr (f : Worker → Nat) (h : d.workers = c.workers) : d.total f = c.total f := by
  unfold total names worker?
  rw [h]

def load (c : Crew) : Nat := c.total Worker.load

end Crew

theorem Worker.load_without (w : Worker) (tickets : List Nat) : (w.without tickets).load ≤ w.load := by
  have hdisown (howner : w.owner ≠ .gone) : w.disown.load ≤ w.load := by
    have hone : w.owner.load = 1 := by cases howner' : w.owner <;> simp_all [Owner.load]
    simp only [load, disown, hone]
    split
    · simp [Owner.load]
    · simp [Message.load, Owner.load, tally]
      omega
  unfold without
  cases howner : w.owner with
  | within t =>
    dsimp only
    split
    · exact hdisown (by simp [howner])
    · exact le_rfl
  | _ => exact le_rfl

namespace Crew

variable {c d : Crew} {w : Worker} {run : Running}

theorem load_dropOwnerOf (c : Crew) (ticket : Nat) : (c.dropOwnerOf ticket).load ≤ c.load := by
  refine total_le _ (names_dropOwnerOf c ticket) fun name w hw =>
    ⟨w.without [ticket], ?_, w.load_without _⟩
  rw [worker?_dropOwnerOf, hw]
  rfl

theorem load_discards (c : Crew) (ms : List Message) : (ms.foldl discard c).load ≤ c.load := by
  refine total_le _ (names_discards ms c) fun name w hw =>
    ⟨w.without (workTickets ms), ?_, w.load_without _⟩
  rw [worker?_discards, hw]
  rfl

/-- A message that comes into an inbox. -/
theorem load_addInbox {e : Crew} (he : e.workers = c.workers) (hw : c.worker? w.name = some w)
    (m : Message) : (e.setWorker { w with inbox := w.inbox ++ [m] }).load = c.load + m.load := by
  have hw' : e.worker? w.name = some w := (worker?_congr he _).trans hw
  have htotal := e.total_setWorker Worker.load (v := { w with inbox := w.inbox ++ [m] }) hw'
  rw [total_congr _ he] at htotal
  simp only [Worker.load, tally_append, tally] at htotal
  simp only [load]
  omega

theorem load_submit (c : Crew) (name : String) (holder : Option Nat) (list : Work) :
    (c.submit name holder list).2.load ≤ c.load + Deed.loads list + 2 := by
  unfold submit
  cases hw : c.worker? name with
  | none => exact Nat.le_add_right_of_le (Nat.le_add_right _ _)
  | some w =>
    obtain rfl := name_of_worker? hw
    by_cases hphase : w.phase = .ended
    · simp only [if_pos hphase]
      exact Nat.le_add_right_of_le (Nat.le_add_right _ _)
    · simp only [if_neg hphase]
      exact (load_addInbox rfl hw _).le

/-- What a worker's unit goes over to, against what it was. -/
theorem load_setRunning {e : Crew} (he : e.workers = c.workers) (hw : c.worker? w.name = some w)
    (hrun : w.running = some run) (engine : Engine) (running : Option Running) :
    (e.setWorker { w with engine, running }).load + run.load = c.load + running.elim 0 Running.load := by
  have hw' : e.worker? w.name = some w := (worker?_congr he _).trans hw
  have htotal := e.total_setWorker Worker.load (v := { w with engine, running }) hw'
  rw [total_congr _ he] at htotal
  simp only [Worker.load, hrun, Option.elim_some] at htotal
  simp only [load]
  omega

theorem load_finish {e : Crew} (he : e.workers = c.workers) (hw : c.worker? w.name = some w)
    (hrun : w.running = some run) (engine : Engine) (r : WorkResult) :
    (e.finish { w with engine } run r).load < c.load := by
  have hframe : 0 < run.frame.load := Nat.succ_pos _
  unfold finish
  cases hbelow : run.below with
  | nil =>
    have hset := load_setRunning he hw hrun engine none
    have hdrop := (e.setWorker { w with engine, running := none }).load_dropOwnerOf run.ticket
    have hreply : (((e.setWorker { w with engine, running := none }).dropOwnerOf run.ticket).reply
        run.ticket r).load = ((e.setWorker { w with engine, running := none }).dropOwnerOf run.ticket).load :=
      rfl
    simp only [Running.load, Option.elim_none] at hset
    simp only
    omega
  | cons f below =>
    have hset := load_setRunning he hw hrun engine
      (some { run with frame := f.told r, below })
    simp only [Running.load, f.load_told, Option.elim_some, hbelow, tally] at hset
    simp only
    omega

/-! ## A turn -/

def actions (c : Crew) : Nat := c.total Worker.actions

def Lighter (d c : Crew) : Prop := d.load < c.load ∨ d.load = c.load ∧ d.actions < c.actions

/-- A unit that goes over to less. -/
theorem load_setRunning_lt {e : Crew} (he : e.workers = c.workers) (hw : c.worker? w.name = some w)
    (hrun : w.running = some run) (engine : Engine) (frame : Frame) (below : List Frame)
    (h : frame.load + tally Frame.load below < run.frame.load + tally Frame.load run.below) :
    (e.setWorker { w with engine, running := some { run with frame, below } }).load < c.load := by
  have hset := load_setRunning he hw hrun engine (some { run with frame, below })
  simp only [Running.load, Option.elim_some] at hset
  omega

theorem lighter_goes (hw : c.worker? w.name = some w) (hrun : w.running = some run) {engine : Engine}
    {started : Option Command} {rest : Work} {more : List Entry} {doing : Doing}
    (hm : c.nextMove? w run = some (.goes engine started rest more doing)) {e : Crew}
    (he : e.workers = c.workers) :
    (e.setWorker { w with engine, running := some { run with
      frame := { rest, entries := run.frame.entries ++ more, doing } } }).Lighter c := by
  obtain hload | ⟨hload, hactions⟩ := load_of_goes hm
  · refine .inl (load_setRunning_lt he hw hrun _ _ _ ?_)
    simp only [Frame.load]
    omega
  · have hset := load_setRunning he hw hrun engine
      (some { run with frame := { rest, entries := run.frame.entries ++ more, doing } })
    have hw' : e.worker? w.name = some w := (worker?_congr he _).trans hw
    have htotal := e.total_setWorker Worker.actions (v := { w with engine, running := some { run with
      frame := { rest, entries := run.frame.entries ++ more, doing } } }) hw'
    rw [total_congr _ he] at htotal
    simp only [Worker.actions, hrun, Option.elim_some] at htotal
    simp only [Running.load, Frame.load, Option.elim_some] at hset
    refine .inr ⟨by omega, ?_⟩
    simp only [actions]
    omega

theorem lighter_carryOut (hw : c.worker? w.name = some w) (hrun : w.running = some run) {m : UnitMove}
    (hm : c.nextMove? w run = some m) (hd : c.carryOut w run m = some d) : d.Lighter c := by
  have hreaches := Worker.reaches_of_move? hm
  cases m with
  | goes engine started rest more doing =>
    cases hd
    exact lighter_goes hw hrun hm rfl
  | enters rest inner =>
    cases hd
    obtain ⟨hdoing, hrest⟩ := hreaches.of_enters
    refine .inl (load_setRunning_lt rfl hw hrun _ _ _ ?_)
    simp only [Frame.load, tally, hrest, Deed.loads, Deed.load, hdoing, Doing.load]
    omega
  | handsOver name inner rest =>
    cases hd
    obtain ⟨hdoing, hrest, hne⟩ := hreaches.of_handsOver
    have hw' : (c.submit name (some run.holder) inner).2.worker? w.name = some w := by
      rw [worker?_submit, hw]
      simp [Ne.symm hne]
    have hsubmit := c.load_submit name (some run.holder) inner
    have hframe : run.frame.load = Deed.loads inner + 4 + Deed.loads rest + 1 := by
      rw [Frame.load, hrest, hdoing]
      rfl
    have hlt (frame : Frame) (hload : frame.load = Deed.loads rest + 2) :
        ((c.submit name (some run.holder) inner).2.setWorker
          { w with running := some { run with frame } }).load < c.load := by
      have hset := load_setRunning rfl hw' hrun w.engine (some { run with frame })
      simp only [Running.load, Option.elim_some, hframe] at hset
      omega
    exact .inl (hlt _ rfl)
  | hears ticket =>
    obtain ⟨r, -, rfl⟩ := Option.map_eq_some_iff.1 hd
    refine .inl (load_setRunning_lt rfl hw hrun w.engine _ _ ?_)
    simp only [Frame.load, hreaches.of_hears, Doing.load]
    omega
  | dropsOwner rest =>
    cases hd
    obtain ⟨hdoing, hrest⟩ := hreaches.of_dropsOwner
    refine .inl (Nat.lt_of_le_of_lt (load_dropOwnerOf _ _) (load_setRunning_lt rfl hw hrun w.engine _ _ ?_))
    simp only [Frame.load, hrest, Deed.loads, Deed.load, hdoing, Doing.load]
    omega
  | returns =>
    cases hd
    exact .inl (load_finish rfl hw hrun w.engine _)
  | panics engine p =>
    cases hd
    exact .inl (load_finish (c := c) (e := { c with trace := c.trace.notice _ }) rfl hw hrun engine _)

theorem lighter_idle (hw : c.worker? w.name = some w) (hrun : w.running = none)
    (hd : c.stepWorker w = some d) : d.Lighter c := by
  refine .inl ?_
  have hset {v : Worker} (hname : v.name = w.name) (hv : v.load < w.load) :
      (c.setWorker v).load < c.load := by
    have htotal := c.total_setWorker Worker.load (hname ▸ hw)
    simp only [load]
    omega
  cases hphase : w.phase with
  | ended => simp [stepWorker, hrun, hphase] at hd
  | leaving =>
    have hstep : c.stepWorker w = some (c.close w) := by simp only [stepWorker, hrun, hphase]
    obtain rfl := Option.some.inj (hstep.symm.trans hd)
    refine Nat.lt_of_le_of_lt (load_discards _ _) (hset rfl ?_)
    simp only [Worker.load, hphase, Phase.load, tally]
    omega
  | working =>
    cases hinbox : w.inbox with
    | nil =>
      by_cases hforsaken : w.forsaken = true
      · have hstep : c.stepWorker w = some (c.setWorker { w with phase := .leaving }) := by
          simp only [stepWorker, hrun, hphase, hinbox, hforsaken, if_true]
        obtain rfl := Option.some.inj (hstep.symm.trans hd)
        exact hset rfl (by simp [Worker.load, hphase, Phase.load])
      · simp [stepWorker, hrun, hphase, hinbox, hforsaken] at hd
    | cons m inbox =>
      cases m with
      | shutdown =>
        have hstep : c.stepWorker w = some (c.setWorker { w with inbox, phase := .leaving }) := by
          simp only [stepWorker, hrun, hphase, hinbox]
        obtain rfl := Option.some.inj (hstep.symm.trans hd)
        refine hset rfl ?_
        simp only [Worker.load, hphase, hinbox, Phase.load, tally, Message.load]
        omega
      | work ticket holder list =>
        have hstep : c.stepWorker w = some (c.setWorker { w with
            inbox, running := some { ticket, holder, frame := { rest := list } } }) := by
          simp only [stepWorker, hrun, hphase, hinbox]
        obtain rfl := Option.some.inj (hstep.symm.trans hd)
        refine hset rfl ?_
        simp only [Worker.load, hrun, hinbox, tally, Message.load, Option.elim_some,
          Option.elim_none, Running.load, Frame.load, Doing.load]
        omega

/-- A turn that a worker makes use of leaves less to do. -/
theorem lighter_step {name : String} (hd : c.step name = some d) : d.Lighter c := by
  obtain ⟨w, hw, hstep⟩ := Option.bind_eq_some_iff.1 hd
  have hw' : c.worker? w.name = some w := by rw [name_of_worker? hw, hw]
  cases hrun : w.running with
  | none => exact lighter_idle hw' hrun hstep
  | some run =>
    rw [c.stepWorker_running w run hrun] at hstep
    obtain ⟨m, hm, hcarry⟩ := Option.bind_eq_some_iff.1 hstep
    exact lighter_carryOut hw' hrun hm hcarry

/-! ## Rest -/

def Rests (c : Crew) : Prop := ∀ name, c.step name = none

def turns (schedule : Nat → String) (n : Nat) : List CrewEvent :=
  (List.range n).map fun i => .turn (schedule i)

/-- Every worker gets its turn again and again. -/
def Fair (c : Crew) (schedule : Nat → String) : Prop :=
  ∀ name ∈ c.names, ∀ n, ∃ m, n ≤ m ∧ schedule m = name

theorem wellFounded_lighter : WellFounded Lighter := by
  refine Subrelation.wf ?_
    (InvImage.wf (fun c : Crew => toLex (c.load, c.actions)) (wellFounded_lt (α := ℕ ×ₗ ℕ)))
  exact fun h => Prod.Lex.toLex_lt_toLex.2 h

variable {name : String} {schedule : Nat → String}

theorem run_turns_succ (c : Crew) (schedule : Nat → String) (n : Nat) :
    c.run (turns schedule (n + 1)) = (c.run (turns schedule n)).apply (.turn (schedule n)) := by
  rw [turns, List.range_succ, List.map_append]
  exact run_concat ..

theorem apply_turn_of_step (hd : c.step name = none) : c.apply (.turn name) = c := by
  rw [apply, hd]
  rfl

theorem mem_names_of_step (hd : c.step name = some d) : name ∈ c.names := by
  obtain ⟨w, hw, -⟩ := Option.bind_eq_some_iff.1 hd
  exact (exists_worker?_iff c name).1 ⟨w, hw⟩

/-- A worker that can go on still can when its turn comes, if no other has gone on before. -/
theorem exists_lighter {n : Nat} (hd : (c.run (turns schedule n)).step name = some d) (k : Nat)
    (hk : schedule (n + k) = name) :
    ∃ m, (c.run (turns schedule m)).Lighter (c.run (turns schedule n)) := by
  induction k generalizing n with
  | zero =>
    obtain rfl : schedule n = name := hk
    refine ⟨n + 1, ?_⟩
    rw [run_turns_succ, apply, hd]
    exact lighter_step hd
  | succ k ih =>
    cases hstep : (c.run (turns schedule n)).step (schedule n) with
    | some d' =>
      refine ⟨n + 1, ?_⟩
      rw [run_turns_succ, apply, hstep]
      exact lighter_step hstep
    | none =>
      have hsame : c.run (turns schedule (n + 1)) = c.run (turns schedule n) := by
        rw [run_turns_succ, apply_turn_of_step hstep]
      rw [← hsame] at hd ⊢
      exact ih hd (by rw [← hk]; congr 1; omega)

/-- A crew in which every worker gets its turn again and again comes to rest, and stays there. -/
theorem exists_rests (c : Crew) (hfair : c.Fair schedule) :
    ∃ n, ∀ m, n ≤ m → (c.run (turns schedule m)).Rests := by
  have hrests (d : Crew) :
      ∀ n, c.run (turns schedule n) = d → ∃ m, (c.run (turns schedule m)).Rests := by
    induction d using wellFounded_lighter.induction with
    | _ d ih =>
      rintro n rfl
      by_cases h : (c.run (turns schedule n)).Rests
      · exact ⟨n, h⟩
      · obtain ⟨name, hname⟩ := not_forall.1 h
        obtain ⟨d, hd⟩ := Option.ne_none_iff_exists'.1 hname
        have hmem := mem_names_of_step hd
        rw [names_run] at hmem
        obtain ⟨m, hle, hm⟩ := hfair name hmem n
        obtain ⟨m', hlighter⟩ := exists_lighter hd (m - n) (by rw [Nat.add_sub_cancel' hle, hm])
        exact ih _ hlighter m' rfl
  obtain ⟨n, hn⟩ := hrests c 0 rfl
  refine ⟨n, fun m hle => ?_⟩
  induction m, hle using Nat.le_induction with
  | base => exact hn
  | succ m _ ih => rwa [run_turns_succ, apply_turn_of_step (ih _)]

/-! ## What a crew at rest waits for -/

/-- What a unit at work has to wait for: somebody has to open a barrier, to type a line, or to answer
a unit that was handed to another worker. -/
inductive Waits (c : Crew) (w : Worker) : Work → Doing → Prop
  | barrier {name : String} {rest : Work} (h : name ∉ c.barriers) : Waits c w (.barrier name :: rest) .deeds
  | action {inv : Invocation} {rest : Work} {a : Action} {left : List Action} {name : String}
      (hinv : inv.rest = a :: left) (ha : a = .barrier name ∨ a = .barrierOrFired name)
      (h : name ∉ c.barriers) : Waits c w rest (.command inv false)
  | line {inv : Invocation} {rest : Work} (h : w.engine.lines = []) : Waits c w rest (.command inv true)
  | answer {ticket : Nat} {rest : Work} (h : c.answer? ticket = none) : Waits c w rest (.awaiting ticket)

end Crew

private theorem stuck_turn {inv : Invocation} {e : Engine} {barriers : List String}
    (h : inv.turn e false barriers.contains = .stuck) :
    ∃ a left name, inv.rest = a :: left ∧ (a = .barrier name ∨ a = .barrierOrFired name) ∧
      name ∉ barriers := by
  unfold Invocation.turn at h
  cases hrest : inv.rest with
  | nil => simp [hrest] at h
  | cons a left =>
    refine ⟨a, left, ?_⟩
    rw [hrest] at h
    cases a with
    | barrier name =>
      by_cases hopen : name ∈ barriers
      · simp [hopen] at h
      · exact ⟨name, rfl, .inl rfl, hopen⟩
    | barrierOrFired name =>
      by_cases hopen : name ∈ barriers
      · simp [hopen] at h
      · exact ⟨name, rfl, .inr rfl, hopen⟩
    | _ => cases h

namespace Crew

variable {c : Crew} {w : Worker} {run : Running} {past : List CrewEvent}

/-- A unit that cannot go on waits for something. -/
theorem waits_of_stuck (hrun : w.running = some run) (h : c.stepWorker w = none) :
    c.Waits w run.frame.rest run.frame.doing := by
  unfold stepWorker at h
  rw [hrun] at h
  dsimp only at h
  cases hdoing : run.frame.doing with
  | command inv editing =>
    rw [hdoing] at h
    simp only [stepCommand] at h
    cases editing with
    | true =>
      cases hlines : w.engine.lines with
      | nil => exact .line hlines
      | cons line lines => simp [hlines] at h
    | false =>
      cases hturn : inv.turn w.engine false c.barriers.contains with
      | stuck =>
        obtain ⟨a, left, name, hinv, ha, hclosed⟩ := stuck_turn hturn
        exact .action hinv ha hclosed
      | _ => simp [hturn] at h
  | awaiting ticket =>
    rw [hdoing] at h
    exact .answer (Option.map_eq_none_iff.1 h)
  | deeds =>
    rw [hdoing] at h
    dsimp only at h
    cases hrest : run.frame.rest with
    | nil => simp [hrest] at h
    | cons d rest =>
      rw [hrest] at h
      cases d with
      | barrier name =>
        by_cases hopen : name ∈ c.barriers
        · simp [stepDeed, hopen] at h
        · exact .barrier hopen
      | script editor text => simp only [stepDeed] at h; split at h <;> cases h
      | set name v => simp only [stepDeed] at h; split at h <;> cases h
      | submit name list => simp only [stepDeed] at h; split at h <;> cases h
      | _ => simp [stepDeed] at h

def Stalls (c : Crew) (name : String) : Prop :=
  ∃ w run, c.worker? name = some w ∧ w.running = some run ∧ c.Waits w run.frame.rest run.frame.doing

/-- A worker at rest has ended or has nothing in its inbox, if it is not in the middle of a unit. -/
theorem Rests.idle (h : c.Rests) {name : String} (hw : c.worker? name = some w)
    (hrun : w.running = none) : w.phase = .ended ∨ w.phase = .working ∧ w.inbox = [] := by
  have hstep : c.stepWorker w = none := by simpa [step, hw] using h name
  cases hphase : w.phase with
  | ended => exact .inl rfl
  | leaving => simp [stepWorker, hrun, hphase] at hstep
  | working =>
    cases hinbox : w.inbox with
    | nil => exact .inr ⟨rfl, rfl⟩
    | cons m inbox => cases m <;> simp [stepWorker, hrun, hphase, hinbox] at hstep

theorem Rests.stalls (h : c.Rests) {name : String} (hw : c.worker? name = some w)
    (hrun : w.running = some run) : c.Stalls name :=
  ⟨w, run, hw, hrun, waits_of_stuck hrun (by simpa [step, hw] using h name)⟩

/-- In a crew at rest every unit that was handed over has been answered, unless its worker is in the
middle of a unit that waits. -/
theorem IsNew.answered_at_rest (hc : c.IsNew) {t : Nat} {s : Submission}
    (hs : (c.submissions past)[t]? = some s) (hrest : (c.run past).Rests) :
    (∃ r, (c.run past).answer? t = some r) ∨ (c.run past).Stalls s.worker := by
  cases hc.fate past hs with
  | refused hanswer _ _ | done _ _ hanswer _ | leftUndone _ _ _ hanswer => exact .inl ⟨_, hanswer⟩
  | atWork hw hrun _ _ _ => exact .inr (hrest.stalls hw hrun)
  | @waits w hw hphase ht _ _ =>
    cases hrun : w.running with
    | some run => exact .inr (hrest.stalls hw hrun)
    | none =>
      obtain hended | ⟨-, hinbox⟩ := hrest.idle hw hrun
      · exact absurd hended hphase
      · simp [hinbox] at ht

end Crew

end SharedPrompt
