import SharedPrompt.Proofs.CrewAccounts
import SharedPrompt.Proofs.UnitValues
import Mathlib.Data.List.Forall2
import Mathlib.Logic.Relation

/-!
# What hangs on the result of a unit

If a unit came to another result, all that follows would be the same, in the same order, but for the
answers of the units that wait for it: each would have the other result in the place of this one.
-/

namespace SharedPrompt

/-- An entry, if a unit came to `r'` instead of `r`. -/
inductive Entry.Alike (r r' : WorkResult) : Entry → Entry → Prop
  | same (e : Entry) : Alike r r' e e
  | swapped : Alike r r' (.nested r) (.nested r')
  | within {l l' : List Entry} (h : List.Forall₂ (Entry.Alike r r') l l') :
      Alike r r' (.nested (.ok l)) (.nested (.ok l'))

theorem Entry.Alike.refl {r r' : WorkResult} (l : List Entry) : List.Forall₂ (Entry.Alike r r') l l :=
  List.forall₂_same.2 fun e _ => .same e

/-- Another result of a unit, and the tickets of those whose answers may hang on it. -/
structure Swap where
  /-- The ticket of the unit, unless it was done in place. -/
  ticket : Option Nat
  result : WorkResult
  other : WorkResult
  Hangs : Nat → Prop

namespace Swap

variable (x : Swap)

def Entries (t : Nat) (l l' : List Entry) : Prop :=
  l = l' ∨ x.Hangs t ∧ List.Forall₂ (Entry.Alike x.result x.other) l l'

inductive Answers (t : Nat) : WorkResult → WorkResult → Prop
  | same (r : WorkResult) : Answers t r r
  | swapped (ht : x.ticket = some t) (h : x.Hangs t) : Answers t x.result x.other
  | within (h : x.Hangs t) {l l' : List Entry}
      (hl : List.Forall₂ (Entry.Alike x.result x.other) l l') : Answers t (.ok l) (.ok l')

/-- A frame of a unit, by its ticket. Whoever waits for an answer that hangs on the result hangs on
it too. -/
structure Frames (t : Nat) (f f' : Frame) : Prop where
  rest : f'.rest = f.rest
  doing : f'.doing = f.doing
  entries : x.Entries t f.entries f'.entries
  awaiting : ∀ s, f.doing = .awaiting s → x.Hangs s → x.Hangs t

structure Runnings (run run' : Running) : Prop where
  ticket : run'.ticket = run.ticket
  holder : run'.holder = run.holder
  frame : x.Frames run.ticket run.frame run'.frame
  below : List.Forall₂ (x.Frames run.ticket) run.below run'.below

def Workers (w w' : Worker) : Prop :=
  ∃ running, w' = { w with running } ∧ Option.Rel x.Runnings w.running running

structure Crews (c c' : Crew) : Prop where
  workers : ∀ name, Option.Rel x.Workers (c.worker? name) (c'.worker? name)
  barriers : c'.barriers = c.barriers
  pipelines : c'.trace.pipelines = c.trace.pipelines
  calls : c'.trace.calls = c.trace.calls
  length : c'.replies.length = c.replies.length
  answers : ∀ t, Option.Rel (x.Answers t) (c.answer? t) (c'.answer? t)
  old : ∀ t, x.Hangs t → t < c.replies.length

variable {x}

/-! ## Units -/

theorem Entries.refl (t : Nat) (l : List Entry) : x.Entries t l l := .inl rfl

theorem Entries.append {t : Nat} {l l' more more' : List Entry} (h : x.Entries t l l')
    (hmore : x.Entries t more more') : x.Entries t (l ++ more) (l' ++ more') := by
  obtain rfl | ⟨ht, h⟩ := h
  · obtain rfl | ⟨ht, hmore⟩ := hmore
    · exact .refl t _
    · exact .inr ⟨ht, List.rel_append (Entry.Alike.refl l) hmore⟩
  · obtain rfl | ⟨-, hmore⟩ := hmore
    · exact .inr ⟨ht, List.rel_append h (Entry.Alike.refl more)⟩
    · exact .inr ⟨ht, List.rel_append h hmore⟩

/-- The answer of a unit is an entry of the one that gets it. -/
theorem Answers.entries {s t : Nat} {r r' : WorkResult} (h : x.Answers s r r')
    (ht : x.Hangs s → x.Hangs t) : x.Entries t [.nested r] [.nested r'] := by
  cases h with
  | same => exact .refl t _
  | swapped _ h => exact .inr ⟨ht h, .cons .swapped .nil⟩
  | within h hl => exact .inr ⟨ht h, .cons (.within hl) .nil⟩

/-- What a unit ends with if its entries are these. -/
theorem Entries.answers {t : Nat} {l l' : List Entry} (h : x.Entries t l l') :
    x.Answers t (.ok l) (.ok l') := by
  obtain rfl | ⟨ht, h⟩ := h
  · exact .same _
  · exact .within ht h

/-- A frame that goes on with its deeds. -/
theorem Frames.goes {t : Nat} {f f' : Frame} (h : x.Frames t f f') (rest : Work)
    {more more' : List Entry} (hmore : x.Entries t more more') {doing : Doing}
    (hdoing : ∀ s, doing ≠ .awaiting s) :
    x.Frames t { rest, entries := f.entries ++ more, doing }
      { rest, entries := f'.entries ++ more', doing } where
  rest := rfl
  doing := rfl
  entries := h.entries.append hmore
  awaiting s hs := absurd hs (hdoing s)

/-- A frame that is told of a unit in place. -/
theorem Frames.told {t : Nat} {f f' : Frame} (h : x.Frames t f f') {r r' : WorkResult}
    (hr : x.Entries t [.nested r] [.nested r']) : x.Frames t (f.told r) (f'.told r') := by
  unfold Frame.told
  rw [h.doing]
  split
  · exact h
  · exact ⟨h.rest, rfl, h.entries.append hr, h.awaiting⟩
  · exact ⟨h.rest, rfl, h.entries.append hr, h.awaiting⟩

section Workers

variable {w w' : Worker} {run run' : Running}

theorem Workers.refl (h : ∀ run, w.running = some run → x.Runnings run run) : x.Workers w w := by
  refine ⟨w.running, rfl, ?_⟩
  cases hrun : w.running with
  | none => exact .none
  | some run => exact .some (h run hrun)

theorem Workers.name (h : x.Workers w w') : w'.name = w.name := by
  obtain ⟨_, rfl, -⟩ := h
  rfl

theorem Workers.phase (h : x.Workers w w') : w'.phase = w.phase := by
  obtain ⟨_, rfl, -⟩ := h
  rfl

theorem Workers.takes (h : x.Workers w w') : w'.takes = w.takes := by
  obtain ⟨running, rfl, hrunning⟩ := h
  have hsame : running.isNone = w.running.isNone := by
    generalize w.running = old at hrunning ⊢
    cases hrunning <;> rfl
  rw [Worker.takes, Worker.takes, hsame]

theorem Workers.without (h : x.Workers w w') (tickets : List Nat) :
    x.Workers (w.without tickets) (w'.without tickets) := by
  obtain ⟨_, rfl, h⟩ := h
  unfold Worker.without
  dsimp only
  split
  · split <;> exact ⟨_, rfl, h⟩
  · exact ⟨_, rfl, h⟩

/-! ## Crews -/

private theorem rel_map {α β γ δ : Type} {R : α → β → Prop} {S : γ → δ → Prop} {o : Option α}
    {o' : Option β} {f : α → γ} {g : β → δ} (h : Option.Rel R o o')
    (hf : ∀ a b, R a b → S (f a) (g b)) :
    Option.Rel S (o.map f) (o'.map g) := by
  cases h with
  | some h => exact .some (hf _ _ h)
  | none => exact .none

private theorem rel_or {t : Nat} {o o' p p' : Option WorkResult} (h : Option.Rel (x.Answers t) o o')
    (hp : Option.Rel (x.Answers t) p p') : Option.Rel (x.Answers t) (o.or p) (o'.or p') := by
  cases h with
  | some h => exact .some h
  | none => exact hp

private theorem rel_refl (t : Nat) (o : Option WorkResult) : Option.Rel (x.Answers t) o o := by
  cases o with
  | none => exact .none
  | some r => exact .some (.same r)

namespace Crews

variable {c c' : Crew} (h : x.Crews c c')

include h

/-- An operation that changes the workers only, each by itself. -/
theorem of_workers {d d' : Crew}
    (hd : d.barriers = c.barriers ∧ d.trace = c.trace ∧ d.replies = c.replies)
    (hd' : d'.barriers = c'.barriers ∧ d'.trace = c'.trace ∧ d'.replies = c'.replies)
    (hworkers : ∀ name, Option.Rel x.Workers (d.worker? name) (d'.worker? name)) : x.Crews d d' where
  workers := hworkers
  barriers := by rw [hd.1, hd'.1, h.barriers]
  pipelines := by rw [hd.2.1, hd'.2.1, h.pipelines]
  calls := by rw [hd.2.1, hd'.2.1, h.calls]
  length := by rw [hd.2.2, hd'.2.2, h.length]
  answers t := by
    rw [Crew.answer?_congr hd.2.2, Crew.answer?_congr hd'.2.2]
    exact h.answers t
  old t ht := hd.2.2 ▸ h.old t ht

theorem setWorker (hw : x.Workers w w') : x.Crews (c.setWorker w) (c'.setWorker w') := by
  refine h.of_workers ⟨rfl, rfl, rfl⟩ ⟨rfl, rfl, rfl⟩ fun name => ?_
  rw [Crew.worker?_setWorker, Crew.worker?_setWorker, hw.name]
  refine rel_map (h.workers name) fun v v' hv => ?_
  by_cases hname : name = w.name
  · rw [if_pos hname, if_pos hname]
    exact hw
  · rw [if_neg hname, if_neg hname]
    exact hv

theorem modifyWorker {f : Worker → Worker} (hname : ∀ w, (f w).name = w.name)
    (hf : ∀ w w', x.Workers w w' → x.Workers (f w) (f w')) (name : String) :
    x.Crews (c.modifyWorker name f) (c'.modifyWorker name f) := by
  refine h.of_workers ⟨rfl, rfl, rfl⟩ ⟨rfl, rfl, rfl⟩ fun other => ?_
  rw [Crew.worker?_modifyWorker c hname, Crew.worker?_modifyWorker c' hname]
  refine rel_map (h.workers other) fun v v' hv => ?_
  by_cases hother : other = name
  · rw [if_pos hother, if_pos hother]
    exact hf _ _ hv
  · rw [if_neg hother, if_neg hother]
    exact hv

theorem dropOwnerOf (ticket : Nat) : x.Crews (c.dropOwnerOf ticket) (c'.dropOwnerOf ticket) := by
  refine h.of_workers ⟨rfl, rfl, rfl⟩ ⟨rfl, rfl, rfl⟩ fun name => ?_
  rw [Crew.worker?_dropOwnerOf, Crew.worker?_dropOwnerOf]
  exact rel_map (h.workers name) fun v v' hv => hv.without _

theorem reply {t : Nat} {r r' : WorkResult} (hr : x.Answers t r r') :
    x.Crews (c.reply t r) (c'.reply t r') := by
  by_cases hlt : t < c.replies.length
  · refine { h with length := ?_, answers := fun s => ?_, old := fun s hs => ?_ }
    · rw [Crew.length_reply, Crew.length_reply, h.length]
    · rw [Crew.answer?_reply c hlt, Crew.answer?_reply c' (h.length ▸ hlt)]
      refine rel_or (h.answers s) ?_
      by_cases hst : s = t
      · subst hst
        rw [if_pos rfl, if_pos rfl]
        exact .some hr
      · rw [if_neg hst, if_neg hst]
        exact .none
    · rw [Crew.length_reply]
      exact h.old s hs
  · have hge : c.replies.length ≤ t := Nat.le_of_not_lt hlt
    have hsame : c.reply t r = c := by rw [Crew.reply, List.modify_eq_self hge]
    have hsame' : c'.reply t r' = c' := by rw [Crew.reply, List.modify_eq_self (h.length ▸ hge)]
    rw [hsame, hsame']
    exact h

theorem traced (trace trace' : Trace) (hpipelines : trace'.pipelines = trace.pipelines)
    (hcalls : trace'.calls = trace.calls) :
    x.Crews { c with trace } { c' with trace := trace' } :=
  { h with pipelines := hpipelines, calls := hcalls }

theorem listens (name : String) : c'.listens name = c.listens name := by
  have hworker := h.workers name
  unfold Crew.listens
  revert hworker
  cases c.worker? name <;> cases c'.worker? name <;> intro hworker <;> cases hworker
  · rfl
  · simp [Workers.phase ‹_›]

theorem submit (name : String) (holder : Option Nat) (list : Work) :
    x.Crews (c.submit name holder list).2 (c'.submit name holder list).2 := by
  have hlisten := h.listens name
  refine ⟨fun other => ?_, ?_, ?_, ?_, ?_, fun t => ?_, fun t ht => ?_⟩
  · rw [Crew.worker?_submit, Crew.worker?_submit, h.length]
    refine rel_map (h.workers other) fun v v' hv => ?_
    rw [hv.phase]
    split
    · obtain ⟨_, rfl, hrun⟩ := hv
      exact ⟨_, rfl, hrun⟩
    · exact hv
  · rw [Crew.barriers_submit, Crew.barriers_submit, h.barriers]
  · rw [Crew.trace_submit, Crew.trace_submit, h.pipelines]
  · rw [Crew.trace_submit, Crew.trace_submit, h.calls]
  · rw [Crew.length_submit, Crew.length_submit, h.length]
  · rw [Crew.answer?_submit c ⟨name, holder, list⟩, Crew.answer?_submit c' ⟨name, holder, list⟩,
      Crew.refusal, Crew.refusal, hlisten, h.length]
    exact rel_or (h.answers t) (rel_refl t _)
  · rw [Crew.length_submit]
    exact Nat.lt_succ_of_lt (h.old t ht)

theorem discards (ms : List Message) : x.Crews (ms.foldl Crew.discard c) (ms.foldl Crew.discard c') := by
  induction ms generalizing c c' with
  | nil => exact h
  | cons m ms ih =>
    cases m with
    | shutdown => exact ih h
    | work ticket holder list => exact ih ((h.dropOwnerOf ticket).reply (.same _))

theorem close (hw : x.Workers w w') : x.Crews (c.close w) (c'.close w') := by
  obtain ⟨_, rfl, hrunning⟩ := hw
  refine discards (h.setWorker ?_) w.inbox
  exact ⟨_, rfl, hrunning⟩

theorem finish (hw : x.Workers w w') (hrun : x.Runnings run run') {r r' : WorkResult}
    (hr : run.below = [] → x.Answers run.ticket r r')
    (hin : run.below ≠ [] → x.Entries run.ticket [.nested r] [.nested r']) :
    x.Crews (c.finish w run r) (c'.finish w' run' r') := by
  obtain ⟨_, rfl, hrunning⟩ := hw
  have hbelow := hrun.below
  unfold Crew.finish
  cases hframes : run.below with
  | nil =>
    cases hframes' : run'.below with
    | nil =>
      rw [hrun.ticket]
      exact ((h.setWorker ⟨_, rfl, .none⟩).dropOwnerOf run.ticket).reply (hr hframes)
    | cons f' below' => simp [hframes, hframes'] at hbelow
  | cons f below =>
    cases hframes' : run'.below with
    | nil => simp [hframes, hframes'] at hbelow
    | cons f' below' =>
      rw [hframes, hframes'] at hbelow
      obtain ⟨hf, hbelow⟩ := List.forall₂_cons.1 hbelow
      have htold := hf.told (hin (by simp [hframes]))
      exact h.setWorker ⟨_, rfl, .some ⟨hrun.ticket, hrun.holder, htold, hbelow⟩⟩

theorem nextMove? (hw : x.Workers w w') (hrun : x.Runnings run run') :
    c'.nextMove? w' run' = c.nextMove? w run := by
  obtain ⟨_, rfl, -⟩ := hw
  rw [Crew.nextMove?, Crew.nextMove?, h.barriers, h.pipelines, hrun.frame.rest, hrun.frame.doing]
  rfl

/-- The same move has the same effect. -/
theorem carryOut (hw : x.Workers w w') (hrun : x.Runnings run run') {m : UnitMove}
    (hm : c.nextMove? w run = some m) :
    Option.Rel x.Crews (c.carryOut w run m) (c'.carryOut w' run' m) := by
  cases m with
  | goes engine started rest more doing =>
    have hdoing : ∀ s, doing ≠ .awaiting s := by
      rintro s rfl
      exact sound_of_move? hm
    obtain ⟨_, rfl, -⟩ := hw
    refine .some ((h.traced _ _ ?_ ?_).setWorker
      ⟨_, rfl, .some ⟨hrun.ticket, hrun.holder, ?_, hrun.below⟩⟩)
    · cases started <;> simp [Trace.begun, Trace.call, h.pipelines]
    · cases started <;> simp [Trace.begun, Trace.call, h.pipelines, h.calls]
    · exact hrun.frame.goes rest (.refl _ _) hdoing
  | enters rest inner =>
    obtain ⟨_, rfl, -⟩ := hw
    refine .some (h.setWorker ⟨_, rfl, .some ⟨hrun.ticket, hrun.holder, ?_, .cons ?_ hrun.below⟩⟩)
    · exact ⟨rfl, rfl, .refl _ _, fun s hs => by cases hs⟩
    · exact ⟨rfl, hrun.frame.doing, hrun.frame.entries, hrun.frame.awaiting⟩
  | handsOver name inner rest =>
    obtain ⟨_, rfl, -⟩ := hw
    rw [Crew.carryOut, Crew.carryOut, hrun.holder, h.length]
    refine .some ((h.submit name _ inner).setWorker
      ⟨_, rfl, .some ⟨hrun.ticket, hrun.holder, ?_, hrun.below⟩⟩)
    refine ⟨rfl, rfl, hrun.frame.entries, fun s hs hhangs => ?_⟩
    cases hs
    exact absurd (h.old _ hhangs) (Nat.lt_irrefl _)
  | hears ticket =>
    refine rel_map (h.answers ticket) fun r r' hr => ?_
    have hdoing : run.frame.doing = .awaiting ticket := (Worker.reaches_of_move? hm).of_hears
    obtain ⟨_, rfl, -⟩ := hw
    refine h.setWorker ⟨_, rfl, .some ⟨hrun.ticket, hrun.holder, ?_, hrun.below⟩⟩
    rw [hrun.frame.rest]
    exact hrun.frame.goes _ (hr.entries (hrun.frame.awaiting ticket hdoing)) fun s hs => by cases hs
  | dropsOwner rest =>
    obtain ⟨_, rfl, -⟩ := hw
    rw [Crew.carryOut, Crew.carryOut, hrun.holder]
    refine .some (dropOwnerOf (h.setWorker
      ⟨_, rfl, .some ⟨hrun.ticket, hrun.holder, ?_, hrun.below⟩⟩) _)
    exact hrun.frame.goes rest (.refl _ _) fun s hs => by cases hs
  | returns =>
    have hr := hrun.frame.entries.answers
    exact .some (h.finish hw hrun (fun _ => hr) fun _ => hr.entries id)
  | panics engine p =>
    obtain ⟨_, rfl, hrunning⟩ := hw
    have htraced := h.traced (c.trace.notice (.unitPanicked p.message))
      (c'.trace.notice (.unitPanicked p.message)) h.pipelines h.calls
    refine .some (htraced.finish ?_ hrun (fun _ => .same _) fun _ => .refl _ _)
    exact ⟨_, rfl, hrunning⟩

theorem stepWorker (hw : x.Workers w w') : Option.Rel x.Crews (c.stepWorker w) (c'.stepWorker w') := by
  obtain ⟨_, rfl, hrunning⟩ := hw
  cases hrun : w.running with
  | none =>
    rw [hrun] at hrunning
    cases hrunning
    have hnone : Option.Rel x.Runnings w.running none := by
      rw [hrun]
      exact .none
    have hsame : ({ w with running := none } : Worker).forsaken = w.forsaken := rfl
    unfold Crew.stepWorker
    rw [hsame, hrun]
    dsimp only
    split
    · exact .none
    · exact .some (h.close ⟨_, rfl, hnone⟩)
    · split
      · exact .some (h.setWorker ⟨_, rfl, .none⟩)
      · exact .none
    · exact .some (h.setWorker ⟨_, rfl, .none⟩)
    · refine .some (h.setWorker ⟨_, rfl, .some ⟨rfl, rfl, ?_, .nil⟩⟩)
      exact ⟨rfl, rfl, .refl _ _, fun s hs => by cases hs⟩
  | some run =>
    have hw : x.Workers w { w with running := _ } := ⟨_, rfl, hrunning⟩
    rw [hrun] at hrunning
    cases hrunning with
    | @some _ run' hrunning =>
      rw [c.stepWorker_running w run hrun, c'.stepWorker_running _ run' rfl, h.nextMove? hw hrunning]
      cases hm : c.nextMove? w run with
      | none => exact .none
      | some m => exact h.carryOut hw hrunning hm

/-- Whatever happens has the same effect. -/
theorem apply (e : CrewEvent) : x.Crews (c.apply e) (c'.apply e) := by
  cases e with
  | submit name list => exact h.submit name none list
  | submitOwner name list =>
    have hticket : (c'.submit name none list).1 = (c.submit name none list).1 := by
      rw [c.submit_ticket, c'.submit_ticket, h.length]
    unfold Crew.apply
    dsimp only
    rw [hticket]
    refine (h.submit name none list).modifyWorker (fun w => by split <;> rfl) (fun w w' hw => ?_) name
    obtain ⟨_, rfl, hrunning⟩ := hw
    dsimp only
    split <;> exact ⟨_, rfl, hrunning⟩
  | dropOwner name =>
    refine h.modifyWorker (fun w => by split <;> rfl) (fun w w' hw => ?_) name
    obtain ⟨_, rfl, hrunning⟩ := hw
    dsimp only
    split <;> exact ⟨_, rfl, hrunning⟩
  | client name | dropClient name | failing name _ _ =>
    refine h.modifyWorker ?_ ?_ name
    · exact fun w => rfl
    · rintro w w' ⟨_, rfl, hrunning⟩
      exact ⟨_, rfl, hrunning⟩
  | openBarrier name => exact { h with barriers := congrArg (name :: ·) h.barriers }
  | turn name =>
    have hworker := h.workers name
    simp only [Crew.apply, Crew.step]
    generalize c.worker? name = v at hworker ⊢
    generalize c'.worker? name = v' at hworker ⊢
    cases hworker with
    | none => exact h
    | some hworker =>
      have hstep := h.stepWorker hworker
      rw [Option.bind_some, Option.bind_some]
      generalize c.stepWorker _ = d at hstep ⊢
      generalize c'.stepWorker _ = d' at hstep ⊢
      cases hstep with
      | none => exact h
      | some hstep => exact hstep

/-! ## Logs -/

theorem taken (name : String) (e : CrewEvent) : c'.taken name e = c.taken name e := by
  cases e with
  | turn other =>
    have hworker := h.workers name
    unfold Crew.taken
    generalize c.worker? name = v at hworker ⊢
    generalize c'.worker? name = v' at hworker ⊢
    cases hworker with
    | none => rfl
    | some hworker => simp [hworker.takes]
  | _ => rfl

theorem submitting? (hw : x.Workers w w') : c'.submitting? w' = c.submitting? w := by
  obtain ⟨running, rfl, hrunning⟩ := hw
  unfold Crew.submitting? Crew.coming?
  cases hrun : w.running with
  | none =>
    rw [hrun] at hrunning
    cases hrunning
    rfl
  | some run =>
    have hw : x.Workers w { w with running } := ⟨running, rfl, hrunning⟩
    rw [hrun] at hrunning
    cases hrunning with
    | some hrunning =>
      dsimp only [Option.bind_some]
      rw [h.nextMove? hw hrunning]
      cases c.nextMove? w run with
      | none => rfl
      | some m => cases m <;> simp [hrunning.holder]

theorem submission? (e : CrewEvent) : c'.submission? e = c.submission? e := by
  cases e with
  | turn name =>
    have hworker := h.workers name
    unfold Crew.submission?
    dsimp only
    generalize c.worker? name = v at hworker ⊢
    generalize c'.worker? name = v' at hworker ⊢
    cases hworker with
    | none => rfl
    | some hworker => exact h.submitting? hworker
  | _ => rfl

theorem during {α : Type} {f : Crew → CrewEvent → List α}
    (hf : ∀ d d' e, x.Crews d d' → f d' e = f d e) (events : List CrewEvent) :
    c'.during f events = c.during f events := by
  induction events generalizing c c' with
  | nil => rfl
  | cons e rest ih => rw [Crew.during, Crew.during, hf c c' e h, ih (h.apply e)]

end Crews

end Workers

theorem Crews.run {c c' : Crew} (h : x.Crews c c') (events : List CrewEvent) :
    x.Crews (c.run events) (c'.run events) := by
  induction events generalizing c c' with
  | nil => exact h
  | cons e rest ih => exact ih (h.apply e)

end Swap

/-! ## Another result -/

namespace Crew

variable {c : Crew} {name : String} {w : Worker} {run : Running} {past : List CrewEvent}

def Awaits (c : Crew) (t s : Nat) : Prop :=
  ∃ name w run f, c.worker? name = some w ∧ w.running = some run ∧ run.ticket = t ∧
    f ∈ run.frame :: run.below ∧ f.doing = .awaiting s

/-- The answer of a unit may hang on that of another one: it waits for it, or for one that does. -/
def Hangs (c : Crew) : Nat → Nat → Prop := Relation.ReflTransGen c.Awaits

def swap (c : Crew) (run : Running) (r r' : WorkResult) : Swap where
  ticket := if run.below = [] then some run.ticket else none
  result := r
  other := r'
  Hangs t := c.Hangs t run.ticket

private theorem frames_refl {r r' : WorkResult} {v : Worker} {work : Running}
    (hv : c.worker? name = some v) (hwork : v.running = some work) {f : Frame}
    (hf : f ∈ work.frame :: work.below) : (c.swap run r r').Frames work.ticket f f :=
  ⟨rfl, rfl, .refl _ _, fun _ hs hhangs => .head ⟨name, v, work, f, hv, hwork, rfl, hf, hs⟩ hhangs⟩

private theorem runnings_refl {r r' : WorkResult} {v : Worker} {work : Running}
    (hv : c.worker? name = some v) (hwork : v.running = some work) :
    (c.swap run r r').Runnings work work :=
  ⟨rfl, rfl, frames_refl hv hwork (List.mem_cons_self ..),
    List.forall₂_same.2 fun _ hf => frames_refl hv hwork (List.mem_cons_of_mem _ hf)⟩

/-- A unit whose answer hangs on another one is at work. -/
theorem Books.lt_of_hangs (hb : c.Books past) (hw : (c.run past).worker? name = some w)
    (hrun : w.running = some run) {t : Nat} (ht : (c.run past).Hangs t run.ticket) :
    t < (c.run past).replies.length := by
  obtain rfl | ⟨s, ⟨other, v, work, f, hv, hwork, rfl, -, -⟩, -⟩ :=
    Relation.ReflTransGen.cases_head ht
  · exact hb.pending_lt hw (by simp [Worker.pending, hrun])
  · exact hb.pending_lt hv (by simp [Worker.pending, hwork])

/-- If the unit at work came to another result, all that is there would be the same but for what hangs
on it. -/
theorem Books.crews_finish (hb : c.Books past) (hw : (c.run past).worker? name = some w)
    (hrun : w.running = some run) (engine : Engine) (trace : Trace)
    (hpipelines : trace.pipelines = (c.run past).trace.pipelines)
    (hcalls : trace.calls = (c.run past).trace.calls) (r r' : WorkResult) :
    ((c.run past).swap run r r').Crews ((c.run past).finish { w with engine } run r)
      (({ c.run past with trace } : Crew).finish { w with engine } run r') := by
  have hsame : ((c.run past).swap run r r').Crews (c.run past) (c.run past) := by
    refine ⟨fun other => ?_, rfl, rfl, rfl, rfl, fun t => Swap.rel_refl t _,
      fun t => hb.lt_of_hangs hw hrun⟩
    cases hv : (c.run past).worker? other with
    | none => exact .none
    | some v => exact .some (.refl fun work hwork => runnings_refl hv hwork)
  have hworkers : ((c.run past).swap run r r').Workers { w with engine } { w with engine } :=
    .refl fun work hwork => runnings_refl hw hwork
  have hown : ((c.run past).swap run r r').Hangs run.ticket := .refl
  refine (hsame.traced (c.run past).trace trace hpipelines hcalls).finish hworkers
    (runnings_refl hw hrun) (fun hbelow => ?_) fun _ => .inr ⟨hown, .cons .swapped .nil⟩
  exact .swapped (if_pos hbelow) hown

/-- The same has been done in two crews, though a unit came to `r` in the first and to `r'` in the
second: nothing else differs but the answers that hang on it, and these in that result alone. -/
structure Apart (c : Crew) (run : Running) (r r' : WorkResult) (d d' : Crew)
    (future : List CrewEvent) : Prop where
  order : ∀ name, d'.outflow name future = d.outflow name future
  submissions : d'.submissions future = d.submissions future
  calls : (d'.run future).trace.calls = (d.run future).trace.calls
  engines : ∀ name, ((d'.run future).worker? name).map (·.engine) =
    ((d.run future).worker? name).map (·.engine)
  others : ∀ t, ¬ c.Hangs t run.ticket → (d'.run future).answer? t = (d.run future).answer? t
  submitters : ∀ t, (run.below = [] → t ≠ run.ticket) →
    Option.Rel (fun a a' => a = a' ∨
        ∃ l l', a = .ok l ∧ a' = .ok l' ∧ List.Forall₂ (Entry.Alike r r') l l')
      ((d.run future).answer? t) ((d'.run future).answer? t)

theorem apart_of_crews {r r' : WorkResult} {d d' : Crew} (h : (c.swap run r r').Crews d d')
    (future : List CrewEvent) : c.Apart run r r' d d' future where
  order name := h.during (fun _ _ e h => h.taken name e) future
  submissions := h.during (fun _ _ e h => by rw [h.submission? e]) future
  calls := (h.run future).calls
  engines name := by
    have hworker := (h.run future).workers name
    generalize (d.run future).worker? name = v at hworker ⊢
    generalize (d'.run future).worker? name = v' at hworker ⊢
    cases hworker with
    | none => rfl
    | some hworker =>
      obtain ⟨_, rfl, -⟩ := hworker
      rfl
  others t ht := by
    have hanswer := (h.run future).answers t
    generalize (d.run future).answer? t = a at hanswer ⊢
    generalize (d'.run future).answer? t = a' at hanswer ⊢
    cases hanswer with
    | none => rfl
    | some hanswer =>
      cases hanswer with
      | same => rfl
      | swapped _ hhangs => exact absurd hhangs ht
      | within hhangs _ => exact absurd hhangs ht
  submitters t ht := by
    have hanswer := (h.run future).answers t
    generalize (d.run future).answer? t = a at hanswer ⊢
    generalize (d'.run future).answer? t = a' at hanswer ⊢
    cases hanswer with
    | none => exact .none
    | some hanswer =>
      refine .some ?_
      cases hanswer with
      | same => exact .inl rfl
      | swapped hticket _ =>
        obtain ⟨hbelow, heq⟩ : run.below = [] ∧ run.ticket = t := by
          simpa [swap] using hticket
        exact absurd heq.symm (ht hbelow)
      | within _ hl => exact .inr ⟨_, _, rfl, rfl, hl⟩

/-- A panic changes nothing but the answers that hang on the unit, whatever comes after it. -/
theorem IsNew.panic_apart (hc : c.IsNew) (hw : (c.run past).worker? name = some w)
    (hrun : w.running = some run) {engine : Engine} {p : Panic}
    (hmove : (c.run past).nextMove? w run = some (.panics engine p)) (future : List CrewEvent) :
    (c.run past).Apart run (.ok run.frame.entries) (.error (.panicked p.message))
      ((c.run past).finish { w with engine } run (.ok run.frame.entries))
      (c.run (past ++ [.turn name])) future := by
  have hstep : (c.run past).step name = some ((c.run past).panicked { w with engine } run p) := by
    rw [step, hw, Option.bind_some, (c.run past).stepWorker_running w run hrun, hmove]
    rfl
  rw [run_concat, apply, hstep]
  exact apart_of_crews ((hc.books_run past).crews_finish hw hrun engine
    ((c.run past).trace.notice (.unitPanicked p.message)) rfl rfl _ _) future

end Crew

end SharedPrompt
