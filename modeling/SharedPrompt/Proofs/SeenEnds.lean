import SharedPrompt.Proofs.EditorErrands
import SharedPrompt.Proofs.SoleReader

/-!
# Whoever waits for the end of a read

A call that waits until no read is in progress takes a ticket and gives it back: in a native host that
of the line, and in any other one that of the reader of the console. A read that is in progress holds
that ticket, if it is one of the line editor in a native host, or one of the console in any other. So
none of these is in progress when the call ends.
-/

namespace SharedPrompt

/-! ## What there is in a native host, and what in others -/

def ExitCall.Fits (native : Bool) : ExitCall → Prop
  | start => True
  | leasing lease => native = true ∧ lease.ForLine
  | queued _ => native = false

def ReadCall.Fits (native : Bool) : ReadCall → Prop
  | start .. => True
  | console _ => True
  | _ => native = true

namespace Task

def exit? : Task → Option ExitCall
  | exit call => some call
  | command (.exiting call _) _ => some call
  | _ => none

def Fits (native : Bool) : Task → Prop
  | exit call => call.Fits native
  | command (.exiting call _) _ => call.Fits native
  | read call => call.Fits native
  | _ => True

theorem Fits.exit {native : Bool} {task : Task} (hf : task.Fits native) {exit : ExitCall}
    (he : task.exit? = some exit) : exit.Fits native := by
  cases task with
  | exit call =>
    cases he
    exact hf
  | command call sink =>
    cases call with
    | exiting call job =>
      cases he
      exact hf
    | _ => cases he
  | _ => cases he

end Task

namespace ExitCall

variable {h : Host}

/-- A call that waits for the end of a read ends when it has come by the ticket. -/
theorem step_cases (me : Nat) {call : ExitCall} (hf : call.Fits h.native)
    (hline : h.stack.line.gate = 1) :
    (call.step h me).2.Meets (fun call' => call'.Fits h.native) fun _ =>
      (h.native = true ∧ ∃ lease p, call = .leasing lease ∧ (lease.step h me).2 = .done p ∧
        p.lease = 1) ∨ h.native = false ∧ 0 < h.reader.gate.size := by
  cases call with
  | start =>
    have hjoin := (h.drawTurn me).2.reader.gate.size_join (h.drawTurn me).1
    simp only [step]
    split
    next hnative => exact ⟨hnative, .inl rfl⟩
    next hnot =>
      have hnative : h.native = false := Bool.eq_false_iff.2 hnot
      split
      next htaken =>
        rw [if_pos htaken] at hjoin
        refine .inr ⟨hnative, ?_⟩
        change _ + 1 = h.reader.gate.size at hjoin
        omega
      next => exact hnative
  | leasing lease =>
    obtain ⟨hnative, hlease⟩ := hf
    have hgoes := hlease.step hline me
    rcases hs : lease.step h me with ⟨k, r⟩
    rw [hs] at hgoes
    simp only [step, hs]
    rcases hgoes with rfl | ⟨lease', rfl, hlease'⟩ | ⟨p, rfl, hp⟩
    · trivial
    · exact ⟨hnative, hlease'⟩
    · exact .inl ⟨hnative, lease, p, rfl, by rw [hs], hp⟩
  | queued w =>
    simp only [step]
    split
    next gate hc =>
      have := TicketGate.size_collect hc
      exact .inr ⟨hf, by omega⟩
    next => trivial

end ExitCall

namespace ReadCall

variable {h : Host}

theorem fits_step (me : Nat) (bias : List Bool) {call : ReadCall} (hf : call.Fits h.native) :
    (call.step h me bias).2.Meets (fun call' => call'.Fits h.native) fun _ => True := by
  have hany {call : ReadCall} (hnative : h.native = true) : call.Fits h.native := by
    cases call <;> first | exact hnative | trivial
  have hall (hnative : h.native = true) {p : Poll ReadCall Answer} :
      p.Meets (fun call' => call'.Fits h.native) fun _ => True := by
    cases p <;> first | exact hany hnative | trivial
  cases call with
  | start commandLine token =>
    simp only [step]
    split
    · trivial
    · split
      · trivial
      next hnot =>
        refine hany ?_
        cases hnative : h.native with
        | true => rfl
        | false => simp [hnative] at hnot
  | console call =>
    simp only [step]
    cases (call.step h me bias).2 <;> trivial
  | clearing abort token => exact hall hf
  | enter token => exact hall hf
  | reading run id token own => exact hall hf
  | stopping abort run result id token => exact hall hf

end ReadCall

theorem Task.fits_step {h : Host} (me : Nat) (bias : List Bool) {task : Task}
    (hf : task.Fits h.native) (hline : h.stack.line.gate = 1) :
    (task.step h me bias).2.Meets (fun task' => task'.Fits h.native) fun _ => True := by
  have hmap {σ α : Type} {P : σ → Prop} {Q : α → Prop} {f : σ → Task} {g : α → TaskResult}
      {p : Poll σ α} (hp : p.Meets P Q) (hP : ∀ s, P s → (f s).Fits h.native) :
      (p.map f g).Meets (fun task' => task'.Fits h.native) fun _ => True := by
    cases p with
    | blocked => trivial
    | next s => exact hP s hp
    | done a => trivial
  have hfree {σ α : Type} {f : σ → Task} {g : α → TaskResult} (p : Poll σ α)
      (hP : ∀ s, (f s).Fits h.native) :
      (p.map f g).Meets (fun task' => task'.Fits h.native) fun _ => True := by
    cases p <;> first | exact hP _ | trivial
  cases task with
  | command call sink =>
    cases call with
    | start job =>
      simp only [step, CommandCall.step]
      split <;> trivial
    | aborting abort job =>
      simp only [step, CommandCall.step]
      cases (abort.step h me bias).2 <;> trivial
    | exiting exit job =>
      have hexit := ExitCall.step_cases me hf hline
      simp only [step, CommandCall.step]
      generalize (exit.step h me).2 = p at hexit
      cases p with
      | blocked => trivial
      | next exit' => exact hexit
      | done a => trivial
    | running run =>
      simp only [step, CommandCall.step]
      cases (run.step h me bias).2 <;> trivial
  | idle call sink => exact hfree _ fun _ => trivial
  | read call => exact hmap (ReadCall.fits_step me bias hf) fun _ hp => hp
  | line call => exact hfree _ fun _ => trivial
  | abort call => exact hfree _ fun _ => trivial
  | exit call => exact hmap (ExitCall.step_cases me hf hline) fun _ hp => hp
  | lease call => exact hfree _ fun _ => trivial
  | key call => exact hfree _ fun _ => trivial

namespace Host

/-- Whether a host is native never changes. -/
theorem native_run {start : Host} (hk : start.WellKept) (past : List Event) :
    (start.run past).native = start.native :=
  congrArg Prod.fst (reads_run hk past)

/-- All tasks are such as there are in a host of its kind. -/
theorem fits_run {start : Host} (hk : start.WellKept) (htasks : start.tasks = [])
    (past : List Event) {t : Nat} {task : Task} (ht : (start.run past).task? t = some task) :
    task.Fits (start.run past).native := by
  induction past using List.reverseRecOn generalizing t task with
  | nil =>
    rw [Host.run, List.foldl_nil, task?, htasks] at ht
    cases ht
  | append_singleton past e ih =>
    rw [native_run hk, ← native_run hk past]
    rw [run_concat] at ht
    have hkept := hk.run past
    cases task?_apply hkept.numbered ht with
    | same ht => exact ih ht
    | started call hnew hcall =>
      subst hcall
      cases call <;> trivial
    | @polled bias before k r hbefore hs hf hr =>
      have hmeets := Task.fits_step t bias (ih hbefore)
        hkept.balanced.books.sound.line
      rw [hs] at hmeets
      cases r with
      | blocked =>
        cases hr
        exact ih hbefore
      | next after =>
        cases hr
        exact hmeets
      | done r => cases hr

/-! ## The end of a read is seen -/

/-- In its next step the task `u` sees that no read is in progress. -/
def SeesEnd (h : Host) (u : Nat) : Prop :=
  ∃ task exit, h.task? u = some task ∧ task.exit? = some exit ∧ (exit.step h u).2 = .done ()

variable {start : Host} {past : List Event} {u : Nat}

/-- Then no read of a native host is in the editor. -/
theorem SeesEnd.not_inEditor (hf : start.Fresh) (hsees : (start.run past).SeesEnd u) (t ρ : Nat) :
    ¬ (start.run past).InEditor t ρ := by
  intro hin
  obtain ⟨task, exit, ht, hexit, hdone⟩ := hsees
  have hkept := hf.kept.run past
  have hfits := (fits_run hf.kept hf.tasks past ht).exit hexit
  have hcases := ExitCall.step_cases u hfits hkept.balanced.books.sound.line
  rw [hdone] at hcases
  rcases hcases with ⟨-, lease, p, rfl, hlease, hp⟩ | ⟨hnot, -⟩
  · have hle : ({.lease lease} : Multiset Part) ≤ task.parts := by
      cases task with
      | exit call =>
        cases hexit
        exact le_rfl
      | command call sink =>
        cases call with
        | exiting call job =>
          cases hexit
          exact le_rfl
        | _ => cases hexit
      | _ => cases hexit
    exact (hin.lineTaken hf u).not_done hkept ht hle hp hlease
  · obtain ⟨⟨call, htask, hrun⟩, -⟩ := hin
    have hread := fits_run hf.kept hf.tasks past htask
    rw [hnot] at hread
    cases call with
    | reading run id token own => cases hread
    | stopping abort run result id token => cases hread
    | _ => cases hrun

/-- And no read takes keys in a host that is not native. -/
theorem SeesEnd.keysOf? (hf : start.Fresh) (hreader : start.reader = {})
    (hsees : (start.run past).SeesEnd u) (hnative : start.native = false) (t : Nat) :
    (start.run past).keysOf? t = none := by
  obtain ⟨task, exit, ht, hexit, hdone⟩ := hsees
  have hkept := hf.kept.run past
  have hfits := (fits_run hf.kept hf.tasks past ht).exit hexit
  have hcases := ExitCall.step_cases u hfits hkept.balanced.books.sound.line
  rw [hdone] at hcases
  have hsize : 0 < (start.run past).reader.gate.size := by
    rcases hcases with ⟨hnot, -⟩ | ⟨-, hsize⟩
    · rw [native_run hf.kept, hnative] at hnot
      cases hnot
    · exact hsize
  rw [Option.eq_none_iff_forall_ne_some]
  intro own hown
  have hkeys := (KeyboardKept.fresh hf.tasks hreader).run hf.kept past
  have := hkeys.taken t (readerTickets_of_keysOf hown)
  omega

/-- The step itself leaves the threads alone, and its task does not go on with a read. -/
theorem SeesEnd.step {h : Host} (hsees : h.SeesEnd u) (bias : List Bool) :
    (h.apply (.poll u bias)).threads = h.threads ∧
      ∀ call, (h.apply (.poll u bias)).task? u ≠ some (.read call) := by
  obtain ⟨task, exit, ht, hexit, hdone⟩ := hsees
  have hthreads : (exit.step h u).1.threads = h.threads := (exit.offDesk_step h u).threads
  rcases hr : exit.step h u with ⟨k, r⟩
  rw [hr] at hdone hthreads
  obtain rfl : r = .done () := hdone
  obtain ⟨r', hs, hread⟩ : ∃ r', task.step h u bias = (k, r') ∧
      ∀ call, r'.task? task ≠ some (.read call) := by
    cases task with
    | exit call =>
      cases hexit
      refine ⟨.done .done, ?_, fun call hcall => by cases hcall⟩
      simp only [Task.step, hr]
      rfl
    | command call sink =>
      cases call with
      | exiting call job =>
        cases hexit
        refine ⟨.next (.command (.running (.start job)) sink), ?_, fun call hcall => by cases hcall⟩
        simp only [Task.step, CommandCall.step, hr]
        rfl
      | _ => cases hexit
    | _ => cases hexit
  refine ⟨?_, fun call => ?_⟩
  · rw [apply_poll ht hs, (k.filed_afterPoll u r').threads]
    exact hthreads
  · rw [task?_poll ht hs]
    exact hread call

/-- After it, there is still no read in the editor. -/
theorem SeesEnd.not_inEditor_apply (hf : start.Fresh) (hsees : (start.run past).SeesEnd u)
    (bias : List Bool) (t ρ : Nat) : ¬ ((start.run past).apply (.poll u bias)).InEditor t ρ := by
  rintro ⟨⟨call, ht, hrun⟩, hthread⟩
  obtain ⟨hthreads, hread⟩ := hsees.step bias
  have hne : t ≠ u := by
    rintro rfl
    exact hread call ht
  have hbefore : (start.run past).task? t = some (.read call) := by
    cases task?_apply (hf.kept.run past).numbered ht with
    | same ht => exact ht
    | polled => exact absurd rfl hne
  rw [hthreads] at hthread
  exact hsees.not_inEditor hf t ρ ⟨⟨call, hbefore, hrun⟩, hthread⟩

end Host

end SharedPrompt
