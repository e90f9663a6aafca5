import SharedPrompt.Proofs.AbortTarget
import SharedPrompt.Proofs.EditorLines
import SharedPrompt.Proofs.OwnRequests

/-!
# Lines left over from reads that were stopped

To stop a read, the line editor is told in an idle moment to give up its line. When the request has
been taken out of the idle slot, nothing takes it back: if the read ends in the meantime, or whoever
stopped it goes away, the empty line stays in the buffer for the next read. A request that nobody has
taken is never begun after its call is over. So a read that starts when no other is being stopped
takes lines that were typed, behind what was left over before.
-/

namespace SharedPrompt

namespace Host

section
variable {start : Host} {past future : List Event}

/-- What the engine begins for a job that no caller and no read asks for goes back to somebody who
stopped a read. When nobody does so any more, its request has been taken before. -/
theorem Fresh.exists_took (hf : start.Fresh) {P : Job → Prop}
    (hread : ∀ job : Job, job.IsRead → P job)
    (hcalls : ∀ e ∈ past ++ future, ∀ job, e.job? = some job → P job)
    (hquiet : ∀ mid, mid <+: future → (start.run (past ++ mid)).unaborted = true)
    {ρ : Nat} {job : Job} (hbegan : .began ρ job ∈ start.notes (past ++ future)) (hjob : ¬ P job) :
    ∃ q, q.reply = ρ ∧ .took q ∈ start.notes past := by
  have hall {events : List Event} (hle : events <+: past ++ future) :
      (start.run events).TasksFor P (start.notes events) :=
    hf.tasksFor hread fun e he => hcalls e (hle.subset he)
  have hlog := (hf.deskKept (past ++ future)).lawful
  cases hlife : lifeOf (start.notes (past ++ future)) ρ with
  | none => exact absurd rfl ((hlog.told ρ).1 hlife _ hbegan)
  | some l =>
    have htold := (hlog.told ρ).2 l hlife
    obtain ⟨rfl, -⟩ := htold.began job hbegan
    cases hidle : l.idle with
    | false =>
      obtain ⟨before, e, hle, hd⟩ := exists_of_mem_during (htold.sent hidle)
      exact absurd ((hall ((List.prefix_append _ _).trans hle)).asks hd) hjob
    | true =>
      obtain ⟨q, rfl, hq, hparked⟩ := htold.parked hidle
      rw [← hq] at hjob
      by_contra hnever
      -- The request was left in the slot before `past`.
      obtain ⟨before, e, hle, hd⟩ := exists_of_mem_during hparked
      have hbefore := (List.prefix_append before [e]).trans hle
      have hearly : .parked l.task q ∈ start.notes past := by
        rcases List.prefix_or_prefix_of_prefix hle (List.prefix_append past future) with
          hpast | hpast
        · apply (notes_mono start hpast).subset
          rw [notes_concat, hd]
          simp
        · rcases List.prefix_concat_iff.1 hpast with rfl | hpast
          · rw [notes_concat, hd]
            simp
          · obtain ⟨mid, rfl⟩ := hpast
            have hmid := hquiet mid ((List.prefix_append_right_inj past).1 hbefore)
            rcases (hall hbefore).asks hd with hstops | hasks
            · rw [hmid] at hstops
              cases hstops
            · exact absurd hasks hjob
      -- Its call was over by then, for nobody who awaited a reply had asked for this.
      refine hf.never_begun hearly (fun htook => hnever ⟨q, rfl, htook⟩) ?_ future _ hbegan
      intro x hx hρ
      have hnow := hquiet [] List.nil_prefix
      rw [List.append_nil] at hnow
      obtain ⟨d, hd, hopens, hreply, hasks⟩ := (hall (List.prefix_append _ _)).stake
        (hf.kept.run past).numbered hnow hx hρ
      obtain rfl := (hf.deskKept past).lawful.eq_of_opens hd hearly hopens rfl hreply
      exact hjob (hasks.resolve_left Bool.false_ne_true)

/-- An empty line of a command that reverts the editor is put into the buffer when the engine begins
that command. -/
theorem exists_began_of_fed {ρ : Nat} (hb : .reverted ρ ∈ start.fed past) :
    ∃ job, .began ρ job ∈ start.notes past ∧ job.command = .revertLine := by
  rcases List.mem_append.1 hb with hb | hb
  · obtain ⟨line, -, heq⟩ := List.mem_map.1 hb
    cases heq
  · obtain ⟨before, e, hle, hfed⟩ := exists_of_mem_during hb
    cases e with
    | advance id =>
      obtain ⟨d, hd, hfed⟩ := Option.bind_eq_some_iff.1 hfed
      cases d with
      | began ρ' job =>
        simp only [Note.fed?] at hfed
        split at hfed
        next hreverts =>
          cases hfed
          refine ⟨job, ?_, Engine.eq_revertLine_of_reverts hreverts⟩
          apply (notes_mono start hle).subset
          rw [notes_concat, hd]
          simp
        next => cases hfed
      | _ => cases hfed
    | typeLine line => cases hfed
    | _ => cases hfed

end

/-- The read `x`, for which the thread `th` runs the line editor after `past ++ later`, takes `line`
in the next step of the thread. -/
structure TakesLine (start : Host) (past later : List Event) (x : EditorRead) (th : Nat)
    (line : String) : Prop where
  /-- The line is the oldest that was put into the buffer and not taken. It was typed, or is left
  over from a request to revert the editor that an idle moment had taken by `past`. -/
  next : ∃ b, (start.fed (past ++ later))[(start.drawn (past ++ later)).length]? = some b ∧
    b.text = line ∧ (b = .typed line ∨ ∃ q, b = .reverted q.reply ∧ .took q ∈ start.notes past)
  taken : ∃ ρ, (start.run (past ++ later)).drawn? (.advance th) = some (ρ, line)
  /-- The read ends with it. -/
  ends : (start.run (past ++ later)).tokens.isFired x.caller = false →
    (x.task, .line (.ok line)) ∈ ((start.run (past ++ later)).run
      (List.replicate 5 (.advance th) ++ [.poll x.task []])).finished
  /-- Whatever happens after that step, it ends with nothing else unless its caller cancels it. -/
  result : ∀ future r, (x.task, r) ∈ (start.run (past ++ later)).results (.advance th :: future) →
    r = .line (.ok line) ∨ r = .line (.ok "") ∧
      (start.run (past ++ later ++ .advance th :: future)).tokens.isFired x.caller = true

section
variable {start : Host} {now : List Event} {x : EditorRead} {th : Nat} {line : String}
  {rest : List String}

theorem Editing.inEditor {h : Host} (he : h.Editing x th) : ∃ work inv fresh below,
    h.thread? th = some ⟨th, .edit inv fresh :: .errand .called work :: below⟩ ∧
      h.InEditor x.task work.reply ∧
        h.task? x.task = some (.read (.reading (.running work.reply) x.id x.caller x.own)) := by
  obtain ⟨work, inv, fresh, below, -, hr⟩ := he
  refine ⟨work, inv, fresh, below, hr.thread, ⟨⟨_, hr.task, rfl⟩, ?_⟩, hr.task⟩
  refine ⟨_, List.mem_of_find?_eq_some hr.thread, work, ?_, rfl⟩
  exact List.mem_cons_of_mem _ List.mem_cons_self

/-- When the editor has taken a line for a read, the read ends with that, or with an empty line if
its caller's token fires. -/
theorem Editing.result_of_line (hf : start.Fresh) (he : (start.run now).Editing x th)
    (hlines : (start.run now).engine.lines = line :: rest) {future : List Event} {r : TaskResult}
    (hr : (x.task, r) ∈ (start.run now).results (.advance th :: future)) :
    r = .line (.ok line) ∨ r = .line (.ok "") ∧
      (start.run (now ++ .advance th :: future)).tokens.isFired x.caller = true := by
  obtain ⟨work, inv, fresh, below, hthread, hin, htask⟩ := he.inEditor
  have hnote : (start.run now).note? (.advance th) = some (.ended work.reply (.ok [.str line])) := by
    simp only [note?, hthread, Option.bind_some, Activation.note?, Activation.outcome?, hlines]
    rfl
  have hended : .ended work.reply (.ok [.str line]) ∈
      start.notes (now ++ .advance th :: future) := by
    have hle : now ++ [.advance th] <+: now ++ .advance th :: future := ⟨future, by simp⟩
    apply (notes_mono start hle).subset
    rw [notes_concat, hnote]
    simp
  obtain ⟨r', call, token, before, hended', htask', hcaller, ⟨after, hafter⟩, rfl⟩ :=
    hin.result hf hr
  obtain rfl := (hf.deskKept _).lawful.eq_of_ended hended hended'
  rw [htask] at htask'
  cases htask'
  cases hcaller
  cases hfired : (start.run (now ++ before)).tokens.isFired x.caller with
  | false => exact .inl rfl
  | true =>
    refine .inr ⟨rfl, ?_⟩
    rw [← hafter, ← List.append_assoc, run_append]
    exact (steps_tokens_run (hf.kept.run _) after).isFired hfired

end

/-- Suppose that callers ask for no command that reverts the line editor. Where nobody stops a read
from some moment on, a read takes the oldest line that was put into the buffer and not taken, and ends
with it unless its caller cancels it. That is a line that was typed, or an empty line that is left
over from a request which an idle moment had taken before. -/
theorem read_takes_oldest_line (native follows : Bool) (engine : Engine)
    (console : Console Waiter) (tokens : Tokens) (past later : List Event) (x : EditorRead)
    (th : Nat) (line : String) (rest : List String)
    (callers : ∀ e ∈ past ++ later, ∀ job, e.job? = some job → job.command ≠ .revertLine) :
    let start : Host := { established native follows engine console with tokens }
    (∀ mid, mid <+: later → (start.run (past ++ mid)).unaborted = true) →
    (start.run (past ++ later)).Editing x th →
    (start.run (past ++ later)).engine.lines = line :: rest →
      start.TakesLine past later x th line := by
  intro start hquiet he hlines
  have hf : start.Fresh := fresh_established native follows engine console tokens
  have hread (job : Job) (hjob : job.IsRead) : job.command ≠ .revertLine := by
    rw [hjob.1]
    exact Command.noConfusion
  constructor
  · obtain ⟨b, hb, htext⟩ := hf.exists_fed hlines
    refine ⟨b, hb, htext, ?_⟩
    cases b with
    | typed line' => exact .inl (congrArg _ htext)
    | reverted ρ =>
      obtain ⟨job, hbegan, hcommand⟩ := exists_began_of_fed (List.mem_of_getElem? hb)
      obtain ⟨q, rfl, htook⟩ := hf.exists_took hread callers hquiet hbegan (not_not.2 hcommand)
      exact .inr ⟨q, rfl, htook⟩
  · obtain ⟨work, inv, fresh, below, hthread, -⟩ := he.inEditor
    refine ⟨work.reply, ?_⟩
    simp only [drawn?, hthread, Option.bind_some, Activation.drawn?, hlines]
    rfl
  · intro hnot
    simpa [hnot] using he.ends_of_line hlines
  · exact fun future r => he.result_of_line hf hlines

/-- A read is in the line editor, and somebody stops it, so that a request waits for an idle
moment. -/
def readStopped : List Event :=
  .start (.read true 0) :: List.replicate 7 (.poll 0 []) ++ [.advance 0, .advance 0] ++
    .start .abort :: List.replicate 4 (.poll 1 [])

def readEmptied : List Event :=
  readStopped ++ List.replicate 17 (.advance 0) ++ [.poll 0 [], .poll 1 [], .poll 1 []]

def nextRead : List Event :=
  .start (.read true 0) :: List.replicate 7 (.poll 2 []) ++
    [.advance 1, .advance 1, .typeLine "y"]

set_option maxRecDepth 1000 in
/-- The next read takes the line that was typed for it. -/
theorem read_takes_oldest_line_afterAbort :
    (oneToken.run (readEmptied ++ nextRead)).Editing ⟨2, 2, 0, 4⟩ 1 ∧
      oneToken.TakesLine readEmptied nextRead ⟨2, 2, 0, 4⟩ 1 "y" := by
  have hediting : (oneToken.run (readEmptied ++ nextRead)).Editing ⟨2, 2, 0, 4⟩ 1 :=
    ⟨⟨⟨1, some 0, true⟩, 1, ⟨.readLine, .reading, 2, 4⟩, 2⟩, _, true, [], rfl, rfl, ⟨2, rfl⟩, rfl⟩
  have hcallers : (readEmptied ++ nextRead).filterMap Event.job? = [] := rfl
  have hquiet : nextRead.inits.all
      (fun mid => (oneToken.run (readEmptied ++ mid)).unaborted) = true := by decide +kernel
  refine ⟨hediting, read_takes_oldest_line true false {} {} { all := [.fresh] } readEmptied nextRead
    ⟨2, 2, 0, 4⟩ 1 "y" [] ?_ ?_ hediting rfl⟩
  · intro e he job hjob
    have hmem := List.mem_filterMap.2 ⟨e, he, hjob⟩
    rw [hcallers] at hmem
    cases hmem
  · exact fun mid hmid => List.all_eq_true.1 hquiet mid ((List.mem_inits _ _).2 hmid)

/-- An idle moment has taken the request when a line is typed. The editor gives up its line, but the
read takes the line that was typed, and both calls return. -/
def readFinished : List Event :=
  readStopped ++ List.replicate 4 (.advance 0) ++ .typeLine "x" :: List.replicate 13 (.advance 0) ++
    [.poll 0 [], .poll 1 []]

/-- The next read ends with the empty line that is left over, and the line typed for it stays in the
buffer. -/
theorem readFinished_leavesLine :
    let h := oneToken.run readFinished
    let k := oneToken.run (readFinished ++ nextRead ++ List.replicate 5 (.advance 1) ++ [.poll 2 []])
    h.tasks.length = 0 ∧ oneToken.results readFinished = [(0, .line (.ok "x")), (1, .done)] ∧
      (nextRead.inits.all fun mid => (oneToken.run (readFinished ++ mid)).unaborted) = true ∧
      k.finished = [(0, .line (.ok "x")), (1, .done), (2, .line (.ok ""))] ∧
      k.engine.lines = ["y"] ∧ k.tokens.isFired 0 = false :=
  ⟨rfl, rfl, rfl, rfl, rfl, rfl⟩

end Host

end SharedPrompt
