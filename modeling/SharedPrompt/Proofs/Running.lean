import SharedPrompt.Proofs.Polls
import SharedPrompt.Proofs.Seated

/-!
# The commands that are running

A command runs for the execution that has sent it, or for the request of an idle moment. Whoever it
runs for holds a permit as long as it runs.
-/

namespace SharedPrompt

inductive Origin where
  | execution (work : Assignment)
  /-- A request served in an idle moment, under the permit of its own prompt. -/
  | idle (permit : Permit)
  | other

namespace Origin

def parts : Origin → Multiset Part
  | execution work => {.permit work.permit}
  | idle permit => {.permit permit}
  | other => 0

def isIdle : Origin → Bool
  | idle _ => true
  | _ => false

end Origin

namespace Activation

def origin : List Activation → Origin
  | .errand .called work :: _ => .execution work
  | .serve (.called _ permit _) :: _ => .idle permit
  | _ => .other

/-- The commands that are running in a thread, by what they were begun for, innermost first. -/
def invocations : List Activation → List Origin
  | [] => []
  | a :: below => if a.isInvocation then origin below :: invocations below else invocations below

variable {P : Assignment → Prop}

/-- The commands that run in a thread are run under permits of that thread. -/
theorem parts_invocations_le : ∀ stack : List Activation,
    (stack.IsChain fun above a => a.carries above.kind = true) →
      ((invocations stack).map Origin.parts).sum ≤ partsOf stack
  | [], _ => le_rfl
  | [a], _ => by
    simp only [invocations]
    split <;> exact bot_le
  | a :: c :: rest, hchain => by
    obtain ⟨hcarries, htail⟩ := List.isChain_cons_cons.1 hchain
    have hrest := parts_invocations_le rest htail.tail
    have hbelow := parts_invocations_le (c :: rest) htail
    by_cases ha : a.isInvocation = true
    · have hkind : a.kind = .invocation := by simpa [isInvocation] using ha
      rw [hkind] at hcarries
      -- What carries a command is no command, and its part is that of the command's origin.
      have hcaller : (origin (c :: rest)).parts = c.parts ∧ c.isInvocation = false := by
        cases c with
        | serve phase =>
          cases phase with
          | called request permit pipeline => exact ⟨rfl, rfl⟩
          | _ => cases hcarries
        | errand phase work =>
          cases phase with
          | called => exact ⟨rfl, rfl⟩
          | _ => cases hcarries
        | _ => cases hcarries
      rw [invocations, if_pos ha, invocations, if_neg (by simp [hcaller.2]), List.map_cons,
        List.sum_cons, hcaller.1, partsOf_cons, partsOf_cons]
      exact (add_le_add_right hrest c.parts).trans (Multiset.le_add_left _ _)
    · rw [invocations, if_neg ha, partsOf_cons]
      exact hbelow.trans (Multiset.le_add_left _ _)

/-- A running command stands on what it was begun for. -/
theorem mem_invocations {o : Origin} : ∀ {stack : List Activation}, o ∈ invocations stack →
    ∃ a below, a :: below <:+ stack ∧ a.kind = .invocation ∧ o = origin below
  | a :: below, ho => by
    rw [invocations] at ho
    have hbelow (ho : o ∈ invocations below) :
        ∃ b rest, b :: rest <:+ a :: below ∧ b.kind = .invocation ∧ o = origin rest := by
      obtain ⟨b, rest, hsuffix, hb⟩ := mem_invocations ho
      exact ⟨b, rest, hsuffix.trans (List.suffix_cons a below), hb⟩
    split at ho
    next ha =>
      rcases List.mem_cons.1 ho with rfl | ho
      · exact ⟨a, below, List.suffix_rfl, by simpa [isInvocation] using ha, rfl⟩
      · exact hbelow ho
    next => exact hbelow ho

/-- A running command was begun for an errand of its thread, or in an idle moment. -/
theorem Seated.origin_cases {stack : List Activation} (hs : Seated P stack) {o : Origin}
    (ho : o ∈ invocations stack) :
    (∃ work, o = .execution work ∧ .errand .called work ∈ stack) ∨ ∃ permit, o = .idle permit := by
  obtain ⟨a, below, ⟨pre, rfl⟩, hkind, rfl⟩ := mem_invocations ho
  have hchain := hs.chain.right_of_append
  have hbase := hs.base
  rw [List.map_append, List.map_cons, List.getLast?_append_cons, ← List.map_cons] at hbase
  rcases below_invocation hchain hbase hkind with
    ⟨work, rest, rfl⟩ | ⟨request, permit, pipeline, rest, rfl⟩
  · exact .inl ⟨work, rfl, by simp⟩
  · exact .inr ⟨permit, rfl⟩

end Activation

namespace Host

def invocations (h : Host) : List Origin :=
  h.threads.flatMap fun t => Activation.invocations t.stack

/-- Every thread has the shape of a thread, and every errand is one of `P`. -/
def Shaped (h : Host) (P : Assignment → Prop) : Prop := ∀ t ∈ h.threads, Activation.Seated P t.stack

variable {h : Host} {P : Assignment → Prop}

/-- The permits that commands run under are among the parts of a host. -/
theorem Shaped.parts_invocations_le (hs : h.Shaped P) :
    (h.invocations.map Origin.parts).sum ≤ h.parts := by
  have hthreads : ∀ l : List Thread, (∀ t ∈ l, Activation.Seated P t.stack) →
      ((l.flatMap fun t => Activation.invocations t.stack).map Origin.parts).sum ≤
        (l.map fun t => Activation.partsOf t.stack).sum := by
    intro l hl
    induction l with
    | nil => exact le_rfl
    | cons t rest ih =>
      rw [List.flatMap_cons, List.map_append, List.sum_append, List.map_cons, List.sum_cons]
      have hhead := Activation.parts_invocations_le t.stack (hl t List.mem_cons_self).chain
      exact add_le_add hhead (ih fun u hu => hl u (List.mem_cons_of_mem t hu))
  exact (hthreads h.threads hs).trans ((Multiset.le_add_right _ _).trans (Multiset.le_add_left _ _))

theorem Shaped.origin_cases (hs : h.Shaped P) {o : Origin} (ho : o ∈ h.invocations) :
    (∃ work, o = .execution work ∧ P work) ∨ ∃ permit, o = .idle permit := by
  obtain ⟨t, ht, ho⟩ := List.mem_flatMap.1 ho
  rcases (hs t ht).origin_cases ho with ⟨work, rfl, hmem⟩ | hidle
  · exact .inl ⟨work, rfl, (hs t ht).works _ hmem work rfl⟩
  · exact .inr hidle

/-! ## What events do to threads -/

inductive ThreadAfter (h : Host) : Event → Thread → Prop where
  | same {e : Event} {t : Thread} (ht : t ∈ h.threads) : ThreadAfter h e t
  | stepped {id : Nat} {t : Thread} {k : Host} {stack : List Activation}
      (ht : h.thread? id = some t) (hs : Activation.step h t.stack = some (k, stack)) :
      ThreadAfter h (.advance id) ⟨id, stack⟩
  | idle (rest : List Nat) : ThreadAfter h .idle ⟨h.nextThread, [.notify rest]⟩
  | sent {t : Nat} {bias : List Bool} {permit : Permit} {job : Job}
      (ht : h.execution? t = some (.granted permit job))
      (hafter : (h.apply (.poll t bias)).execution? t = some (.running h.replies.length)) :
      ThreadAfter h (.poll t bias) ⟨h.nextThread, [.errand .start
        ⟨permit, h.stack.currentPipeline job.options.readLine, job, h.replies.length⟩]⟩

/-- A step of a task leaves the threads alone, or adds the one that its execution has sent. -/
theorem threads_stepped {h k : Host} {t : Nat} {bias : List Bool} {task : Task}
    {r : Poll Task TaskResult} (ht : h.task? t = some task) (hs : Task.Stepped h t bias task k r) :
    k.threads = h.threads ∨
      ∃ permit job, h.execution? t = some (.granted permit job) ∧
        r.execution? task = some (.running h.replies.length) ∧
        k.threads = h.threads ++ [⟨h.nextThread, [.errand .start
          ⟨permit, h.stack.currentPipeline job.options.readLine, job, h.replies.length⟩]⟩] := by
  cases hs with
  | aloof hm hrun hbegun => exact .inl hm.sameCalls.threads
  | begun hm hbefore hfresh job hrun => exact .inl hm.sameCalls.threads
  | stepped run b hbefore ha hrun hbegun =>
    rw [ha.threads]
    have hexec : h.execution? t = some run := by rw [execution?, ht, Option.bind_some, hbefore]
    have hturn := run.turn h t b
    generalize (run.step h t b).1 = k' at hturn
    generalize (run.step h t b).2.after run = after at hturn hrun
    cases hturn with
    | aside ha' hw => exact .inl ha'.threads
    | lease l job ha' => exact .inl (ha'.threads.trans (l.sameCalls_step h t).threads)
    | giveUp l job hk ha' =>
      exact .inl (ha'.threads.trans ((l.sameCalls_abandon _).threads.trans hk.threads))
    | dispatch permit job hd => exact .inr ⟨permit, job, hexec, hrun, hd.threads⟩

theorem threads_setThread (hn : h.Numbered) {id : Nat} {t : Thread} (ht : h.thread? id = some t)
    (stack : List Activation) {u : Thread} (hu : u ∈ (h.setThread id stack).threads) :
    u ∈ h.threads ∨ u = ⟨id, stack⟩ := by
  obtain ⟨pre, post, hsplit, hid, hremove, hset⟩ := hn.split_thread ht
  rw [hsplit]
  by_cases hne : stack = []
  · subst hne
    rw [hremove] at hu
    simp only [List.mem_append, List.mem_cons] at hu ⊢
    tauto
  · rw [hset stack hne] at hu
    simp only [List.mem_append, List.mem_cons] at hu ⊢
    tauto

theorem threads_apply (hn : h.Numbered) {e : Event} {t : Thread} (ht : t ∈ (h.apply e).threads) :
    h.ThreadAfter e t := by
  have hsame {k : Host} (hthreads : k.threads = h.threads) (ht : t ∈ k.threads) :
      h.ThreadAfter e t := .same (hthreads ▸ ht)
  obtain ⟨k, hk, hnext⟩ : ∃ k, h.apply e = k ∧ h.Next e k := ⟨_, rfl, h.next_apply e⟩
  rw [hk] at ht
  cases hnext with
  | plain hs => exact hsame (hs 0).sameCalls.threads ht
  | @polled u bias task k r hbefore hs =>
    have hstepped := task.stepped h u bias
    have htasks := (task.step_moves h u 0 bias).spawns.tasks
    rw [hs] at hstepped htasks
    rw [(k.filed_afterPoll u r).threads] at ht
    rcases threads_stepped hbefore hstepped with hthreads | ⟨permit, job, hexec, hrun, hnew⟩
    · exact hsame hthreads ht
    · rw [hnew, List.mem_append, List.mem_singleton] at ht
      rcases ht with ht | rfl
      · exact .same ht
      · refine .sent hexec ?_
        rw [hk, execution?, task?_afterPoll_self (by rwa [task?, htasks]), Poll.bind_task?, hrun]
  | @advanced id t' k stack hfind hs =>
    have hcalls := (Activation.step_shifts 0 hs).sameCalls
    have hfind' : k.thread? id = some t' := by rwa [thread?, hcalls.threads]
    rcases threads_setThread (hn.sameCalls hcalls) hfind' stack ht with ht | rfl
    · exact hsame hcalls.threads ht
    · exact .stepped hfind hs
  | started call =>
    rw [(aside_wake _ _).threads] at ht
    exact .same ht
  | @dropped u task _ => exact hsame (task.abandon_moves h u 0).sameCalls.threads ht
  | released _ =>
    rw [(sameCalls_releasePermit _ _).threads] at ht
    exact .same ht
  | idle =>
    rcases List.mem_append.1 ht with ht | ht
    · exact .same ht
    · rw [List.mem_singleton.1 ht]
      exact .idle _
  | pushed hq => exact hsame hq.threads ht

/-- Threads keep their shape, and a new errand has the permit of the execution that has sent it. -/
theorem Shaped.apply (hs : h.Shaped P) (hn : h.Numbered) (e : Event)
    (hsent : ∀ t bias permit job, e = .poll t bias → h.execution? t = some (.granted permit job) →
      P ⟨permit, h.stack.currentPipeline job.options.readLine, job, h.replies.length⟩) :
    (h.apply e).Shaped P := by
  intro t ht
  cases threads_apply hn ht with
  | same ht => exact hs t ht
  | stepped hfind hstep => exact (hs _ (List.mem_of_find?_eq_some hfind)).step hstep
  | idle rest => exact .single rfl (fun hk => by cases hk) fun _ hw => by cases hw
  | sent hexec hafter =>
    refine .single rfl (fun hk => by cases hk) fun work hw => ?_
    rw [← Option.some.inj hw]
    exact hsent _ _ _ _ rfl hexec

end Host

end SharedPrompt
