import SharedPrompt.Proofs.Arrivals

/-!
# From an execution to the engine

An execution that has its permit sends a thread, and the thread begins the command when the pipeline
is not locked. Until then its errand is still to be begun.
-/

namespace SharedPrompt

namespace Activation

def isUnanswered : Activation → Bool
  | errand .start _ => true
  | errand .lock _ => true
  | errand .called _ => true
  | _ => false

def isUnbegun : Activation → Bool
  | errand .start _ => true
  | errand .lock _ => true
  | _ => false

theorem exists_underPermit {a : Activation} (ha : a.isUnbegun = true) :
    ∃ p, a.underPermit? = some p := by
  unfold isUnbegun at ha
  split at ha
  · exact ⟨_, rfl⟩
  · exact ⟨_, rfl⟩
  · cases ha

theorem isUnanswered_of_isUnbegun {a : Activation} (ha : a.isUnbegun = true) :
    a.isUnanswered = true := by
  unfold isUnbegun at ha
  split at ha
  · rfl
  · rfl
  · cases ha

section
variable {h h' : Host} {a : Activation} {below stack' : List Activation}

theorem mem_of_mem_cons {b : Activation} {l : List Activation} (ha : a ∈ b :: l)
    (hun : a.isUnanswered = true) (hb : b.isUnanswered = false) : a ∈ l := by
  refine (List.mem_cons.1 ha).resolve_left fun heq => ?_
  rw [← heq, hun] at hb
  cases hb

theorem mem_of_endCommand {inv : Invocation} {editing : Bool} {o : Outcome}
    (hs : endCommand h inv editing o below = (h', stack')) (ha : a ∈ stack')
    (hun : a.isUnanswered = true) : a ∈ below := by
  have hdeliver (r : RunResult) (ha : a ∈ deliver r below) : a ∈ below := by
    unfold deliver at ha
    split at ha
    · exact List.mem_cons_of_mem _ (mem_of_mem_cons ha hun rfl)
    · exact List.mem_cons_of_mem _ (mem_of_mem_cons ha hun rfl)
    · exact ha
  unfold endCommand at hs
  dsimp only at hs
  split at hs
  · cases hs
    exact List.mem_cons_of_mem _ ha
  · cases hs
    exact hdeliver _ ha

theorem mem_of_beginCommand {pipeline : Nat} {job : Job}
    (hs : beginCommand h pipeline job below = (h', stack')) (ha : a ∈ stack')
    (hun : a.isUnanswered = true) : a ∈ below := by
  cases hs
  refine mem_of_mem_cons ha hun ?_
  split <;> rfl

theorem unanswered_stepServing {phase : Serving}
    (hs : stepServing h below phase = some (h', stack')) (ha : a ∈ stack')
    (hun : a.isUnanswered = true) : a ∈ below := by
  have hone (next : Serving) (ha : a ∈ .serve next :: below) : a ∈ below :=
    mem_of_mem_cons ha hun rfl
  cases phase with
  | look =>
    simp only [stepServing] at hs
    split at hs <;> cases hs
    · exact ha
    · exact hone _ ha
  | take =>
    simp only [stepServing] at hs
    split at hs <;> cases hs
    · exact ha
    · exact hone _ ha
  | openPrompt request =>
    simp only [stepServing] at hs
    split at hs <;> cases hs
    · exact ha
    · exact hone _ ha
  | lock request permit pipeline =>
    simp only [stepServing] at hs
    split at hs
    · cases hs
    · exact hone _ (mem_of_beginCommand (Option.some.inj hs) ha hun)
  | called request permit pipeline => cases hs
  | answer request permit pipeline r => cases hs; exact hone _ ha
  | unlock permit pipeline => cases hs; exact hone _ ha
  | release permit => cases hs; exact hone _ ha
  | closePrompt => cases hs; exact ha

theorem unanswered_stepCommand {inv : Invocation} (hs : stepCommand h inv below = some (h', stack'))
    (ha : a ∈ stack') (hun : a.isUnanswered = true) : a ∈ below := by
  have hone (next : Invocation) (ha : a ∈ .command next :: below) : a ∈ below :=
    mem_of_mem_cons ha hun rfl
  simp only [stepCommand] at hs
  split at hs
  case h_3 o _ =>
    exact mem_of_endCommand (Option.some.inj hs) ha hun
  all_goals cases hs
  case h_5 => exact hone _ (mem_of_mem_cons ha hun rfl)
  all_goals exact hone _ ha

theorem unanswered_stepEdit {inv : Invocation} (hs : stepEdit h inv below = (h', stack'))
    (ha : a ∈ stack') (hun : a.isUnanswered = true) : a ∈ below := by
  simp only [stepEdit] at hs
  split at hs
  · exact mem_of_endCommand hs ha hun
  · split at hs
    · exact mem_of_endCommand hs ha hun
    · cases hs
      exact mem_of_mem_cons (mem_of_mem_cons ha hun rfl) hun rfl

/-- An errand that has no answer after a step was there before, unless it is the one on top and has
come this far by the step. -/
theorem unanswered_step {stack : List Activation} (hs : step h stack = some (h', stack'))
    (ha : a ∈ stack') (hun : a.isUnanswered = true) :
    a ∈ stack ∨ ∃ work below, (stack = .errand .start work :: below ∧ a = .errand .lock work) ∨
      (stack = .errand .lock work :: below ∧ h.isLocked work.pipeline = false ∧
        a = .errand .called work) := by
  rcases stack with - | ⟨top, below⟩
  · cases hs
  · have hold : a ∈ below → a ∈ top :: below := List.mem_cons_of_mem top
    cases top with
    | notify rest =>
      refine .inl (hold ?_)
      rcases rest with - | ⟨s, rest⟩ <;> cases hs
      · exact ha
      · split at ha
        · exact mem_of_mem_cons (mem_of_mem_cons ha hun rfl) hun rfl
        · exact mem_of_mem_cons ha hun rfl
    | serve phase => exact .inl (hold (unanswered_stepServing hs ha hun))
    | errand phase work =>
      cases phase with
      | start =>
        simp only [step, stepErrand] at hs
        split at hs <;> cases hs
        · exact .inl (hold (mem_of_mem_cons ha hun rfl))
        · rcases List.mem_cons.1 ha with rfl | ha
          · exact .inr ⟨work, below, .inl ⟨rfl, rfl⟩⟩
          · exact .inl (hold ha)
      | lock =>
        simp only [step, stepErrand] at hs
        split at hs
        · cases hs
        · rename_i hlocked
          rcases List.mem_cons.1 (mem_of_beginCommand (Option.some.inj hs) ha hun) with rfl | ha
          · exact .inr ⟨work, below, .inr ⟨rfl, Bool.eq_false_iff.2 hlocked, rfl⟩⟩
          · exact .inl (hold ha)
      | called => cases hs
      | answer r => cases hs; exact .inl (hold ha)
      | _ => cases hs; exact .inl (hold (mem_of_mem_cons ha hun rfl))
    | direct pipeline called job reply =>
      cases called with
      | true => cases hs
      | false =>
        simp only [step] at hs
        split at hs
        · cases hs
        · exact .inl (hold (mem_of_mem_cons
            (mem_of_beginCommand (Option.some.inj hs) ha hun) hun rfl))
    | command inv => exact .inl (hold (unanswered_stepCommand hs ha hun))
    | edit inv fresh => exact .inl (hold (unanswered_stepEdit (Option.some.inj hs) ha hun))

/-- No step of a thread makes an errand that is still to be begun. -/
theorem unbegun_step {stack : List Activation} (hs : step h stack = some (h', stack'))
    (ha : a ∈ stack') (hun : a.isUnbegun = true) : ∃ b ∈ stack, b.isUnbegun = true := by
  rcases unanswered_step hs ha (isUnanswered_of_isUnbegun hun) with
    hmem | ⟨work, below, ⟨rfl, -⟩ | ⟨-, -, rfl⟩⟩
  · exact ⟨a, hmem, hun⟩
  · exact ⟨.errand .start work, List.mem_cons_self, rfl⟩
  · cases hun

end

end Activation

namespace Host

def sending? (h : Host) : Event → Option (Nat × Nat)
  | .poll t bias =>
    match h.execution? t, (h.apply (.poll t bias)).execution? t with
    | some (.granted _ _), some (.running _) => some (h.nextThread, t)
    | _, _ => none
  | _ => none

/-- The thread in which the engine begins to run the command of an execution. -/
def beginning? (h : Host) : Event → Option Nat
  | .advance id =>
    match h.thread? id with
    | some ⟨_, .errand .lock work :: _⟩ => if h.isLocked work.pipeline then none else some id
    | _ => none
  | _ => none

def sendings (h : Host) (past : List Event) : List (Nat × Nat) := h.during sending? past

def sender? (h : Host) (past : List Event) (id : Nat) : Option Nat := (h.sendings past).lookup id

def beginnings (h : Host) (past : List Event) : List Nat := h.during beginning? past

variable {h : Host}

theorem sendings_concat (h : Host) (past : List Event) (e : Event) :
    h.sendings (past ++ [e]) = h.sendings past ++ ((h.run past).sending? e).toList :=
  h.during_concat _ past e

theorem sender?_concat {past : List Event} {id t : Nat} (hsender : h.sender? past id = some t)
    (e : Event) : h.sender? (past ++ [e]) id = some t := by
  unfold sender? at hsender ⊢
  rw [sendings_concat, List.lookup_append, hsender, Option.some_or]

theorem beginnings_concat (h : Host) (past : List Event) (e : Event) :
    h.beginnings (past ++ [e]) = h.beginnings past ++ ((h.run past).beginning? e).toList :=
  h.during_concat _ past e

/-- A thread that is sent is a new one. -/
theorem sending?_eq_some (hs : h.Single) {e : Event} {s : Nat × Nat}
    (hsending : h.sending? e = some s) :
    s.1 = h.nextThread ∧ h.nextThread < (h.apply e).nextThread := by
  cases e with
  | poll t bias =>
    simp only [sending?] at hsending
    split at hsending
    · rename_i permit job reply hbefore hrun
      cases hsending
      refine ⟨rfl, ?_⟩
      rcases execution?_apply hs.kept.numbered hrun with
        hsame | ⟨job', heq⟩ | ⟨_, before, k, -, hbefore', hturn, hf⟩
      · cases hbefore.symm.trans hsame
      · cases heq
      · obtain rfl := Option.some.inj (hbefore.symm.trans hbefore')
        rw [hf.nextThread]
        cases hturn.progress hs hbefore with
        | unasked hnot _ => cases hnot
        | same heq => cases heq
        | sent _ _ _ _ hlt => exact hlt
        | joined _ _ _ heq => cases heq
        | taken hnot => cases hnot
        | collected _ _ _ _ heq => cases heq
        | onward _ howns => cases howns
    · cases hsending
  | _ => cases hsending

/-- A thread that goes on is there after its step. -/
theorem mem_advance (hn : h.Numbered) {id : Nat} {t : Thread} (ht : h.thread? id = some t)
    {k : Host} {stack : List Activation} (hs : Activation.step h t.stack = some (k, stack))
    (hne : stack ≠ []) :
    ⟨id, stack⟩ ∈ (h.apply (.advance id)).threads := by
  have hsame := (Activation.step_shifts 0 hs).sameCalls
  have hk : k.thread? id = some t := by rwa [thread?, hsame.threads]
  obtain ⟨pre, post, -, -, -, hset⟩ := (hn.sameCalls hsame).split_thread hk
  simp only [apply, stepThread, ht, hs]
  rw [hset stack hne]
  exact List.mem_append_right _ List.mem_cons_self

/-- Whatever runs for an execution has been begun in the run. -/
theorem mem_beginnings (hk : h.WellKept) (hthreads : h.threads = []) (past : List Event) :
    ∀ th ∈ (h.run past).threads, ∀ work, .errand .called work ∈ th.stack →
      th.id ∈ h.beginnings past := by
  induction past using List.reverseRecOn with
  | nil =>
    intro th hth
    rw [show h.run [] = h from rfl, hthreads] at hth
    cases hth
  | append_singleton past e ih =>
    intro th hth work hcalled
    rw [h.run_concat] at hth
    rw [h.beginnings_concat, List.mem_append]
    cases threads_apply (hk.run past).numbered hth with
    | same hth => exact .inl (ih th hth work hcalled)
    | @stepped id t k stack ht hs =>
      have hid : t.id = id := by simpa using List.find?_some ht
      rcases Activation.unanswered_step hs hcalled rfl with
        hmem | ⟨work', below, ⟨-, heq⟩ | ⟨hstack, hlocked, heq⟩⟩
      · exact .inl (hid ▸ ih t (List.mem_of_find?_eq_some ht) work hmem)
      · cases heq
      · refine .inr (Option.mem_toList.2 ?_)
        obtain ⟨id', stack'⟩ := t
        simp only at hstack
        subst hstack
        simp only [beginning?, ht, hlocked, Bool.false_eq_true, if_false]
    | idle rest => cases List.mem_singleton.1 hcalled
    | sent hexec hafter => cases List.mem_singleton.1 hcalled

/-- The errand that the engine begins to run was still to be begun, and after that it is not. -/
theorem beginning?_eq_some (hn : h.Numbered) {e : Event} {id : Nat}
    (hbeginning : h.beginning? e = some id) :
    e = .advance id ∧ ∃ work, (∃ th ∈ h.threads, th.id = id ∧ .errand .lock work ∈ th.stack) ∧
      ∃ th ∈ (h.apply e).threads, .errand .called work ∈ th.stack := by
  cases e with
  | advance id' =>
    simp only [beginning?] at hbeginning
    split at hbeginning
    · rename_i id'' work below ht
      split at hbeginning
      · cases hbeginning
      · rename_i hlocked
        cases hbeginning
        have hid : id'' = id := by simpa using List.find?_some ht
        refine ⟨rfl, work, ⟨_, List.mem_of_find?_eq_some ht, hid, List.mem_cons_self⟩, ?_⟩
        have hstep : Activation.step h (.errand .lock work :: below) =
            some (Activation.beginCommand (h.lockPipeline work.pipeline) work.pipeline work.job
              (.errand .called work :: below)) := if_neg hlocked
        have hcalled : .errand .called work ∈
            (Activation.beginCommand (h.lockPipeline work.pipeline) work.pipeline work.job
              (.errand .called work :: below)).2 := List.mem_cons_of_mem _ List.mem_cons_self
        rw [← Prod.mk.eta (p := Activation.beginCommand _ _ _ _)] at hstep
        exact ⟨_, mem_advance hn ht hstep (List.ne_nil_of_mem hcalled), hcalled⟩
    · cases hbeginning
  | _ => cases hbeginning

end Host

end SharedPrompt
