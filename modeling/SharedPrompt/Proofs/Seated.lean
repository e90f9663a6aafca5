import Mathlib.Data.List.Chain
import SharedPrompt.Proofs.Shifts

/-!
# The shape of threads

In a thread, an idle moment is served inside its notification, and that inside a command. A command
runs on top of what has called it: an errand that a task has sent, or the service of an idle moment.
So the threads tell which commands are running, and by which right.
-/

namespace SharedPrompt

namespace Activation

inductive Kind where
  | notify
  | serve
  | errand
  | direct
  | invocation
  deriving DecidableEq

def kind : Activation → Kind
  | notify _ => .notify
  | serve _ => .serve
  | errand _ _ => .errand
  | direct _ _ _ _ => .direct
  | command _ => .invocation
  | edit _ _ => .invocation

def isInvocation (a : Activation) : Bool := a.kind == .invocation

def carries : Activation → Kind → Bool
  | notify _, .serve => true
  | command _, .notify => true
  | edit _ _, .notify => true
  | errand .called _, .invocation => true
  | serve (.called _ _ _), .invocation => true
  | _, _ => false

/-- Whether an activation can go on by itself, so that it may be the innermost. -/
def rests : Activation → Bool
  | errand .called _ => false
  | serve (.called _ _ _) => false
  | direct _ _ _ _ => false
  | _ => true

def work? : Activation → Option Assignment
  | errand _ work => some work
  | _ => none

/-- Only a command that is running keeps what is below it waiting. -/
theorem rests_of_carries {a : Activation} {k : Kind} (hc : a.carries k = true)
    (hk : k ≠ .invocation) : a.rests = true := by
  cases a with
  | serve phase =>
    cases phase with
    | called request permit pipeline => cases k <;> first | exact absurd rfl hk | cases hc
    | _ => rfl
  | errand phase work =>
    cases phase with
    | called => cases k <;> first | exact absurd rfl hk | cases hc
    | _ => rfl
  | direct pipeline called job reply => cases hc
  | _ => rfl

/-- A command stands on what has called it. -/
theorem below_invocation {a : Activation} {below : List Activation}
    (hchain : (a :: below).IsChain fun above a => a.carries above.kind = true)
    (hbase : ((a :: below).map kind).getLast? ≠ some .invocation) (hkind : a.kind = .invocation) :
    (∃ work rest, below = .errand .called work :: rest) ∨
      ∃ request permit pipeline rest, below = .serve (.called request permit pipeline) :: rest := by
  rcases below with - | ⟨c, rest⟩
  · exact absurd (congrArg some hkind) hbase
  · have hcarries := (List.isChain_cons.1 hchain).1 c rfl
    rw [hkind] at hcarries
    cases c with
    | serve phase =>
      cases phase with
      | called request permit pipeline => exact .inr ⟨request, permit, pipeline, rest, rfl⟩
      | _ => cases hcarries
    | errand phase work =>
      cases phase with
      | called => exact .inl ⟨work, rest, rfl⟩
      | _ => cases hcarries
    | _ => cases hcarries

/-- A thread in which everything stands on what may carry it, no command stands on nothing, and
every errand is one of `P`. -/
structure Seated (P : Assignment → Prop) (stack : List Activation) : Prop where
  chain : stack.IsChain fun above a => a.carries above.kind = true
  top : ∀ a ∈ stack.head?, a.rests = true
  base : (stack.map kind).getLast? ≠ some .invocation
  works : ∀ a ∈ stack, ∀ work, a.work? = some work → P work

namespace Seated

variable {P : Assignment → Prop} {a b : Activation} {below : List Activation}

theorem single (hrests : a.rests = true) (hkind : a.kind ≠ .invocation)
    (hwork : ∀ work, a.work? = some work → P work) : Seated P [a] where
  chain := List.isChain_singleton a
  top b hb := by
    rw [← Option.some.inj hb]
    exact hrests
  base hb := hkind (Option.some.inj hb)
  works b hb := by
    rw [List.mem_singleton.1 hb]
    exact hwork

theorem mono (hs : Seated P below) {Q : Assignment → Prop} (hPQ : ∀ work, P work → Q work) :
    Seated Q below :=
  ⟨hs.chain, hs.top, hs.base, fun a ha work hw => hPQ work (hs.works a ha work hw)⟩

/-- The activation below can go on when what it carries is over, unless that was a command. -/
theorem drop (hs : Seated P (a :: below)) (hkind : a.kind ≠ .invocation) : Seated P below where
  chain := (List.isChain_cons.1 hs.chain).2
  top c hc := by
    exact rests_of_carries ((List.isChain_cons.1 hs.chain).1 c hc) hkind
  base hb := by
    have hbase := hs.base
    cases below with
    | nil => cases hb
    | cons c rest => exact hbase (by simpa using hb)
  works c hc := hs.works c (List.mem_cons_of_mem a hc)

/-- An activation goes on as another one of its kind. -/
theorem replace (hs : Seated P (a :: below)) (hkind : b.kind = a.kind) (hwork : b.work? = a.work?)
    (hrests : b.rests = true) : Seated P (b :: below) where
  chain := by
    have hchain := List.isChain_cons.1 hs.chain
    exact List.isChain_cons.2 ⟨fun c hc => by rw [hkind]; exact hchain.1 c hc, hchain.2⟩
  top c hc := by
    rw [← Option.some.inj hc]
    exact hrests
  base := by simpa only [List.map_cons, hkind] using hs.base
  works c hc work hw := by
    rcases List.mem_cons.1 hc with rfl | hc
    · exact hs.works a List.mem_cons_self work (hwork ▸ hw)
    · exact hs.works c (List.mem_cons_of_mem a hc) work hw

/-- An activation goes on as another one of its kind, with something on top. -/
theorem push (hs : Seated P (a :: below)) {top : Activation} (hkind : b.kind = a.kind)
    (hwork : b.work? = a.work?) (hcarries : b.carries top.kind = true) (hrests : top.rests = true)
    (hnone : top.work? = none) :
    Seated P (top :: b :: below) where
  chain := by
    have hchain := List.isChain_cons.1 hs.chain
    refine List.isChain_cons.2 ⟨fun c hc => ?_, List.isChain_cons.2 ⟨fun c hc => ?_, hchain.2⟩⟩
    · rw [← Option.some.inj hc]
      exact hcarries
    · rw [hkind]
      exact hchain.1 c hc
  top c hc := by
    rw [← Option.some.inj hc]
    exact hrests
  base := by simpa only [List.map_cons, hkind, List.getLast?_cons_cons] using hs.base
  works c hc work hw := by
    rcases List.mem_cons.1 hc with rfl | hc
    · rw [hnone] at hw
      cases hw
    · rcases List.mem_cons.1 hc with rfl | hc
      · exact hs.works a List.mem_cons_self work (hwork ▸ hw)
      · exact hs.works c (List.mem_cons_of_mem a hc) work hw

/-- What has called a command goes on as another activation of its kind. -/
theorem resume {c e : Activation} {rest : List Activation} (hs : Seated P (a :: c :: rest))
    (hkind : e.kind = c.kind) (hwork : e.work? = c.work?) (hrests : e.rests = true) :
    Seated P (e :: rest) where
  chain := by
    have hchain := List.isChain_cons.1 (List.isChain_cons.1 hs.chain).2
    exact List.isChain_cons.2 ⟨fun d hd => by rw [hkind]; exact hchain.1 d hd, hchain.2⟩
  top d hd := by
    rw [← Option.some.inj hd]
    exact hrests
  base := by simpa only [List.map_cons, List.getLast?_cons_cons, hkind] using hs.base
  works d hd work hw := by
    rcases List.mem_cons.1 hd with rfl | hd
    · exact hs.works c (by simp) work (hwork ▸ hw)
    · exact hs.works d (by simp [hd]) work hw

theorem endCommand (hs : Seated P (a :: below)) (hkind : a.kind = .invocation) (h : Host)
    (inv : Invocation) (editing : Bool) (o : Outcome) :
    Seated P (endCommand h inv editing o below).2 := by
  rcases below_invocation hs.chain hs.base hkind with
    ⟨work, rest, rfl⟩ | ⟨request, permit, pipeline, rest, rfl⟩
  · exact hs.resume (e := .errand (.unlock o.result) work) rfl rfl rfl
  · exact hs.resume (e := .serve (.answer request permit pipeline o.result)) rfl rfl rfl

theorem beginCommand (hs : Seated P (a :: below)) (hkind : b.kind = a.kind)
    (hwork : b.work? = a.work?) (hcarries : b.carries .invocation = true) (h : Host)
    (pipeline : Nat) (job : Job) :
    Seated P (beginCommand h pipeline job (b :: below)).2 := by
  simp only [Activation.beginCommand]
  split <;> exact hs.push hkind hwork hcarries rfl rfl

/-! ## Steps -/

variable {h h' : Host} {stack' : List Activation}

theorem stepErrand {work : Assignment} {phase : Errand}
    (hs : Seated P (.errand phase work :: below))
    (hstep : Activation.stepErrand h work below phase = some (h', stack')) : Seated P stack' := by
  have hgo (next : Errand) (hrests : (errand next work).rests = true) :
      Seated P (.errand next work :: below) := hs.replace rfl rfl hrests
  cases phase with
  | start =>
    simp only [Activation.stepErrand] at hstep
    split at hstep <;> cases hstep
    · exact hgo _ rfl
    · exact hgo _ rfl
  | lock =>
    simp only [Activation.stepErrand] at hstep
    split at hstep
    · cases hstep
    · have hbegin := hs.beginCommand (b := .errand .called work) rfl rfl rfl
        (h.lockPipeline work.pipeline) work.pipeline work.job
      rwa [Option.some.inj hstep] at hbegin
  | called => cases hstep
  | unlock r => cases hstep; exact hgo _ rfl
  | release r => cases hstep; exact hgo _ rfl
  | releaseMain r => cases hstep; exact hgo _ rfl
  | answer r => cases hstep; exact hs.drop fun hk => by cases hk

theorem stepServing {phase : Serving} (hs : Seated P (.serve phase :: below))
    (hstep : Activation.stepServing h below phase = some (h', stack')) : Seated P stack' := by
  have hgo (next : Serving) (hrests : (serve next).rests = true) :
      Seated P (.serve next :: below) :=
    hs.replace rfl rfl hrests
  have hend : Seated P below := hs.drop fun hk => by cases hk
  cases phase with
  | look =>
    simp only [Activation.stepServing] at hstep
    split at hstep <;> cases hstep
    · exact hend
    · exact hgo _ rfl
  | take =>
    simp only [Activation.stepServing] at hstep
    split at hstep <;> cases hstep
    · exact hend
    · exact hgo _ rfl
  | openPrompt request =>
    simp only [Activation.stepServing] at hstep
    split at hstep <;> cases hstep
    · exact hend
    · exact hgo _ rfl
  | lock request permit pipeline =>
    simp only [Activation.stepServing] at hstep
    split at hstep
    · cases hstep
    · have hbegin := hs.beginCommand (b := .serve (.called request permit pipeline)) rfl rfl rfl
        (h.newToken.2.lockPipeline pipeline) pipeline { request.job with token := h.newToken.1 }
      rwa [Option.some.inj hstep] at hbegin
  | called request permit pipeline => cases hstep
  | answer request permit pipeline r => cases hstep; exact hgo _ rfl
  | unlock permit pipeline => cases hstep; exact hgo _ rfl
  | release permit => cases hstep; exact hgo _ rfl
  | closePrompt => cases hstep; exact hend

theorem stepCommand {inv : Invocation} (hs : Seated P (.command inv :: below))
    (hstep : Activation.stepCommand h inv below = some (h', stack')) : Seated P stack' := by
  simp only [Activation.stepCommand] at hstep
  split at hstep
  case h_3 o _ =>
    have hend := hs.endCommand rfl h inv false o
    rwa [Option.some.inj hstep] at hend
  all_goals cases hstep
  case h_5 => exact hs.push rfl rfl rfl rfl rfl
  all_goals exact hs.replace rfl rfl rfl

theorem stepEdit {inv : Invocation} {fresh : Bool} (hs : Seated P (.edit inv fresh :: below)) :
    Seated P (Activation.stepEdit h inv below).2 := by
  simp only [Activation.stepEdit]
  split
  · exact hs.endCommand rfl _ _ _ _
  · split
    · exact hs.endCommand rfl _ _ _ _
    · exact hs.push rfl rfl rfl rfl rfl

/-- A step of a thread keeps its shape, and its errands are those it had. -/
theorem step {stack : List Activation} (hs : Seated P stack)
    (hstep : Activation.step h stack = some (h', stack')) : Seated P stack' := by
  rcases stack with - | ⟨a, below⟩
  · cases hstep
  · cases a with
    | notify rest =>
      rcases rest with - | ⟨s, rest⟩ <;> cases hstep
      · exact hs.drop fun hk => by cases hk
      · split
        · exact hs.push rfl rfl rfl rfl rfl
        · exact hs.replace rfl rfl rfl
    | serve phase => exact hs.stepServing hstep
    | errand phase work => exact hs.stepErrand hstep
    | direct pipeline called job reply => cases hs.top _ rfl
    | command inv => exact hs.stepCommand hstep
    | edit inv fresh =>
      simp only [Activation.step, Option.some.injEq] at hstep
      have hedit := hs.stepEdit (h := h)
      rwa [hstep] at hedit

end Seated

end Activation

end SharedPrompt
