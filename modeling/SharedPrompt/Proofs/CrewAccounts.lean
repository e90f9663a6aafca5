import Mathlib.Data.List.Induction
import SharedPrompt.Proofs.CrewTurns
import SharedPrompt.Proofs.KeyedLists

/-!
# The accounts of a crew

What has come into an inbox is what its worker has taken, in that order, and what lies there still.
Tickets are numbered in the order in which units are handed over, each for one worker, and a unit
that is at work or lies in an inbox has not been answered.
-/

namespace SharedPrompt

def Message.isShutdown : Message → Bool
  | shutdown => true
  | work .. => false

structure Worker.Accounts (received taken : List Message) (w : Worker) : Prop where
  kept : w.phase ≠ .ended → taken ++ w.inbox = received
  ended : w.phase = .ended → w.inbox = [] ∧ taken <+: received
  /-- The owner leaves one message, when it goes. -/
  owner : received.countP Message.isShutdown = if w.owner = .gone then 1 else 0
  /-- The worker works until it has taken that message. -/
  working : w.phase = .working → .shutdown ∉ taken
  stopped : w.phase ≠ .working → w.running = none ∧ ∃ before, taken = before ++ [.shutdown]
  running : ∀ run, w.running = some run →
    ∃ before list, taken = before ++ [.work run.ticket run.holder list]

namespace Worker.Accounts

variable {received taken : List Message} {w : Worker}

theorem le (h : w.Accounts received taken) : taken <+: received := by
  by_cases hphase : w.phase = .ended
  · exact (h.ended hphase).2
  · exact ⟨_, h.kept hphase⟩

theorem gone_iff (h : w.Accounts received taken) : w.owner = .gone ↔ .shutdown ∈ received := by
  have hcount := h.owner
  constructor
  · intro hgone
    rw [if_pos hgone] at hcount
    obtain ⟨m, hm, hshutdown⟩ := List.countP_pos_iff.1 (by rw [hcount]; exact Nat.one_pos)
    cases m with
    | shutdown => exact hm
    | work ticket holder list => cases hshutdown
  · intro hmem
    by_contra hgone
    rw [if_neg hgone, List.countP_eq_zero] at hcount
    exact hcount _ hmem rfl

theorem steady (h : w.Accounts received taken) : w.Steady := by
  intro hphase
  obtain ⟨hrun, before, htaken⟩ := h.stopped hphase
  exact ⟨h.gone_iff.2 (h.le.subset (by simp [htaken])), hrun⟩

/-- Nobody is ever left without an owner who has not also been told to stop. -/
theorem not_forsaken (h : w.Accounts received taken) (hphase : w.phase = .working)
    (hinbox : w.inbox = []) : w.forsaken = false := by
  have howner : w.owner ≠ .gone := fun hgone => by
    have hreceived := h.kept (by simp [hphase])
    rw [hinbox, List.append_nil] at hreceived
    exact h.working hphase (hreceived ▸ h.gone_iff.1 hgone)
  simp [forsaken, howner]

end Worker.Accounts

namespace Worker

variable {received taken : List Message} {w : Worker}

/-- What a worker hears keeps its accounts. -/
theorem Hears.accounts {thrown : Prop} {got : List Message} {w' : Worker}
    (h : w.Hears thrown got w') (ha : w.Accounts received taken) (hended : w.phase = .ended → got = [])
    (hcount : got.countP Message.isShutdown =
      if w.owner ≠ .gone ∧ w'.owner = .gone then 1 else 0) :
    w'.Accounts (received ++ got) taken where
  kept hphase := by
    rw [h.inbox, ← List.append_assoc, ha.kept (h.phase ▸ hphase)]
  ended hphase := by
    have hphase : w.phase = .ended := h.phase ▸ hphase
    rw [h.inbox, hended hphase, List.append_nil, List.append_nil]
    exact ha.ended hphase
  owner := by
    have hgone : w.owner = .gone → w'.owner = .gone := fun hgone => h.owner.2 (.inl hgone)
    rw [List.countP_append, ha.owner, hcount]
    by_cases hw : w.owner = .gone
    · simp [hw, hgone hw]
    · simp [hw]
  working hphase := ha.working (h.phase ▸ hphase)
  stopped hphase := by
    rw [h.running]
    exact ha.stopped (h.phase ▸ hphase)
  running run hrun := ha.running run (h.running ▸ hrun)

end Worker

namespace Crew

variable {c : Crew} {name : String} {w : Worker}

/-- What a worker does itself keeps its accounts. -/
theorem Acts.accounts {received taken took : List Message} {gave : List (Nat × WorkResult)}
    {s : Option Submission} {w₁ : Worker} (h : c.Acts s w took gave w₁) (ha : w.Accounts received taken) :
    w₁.Accounts received (taken ++ took) := by
  cases h with
  | rests => simpa using ha
  | @takes ticket holder list inbox hrun hphase hinbox =>
    have hreceived := ha.kept (by simp [hphase])
    rw [hinbox] at hreceived
    exact {
      kept := fun _ => by rw [← hreceived, List.append_assoc]; rfl
      ended := fun hended => by simp [hphase] at hended
      owner := ha.owner
      working := fun _ => by simpa using ha.working hphase
      stopped := fun hstopped => absurd hphase hstopped
      running := fun run hrun' => by
        cases hrun'
        exact ⟨taken, list, rfl⟩ }
  | @stops inbox hrun hphase hinbox =>
    have hreceived := ha.kept (by simp [hphase])
    rw [hinbox] at hreceived
    exact {
      kept := fun _ => by rw [← hreceived, List.append_assoc]; rfl
      ended := fun hended => by cases hended
      owner := ha.owner
      working := fun hworking => by cases hworking
      stopped := fun _ => ⟨hrun, taken, rfl⟩
      running := fun run hrun' => by simp [hrun] at hrun' }
  | forsaken hrun hphase hinbox hforsaken => simp [ha.not_forsaken hphase hinbox] at hforsaken
  | closes hrun hphase =>
    rw [List.append_nil]
    exact {
      kept := fun hopen => absurd rfl hopen
      ended := fun _ => ⟨rfl, ha.le⟩
      owner := ha.owner
      working := fun hworking => by cases hworking
      stopped := fun _ => ha.stopped (by simp [hphase])
      running := fun run hrun' => by simp [hrun] at hrun' }
  | @moves run engine frame below hrun hmoves _ =>
    rw [List.append_nil]
    exact { ha with
      stopped := fun hphase => by simp [(ha.stopped hphase).1] at hrun
      running := fun run' hrun' => by
        cases hrun'
        exact ha.running run hrun }
  | ends hrun hends hbelow =>
    rw [List.append_nil]
    exact { ha with
      stopped := fun hphase => by simp [(ha.stopped hphase).1] at hrun
      running := fun run' hrun' => by cases hrun' }

/-! ## The accounts of a run -/

/-- The units that are handed over in a run; the ticket of a unit is its place among them. -/
def submissions (c : Crew) (past : List CrewEvent) : List Submission :=
  c.during (fun c e => (c.submission? e).toList) past

def inflow (c : Crew) (name : String) (past : List CrewEvent) : List Message :=
  c.during (received name) past

def outflow (c : Crew) (name : String) (past : List CrewEvent) : List Message :=
  c.during (taken name) past

def answered (c : Crew) (past : List CrewEvent) : List (Nat × WorkResult) :=
  c.during resolutions past

structure IsNew (c : Crew) : Prop where
  replies : c.replies = []
  workers : ∀ name w, c.worker? name = some w →
    w.inbox = [] ∧ w.running = none ∧ w.phase = .working ∧ w.owner = .outside

def hired (specs : List (String × Behavior × WorkerOptions)) : Crew :=
  specs.foldl (fun c spec => c.start spec.1 spec.2.1 spec.2.2) {}

theorem IsNew.start {c : Crew} (hc : c.IsNew) (name : String) (behavior : Behavior)
    (options : WorkerOptions) : (c.start name behavior options).IsNew where
  replies := hc.replies
  workers other w hw := by
    rw [worker?, Crew.start, List.find?_append] at hw
    obtain hw | ⟨-, hw⟩ := Option.or_eq_some_iff.1 hw
    · exact hc.workers other w hw
    · obtain rfl := List.mem_singleton.1 (List.mem_of_find?_eq_some hw)
      exact ⟨rfl, rfl, rfl, rfl⟩

theorem isNew_hired (specs : List (String × Behavior × WorkerOptions)) : (hired specs).IsNew := by
  have hfold (c : Crew) (hc : c.IsNew) :
      (specs.foldl (fun c spec => c.start spec.1 spec.2.1 spec.2.2) c).IsNew := by
    induction specs generalizing c with
    | nil => exact hc
    | cons spec specs ih => exact ih _ (hc.start ..)
  exact hfold {} ⟨rfl, fun name w hw => by cases hw⟩

structure Books (c : Crew) (past : List CrewEvent) : Prop where
  tickets : (c.run past).replies.length = (c.submissions past).length
  /-- Whoever receives a unit is the worker that it was handed to. -/
  sent : ∀ name ticket holder list, .work ticket holder list ∈ c.inflow name past →
    ∃ s, (c.submissions past)[ticket]? = some s ∧ s.worker = name ∧ s.list = list
  increasing : ∀ name, (workTickets (c.inflow name past)).Pairwise (· < ·)
  accounts : ∀ name w, (c.run past).worker? name = some w →
    w.Accounts (c.inflow name past) (c.outflow name past)
  /-- A unit at work or in an inbox has not been answered. -/
  pending : ∀ name w, (c.run past).worker? name = some w → ∀ t ∈ w.pending,
    (c.run past).answer? t = none
  answers : ∀ t r, (c.run past).answer? t = some r ↔ (t, r) ∈ c.answered past
  /-- No unit is answered twice. -/
  once : ((c.answered past).map Prod.fst).Nodup

variable {past : List CrewEvent}

/-- What is pending with a worker has come into its inbox, the unit at work before the others. -/
theorem Books.pending_sublist (hb : c.Books past) (hw : (c.run past).worker? name = some w) :
    w.pending.Sublist (workTickets (c.inflow name past)) := by
  have ha := hb.accounts name w hw
  by_cases hphase : w.phase = .ended
  · have hpending : w.pending = [] := by
      simp [Worker.pending, (ha.stopped (by simp [hphase])).1, (ha.ended hphase).1]
    rw [hpending]
    exact List.nil_sublist _
  · rw [← ha.kept hphase, workTickets_append, Worker.pending]
    refine List.Sublist.append ?_ (List.Sublist.refl _)
    cases hrun : w.running with
    | none => exact List.nil_sublist _
    | some run =>
      obtain ⟨before, list, htaken⟩ := ha.running run hrun
      rw [htaken, workTickets_append]
      exact List.sublist_append_right _ _

theorem Books.pending_increasing (hb : c.Books past) (hw : (c.run past).worker? name = some w) :
    w.pending.Pairwise (· < ·) :=
  (hb.increasing name).sublist (hb.pending_sublist hw)

/-- A pending unit is one that was handed to the worker. -/
theorem Books.exists_submission (hb : c.Books past) (hw : (c.run past).worker? name = some w)
    {t : Nat} (ht : t ∈ w.pending) : ∃ s, (c.submissions past)[t]? = some s ∧ s.worker = name := by
  obtain ⟨holder, list, hm⟩ := mem_workTickets.1 ((hb.pending_sublist hw).subset ht)
  obtain ⟨s, hs, hname, -⟩ := hb.sent name t holder list hm
  exact ⟨s, hs, hname⟩

theorem Books.pending_lt (hb : c.Books past) {name : String} {w : Worker}
    (hw : (c.run past).worker? name = some w) {t : Nat} (ht : t ∈ w.pending) :
    t < (c.run past).replies.length := by
  obtain ⟨s, hs, -⟩ := hb.exists_submission hw ht
  rw [hb.tickets]
  exact (List.getElem?_eq_some_iff.1 hs).1

/-- A unit is pending with one worker only. -/
theorem Books.eq_of_pending (hb : c.Books past) {other : String} {v : Worker}
    (hw : (c.run past).worker? name = some w) (hv : (c.run past).worker? other = some v) {t : Nat}
    (ht : t ∈ w.pending) (ht' : t ∈ v.pending) : name = other := by
  obtain ⟨s, hs, hname⟩ := hb.exists_submission hw ht
  obtain ⟨s', hs', hother⟩ := hb.exists_submission hv ht'
  rw [← hname, ← hother, Option.some.inj (hs.symm.trans hs')]

/-! ## One more event -/

/-- A worker answers units that are pending with it. -/
theorem answering_sublist (c : Crew) (w : Worker) :
    ((c.answering w).map Prod.fst).Sublist w.pending := by
  unfold answering
  cases hcoming : c.coming? w with
  | none =>
    by_cases hleaving : (w.running.isNone && decide (w.phase = .leaving)) = true
    · simp [hleaving, Worker.pending, Function.comp_def]
    · simp [hleaving]
  | some p =>
    obtain ⟨run, m⟩ := p
    obtain ⟨run', hrun, hm⟩ := Option.bind_eq_some_iff.1 hcoming
    obtain ⟨m', -, hpair⟩ := Option.map_eq_some_iff.1 hm
    obtain ⟨rfl, rfl⟩ := Prod.mk.inj hpair
    have hpending : w.pending = run'.ticket :: workTickets w.inbox := by simp [Worker.pending, hrun]
    rw [hpending]
    cases m' with
    | returns => by_cases hbelow : run'.below = [] <;> simp [hbelow]
    | panics _ _ => by_cases hbelow : run'.below = [] <;> simp [hbelow]
    | _ => simp

theorem Acts.owner {took : List Message} {gave : List (Nat × WorkResult)}
    {s : Option Submission} {w₁ : Worker}
    (h : c.Acts s w took gave w₁) : w₁.owner = w.owner := by
  cases h <;> rfl

theorem Acts.pending_subset {took : List Message} {gave : List (Nat × WorkResult)}
    {s : Option Submission} {w₁ : Worker}
    (h : c.Acts s w took gave w₁) : w₁.pending ⊆ w.pending := by
  cases h with
  | rests => exact List.Subset.refl _
  | takes hrun hphase hinbox => simp [Worker.pending, hrun, hinbox]
  | stops hrun hphase hinbox => simp [Worker.pending, hinbox]
  | forsaken _ _ _ _ => exact List.Subset.refl _
  | closes hrun hphase => simp [Worker.pending, hrun]
  | moves hrun hmoves _ => simp [Worker.pending, hrun]
  | ends hrun hends hbelow => simp [Worker.pending]

/-- Whoever is answered is pending no longer. -/
theorem Acts.not_pending {took : List Message} {gave : List (Nat × WorkResult)}
    {s : Option Submission} {w₁ : Worker}
    (h : c.Acts s w took gave w₁) (hw : w.pending.Pairwise (· < ·)) :
    ∀ p ∈ gave, p.1 ∉ w₁.pending := by
  cases h with
  | closes hrun hphase => simp [Worker.pending, hrun]
  | @ends run engine r hrun hends hbelow =>
    have hpending : w.pending = run.ticket :: workTickets w.inbox := by simp [Worker.pending, hrun]
    rw [hpending, List.pairwise_cons] at hw
    intro p hp hmem
    obtain rfl := List.mem_singleton.1 hp
    exact absurd (hw.1 run.ticket (by simpa [Worker.pending] using hmem)) (Nat.lt_irrefl _)
  | _ => intro p hp; cases hp

variable {e : CrewEvent}

theorem submissions_concat (c : Crew) (past : List CrewEvent) (e : CrewEvent) :
    c.submissions (past ++ [e]) = c.submissions past ++ ((c.run past).submission? e).toList :=
  during_concat _ c past e

theorem inflow_concat (c : Crew) (name : String) (past : List CrewEvent) (e : CrewEvent) :
    c.inflow name (past ++ [e]) = c.inflow name past ++ (c.run past).received name e :=
  during_concat _ c past e

theorem outflow_concat (c : Crew) (name : String) (past : List CrewEvent) (e : CrewEvent) :
    c.outflow name (past ++ [e]) = c.outflow name past ++ (c.run past).taken name e :=
  during_concat _ c past e

theorem answered_concat (c : Crew) (past : List CrewEvent) (e : CrewEvent) :
    c.answered (past ++ [e]) = c.answered past ++ (c.run past).resolutions e :=
  during_concat _ c past e

/-- The unit that comes into an inbox is the one that is handed over. -/
theorem exists_of_received {d : Crew} {ticket holder : Nat} {list : Work}
    (h : .work ticket holder list ∈ d.received name e) :
    ticket = d.replies.length ∧ ∃ s, d.submission? e = some s ∧ s.worker = name ∧ s.list = list ∧
      d.listens name = true := by
  cases hw : d.worker? name with
  | none => simp [received, hw] at h
  | some w =>
    obtain ⟨works, farewell, hreceived, hworks, hfarewell⟩ := received_cases hw e
    rw [hreceived, List.mem_append] at h
    have hnot : Message.work ticket holder list ∉ farewell := by
      obtain rfl | ⟨rfl, -⟩ := hfarewell <;> simp
    obtain rfl | ⟨s, hs, hname, hphase, rfl⟩ := hworks
    · simp [hnot] at h
    · have hmessage := (h.resolve_right hnot)
      rw [List.mem_singleton, Submission.message] at hmessage
      cases hmessage
      exact ⟨rfl, s, hs, hname, rfl, by simp [listens, hw, hphase]⟩

theorem exists_worker?_of_apply {d : Crew} {w' : Worker} (h : (d.apply e).worker? name = some w') :
    ∃ w, d.worker? name = some w := by
  rw [exists_worker?_iff, ← names_apply d e, ← exists_worker?_iff]
  exact ⟨w', h⟩

theorem Books.sent_concat (hb : c.Books past) (name : String) (ticket holder : Nat) (list : Work)
    (h : .work ticket holder list ∈ c.inflow name (past ++ [e])) :
    ∃ s, (c.submissions (past ++ [e]))[ticket]? = some s ∧ s.worker = name ∧ s.list = list := by
  rw [inflow_concat, List.mem_append] at h
  rw [submissions_concat]
  obtain h | h := h
  · obtain ⟨s, hs, hname, hlist⟩ := hb.sent name ticket holder list h
    exact ⟨s, by rw [List.getElem?_append_left (List.getElem?_eq_some_iff.1 hs).1, hs], hname, hlist⟩
  · obtain ⟨rfl, s, hs, hname, hlist, -⟩ := exists_of_received h
    exact ⟨s, by simp [hs, hb.tickets], hname, hlist⟩

theorem Books.increasing_concat (hb : c.Books past) (name : String) :
    (workTickets (c.inflow name (past ++ [e]))).Pairwise (· < ·) := by
  rw [inflow_concat, workTickets_append, List.pairwise_append]
  have hnew : ∀ t ∈ workTickets ((c.run past).received name e), t = (c.run past).replies.length := by
    intro t ht
    obtain ⟨holder, list, hm⟩ := mem_workTickets.1 ht
    exact (exists_of_received hm).1
  refine ⟨hb.increasing name, ?_, fun t ht t' ht' => ?_⟩
  · cases hw : (c.run past).worker? name with
    | none => simp [received, hw]
    | some w =>
      obtain ⟨works, farewell, hreceived, hworks, hfarewell⟩ := received_cases hw e
      rw [hreceived]
      obtain rfl | ⟨s, -, -, -, rfl⟩ := hworks <;> obtain rfl | ⟨rfl, -⟩ := hfarewell <;>
        simp [Submission.message]
  · obtain ⟨holder, list, hm⟩ := mem_workTickets.1 ht
    obtain ⟨s, hs, -⟩ := hb.sent name t holder list hm
    rw [hnew t' ht', hb.tickets]
    exact (List.getElem?_eq_some_iff.1 hs).1

theorem Books.accounts_concat (hb : c.Books past) (name : String) (w' : Worker)
    (hw' : (c.run (past ++ [e])).worker? name = some w') :
    w'.Accounts (c.inflow name (past ++ [e])) (c.outflow name (past ++ [e])) := by
  rw [run_concat] at hw'
  obtain ⟨w, hw⟩ := exists_worker?_of_apply hw'
  have ha := hb.accounts name w hw
  obtain ⟨w₁, w'', hacts, hw'', hhears, hended⟩ := view hw ha.steady e
  obtain rfl : w'' = w' := Option.some.inj (hw''.symm.trans hw')
  rw [inflow_concat, outflow_concat]
  refine hhears.accounts (hacts.accounts ha) hended ?_
  obtain ⟨works, farewell, hreceived, hworks, hfarewell⟩ := received_cases hw e
  have hnone : works.countP Message.isShutdown = 0 ∧ .shutdown ∉ works := by
    obtain rfl | ⟨s, -, -, -, rfl⟩ := hworks <;> simp [Submission.message, Message.isShutdown]
  have howner := hhears.owner
  rw [hreceived, List.mem_append] at howner
  rw [hreceived, List.countP_append, hnone.1, Nat.zero_add]
  obtain rfl | ⟨rfl, hgone⟩ := hfarewell
  · have hsame : w''.owner = .gone ↔ w₁.owner = .gone := by simpa [hnone.2] using howner
    simp [hsame]
  · have hgone' : w''.owner = .gone := howner.2 (.inr (.inr (List.mem_singleton.2 rfl)))
    simp [hgone', hacts.owner, hgone, Message.isShutdown]

/-- Whoever is answered in a turn is pending with the worker whose turn it is. -/
theorem exists_of_given {d : Crew} {p : Nat × WorkResult} (hp : p ∈ d.given e) :
    ∃ other v, e = .turn other ∧ d.worker? other = some v ∧ p ∈ d.answering v ∧
      p.1 ∈ v.pending := by
  cases e with
  | turn other =>
    cases hv : d.worker? other with
    | none => simp [given, hv] at hp
    | some v =>
      have hp : p ∈ d.answering v := by simpa [given, hv] using hp
      exact ⟨other, v, rfl, hv, hp, (answering_sublist d v).subset (List.mem_map_of_mem hp)⟩
  | _ => cases hp

theorem fst_of_refusal {d : Crew} {s : Option Submission} {p : Nat × WorkResult}
    (hp : p ∈ d.refusal s) : p.1 = d.replies.length := by
  unfold refusal at hp
  split at hp
  · split at hp
    · cases hp
    · rw [List.mem_singleton.1 hp]
  · cases hp

/-- Whoever is answered in an event has not been answered before. -/
theorem Books.unanswered (hb : c.Books past) {p : Nat × WorkResult}
    (hp : p ∈ (c.run past).resolutions e) : (c.run past).answer? p.1 = none := by
  obtain hp | hp := List.mem_append.1 hp
  · rw [fst_of_refusal hp, answer?, List.getElem?_eq_none (Nat.le_refl _)]
    rfl
  · obtain ⟨other, v, -, hv, -, hpending⟩ := exists_of_given hp
    exact hb.pending other v hv _ hpending

/-- In one event nobody is answered twice. -/
theorem Books.nodup_resolutions (hb : c.Books past) :
    (((c.run past).resolutions e).map Prod.fst).Nodup := by
  rw [resolutions, List.map_append, List.nodup_append]
  refine ⟨?_, ?_, ?_⟩
  · unfold refusal
    split
    · split <;> simp
    · simp
  · cases e with
    | turn other =>
      cases hv : (c.run past).worker? other with
      | none => simp [given, hv]
      | some v =>
        have hnodup : v.pending.Nodup := (hb.pending_increasing hv).imp Nat.ne_of_lt
        simpa [given, hv] using hnodup.sublist (answering_sublist (c.run past) v)
    | _ => exact List.nodup_nil
  · rintro t ht s hs rfl
    obtain ⟨p, hp, rfl⟩ := List.mem_map.1 ht
    obtain ⟨q, hq, heq⟩ := List.mem_map.1 hs
    obtain ⟨other, v, -, hv, -, hpending⟩ := exists_of_given hq
    have hlt := hb.pending_lt hv hpending
    rw [heq, fst_of_refusal hp] at hlt
    exact Nat.lt_irrefl _ hlt

theorem Books.answers_concat (hb : c.Books past) (t : Nat) (r : WorkResult) :
    (c.run (past ++ [e])).answer? t = some r ↔ (t, r) ∈ c.answered (past ++ [e]) := by
  rw [run_concat, answer?_apply (fun _ _ hw _ ht => hb.pending_lt hw ht), answered_concat,
    List.mem_append, ← hb.answers, ← lookup_eq_some_iff hb.nodup_resolutions]
  cases hanswer : (c.run past).answer? t with
  | none => simp
  | some r' =>
    have hnone : ((c.run past).resolutions e).lookup t = none := by
      cases hlookup : ((c.run past).resolutions e).lookup t with
      | none => rfl
      | some q =>
        have hunanswered := hb.unanswered ((lookup_eq_some_iff hb.nodup_resolutions).1 hlookup)
        simp [hanswer] at hunanswered
    simp [hnone]

theorem Books.once_concat (hb : c.Books past) :
    ((c.answered (past ++ [e])).map Prod.fst).Nodup := by
  rw [answered_concat, List.map_append, List.nodup_append]
  refine ⟨hb.once, hb.nodup_resolutions, ?_⟩
  rintro t ht s hs rfl
  obtain ⟨⟨t, r⟩, hp, rfl⟩ := List.mem_map.1 ht
  obtain ⟨q, hq, heq⟩ := List.mem_map.1 hs
  have hunanswered := hb.unanswered hq
  rw [heq, (hb.answers t r).2 hp] at hunanswered
  cases hunanswered

theorem Books.pending_concat (hb : c.Books past) (name : String) (w' : Worker)
    (hw' : (c.run (past ++ [e])).worker? name = some w') (t : Nat) (ht : t ∈ w'.pending) :
    (c.run (past ++ [e])).answer? t = none := by
  rw [run_concat] at hw' ⊢
  obtain ⟨w, hw⟩ := exists_worker?_of_apply hw'
  obtain ⟨w₁, w'', hacts, hw'', hhears, -⟩ := view hw (hb.accounts name w hw).steady e
  obtain rfl : w'' = w' := Option.some.inj (hw''.symm.trans hw')
  have hpending : t ∈ w₁.pending ∨ t ∈ workTickets ((c.run past).received name e) := by
    rw [Worker.pending, hhears.running, hhears.inbox, workTickets_append, ← List.append_assoc,
      List.mem_append] at ht
    exact ht
  rw [answer?_apply fun _ _ hw _ ht => hb.pending_lt hw ht, Option.or_eq_none_iff]
  have hlookup (h : ∀ p ∈ (c.run past).resolutions e, p.1 ≠ t) :
      ((c.run past).resolutions e).lookup t = none :=
    List.lookup_eq_none_iff.2 fun p hp => by simpa using (h p hp).symm
  obtain ht | ht := hpending
  · have hbefore := hacts.pending_subset ht
    refine ⟨hb.pending name w hw t hbefore, hlookup fun p hp heq => ?_⟩
    subst heq
    obtain hp | hp := List.mem_append.1 hp
    · exact absurd (hb.pending_lt hw hbefore) (by simp [fst_of_refusal hp])
    · obtain ⟨other, v, rfl, hv, hanswering, hpending⟩ := exists_of_given hp
      obtain rfl := hb.eq_of_pending hw hv hbefore hpending
      refine hacts.not_pending (hb.pending_increasing hw) p ?_ ht
      simpa [Crew.answers, given, hv] using hanswering
  · obtain ⟨holder, list, hm⟩ := mem_workTickets.1 ht
    obtain ⟨rfl, s, hs, rfl, -, hlistens⟩ := exists_of_received hm
    refine ⟨by simp [answer?], hlookup fun p hp heq => ?_⟩
    obtain hp | hp := List.mem_append.1 hp
    · simp [hs, refusal, hlistens] at hp
    · obtain ⟨other, v, -, hv, -, hpending⟩ := exists_of_given hp
      exact absurd (hb.pending_lt hv hpending) (by simp [heq])

theorem Books.concat (hb : c.Books past) (e : CrewEvent) : c.Books (past ++ [e]) where
  tickets := by
    rw [run_concat, length_apply, submissions_concat, List.length_append, hb.tickets]
  sent := hb.sent_concat
  increasing := hb.increasing_concat
  accounts := hb.accounts_concat
  pending := hb.pending_concat
  answers := hb.answers_concat
  once := hb.once_concat

theorem IsNew.books (hc : c.IsNew) : c.Books [] where
  tickets := by
    change c.replies.length = _
    rw [hc.replies]
    rfl
  sent _ _ _ _ h := by cases h
  increasing _ := List.Pairwise.nil
  accounts name w hw := by
    obtain ⟨hinbox, hrun, hphase, howner⟩ := hc.workers name w hw
    exact {
      kept := fun _ => hinbox
      ended := fun hended => by simp [hphase] at hended
      owner := by rw [howner]; rfl
      working := fun _ => List.not_mem_nil
      stopped := fun hstopped => absurd hphase hstopped
      running := fun run hrun' => by simp [hrun] at hrun' }
  pending name w hw t ht := by
    obtain ⟨hinbox, hrun, -, -⟩ := hc.workers name w hw
    simp [Worker.pending, hinbox, hrun] at ht
  answers t r := by
    change c.answer? t = _ ↔ _
    rw [answer?, hc.replies]
    exact ⟨fun h => (by cases h), fun h => (by cases h)⟩
  once := List.nodup_nil

/-- The books of a crew are in order at all times. -/
theorem IsNew.books_run (hc : c.IsNew) (past : List CrewEvent) : c.Books past := by
  induction past using List.reverseRecOn with
  | nil => exact hc.books
  | append_singleton past e ih => exact ih.concat e

end Crew

end SharedPrompt
