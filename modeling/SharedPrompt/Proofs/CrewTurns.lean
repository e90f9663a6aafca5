import SharedPrompt.Proofs.CrewLogs

/-!
# An event as one worker sees it

A turn changes the worker whose turn it is, and others by a unit that is handed over or by owners
that go. So each event comes to a worker as something that it does itself, followed by what it
hears; and the answers are those of the log.
-/

namespace SharedPrompt

namespace Crew

variable {c : Crew} {name : String} {w : Worker}

theorem worker?_submit_accept (c : Crew) (s : Submission) (name : String) :
    (c.submit s.worker s.holder s.list).2.worker? name =
      (c.worker? name).map fun w => w.accept c.replies.length (some s) := by
  rw [worker?_submit]
  refine Option.map_congr fun w hw => ?_
  obtain rfl := name_of_worker? hw
  rw [Worker.accept, Worker.accepted, Submission.message]
  by_cases h : w.name = s.worker ∧ w.phase ≠ .ended
  · rw [if_pos h, if_pos ⟨h.1.symm, h.2⟩]
  · rw [if_neg h, if_neg fun h' => h ⟨h'.1.symm, h'.2⟩, List.append_nil]

private theorem lookup_map_const (ts : List Nat) (r : WorkResult) (t : Nat) :
    (ts.map (·, r)).lookup t = if t ∈ ts then some r else none := by
  induction ts with
  | nil => rfl
  | cons s ts ih =>
    by_cases ht : t = s
    · simp [ht]
    · have hne : (t == s) = false := by simpa using ht
      simp [ht, List.lookup_cons, hne, ih]

theorem length_submit (c : Crew) (worker : String) (holder : Option Nat) (list : Work) :
    (c.submit worker holder list).2.replies.length = c.replies.length + 1 := by
  rw [replies_submit, List.length_append, List.length_singleton]

theorem answer?_submit (c : Crew) (s : Submission) (t : Nat) :
    (c.submit s.worker s.holder s.list).2.answer? t =
      (c.answer? t).or ((c.refusal (some s)).lookup t) := by
  have hlookup (r : WorkResult) :
      [(c.replies.length, r)].lookup t = if t = c.replies.length then some r else none := by
    simpa using lookup_map_const [c.replies.length] r t
  unfold answer?
  rw [replies_submit, List.getElem?_append]
  by_cases hlt : t < c.replies.length
  · rw [if_pos hlt]
    by_cases hlistens : c.listens s.worker = true
    · simp [refusal, hlistens]
    · simp [refusal, hlistens, hlookup, Nat.ne_of_lt hlt]
  · have hnone : c.replies[t]? = none := List.getElem?_eq_none (by omega)
    rw [if_neg hlt, hnone]
    by_cases ht : t = c.replies.length
    · by_cases hlistens : c.listens s.worker = true <;> simp [refusal, hlistens, ht]
    · have hpast : t - c.replies.length ≠ 0 := by omega
      by_cases hlistens : c.listens s.worker = true
      · simp [refusal, hlistens, hpast]
      · simp [refusal, hlistens, hlookup, ht, hpast]

theorem coming?_running {run : Running} (hrun : w.running = some run) :
    c.coming? w = (c.nextMove? w run).map (run, ·) := by
  rw [coming?, hrun]
  rfl

theorem coming?_none (hrun : w.running = none) : c.coming? w = none := by
  rw [coming?, hrun]
  rfl

/-- A unit hands nothing to its own worker but what it enters itself. -/
theorem handsOver_ne {run : Running} {worker : String} {inner rest : Work}
    (h : c.nextMove? w run = some (.handsOver worker inner rest)) : worker ≠ w.name :=
  (Worker.reaches_of_move? h).of_handsOver.2.2

private def TurnedTo (c : Crew) (v v' : Worker) (d : Crew) : Prop :=
  ∀ name, d.worker? name = (c.worker? name).map fun w =>
    ((if name = v.name then v' else w).accept c.replies.length (c.submitting? v)).without
      (c.lettingGo v)

/-- What a turn makes of the worker itself, and of the answers. -/
private structure Turned (c : Crew) (v v' : Worker) (d : Crew) : Prop where
  acts : c.Acts (c.submitting? v) v v.takes (c.answering v) v'
  name : v'.name = v.name
  owner : v'.owner = v.owner
  phase : c.submitting? v = none ∨ v'.phase = v.phase
  workers : c.TurnedTo v v' d
  length : d.replies.length = c.replies.length + (c.submitting? v).toList.length
  answers (h : ∀ t ∈ v.pending, t < c.replies.length) (t : Nat) : d.answer? t =
    (c.answer? t).or ((c.refusal (c.submitting? v) ++ c.answering v).lookup t)

private theorem turnedTo_setWorker {v v' : Worker} (hname : v'.name = v.name)
    (hsubmitting : c.submitting? v = none) (hletting : c.lettingGo v = []) {d : Crew}
    (hd : d.workers = c.workers) : c.TurnedTo v v' (d.setWorker v') := by
  intro name
  have hworker : d.worker? name = c.worker? name := worker?_congr hd name
  rw [worker?_setWorker, hworker, hsubmitting, hletting, hname]
  simp

private theorem Turned.of_setWorker {v v' : Worker} {d : Crew}
    (hacts : c.Acts (c.submitting? v) v v.takes (c.answering v) v') (hname : v'.name = v.name)
    (howner : v'.owner = v.owner) (hsubmitting : c.submitting? v = none)
    (hletting : c.lettingGo v = []) (hanswering : c.answering v = [])
    (hd : d.workers = c.workers) (hreplies : d.replies = c.replies) : c.Turned v v' (d.setWorker v') where
  acts := hacts
  name := hname
  owner := howner
  phase := .inl hsubmitting
  workers := turnedTo_setWorker hname hsubmitting hletting hd
  length := by simp [hsubmitting, hreplies]
  answers _ t := by
    rw [hsubmitting, hanswering, answer?_congr (replies_setWorker d v'), answer?_congr hreplies]
    simp [refusal]

private theorem takes_running {v : Worker} {run : Running} (hrun : v.running = some run) :
    v.takes = [] := by
  simp [Worker.takes, hrun]

private theorem turned_moves {v : Worker} {run : Running} {engine : Engine} {frame : Frame}
    {below : List Frame} (hrun : v.running = some run) (hmoves : c.Moves v run engine frame below)
    (hsubmitting : c.submitting? v = none) (hletting : c.lettingGo v = [])
    (hanswering : c.answering v = []) {d : Crew} (hd : d.workers = c.workers)
    (hreplies : d.replies = c.replies) :
    ∃ v', c.Turned v v'
      (d.setWorker { v with engine, running := some { run with frame, below } }) := by
  refine ⟨_, .of_setWorker ?_ rfl rfl hsubmitting hletting hanswering hd hreplies⟩
  rw [takes_running hrun, hanswering]
  exact .moves hrun hmoves rfl

/-- The last frame of a unit goes, and with it the owner that came with the unit. -/
private theorem turned_ends {v : Worker} {run : Running} {engine : Engine} {r : WorkResult}
    (hrun : v.running = some run) (hends : c.Ends v run engine r) (hbelow : run.below = [])
    (hsubmitting : c.submitting? v = none) (hletting : c.lettingGo v = [run.ticket])
    (hanswering : c.answering v = [(run.ticket, r)]) {d : Crew} (hd : d.workers = c.workers)
    (hreplies : d.replies = c.replies) :
    ∃ v', c.Turned v v' (d.finish { v with engine } run r) := by
  have hfinish : d.finish { v with engine } run r =
      ((d.setWorker { v with engine, running := none }).dropOwnerOf run.ticket).reply run.ticket r := by
    simp only [finish, hbelow]
  rw [hfinish]
  refine ⟨{ v with engine, running := none }, ?_, rfl, rfl, .inl hsubmitting, fun name => ?_, ?_,
    fun hpending t => ?_⟩
  · rw [takes_running hrun, hanswering]
    exact .ends hrun hends hbelow
  · have hworker : d.worker? name = c.worker? name := worker?_congr hd name
    rw [worker?_reply, worker?_dropOwnerOf, worker?_setWorker, hworker, hsubmitting, hletting]
    simp [Option.map_map, Function.comp_def]
  · simp [hsubmitting, hreplies]
  · have hticket : run.ticket < d.replies.length := by
      rw [hreplies]
      exact hpending _ (by simp [Worker.pending, hrun])
    have hlookup := lookup_map_const [run.ticket] r t
    rw [hsubmitting, hanswering, refusal, List.nil_append]
    refine (answer?_reply _ hticket r t).trans ?_
    rw [answer?_congr hreplies]
    simpa using congrArg (c.answer? t).or hlookup.symm

private theorem turned_finish {v : Worker} {run : Running} {engine : Engine} {r : WorkResult}
    (hrun : v.running = some run) (hends : c.Ends v run engine r)
    (hsubmitting : c.submitting? v = none)
    (hletting : c.lettingGo v = if run.below.isEmpty then [run.ticket] else [])
    (hanswering : c.answering v = if run.below.isEmpty then [(run.ticket, r)] else [])
    {d : Crew} (hd : d.workers = c.workers) (hreplies : d.replies = c.replies) :
    ∃ v', c.Turned v v' (d.finish { v with engine } run r) := by
  cases hbelow : run.below with
  | nil =>
    rw [hbelow] at hletting hanswering
    exact turned_ends hrun hends hbelow hsubmitting hletting hanswering hd hreplies
  | cons f below =>
    rw [hbelow] at hletting hanswering
    have hclosed :=
      turned_moves hrun (.closes hends hbelow) hsubmitting hletting hanswering hd hreplies
    simpa only [finish, hbelow] using hclosed

private theorem turned_running {v : Worker} {run : Running} (hrun : v.running = some run) {d : Crew}
    (hd : c.stepWorker v = some d) : ∃ v', c.Turned v v' d := by
  rw [c.stepWorker_running v run hrun] at hd
  obtain ⟨m, hm, hd⟩ := Option.bind_eq_some_iff.1 hd
  have hcoming : c.coming? v = some (run, m) := by rw [coming?_running hrun, hm]; rfl
  cases m with
  | goes engine started rest more doing =>
    cases hd
    exact turned_moves hrun (.goes hm) (by simp [submitting?, hcoming])
      (by simp [lettingGo, hcoming]) (by simp [answering, hcoming]) rfl rfl
  | enters rest inner =>
    cases hd
    exact turned_moves hrun (.enters hm) (by simp [submitting?, hcoming])
      (by simp [lettingGo, hcoming]) (by simp [answering, hcoming]) rfl rfl
  | hears ticket =>
    obtain ⟨r, hr, rfl⟩ := Option.map_eq_some_iff.1 hd
    exact turned_moves hrun (.hears hm hr) (by simp [submitting?, hcoming])
      (by simp [lettingGo, hcoming]) (by simp [answering, hcoming]) rfl rfl
  | handsOver worker inner rest =>
    cases hd
    have hsubmitting : c.submitting? v = some ⟨worker, some run.holder, inner⟩ := by
      simp [submitting?, hcoming]
    have hne : v.name ≠ worker := (handsOver_ne hm).symm
    have hanswering : c.answering v = [] := by simp [answering, hcoming]
    have hsubmit := answer?_submit c ⟨worker, some run.holder, inner⟩
    refine ⟨{ v with running := some { run with
      frame := { run.frame with rest, doing := .awaiting c.replies.length } } },
      ?_, rfl, rfl, .inr rfl, fun name => ?_, ?_, fun _ t => ?_⟩
    · rw [takes_running hrun, hanswering]
      exact .moves hrun (.handsOver hm) rfl
    · have hletting : c.lettingGo v = [] := by simp [lettingGo, hcoming]
      rw [doing, worker?_setWorker, worker?_submit_accept c ⟨worker, some run.holder, inner⟩,
        hsubmitting, hletting, Option.map_map]
      refine Option.map_congr fun w hw => ?_
      obtain rfl := name_of_worker? hw
      by_cases hname : w.name = v.name
      · simp [hname, Worker.accept, Worker.accepted, hne.symm]
      · simp [hname]
    · rw [hsubmitting, doing, replies_setWorker]
      exact length_submit ..
    · rw [hsubmitting, hanswering, List.append_nil, doing, answer?_congr (replies_setWorker _ _)]
      exact hsubmit t
  | dropsOwner rest =>
    cases hd
    have hsubmitting : c.submitting? v = none := by simp [submitting?, hcoming]
    have hanswering : c.answering v = [] := by simp [answering, hcoming]
    refine ⟨{ v with running := some { run with
      frame := { rest, entries := run.frame.entries ++ [] } } },
      ?_, rfl, rfl, .inl hsubmitting, fun name => ?_, ?_, fun _ t => ?_⟩
    · rw [takes_running hrun, hanswering]
      exact .moves hrun (.dropsOwner hm) rfl
    · have hletting : c.lettingGo v = [run.holder] := by simp [lettingGo, hcoming]
      rw [worker?_dropOwnerOf, resume, worker?_setWorker, hsubmitting, hletting, Option.map_map]
      simp [Function.comp_def]
    · simp [hsubmitting, resume]
    · have hreplies : ((c.resume v run rest []).dropOwnerOf run.holder).replies = c.replies := rfl
      rw [hsubmitting, hanswering, answer?_congr hreplies]
      simp [refusal]
  | returns =>
    cases hd
    exact turned_finish hrun (.returns hm) (by simp [submitting?, hcoming])
      (by simp [lettingGo, hcoming]) (by simp [answering, hcoming]) rfl rfl
  | panics engine p =>
    cases hd
    exact turned_finish hrun (.panics hm) (by simp [submitting?, hcoming])
      (by simp [lettingGo, hcoming]) (by simp [answering, hcoming]) rfl rfl

private theorem turned_idle {v : Worker} (hrun : v.running = none) {d : Crew}
    (hd : c.stepWorker v = some d) : ∃ v', c.Turned v v' d := by
  have hcoming : c.coming? v = none := coming?_none hrun
  have hsubmitting : c.submitting? v = none := by simp [submitting?, hcoming]
  cases hphase : v.phase with
  | ended => simp [stepWorker, hrun, hphase] at hd
  | leaving =>
    have hstep : c.stepWorker v = some (c.close v) := by simp only [stepWorker, hrun, hphase]
    obtain rfl := Option.some.inj (hstep.symm.trans hd)
    have hletting : c.lettingGo v = workTickets v.inbox := by simp [lettingGo, hcoming, hrun, hphase]
    have hanswering : c.answering v = (workTickets v.inbox).map (·, .error .replyDropped) := by
      simp [answering, hcoming, hrun, hphase]
    refine ⟨{ v with inbox := [], phase := .ended }, ?_, rfl, rfl, .inl hsubmitting,
      fun name => ?_, ?_, fun hpending t => ?_⟩
    · have htakes : v.takes = [] := by simp [Worker.takes, hphase]
      rw [htakes, hanswering]
      exact .closes hrun hphase
    · rw [close, worker?_discards, worker?_setWorker, hsubmitting, hletting, Option.map_map]
      simp [Function.comp_def]
    · simp [hsubmitting, close, length_discards]
    · rw [hsubmitting, hanswering, refusal, List.nil_append, lookup_map_const]
      have hinbox : ∀ s ∈ workTickets v.inbox, s < c.replies.length := fun s hs =>
        hpending s (by simp [Worker.pending, hs])
      exact answer?_discards v.inbox (c.setWorker { v with inbox := [], phase := .ended }) hinbox t
  | working =>
    have hletting : c.lettingGo v = [] := by simp [lettingGo, hcoming, hphase]
    have hanswering : c.answering v = [] := by simp [answering, hcoming, hphase]
    have htakes : v.takes = v.inbox.take 1 := by simp [Worker.takes, hrun, hphase]
    cases hinbox : v.inbox with
    | nil =>
      by_cases hforsaken : v.forsaken = true
      · have hstep : c.stepWorker v = some (c.setWorker { v with phase := .leaving }) := by
          simp only [stepWorker, hrun, hphase, hinbox, if_pos hforsaken]
        obtain rfl := Option.some.inj (hstep.symm.trans hd)
        refine ⟨_, .of_setWorker ?_ rfl rfl hsubmitting hletting hanswering rfl rfl⟩
        have hnothing : v.takes = [] := by rw [htakes, hinbox]; rfl
        rw [hnothing, hanswering]
        exact .forsaken hrun hphase hinbox hforsaken
      · simp [stepWorker, hrun, hphase, hinbox, hforsaken] at hd
    | cons m inbox =>
      cases m with
      | shutdown =>
        have hstep : c.stepWorker v = some (c.setWorker { v with inbox, phase := .leaving }) := by
          simp only [stepWorker, hrun, hphase, hinbox]
        obtain rfl := Option.some.inj (hstep.symm.trans hd)
        refine ⟨_, .of_setWorker ?_ rfl rfl hsubmitting hletting hanswering rfl rfl⟩
        rw [htakes, hanswering, hinbox]
        exact .stops hrun hphase hinbox
      | work ticket holder list =>
        have hstep : c.stepWorker v = some (c.setWorker
            { v with inbox, running := some { ticket, holder, frame := { rest := list } } }) := by
          simp only [stepWorker, hrun, hphase, hinbox]
        obtain rfl := Option.some.inj (hstep.symm.trans hd)
        refine ⟨_, .of_setWorker ?_ rfl rfl hsubmitting hletting hanswering rfl rfl⟩
        rw [htakes, hanswering, hinbox]
        exact .takes hrun hphase hinbox

private theorem turned {v : Worker} {d : Crew} (hd : c.stepWorker v = some d) :
    ∃ v', c.Turned v v' d := by
  cases hrun : v.running with
  | none => exact turned_idle hrun hd
  | some run => exact turned_running hrun hd

/-- A turn changes the unit at work in the worker whose turn it is, and in no other. -/
theorem running_turned {v : Worker} {d : Crew} (hd : c.stepWorker v = some d) :
    ∃ s took gave v', c.Acts s v took gave v' ∧ ∀ name, (d.worker? name).bind (·.running) =
      (c.worker? name).bind fun w => if name = v.name then v'.running else w.running := by
  obtain ⟨v', hturned⟩ := turned hd
  refine ⟨_, _, _, v', hturned.acts, fun name => ?_⟩
  rw [hturned.workers, Option.bind_map]
  refine Option.bind_congr fun w _ => ?_
  rw [Function.comp_apply, Worker.running_without]
  split <;> rfl

/-- A worker that has to wait does nothing. -/
private theorem idle_of_stuck {v : Worker} (hd : c.stepWorker v = none) :
    v.takes = [] ∧ c.answering v = [] ∧ c.submitting? v = none ∧ c.lettingGo v = [] := by
  cases hrun : v.running with
  | none =>
    have hcoming : c.coming? v = none := coming?_none hrun
    cases hphase : v.phase with
    | leaving => simp [stepWorker, hrun, hphase] at hd
    | ended => simp [Worker.takes, answering, submitting?, lettingGo, hcoming, hrun, hphase]
    | working =>
      cases hinbox : v.inbox with
      | nil => simp [Worker.takes, answering, submitting?, lettingGo, hcoming, hphase, hinbox]
      | cons m inbox => cases m <;> simp [stepWorker, hrun, hphase, hinbox] at hd
  | some run =>
    rw [c.stepWorker_running v run hrun] at hd
    have htakes := takes_running hrun
    cases hm : c.nextMove? v run with
    | none =>
      have hcoming : c.coming? v = none := by rw [coming?_running hrun, hm]; rfl
      simp [htakes, answering, submitting?, lettingGo, hcoming, hrun]
    | some m =>
      have hcoming : c.coming? v = some (run, m) := by rw [coming?_running hrun, hm]; rfl
      rw [hm, Option.bind_some] at hd
      cases m with
      | hears ticket => simp [htakes, answering, submitting?, lettingGo, hcoming]
      | _ => cases hd

private theorem hears_giveOwner (w : Worker) (ticket : Nat) :
    w.Hears thrown [] (if w.owner = .outside then { w with owner := .within ticket } else w) := by
  by_cases howner : w.owner = .outside
  · rw [if_pos howner]
    exact .of_same rfl rfl rfl rfl rfl (.refl _) (by simp [howner])
  · rw [if_neg howner]
    exact .refl w

/-- What leaves messages and owner alone. -/
private theorem view_of_same (hw : c.worker? name = some w) (e : CrewEvent) {other : String}
    {f : Worker → Worker} (happly : c.apply e = c.modifyWorker other f)
    (hf : ∀ w : Worker, (f w).name = w.name)
    (hhears : other = name → w.Hears (e.Throws name) [] (f w))
    (hsubmission : c.submission? e = none) (hfarewell : c.farewell w e = []) :
    ∃ w', (c.apply e).worker? name = some w' ∧ w.Hears (e.Throws name) (c.received name e) w' := by
  have hfound := worker?_modifyWorker c hf other name
  rw [hw, Option.map_some] at hfound
  refine ⟨_, by rw [happly]; exact hfound, ?_⟩
  have hreceived : c.received name e = [] := by simp [received, hw, hsubmission, hfarewell]
  rw [hreceived]
  split
  next hname => exact hhears hname.symm
  next => exact .refl w

private theorem hears_turn {other : String} {d : Crew} {v v' : Worker}
    (hw : c.worker? name = some w) (hs : w.Steady) (hv : c.worker? other = some v)
    (ht : c.Turned v v' d) :
    ∃ w₁ w', c.Acts (c.submission? (.turn other)) w (c.taken name (.turn other))
        (c.answers name (.turn other)) w₁ ∧
      d.worker? name = some w' ∧ w₁.Hears thrown (c.received name (.turn other)) w' ∧
      (w₁.phase = .ended → c.received name (.turn other) = []) := by
  obtain rfl := name_of_worker? hv
  obtain rfl := name_of_worker? hw
  have hreceived : c.received w.name (.turn v.name) =
      w.accepted c.replies.length (c.submitting? v) ++ w.farewell (c.lettingGo v) := by
    simp [received, hw, hv, submission?, farewell]
  have hended (hphase : w.phase = .ended) : w.owner = .gone := (hs (by simp [hphase])).1
  rw [ht.workers, hw, hreceived]
  by_cases hname : w.name = v.name
  · obtain rfl : w = v := by
      rw [hname, hv] at hw
      exact (Option.some.inj hw).symm
    -- A worker that ends in this turn was leaving before.
    have howner (hphase : v'.phase = .ended) : v'.owner = .gone := by
      rw [ht.owner]
      have hacts := ht.acts
      generalize w.takes = took, c.answering w = gave at hacts
      cases hacts with
      | rests => exact hended hphase
      | takes _ hworking => exact hended hphase
      | closes _ hleaving => exact (hs (by simp [hleaving])).1
      | moves _ _ _ => exact hended hphase
      | ends _ _ _ => exact hended hphase
      | _ => cases hphase
    refine ⟨v', _, ?_, by rw [Option.map_some, if_pos rfl], ?_⟩
    · simpa [taken, answers, given, submission?, hw] using ht.acts
    · have haccepted : w.accepted c.replies.length (c.submitting? w) =
          v'.accepted c.replies.length (c.submitting? w) := by
        obtain hnone | hphase := ht.phase
        · rw [hnone]
          rfl
        · unfold Worker.accepted
          rw [ht.name, hphase]
      have hfarewell : w.farewell (c.lettingGo w) =
          (v'.accept c.replies.length (c.submitting? w)).farewell (c.lettingGo w) := by
        simp only [Worker.farewell, Worker.accept, ht.owner]
      rw [haccepted, hfarewell]
      refine ⟨(Worker.hears_accept _ _).trans (Worker.hears_without _ howner), fun hphase => ?_⟩
      rw [Worker.accepted_of_ended hphase, List.nil_append]
      exact Worker.farewell_of_gone (howner hphase) _
  · refine ⟨w, _, ?_, by rw [Option.map_some, if_neg hname], ?_⟩
    · simpa [taken, answers, Ne.symm hname] using Acts.rests
    · refine ⟨(Worker.hears_accept _ _).trans
        (Worker.hears_without (w := w.accept c.replies.length (c.submitting? v)) _ hended),
        fun hphase => ?_⟩
      rw [Worker.accepted_of_ended hphase, List.nil_append]
      exact Worker.farewell_of_gone (hended hphase) _

private theorem received_of_ended (hw : c.worker? name = some w) (hs : w.Steady) (e : CrewEvent)
    (hphase : w.phase = .ended) : c.received name e = [] := by
  have howner : w.owner = .gone := (hs (by simp [hphase])).1
  simp only [received, hw, Worker.accepted_of_ended hphase, List.nil_append]
  cases e with
  | dropOwner other => simp [farewell, howner]
  | turn other => exact Worker.farewell_of_gone howner _
  | _ => rfl

/-- Every event, as a worker sees it: what it does itself, and then what it hears from others. -/
theorem view (hw : c.worker? name = some w) (hs : w.Steady) (e : CrewEvent) :
    ∃ w₁ w', c.Acts (c.submission? e) w (c.taken name e) (c.answers name e) w₁ ∧
      (c.apply e).worker? name = some w' ∧ w₁.Hears (e.Throws name) (c.received name e) w' ∧
      (w₁.phase = .ended → c.received name e = []) := by
  have hended := received_of_ended hw hs e
  cases e with
  | submit worker list =>
    refine ⟨w, w.accept c.replies.length (some ⟨worker, none, list⟩), .rests, ?_, ?_⟩
    · exact (worker?_submit_accept c ⟨worker, none, list⟩ name).trans (by rw [hw]; rfl)
    · refine ⟨?_, hended⟩
      simpa [received, hw, submission?, farewell] using
        Worker.hears_accept c.replies.length (some ⟨worker, none, list⟩)
  | submitOwner worker list =>
    have hreceived : c.received name (.submitOwner worker list) =
        w.accepted c.replies.length (some ⟨worker, none, list⟩) ++ [] := by
      simp [received, hw, submission?, farewell]
    have hgiven (v : Worker) : (if v.owner = .outside then
        { v with owner := .within (c.submit worker none list).1 } else v).name = v.name := by
      split <;> rfl
    have hsubmitted : (c.submit worker none list).2.worker? name =
        some (w.accept c.replies.length (some ⟨worker, none, list⟩)) :=
      (worker?_submit_accept c ⟨worker, none, list⟩ name).trans (by rw [hw]; rfl)
    have hafter := worker?_modifyWorker (c.submit worker none list).2 hgiven worker name
    rw [hsubmitted, Option.map_some] at hafter
    refine ⟨w, _, .rests, hafter, ?_, hended⟩
    rw [hreceived]
    refine (Worker.hears_accept _ _).trans ?_
    by_cases hname : name = worker
    · rw [if_pos hname]
      exact hears_giveOwner _ _
    · rw [if_neg hname]
      exact .refl _
  | dropOwner worker =>
    have hdropped (v : Worker) :
        (if v.owner = .outside then v.disown else v).name = v.name := by split <;> rfl
    refine ⟨w, _, .rests, (worker?_modifyWorker c hdropped worker name).trans (by rw [hw]; rfl), ?_,
      hended⟩
    obtain rfl := name_of_worker? hw
    have hlistens (howner : w.owner = .outside) : w.phase ≠ .ended := fun hphase => by
      simp [(hs (by simp [hphase])).1] at howner
    have hreceived : c.received w.name (.dropOwner worker) =
        if w.name = worker ∧ w.owner = .outside then [.shutdown] else [] := by
      simp [received, hw, submission?, farewell]
    rw [hreceived]
    by_cases hname : w.name = worker
    · by_cases howner : w.owner = .outside
      · simpa [hname, howner] using Worker.hears_disown (hlistens howner) (by simp [howner])
      · simpa [hname, howner] using Worker.Hears.refl w
    · simpa [hname] using Worker.Hears.refl w
  | client worker =>
    obtain ⟨w', h, hears⟩ := view_of_same hw (.client worker) rfl (fun _ => rfl)
      (fun _ => .of_same rfl rfl rfl rfl rfl (.refl _) .rfl) rfl rfl
    exact ⟨w, w', .rests, h, hears, hended⟩
  | dropClient worker =>
    obtain ⟨w', h, hears⟩ := view_of_same hw (.dropClient worker) rfl (fun _ => rfl)
      (fun _ => .of_same rfl rfl rfl rfl rfl (.refl _) .rfl) rfl rfl
    exact ⟨w, w', .rests, h, hears, hended⟩
  | openBarrier _ =>
    exact ⟨w, w, .rests, hw, by simpa [received, hw, submission?, farewell] using .refl w, hended⟩
  | failing worker switch on =>
    obtain ⟨w', h, hears⟩ := view_of_same hw (.failing worker switch on) rfl (fun _ => rfl)
      (fun hname => .of_same rfl rfl rfl rfl rfl (.inr ⟨hname, _, rfl⟩) .rfl) rfl rfl
    exact ⟨w, w', .rests, h, hears, hended⟩
  | turn other =>
    cases hv : c.worker? other with
    | none =>
      have hne : other ≠ name := fun h => by simp [h, hw] at hv
      have happly : c.apply (.turn other) = c := by simp [apply, step, hv]
      refine ⟨w, w, ?_, by rw [happly, hw], ?_, hended⟩
      · simpa [taken, answers, hne] using Acts.rests
      · simpa [received, hw, submission?, farewell, hv] using Worker.Hears.refl w
    | some v =>
      cases hd : c.stepWorker v with
      | none =>
        obtain ⟨htakes, hanswering, hsubmitting, hletting⟩ := idle_of_stuck hd
        have happly : c.apply (.turn other) = c := by simp [apply, step, hv, hd]
        refine ⟨w, w, ?_, by rw [happly, hw], ?_, hended⟩
        · by_cases hname : other = name
          · subst hname
            obtain rfl : v = w := Option.some.inj (hv.symm.trans hw)
            simpa [taken, answers, given, hv, htakes, hanswering] using Acts.rests
          · simpa [taken, answers, hname] using Acts.rests
        · simpa [received, hw, submission?, farewell, hv, hsubmitting, hletting] using
            Worker.Hears.refl w
      | some d =>
        obtain ⟨v', ht⟩ := turned hd
        have happly : c.apply (.turn other) = d := by simp [apply, step, hv, hd]
        rw [happly]
        exact hears_turn hw hs hv ht

/-! ## The names -/

private theorem names_finish (c : Crew) (w : Worker) (run : Running) (r : WorkResult) :
    (c.finish w run r).names = c.names := by
  unfold finish
  split <;> simp

private theorem names_carryOut {run : Running} {m : UnitMove} {d : Crew}
    (hd : c.carryOut w run m = some d) : d.names = c.names := by
  cases m with
  | handsOver worker inner rest =>
    cases hd
    exact (names_setWorker _ _).trans (names_submit ..)
  | hears ticket =>
    obtain ⟨r, -, rfl⟩ := Option.map_eq_some_iff.1 hd
    exact names_setWorker ..
  | dropsOwner rest =>
    cases hd
    exact (names_dropOwnerOf _ _).trans (names_setWorker _ _)
  | returns =>
    cases hd
    exact names_finish ..
  | panics engine p =>
    cases hd
    exact names_finish ..
  | _ =>
    cases hd
    exact names_setWorker ..

private theorem names_stepWorker {d : Crew} (hd : c.stepWorker w = some d) : d.names = c.names := by
  cases hrun : w.running with
  | some run =>
    rw [c.stepWorker_running w run hrun] at hd
    obtain ⟨m, -, hd⟩ := Option.bind_eq_some_iff.1 hd
    exact names_carryOut hd
  | none =>
    unfold stepWorker at hd
    rw [hrun] at hd
    dsimp only at hd
    split at hd
    · cases hd
    · cases hd
      exact (names_discards _ _).trans (names_setWorker _ _)
    · split at hd
      · cases hd
        exact names_setWorker ..
      · cases hd
    · cases hd
      exact names_setWorker ..
    · cases hd
      exact names_setWorker ..

/-- No event brings or takes a worker. -/
@[simp] theorem names_apply (c : Crew) (e : CrewEvent) : (c.apply e).names = c.names := by
  cases e with
  | submit worker list => exact names_submit ..
  | submitOwner worker list =>
    exact (names_modifyWorker _ (fun v => by split <;> rfl) _).trans (names_submit ..)
  | dropOwner worker => exact names_modifyWorker _ (fun v => by split <;> rfl) _
  | client worker => exact names_modifyWorker c (by intro _; rfl) worker
  | dropClient worker => exact names_modifyWorker c (by intro _; rfl) worker
  | openBarrier _ => rfl
  | failing worker switch on => exact names_modifyWorker c (by intro _; rfl) worker
  | turn other =>
    change ((c.step other).getD c).names = _
    cases hd : c.step other with
    | none => rfl
    | some d =>
      obtain ⟨v, -, hd⟩ := Option.bind_eq_some_iff.1 hd
      exact names_stepWorker hd

@[simp] theorem names_run (c : Crew) (events : List CrewEvent) : (c.run events).names = c.names := by
  induction events generalizing c with
  | nil => rfl
  | cons e rest ih => exact (ih (c.apply e)).trans (names_apply c e)

/-! ## The answers -/

/-- An event gives as many tickets as there are units handed over in it. -/
theorem length_apply (c : Crew) (e : CrewEvent) :
    (c.apply e).replies.length = c.replies.length + (c.submission? e).toList.length := by
  cases e with
  | submit worker list => exact length_submit c worker none list
  | submitOwner worker list => exact length_submit c worker none list
  | turn other =>
    cases hv : c.worker? other with
    | none => simp [apply, step, hv, submission?]
    | some v =>
      cases hd : c.stepWorker v with
      | none => simp [apply, step, hv, hd, submission?, (idle_of_stuck hd).2.2.1]
      | some d =>
        obtain ⟨v', ht⟩ := turned hd
        simpa [apply, step, hv, hd, submission?] using ht.length
  | _ => rfl

/-- After an event there are the answers from before and those of the event. -/
theorem answer?_apply (hc : ∀ name w, c.worker? name = some w → ∀ t ∈ w.pending, t < c.replies.length)
    (e : CrewEvent) (t : Nat) :
    (c.apply e).answer? t = (c.answer? t).or ((c.resolutions e).lookup t) := by
  have hnone : c.answer? t = (c.answer? t).or (([] : List (Nat × WorkResult)).lookup t) := by simp
  cases e with
  | submit worker list =>
    have hresolutions : c.resolutions (.submit worker list) = c.refusal (some ⟨worker, none, list⟩) :=
      List.append_nil _
    rw [hresolutions]
    exact answer?_submit c ⟨worker, none, list⟩ t
  | submitOwner worker list =>
    have hresolutions :
        c.resolutions (.submitOwner worker list) = c.refusal (some ⟨worker, none, list⟩) :=
      List.append_nil _
    rw [hresolutions]
    exact answer?_submit c ⟨worker, none, list⟩ t
  | turn other =>
    cases hv : c.worker? other with
    | none => simp [apply, step, hv, resolutions, submission?, refusal, given]
    | some v =>
      cases hd : c.stepWorker v with
      | none =>
        obtain ⟨-, hanswering, hsubmitting, -⟩ := idle_of_stuck hd
        simp [apply, step, hv, hd, resolutions, submission?, refusal, given, hanswering, hsubmitting]
      | some d =>
        obtain ⟨v', ht⟩ := turned hd
        simpa [apply, step, hv, hd, resolutions, submission?, given] using ht.answers (hc _ _ hv) t
  | _ => exact hnone

end Crew

end SharedPrompt
