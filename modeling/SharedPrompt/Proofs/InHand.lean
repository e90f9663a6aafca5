import SharedPrompt.Proofs.Affairs
import SharedPrompt.Proofs.Dealings

/-!
# Replies, stakes and affairs

What a task awaits is in the idle slot or in the hands of a thread until it is answered. What is to
be done for it, and how far it has come, is what has been noted of it.
-/

namespace SharedPrompt

def Stake.replies (s : Multiset Stake) : Multiset Nat := s.filterMap reply?

/-- The replies, the stakes that await them and the affairs that come to them are as a log tells. -/
structure InHand (replies : List Reply) (s : Multiset Stake) (a : Multiset Affair)
    (log : List Note) : Prop where
  lawful : Lawful log
  fresh : ∀ ρ, replies.length ≤ ρ → lifeOf log ρ = none
  awaited : (Stake.replies s).Nodup
  about : (a.map Affair.reply).Nodup
  affairs : ∀ y ∈ a, ∃ t, lifeOf log y.reply = some ⟨t, y.idle, y.job, y.phase⟩ ∧
    (replies[y.reply]? = some (.open_ t) ∨ replies[y.reply]? = some .closed)
  stakes : ∀ x ∈ s, ∀ ρ, x.reply? = some ρ →
    ∃ job p, lifeOf log ρ = some ⟨x.task, x.isIdle, job, p⟩ ∧
      (replies[ρ]? = some (.open_ x.task) ∧ (∃ y ∈ a, y.reply = ρ) ∨
        ∃ r, replies[ρ]? = some (.sent r) ∧ p = .settled r)

namespace InHand

variable {replies : List Reply} {s : Multiset Stake} {a : Multiset Affair} {log : List Note}
  {x : Stake} {y : Affair} {ρ : Nat}

theorem nil : InHand [] 0 0 [] where
  lawful := .nil
  fresh _ _ := rfl
  awaited := Multiset.nodup_zero
  about := Multiset.nodup_zero
  affairs y hy := absurd hy (Multiset.notMem_zero y)
  stakes x hx := absurd hx (Multiset.notMem_zero x)

/-! ## Stakes that await nothing -/

theorem addIdle (hi : InHand replies s a log) (hx : x.reply? = none) :
    InHand replies ({x} + s) a log where
  lawful := hi.lawful
  fresh := hi.fresh
  awaited := by
    rw [Multiset.singleton_add, Stake.replies, Multiset.filterMap_cons_none _ _ hx]
    exact hi.awaited
  about := hi.about
  affairs := hi.affairs
  stakes z hz ρ hρ := by
    rcases Multiset.mem_add.1 hz with hz | hz
    · rw [Multiset.mem_singleton.1 hz, hx] at hρ
      cases hρ
    · exact hi.stakes z hz ρ hρ

theorem drop (hi : InHand replies ({x} + s) a log) : InHand replies s a log where
  lawful := hi.lawful
  fresh := hi.fresh
  awaited := by
    refine Multiset.nodup_of_le ?_ hi.awaited
    exact Multiset.filterMap_le_filterMap _ (Multiset.le_add_left _ _)
  about := hi.about
  affairs := hi.affairs
  stakes z hz := hi.stakes z (Multiset.mem_add.2 (.inr hz))

theorem not_awaited (hi : InHand replies ({x} + s) a log) (hx : x.reply? = some ρ) :
    ∀ z ∈ s, z.reply? ≠ some ρ := by
  intro z hz hzρ
  have hnd := hi.awaited
  rw [Multiset.singleton_add, Stake.replies, Multiset.filterMap_cons_some _ _ _ hx,
    Multiset.nodup_cons] at hnd
  exact hnd.1 ((Multiset.mem_filterMap _ _).2 ⟨z, hz, hzρ⟩)

theorem not_about (hi : InHand replies s ({y} + a) log) : ∀ z ∈ a, z.reply ≠ y.reply := by
  intro z hz heq
  have hnd := hi.about
  rw [Multiset.singleton_add, Multiset.map_cons, Multiset.nodup_cons] at hnd
  exact hnd.1 (heq ▸ Multiset.mem_map_of_mem _ hz)

theorem lt_of_stake (hi : InHand replies s a log) (hx : x ∈ s) (hρ : x.reply? = some ρ) :
    ρ < replies.length := by
  by_contra hle
  obtain ⟨job, p, hlife, -⟩ := hi.stakes x hx ρ hρ
  rw [hi.fresh ρ (Nat.le_of_not_lt hle)] at hlife
  cases hlife

theorem lt_of_affair (hi : InHand replies s a log) (hy : y ∈ a) : y.reply < replies.length := by
  by_contra hle
  obtain ⟨t, hlife, -⟩ := hi.affairs y hy
  rw [hi.fresh y.reply (Nat.le_of_not_lt hle)] at hlife
  cases hlife

/-! ## Changes -/

/-- Whoever awaits a reply goes away. -/
theorem close (hi : InHand replies ({x} + s) a log) (hx : x.reply? = some ρ) :
    InHand (replies.set ρ .closed) s a log := by
  have hmem : x ∈ {x} + s := by simp
  have hlt := hi.lt_of_stake hmem hx
  refine ⟨hi.lawful, fun ρ' hle => hi.fresh ρ' (by simpa using hle), hi.drop.awaited, hi.about,
    fun y hy => ?_, fun z hz ρ' hρ' => ?_⟩
  · obtain ⟨t, hlife, hreply⟩ := hi.affairs y hy
    refine ⟨t, hlife, ?_⟩
    by_cases heq : ρ = y.reply
    · exact .inr (heq ▸ List.getElem?_set_self hlt)
    · rwa [List.getElem?_set_ne heq]
  · have hne : ρ ≠ ρ' := fun heq => hi.not_awaited hx z hz (heq ▸ hρ')
    rw [List.getElem?_set_ne hne]
    exact hi.drop.stakes z hz ρ' hρ'

/-- An affair that nobody awaits is dropped. -/
theorem dropAffair (hi : InHand replies s ({y} + a) log)
    (hy : ∀ z ∈ s, z.reply? ≠ some y.reply) : InHand replies s a log where
  lawful := hi.lawful
  fresh := hi.fresh
  awaited := hi.awaited
  about := by
    have hnd := hi.about
    rw [Multiset.singleton_add, Multiset.map_cons, Multiset.nodup_cons] at hnd
    exact hnd.2
  affairs z hz := hi.affairs z (Multiset.mem_add.2 (.inr hz))
  stakes z hz ρ hρ := by
    obtain ⟨job, p, hlife, hreply⟩ := hi.stakes z hz ρ hρ
    refine ⟨job, p, hlife, hreply.imp_left fun hopen => ⟨hopen.1, ?_⟩⟩
    obtain ⟨u, hu, rfl⟩ := hopen.2
    rcases Multiset.mem_add.1 hu with hu | hu
    · rw [Multiset.mem_singleton.1 hu] at hρ
      exact absurd hρ (hy z hz)
    · exact ⟨u, hu, rfl⟩

/-- What is noted of nobody's reply changes nothing. -/
theorem note {d : Note} (hi : InHand replies s a log) (hd : d.reply? = none) :
    InHand replies s a (log ++ [d]) := by
  have hlife (ρ : Nat) : lifeOf (log ++ [d]) ρ = lifeOf log ρ :=
    lifeOf_concat_ne log (by rw [hd]; exact (Option.some_ne_none ρ).symm)
  exact ⟨.concat hi.lawful fun ρ hρ => by (rw [hd] at hρ; cases hρ),
    fun ρ hle => (hlife ρ).trans (hi.fresh ρ hle), hi.awaited, hi.about,
    fun y hy => by rw [hlife]; exact hi.affairs y hy,
    fun z hz ρ hρ => by rw [hlife]; exact hi.stakes z hz ρ hρ⟩

/-- A call returns what was sent to it. -/
theorem return_ (hi : InHand replies ({x} + s) a log) (hx : x.reply? = some ρ) {r : RunResult}
    (hsent : replies[ρ]? = some (.sent r)) :
    InHand (replies.set ρ .closed) s a (log ++ [.returned x.task ρ r]) := by
  have hmem : x ∈ {x} + s := by simp
  have hlt := hi.lt_of_stake hmem hx
  have hother {ρ' : Nat} (hne : ρ ≠ ρ') :
      lifeOf (log ++ [.returned x.task ρ r]) ρ' = lifeOf log ρ' :=
    lifeOf_concat_ne log fun heq => hne (Option.some.inj heq)
  obtain ⟨job, p, hlife, ⟨hopen, -⟩ | ⟨r', hr', rfl⟩⟩ := hi.stakes x hmem ρ hx
  · cases hopen.symm.trans hsent
  obtain rfl := Reply.sent.inj (Option.some.inj (hsent.symm.trans hr'))
  have hclosed := hi.close hx
  -- The affair is over, and nobody else awaits the reply.
  have habout : ∀ y ∈ a, ρ ≠ y.reply := by
    rintro y hy rfl
    obtain ⟨t, -, hopen | hclosed⟩ := hi.affairs y hy
    · cases hopen.symm.trans hsent
    · cases hclosed.symm.trans hsent
  refine ⟨.concat hi.lawful fun ρ' hρ' => ?_, fun ρ' hle => ?_, hclosed.awaited, hclosed.about,
    fun y hy => ?_, fun z hz ρ' hρ' => ?_⟩
  · cases hρ'
    exact ⟨x.isIdle, job, hlife⟩
  · rw [hother (by rw [List.length_set] at hle; omega)]
    exact hclosed.fresh ρ' hle
  · rw [hother (habout y hy)]
    exact hclosed.affairs y hy
  · rw [hother fun heq => hi.not_awaited hx z hz (heq ▸ hρ')]
    exact hclosed.stakes z hz ρ' hρ'

/-- A task makes a request or sends an errand. -/
theorem open_ (hi : InHand replies s a log) {d : Note} {p : Life.Phase} (t : Nat) (idle : Bool)
    (job : Job) (hx : x.reply? = some replies.length) (htask : x.task = t) (hidle : x.isIdle = idle)
    (hd : d.reply? = some replies.length) (hallowed : d.Allowed none)
    (hafter : d.after none = some ⟨t, idle, job, p⟩) :
    InHand (replies ++ [.open_ t]) ({x} + s) ({⟨replies.length, idle, job, p⟩} + a)
      (log ++ [d]) := by
  have hfresh := hi.fresh replies.length le_rfl
  have hlife : lifeOf (log ++ [d]) replies.length = some ⟨t, idle, job, p⟩ := by
    rw [lifeOf_concat_self log hd, hfresh, hafter]
  have hother {ρ : Nat} (hne : replies.length ≠ ρ) : lifeOf (log ++ [d]) ρ = lifeOf log ρ :=
    lifeOf_concat_ne log fun heq => hne (Option.some.inj (hd.symm.trans heq))
  have hnew : (replies ++ [Reply.open_ t])[replies.length]? = some (.open_ t) := by simp
  have hold {ρ : Nat} (hlt : ρ < replies.length) :
      (replies ++ [Reply.open_ t])[ρ]? = replies[ρ]? := List.getElem?_append_left hlt
  refine ⟨.concat hi.lawful fun ρ hρ => ?_, fun ρ hle => ?_, ?_, ?_, fun y hy => ?_,
    fun z hz ρ hρ => ?_⟩
  · obtain rfl := Option.some.inj (hd.symm.trans hρ)
    rwa [hfresh]
  · rw [List.length_append, List.length_singleton] at hle
    rw [hother (by omega)]
    exact hi.fresh ρ (by omega)
  · rw [Multiset.singleton_add, Stake.replies, Multiset.filterMap_cons_some _ _ _ hx,
      Multiset.nodup_cons]
    refine ⟨fun hmem => ?_, hi.awaited⟩
    obtain ⟨z, hz, hzρ⟩ := (Multiset.mem_filterMap _ _).1 hmem
    exact absurd (hi.lt_of_stake hz hzρ) (Nat.lt_irrefl _)
  · rw [Multiset.singleton_add, Multiset.map_cons, Multiset.nodup_cons]
    refine ⟨fun hmem => ?_, hi.about⟩
    obtain ⟨z, hz, hzρ⟩ := Multiset.mem_map.1 hmem
    exact absurd (hzρ ▸ hi.lt_of_affair hz) (Nat.lt_irrefl _)
  · rcases Multiset.mem_add.1 hy with hy | hy
    · rw [Multiset.mem_singleton.1 hy]
      exact ⟨t, hlife, .inl hnew⟩
    · have hlt := hi.lt_of_affair hy
      rw [hother (Nat.ne_of_gt hlt), hold hlt]
      exact hi.affairs y hy
  · rcases Multiset.mem_add.1 hz with hz | hz
    · obtain rfl := Multiset.mem_singleton.1 hz
      obtain rfl := Option.some.inj (hx.symm.trans hρ)
      refine ⟨job, p, ?_, .inl ⟨htask ▸ hnew, _,
        Multiset.mem_add.2 (.inl (Multiset.mem_singleton_self _)), rfl⟩⟩
      rw [hlife, htask, hidle]
    · have hlt := hi.lt_of_stake hz hρ
      rw [hother (Nat.ne_of_gt hlt), hold hlt]
      obtain ⟨job', p', hl, hreply⟩ := hi.stakes z hz ρ hρ
      refine ⟨job', p', hl, hreply.imp_left fun hopen => ⟨hopen.1, ?_⟩⟩
      exact hopen.2.imp fun u hu => ⟨Multiset.mem_add.2 (.inr hu.1), hu.2⟩

/-- An affair goes on. -/
theorem goes {d : Note} {p : Life.Phase} (hi : InHand replies s ({y} + a) log) (hy : y.Goes d p) :
    InHand replies s ({{ y with phase := p }} + a) (log ++ [d]) := by
  have hmem : y ∈ {y} + a := by simp
  obtain ⟨t, hlife, hreply⟩ := hi.affairs y hmem
  have hd : d.reply? = some y.reply := by cases hy <;> rfl
  have hnow : lifeOf (log ++ [d]) y.reply = some ⟨t, y.idle, y.job, p⟩ := by
    rw [lifeOf_concat_self log hd, hlife]
    cases hy <;> rfl
  have hother {ρ : Nat} (hne : y.reply ≠ ρ) : lifeOf (log ++ [d]) ρ = lifeOf log ρ :=
    lifeOf_concat_ne log fun heq => hne (Option.some.inj (hd.symm.trans heq))
  refine ⟨.concat hi.lawful fun ρ hρ => ?_, fun ρ hle => ?_, hi.awaited, ?_, fun z hz => ?_,
    fun z hz ρ hρ => ?_⟩
  · obtain rfl := Option.some.inj (hd.symm.trans hρ)
    rw [hlife]
    cases hy with
    | took q => exact ⟨t, rfl⟩
    | began ρ idle job => exact ⟨t, idle, rfl⟩
    | refused ρ job => exact ⟨t, job, rfl⟩
    | ended ρ idle job r hr => exact ⟨hr, t, idle, job, .inl rfl⟩
    | failed ρ job f => exact ⟨fun h => (by cases h), t, true, job, .inr ⟨rfl, rfl, f, rfl⟩⟩
  · rw [hother fun heq => absurd (hi.lt_of_affair hmem) (by omega)]
    exact hi.fresh ρ hle
  · have habout := hi.about
    rwa [Multiset.singleton_add, Multiset.map_cons] at habout ⊢
  · rcases Multiset.mem_add.1 hz with hz | hz
    · rw [Multiset.mem_singleton.1 hz]
      exact ⟨t, hnow, hreply⟩
    · rw [hother fun heq => hi.not_about z hz heq.symm]
      exact hi.affairs z (Multiset.mem_add.2 (.inr hz))
  · obtain ⟨job, p', hl, hopen⟩ := hi.stakes z hz ρ hρ
    by_cases heq : y.reply = ρ
    · subst heq
      obtain ⟨rfl, hidle, -⟩ : t = z.task ∧ y.idle = z.isIdle ∧ y.job = job ∧ y.phase = p' := by
        simpa using hlife.symm.trans hl
      rcases hopen with ⟨hopen, -⟩ | ⟨r, hsent, -⟩
      · exact ⟨y.job, p, hidle ▸ hnow, .inl ⟨hopen, _,
          Multiset.mem_add.2 (.inl (Multiset.mem_singleton_self _)), rfl⟩⟩
      · rcases hreply with hreply | hreply <;> cases hreply.symm.trans hsent
    · rw [hother heq]
      refine ⟨job, p', hl, hopen.imp_left fun hopen => ⟨hopen.1, ?_⟩⟩
      obtain ⟨u, hu, hρ⟩ := hopen.2
      rcases Multiset.mem_add.1 hu with hu | hu
      · rw [Multiset.mem_singleton.1 hu] at hρ
        exact absurd hρ heq
      · exact ⟨u, Multiset.mem_add.2 (.inr hu), hρ⟩

/-- An affair that is over is answered. -/
theorem answer (hi : InHand replies s ({y} + a) log) {r : RunResult} (hy : y.phase = .settled r) :
    InHand (Reply.answered replies y.reply r) s a log := by
  have hmem : y ∈ {y} + a := by simp
  obtain ⟨t, hlife, hreply⟩ := hi.affairs y hmem
  have hlt := hi.lt_of_affair hmem
  have hlength := Reply.length_answered replies y.reply r
  have hother {ρ : Nat} (hne : y.reply ≠ ρ) :
      (Reply.answered replies y.reply r)[ρ]? = replies[ρ]? := by
    unfold Reply.answered
    split
    · exact List.getElem?_set_ne hne
    · rfl
  have habout := hi.about
  rw [Multiset.singleton_add, Multiset.map_cons, Multiset.nodup_cons] at habout
  refine ⟨hi.lawful, fun ρ hle => hi.fresh ρ (hlength ▸ hle), hi.awaited, habout.2,
    fun z hz => ?_, fun z hz ρ hρ => ?_⟩
  · rw [hother fun heq => hi.not_about z hz heq.symm]
    exact hi.affairs z (Multiset.mem_add.2 (.inr hz))
  · obtain ⟨job, p, hl, hopen⟩ := hi.stakes z hz ρ hρ
    refine ⟨job, p, hl, ?_⟩
    by_cases heq : y.reply = ρ
    · subst heq
      rcases hopen with ⟨hopen, -⟩ | ⟨r', hsent, -⟩
      · refine .inr ⟨r, ?_, ?_⟩
        · simp only [Reply.answered, hopen]
          exact List.getElem?_set_self hlt
        · rw [← hy]
          exact (congrArg Life.phase (Option.some.inj (hlife.symm.trans hl))).symm
      · rcases hreply with hreply | hreply <;> cases hreply.symm.trans hsent
    · rw [hother heq]
      refine hopen.imp_left fun hopen => ⟨hopen.1, ?_⟩
      obtain ⟨u, hu, hρ⟩ := hopen.2
      rcases Multiset.mem_add.1 hu with hu | hu
      · rw [Multiset.mem_singleton.1 hu] at hρ
        exact absurd hρ heq
      · exact ⟨u, hu, hρ⟩

end InHand

end SharedPrompt
