import SharedPrompt.Proofs.ReaderTurns

/-!
# Reads that overlap share the keys

Reads from one console may be started, polled, stopped and dropped in any order while keys are
pressed. One read at a time takes keys, each key is taken once and in the order in which it was
pressed, and a read applies each key that it takes. An abort fires the token of the read that takes
keys at that moment, and no other token; so a read that ends without a line has been stopped by its
own caller, or aborted while it took keys.
-/

namespace SharedPrompt

namespace Host

/-- In a run from `start` the task `t` was started to read a line for the token `token`. -/
def Reads (start : Host) (past : List Event) (t : Nat) (commandLine : Bool) (token : Nat) : Prop :=
  ∃ before, before ++ [.start (.line commandLine token)] <+: past ∧ (start.run before).nextTask = t

/-- In a run from `start` somebody aborted the read in progress while the task `t` took keys. -/
def AbortedAt (start : Host) (past : List Event) (t : Nat) : Prop :=
  ∃ before e own, before ++ [e] <+: past ∧ (start.run before).keysOf? t = some own ∧
    (start.run before).aborts e = true

section
variable {start : Host} {past : List Event} {t : Nat}

theorem Reads.concat {commandLine : Bool} {token : Nat}
    (hr : start.Reads past t commandLine token) (e : Event) :
    start.Reads (past ++ [e]) t commandLine token := by
  obtain ⟨before, hle, ht⟩ := hr
  exact ⟨before, hle.trans (List.prefix_append _ _), ht⟩

theorem AbortedAt.concat (ha : start.AbortedAt past t) (e : Event) :
    start.AbortedAt (past ++ [e]) t := by
  obtain ⟨before, e', own, hle, hown, haborts⟩ := ha
  exact ⟨before, e', own, hle.trans (List.prefix_append _ _), hown, haborts⟩

end

/-! ## One event -/

section
variable {h h' : Host} {e : Event}

theorem tokens_stopReader (h : Host) : h.stopReader.tokens =
    match h.reader.active with
    | some own => (h.tokens.fire own).1
    | none => h.tokens := by
  unfold stopReader
  cases h.reader.active with
  | none => rfl
  | some own => exact h.tokens_fireToken own

theorem isFired_stopReader_iff (h : Host) (x : Nat) : h.stopReader.tokens.isFired x = true ↔
    h.tokens.isFired x = true ∨ ∃ own, h.reader.active = some own ∧
      h.tokens.isFired own = false ∧ x ∈ h.tokens.family own ∧ x < h.tokens.all.length := by
  rw [tokens_stopReader]
  cases h.reader.active with
  | none => simp
  | some own => simp [Tokens.isFired_fire]

theorem derivedOf_stopReader (h : Host) (c : Nat) :
    h.stopReader.tokens.derivedOf c = h.tokens.derivedOf c := by
  rw [tokens_stopReader]
  cases h.reader.active with
  | none => rfl
  | some own => exact h.tokens.derivedOf_fire own c

/-- The tokens of a read's step, where the read begins. -/
theorem tokens_begun (h : Host) : (if h.reader.gate.isLeased then h.stopReader else h).tokens =
    if h.reader.gate.isLeased then h.stopReader.tokens else h.tokens := by
  split <;> rfl

/-- In an event the token `x` fires with the family of one: a caller fires its token, or an abort that
of the read in progress. -/
def Fires (h : Host) (e : Event) (x : Nat) : Prop :=
  (∃ token, e = .fire token ∧ h.tokens.isFired token = false ∧ x ∈ h.tokens.family token) ∨
    h.aborts e = true ∧ ∃ own, h.reader.active = some own ∧ h.tokens.isFired own = false ∧
      x ∈ h.tokens.family own

/-- No other token that has been made fires. -/
theorem ReaderTurn.isFired (ht : h.ReaderTurn e h') {x : Nat} (hx : x < h.tokens.all.length) :
    h'.tokens.isFired x = true ↔ h.tokens.isFired x = true ∨ h.Fires e x := by
  have hlike {ts : Tokens} (hl : h.tokens.Like ts) (hfire : ∀ token, e ≠ .fire token)
      (haborts : h.aborts e = false) :
      ts.isFired x = true ↔ h.tokens.isFired x = true ∨ h.Fires e x := by
    rw [hl.fired, Fires, haborts]
    constructor
    · exact .inl
    · rintro (hfired | ⟨token, he, -⟩ | ⟨hfalse, -⟩)
      · exact hfired
      · exact absurd he (hfire token)
      · cases hfalse
  have hstop (haborts : h.aborts e = true) (hfire : ∀ token, e ≠ .fire token) :
      h.stopReader.tokens.isFired x = true ↔ h.tokens.isFired x = true ∨ h.Fires e x := by
    rw [isFired_stopReader_iff]
    constructor
    · rintro (hfired | ⟨own, hactive, hown, hmem, -⟩)
      · exact .inl hfired
      · exact .inr (.inr ⟨haborts, own, hactive, hown, hmem⟩)
    · rintro (hfired | ⟨token, he, -⟩ | ⟨-, own, hactive, hown, hmem⟩)
      · exact .inl hfired
      · exact absurd he (hfire token)
      · exact .inr ⟨own, hactive, hown, hmem, hx⟩
  cases ht with
  | line t bias c k r he hread hs hturn htokens hactive hself hothers =>
    subst he
    have hfire : ∀ token, Event.poll t bias ≠ .fire token := fun _ hc => by cases hc
    have hplain (hstart : ∀ commandLine token, c ≠ .start commandLine token) :
        h.aborts (.poll t bias) = false := by
      rw [aborts, hread]
      cases c with
      | start commandLine token => exact absurd rfl (hstart commandLine token)
      | _ => rfl
    have hkeys {own : Nat} (hown : c.keys? = some own) :
        ∀ commandLine token, c ≠ .start commandLine token := by
      rintro commandLine token rfl
      cases hown
    rw [htokens]
    cases hturn with
    | refused hfired hk _ =>
      refine hlike ?_ hfire ?_
      · rw [hk]
        exact .refl _
      · rw [aborts, hread]
        simp only [hfired, Bool.not_true, Bool.false_and]
    | begun hfired hk _ =>
      rw [hk, tokens_begun]
      split
      next hleased =>
        refine hstop ?_ hfire
        rw [aborts, hread]
        simp only [hfired, hleased, Bool.not_false, Bool.true_and]
      next hleased =>
        refine hlike (.refl _) hfire ?_
        rw [aborts, hread]
        simp only [hleased, Bool.and_false]
    | waits hstart _ _ _ hl => exact hlike hl hfire (hplain hstart)
    | gaveUp hstart _ _ _ hl => exact hlike hl hfire (hplain hstart)
    | opens hown hk _ =>
      have hnot := hplain fun _ _ hc => by cases hc
      rw [hk, Tokens.isFired_derive, if_neg hx.ne]
      exact hlike (.refl _) hfire hnot
    | types hown _ _ hl => exact hlike hl hfire (hplain (hkeys hown))
    | stops hown _ _ hl => exact hlike hl hfire (hplain (hkeys hown))
    | accepts hown _ _ hl => exact hlike hl hfire (hplain (hkeys hown))
  | aborted t bias he htask htokens =>
    subst he
    rw [htokens]
    refine hstop ?_ fun _ hc => by cases hc
    rw [aborts, htask]
  | fired token he htokens =>
    subst he
    rw [htokens, Tokens.isFired_fire]
    constructor
    · rintro (hfired | ⟨hunfired, hmem, -⟩)
      · exact .inl hfired
      · exact .inr (.inl ⟨token, rfl, hunfired, hmem⟩)
    · rintro (hfired | ⟨token', he, hunfired, hmem⟩ | ⟨hfalse, -⟩)
      · exact .inl hfired
      · cases he
        exact .inr ⟨hunfired, hmem, hx⟩
      · cases hfalse
  | dropped t c he _ hl =>
    subst he
    exact hlike hl (fun _ hc => by cases hc) rfl
  | started commandLine token he htokens =>
    subst he
    rw [htokens]
    exact hlike (.refl _) (fun _ hc => by cases hc) rfl
  | quiet htokens _ _ haborts _ hfire =>
    rw [htokens]
    exact hlike (.refl _) hfire haborts

/-- A token is derived from another one when a read opens for that one's owner. -/
theorem ReaderTurn.derivedOf (ht : h.ReaderTurn e h') (c : Nat) :
    h'.tokens.derivedOf c = h.tokens.derivedOf c ∨
      h'.tokens.derivedOf c = h.tokens.derivedOf c ++ [h.tokens.all.length] ∧
        ∃ t commandLine, h.consoleOf? t = some (.opened commandLine c) := by
  cases ht with
  | line t bias r k p he hread hs hturn htokens hactive hself hothers =>
    rw [htokens]
    cases hturn with
    | refused _ hk _ => exact .inl (by rw [hk])
    | begun _ hk _ =>
      left
      rw [hk, tokens_begun]
      split
      · exact h.derivedOf_stopReader c
      · rfl
    | waits _ _ _ _ hl => exact .inl (hl.derived c)
    | gaveUp _ _ _ _ hl => exact .inl (hl.derived c)
    | @opens commandLine token own _ hown hk _ =>
      rw [hk, Tokens.derivedOf_derive]
      split
      next hnew =>
        obtain ⟨rfl, -⟩ := hnew
        exact .inr ⟨rfl, t, commandLine, by rw [Host.consoleOf?, hread]; rfl⟩
      next => exact .inl rfl
    | types _ _ _ hl => exact .inl (hl.derived c)
    | stops _ _ _ hl => exact .inl (hl.derived c)
    | accepts _ _ _ hl => exact .inl (hl.derived c)
  | aborted _ _ _ _ htokens =>
    left
    rw [htokens, h.derivedOf_stopReader]
  | fired token _ htokens =>
    left
    rw [htokens, Tokens.derivedOf_fire]
  | dropped _ _ _ _ hl => exact .inl (hl.derived c)
  | started _ _ _ htokens => exact .inl (by rw [htokens])
  | quiet htokens => exact .inl (by rw [htokens])

inductive ReadAfter (h : Host) (e : Event) (h' : Host) (t : Nat) (c' : ConsoleRead) : Prop where
  | goesOn (c : ConsoleRead) (hread : h.consoleOf? t = some c) (hkeys : c'.keys? = c.keys?)
      (hmode : c'.isCommandLine = c.isCommandLine)
      (hcaller : ∀ token ∈ c'.caller?, token ∈ c.caller?)
  | opens (commandLine : Bool) (token : Nat)
      (hread : h.consoleOf? t = some (.opened commandLine token))
      (hkeys : c' = .key (.start h.tokens.all.length) [] commandLine h.tokens.all.length)
      (htokens : h'.tokens = (h.tokens.derive token).2)
  | begins (commandLine : Bool) (token : Nat) (he : e = .start (.line commandLine token))
      (ht : t = h.nextTask) (hc : c' = .start commandLine token)

theorem ReaderTurn.readAfter (ht : h.ReaderTurn e h') {u : Nat} {c' : ConsoleRead}
    (hc' : h'.consoleOf? u = some c') : h.ReadAfter e h' u c' := by
  have hold {u : Nat} (hu : h'.consoleOf? u = h.consoleOf? u) (hc' : h'.consoleOf? u = some c') :
      h.ReadAfter e h' u c' := .goesOn c' (hu.symm.trans hc') rfl rfl fun _ => id
  cases ht with
  | line t bias c k r he hread hs hturn htokens hactive hself hothers =>
    by_cases hut : u = t
    · subst hut
      have hc : h.consoleOf? u = some c := by rw [Host.consoleOf?, hread]; rfl
      rw [hself] at hc'
      cases hturn with
      | refused => cases hc'
      | begun _ _ _ =>
        cases hc'
        exact .goesOn _ hc rfl rfl fun _ => id
      | waits _ hkeys hkeys' hgoes _ _ hr _ =>
        obtain rfl := Option.some.inj (hr.symm.trans hc')
        exact .goesOn c hc (hkeys'.trans hkeys.symm) hgoes.mode hgoes.caller
      | gaveUp => cases hc'
      | opens hown hk _ =>
        cases hc'
        subst hown
        exact .opens _ _ hc rfl (htokens.trans hk)
      | @types _ c'' own _ _ hkeys hkeys' hmode _ _ hr _ =>
        obtain rfl : c'' = c' := Option.some.inj (hr.symm.trans hc')
        refine .goesOn c hc (hkeys'.trans hkeys.symm) hmode fun token htoken => ?_
        cases c'' with
        | key => cases htoken
        | _ => cases hkeys'
      | stops => cases hc'
      | accepts => cases hc'
    · exact hold (hothers u hut) hc'
  | aborted _ _ _ _ _ _ hreads => exact hold (hreads u) hc'
  | fired _ _ _ _ hreads => exact hold (hreads u) hc'
  | dropped t c he hread _ _ hself hothers =>
    by_cases hut : u = t
    · subst hut
      cases hself.symm.trans hc'
    · exact hold (hothers u hut) hc'
  | started commandLine token he _ _ _ hself hothers =>
    by_cases hut : u = h.nextTask
    · subst hut
      exact .begins commandLine token he rfl (Option.some.inj (hself.symm.trans hc')).symm
    · exact hold (hothers u hut) hc'
  | quiet _ _ hreads => exact hold (hreads u) hc'

/-- What the reader names after an event takes keys then, if what it named before took keys. -/
theorem ReaderTurn.active (ht : h.ReaderTurn e h') {own : Nat}
    (hown : h'.reader.active = some own)
    (hnamed : ∀ own, h.reader.active = some own → ∃ t, h.keysOf? t = some own) :
    ∃ t, h'.keysOf? t = some own := by
  have hsame (hactive : h'.reader.active = h.reader.active)
      (hreads : ∀ u, h.keysOf? u = some own → h'.keysOf? u = some own) :
      ∃ t, h'.keysOf? t = some own :=
    (hnamed own (hactive.symm.trans hown)).imp hreads
  have heq {u : Nat} (hu : h'.consoleOf? u = h.consoleOf? u) (hkeys : h.keysOf? u = some own) :
      h'.keysOf? u = some own := by rwa [Host.keysOf?, hu]
  cases ht with
  | line t bias c k r he hread hs hturn htokens hactive hself hothers =>
    have hc : h.consoleOf? t = some c := by rw [Host.consoleOf?, hread]; rfl
    have hbefore : h.keysOf? t = c.keys? := by rw [Host.keysOf?, hc]; rfl
    -- A read that does not take keys is not the one that was named.
    have hunopened (hk : k.reader.active = h.reader.active) (hkeys : c.keys? = none) :
        ∃ t, h'.keysOf? t = some own := by
      refine hsame (hactive.trans hk) fun u hu => heq (hothers u ?_) hu
      rintro rfl
      rw [hbefore, hkeys] at hu
      cases hu
    cases hturn with
    | refused _ _ hk => exact hunopened hk rfl
    | begun _ _ hk => exact hunopened hk rfl
    | waits _ hkeys _ _ _ hk => exact hunopened hk hkeys
    | gaveUp _ hkeys _ _ _ hk => exact hunopened hk hkeys
    | opens _ _ hk =>
      obtain rfl := Option.some.inj (hk.symm.trans (hactive.symm.trans hown))
      exact ⟨t, by rw [Host.keysOf?, hself]; rfl⟩
    | @types _ c' own' _ _ hkeys hkeys' _ _ hk hr =>
      refine hsame (hactive.trans hk) fun u hu => ?_
      by_cases hut : u = t
      · subst hut
        rw [Host.keysOf?, hself, hr, Option.bind_some, hkeys', ← hkeys, ← hbefore, hu]
      · exact heq (hothers u hut) hu
    | stops _ _ _ _ hk => cases hk.symm.trans (hactive.symm.trans hown)
    | accepts _ _ _ _ hk => cases hk.symm.trans (hactive.symm.trans hown)
  | aborted _ _ _ _ _ hactive hreads => exact hsame hactive fun u => heq (hreads u)
  | fired _ _ _ hactive hreads => exact hsame hactive fun u => heq (hreads u)
  | dropped t c he hread _ hactive hself hothers =>
    split at hactive
    · cases hactive.symm.trans hown
    next hkeys =>
      refine hsame hactive fun u hu => heq (hothers u ?_) hu
      rintro rfl
      rw [Host.keysOf?, hread, Option.bind_some] at hu
      rw [hu] at hkeys
      exact hkeys rfl
  | started commandLine token he _ hactive hnew hself hothers =>
    refine hsame hactive fun u hu => heq (hothers u ?_) hu
    rintro rfl
    rw [Host.keysOf?, hnew] at hu
    cases hu
  | quiet _ hactive hreads => exact hsame hactive fun u => heq (hreads u)

end

/-! ## Whole runs -/

structure ReaderKept (start : Host) (n : Nat) (past : List Event) : Prop where
  first : n ≤ (start.run past).tokens.all.length
  parted : (start.run past).tokens.Parted
  derived : ∀ c, ∀ d ∈ (start.run past).tokens.derivedOf c, c < n ∧ n ≤ d
  fired : ∀ c < n, (start.run past).tokens.isFired c = true → .fire c ∈ past
  named : ∀ own, (start.run past).reader.active = some own →
    ∃ t, (start.run past).keysOf? t = some own
  reads : ∀ t c, (start.run past).consoleOf? t = some c → ∃ token < n,
    start.Reads past t c.isCommandLine token ∧ (∀ token' ∈ c.caller?, token' = token) ∧
      ∀ own, c.keys? = some own → n ≤ own ∧
        (∀ c', own ∈ (start.run past).tokens.derivedOf c' → c' = token) ∧
          ((start.run past).tokens.isFired own = true → .fire token ∈ past ∨ start.AbortedAt past t)

namespace ReaderKept

variable {start : Host} {n : Nat} {past : List Event}

/-- A read is asked for by a caller, whose token it has until it takes keys. -/
theorem caller (hr : start.ReaderKept n past) {t token : Nat} {c : ConsoleRead}
    (hc : (start.run past).consoleOf? t = some c) (hcaller : token ∈ c.caller?) :
    token < n ∧ start.Reads past t c.isCommandLine token := by
  obtain ⟨token', hlt, hreads, hcallers, -⟩ := hr.reads t c hc
  obtain rfl := hcallers token hcaller
  exact ⟨hlt, hreads⟩

/-- The token of a read that takes keys is none of the callers' tokens. -/
theorem le_own (hr : start.ReaderKept n past) {t own : Nat}
    (hown : (start.run past).keysOf? t = some own) : n ≤ own := by
  obtain ⟨c, hc, hkeys⟩ := Option.bind_eq_some_iff.1 hown
  obtain ⟨_, _, _, _, howns⟩ := hr.reads t c hc
  exact (howns own hkeys).1

/-- Firing the token of the read in progress fires that one alone. -/
theorem family_own (hr : start.ReaderKept n past) {t own : Nat}
    (hown : (start.run past).keysOf? t = some own) :
    (start.run past).tokens.family own = [own] := by
  have hnone : (start.run past).tokens.derivedOf own = [] := by
    rw [List.eq_nil_iff_forall_not_mem]
    intro d hd
    exact absurd (hr.derived own d hd).1 (hr.le_own hown).not_gt
  rw [Tokens.family_eq, hnone]
  rfl

/-- A caller's token fires with no other token. -/
theorem eq_of_mem_family (hr : start.ReaderKept n past) {c token : Nat} (hc : c < n)
    (hmem : c ∈ (start.run past).tokens.family token) : c = token := by
  rw [Tokens.family_eq, List.mem_append, List.mem_reverse, List.mem_singleton] at hmem
  rcases hmem with hmem | heq
  · exact absurd (hr.derived token c hmem).2 hc.not_ge
  · exact heq

section
variable {e : Event} (hr : start.ReaderKept n past) (hk : start.WellKept)
  (hkeys : (start.run past).KeyboardKept) (he : e.atReader n = true)
  (hturn : (start.run past).ReaderTurn e ((start.run past).apply e))
include hr hturn

theorem derived_concat (c : Nat) {d : Nat}
    (hd : d ∈ ((start.run past).apply e).tokens.derivedOf c) :
    d ∈ (start.run past).tokens.derivedOf c ∨ d = (start.run past).tokens.all.length ∧ c < n := by
  rcases hturn.derivedOf c with hsame | ⟨hnew, t, commandLine, hread⟩
  · rw [hsame] at hd
    exact .inl hd
  · rw [hnew, List.mem_append, List.mem_singleton] at hd
    exact hd.imp id fun heq => ⟨heq, (hr.caller hread rfl).1⟩

theorem fired_concat {c : Nat} (hc : c < n)
    (hfired : ((start.run past).apply e).tokens.isFired c = true) : .fire c ∈ past ++ [e] := by
  rcases (hturn.isFired (hc.trans_le hr.first)).1 hfired with hold | hfires
  · exact List.mem_append_left _ (hr.fired c hc hold)
  · rcases hfires with ⟨token, rfl, -, hmem⟩ | ⟨-, own, hactive, -, hmem⟩
    · obtain rfl := hr.eq_of_mem_family hc hmem
      exact List.mem_append_right _ (List.mem_singleton_self _)
    · obtain ⟨t, hown⟩ := hr.named own hactive
      obtain rfl := hr.eq_of_mem_family hc hmem
      exact absurd hc (hr.le_own hown).not_gt

include hkeys he

/-- Whoever takes keys is stopped by its own caller, or by an abort at a time when it takes them. -/
theorem reason_concat {t own token : Nat} {c : ConsoleRead}
    (hc : (start.run past).consoleOf? t = some c) (hown : c.keys? = some own)
    (hderived : ∀ c', own ∈ (start.run past).tokens.derivedOf c' → c' = token)
    (hreason : (start.run past).tokens.isFired own = true →
      .fire token ∈ past ∨ start.AbortedAt past t)
    (hfired : ((start.run past).apply e).tokens.isFired own = true) :
    .fire token ∈ past ++ [e] ∨ start.AbortedAt (past ++ [e]) t := by
  have hkeysOf : (start.run past).keysOf? t = some own := by
    rw [keysOf?, hc, Option.bind_some, hown]
  have hle := hr.le_own hkeysOf
  rcases (hturn.isFired (hkeys.keys t own hkeysOf).2).1 hfired with hold | hfires
  · exact (hreason hold).imp (List.mem_append_left _) fun ha => ha.concat e
  · rcases hfires with ⟨token', rfl, -, hmem⟩ | ⟨haborts, own', hactive, -, hmem⟩
    · left
      rw [Tokens.family_eq, List.mem_append, List.mem_reverse, List.mem_singleton] at hmem
      rcases hmem with hmem | rfl
      · obtain rfl := hderived token' hmem
        exact List.mem_append_right _ (List.mem_singleton_self _)
      · exact absurd (of_decide_eq_true he) hle.not_gt
    · right
      obtain ⟨u, hu⟩ := hr.named own' hactive
      rw [hr.family_own hu, List.mem_singleton] at hmem
      exact ⟨past, e, own, List.prefix_rfl, hkeysOf, haborts⟩

theorem reads_concat {t : Nat} {c' : ConsoleRead}
    (hc' : ((start.run past).apply e).consoleOf? t = some c') : ∃ token < n,
      start.Reads (past ++ [e]) t c'.isCommandLine token ∧ (∀ token' ∈ c'.caller?, token' = token) ∧
        ∀ own, c'.keys? = some own → n ≤ own ∧
          (∀ c, own ∈ ((start.run past).apply e).tokens.derivedOf c → c = token) ∧
            (((start.run past).apply e).tokens.isFired own = true →
              .fire token ∈ past ++ [e] ∨ start.AbortedAt (past ++ [e]) t) := by
  cases hturn.readAfter hc' with
  | goesOn c hread hkeys' hmode hcaller =>
    obtain ⟨token, hlt, hreads, hcallers, howns⟩ := hr.reads t c hread
    refine ⟨token, hlt, ?_, fun token' ht' => hcallers token' (hcaller token' ht'),
      fun own hown => ?_⟩
    · rw [hmode]
      exact hreads.concat e
    · rw [hkeys'] at hown
      obtain ⟨hle, hderived, hreason⟩ := howns own hown
      refine ⟨hle, fun c' hmem => ?_, hr.reason_concat hkeys he hturn hread hown hderived hreason⟩
      have hlength : own < (start.run past).tokens.all.length :=
        (hkeys.keys t own (by rw [keysOf?, hread, Option.bind_some, hown])).2
      rcases hr.derived_concat hturn c' hmem with hold | ⟨heq, -⟩
      · exact hderived c' hold
      · exact absurd heq hlength.ne
  | opens commandLine token hread hc htokens =>
    obtain ⟨hlt, hreads⟩ := hr.caller hread rfl
    subst hc
    refine ⟨token, hlt, hreads.concat e, (fun _ hnone => by cases hnone), fun own hown => ?_⟩
    obtain rfl : (start.run past).tokens.all.length = own := Option.some.inj hown
    refine ⟨hr.first, fun c hmem => ?_, fun hfired => .inl ?_⟩
    · rw [htokens, Tokens.derivedOf_derive] at hmem
      split at hmem
      next hsame => exact hsame.1.symm
      next => exact absurd (hr.parted.lt c _ hmem) (lt_irrefl _)
    · rw [htokens, Tokens.isFired_derive, if_pos rfl] at hfired
      exact List.mem_append_left _ (hr.fired token hlt hfired)
  | begins commandLine token hstart ht hc =>
    subst hstart hc
    refine ⟨token, of_decide_eq_true he, ⟨past, List.prefix_rfl, ht.symm⟩, fun token' ht' => ?_,
      fun own hown => by cases hown⟩
    exact (Option.some.inj ht').symm

include hk

theorem concat : start.ReaderKept n (past ++ [e]) := by
  have hsteps := steps_tokens_apply (hk.run past).numbered e
  constructor
  · rw [run_concat]
    exact hr.first.trans hsteps.length_le
  · rw [run_concat]
    exact hr.parted.steps hsteps
  · intro c d hd
    rw [run_concat] at hd
    rcases hr.derived_concat hturn c hd with hold | ⟨rfl, hlt⟩
    · exact hr.derived c d hold
    · exact ⟨hlt, hr.first⟩
  · intro c hc hfired
    rw [run_concat] at hfired
    exact hr.fired_concat hturn hc hfired
  · intro own hactive
    rw [run_concat] at hactive ⊢
    exact hturn.active hactive hr.named
  · intro t c hc
    rw [run_concat] at hc ⊢
    exact hr.reads_concat hkeys he hturn hc

end

theorem isFired_callersTokens (n c : Nat) : (callersTokens n).isFired c = false := by
  rw [Tokens.isFired_eq, Tokens.get, callersTokens, List.getElem?_replicate]
  split <;> rfl

theorem reading (n : Nat) (cursor : Cursor) : (reading n cursor).ReaderKept n [] where
  first := (List.length_replicate (n := n) (a := Token.fresh)).ge
  parted := parted_callersTokens n
  derived c d hd := by
    change d ∈ (callersTokens n).derivedOf c at hd
    rw [derivedOf_callersTokens] at hd
    cases hd
  fired c _ hfired := by
    change (callersTokens n).isFired c = true at hfired
    rw [isFired_callersTokens] at hfired
    cases hfired
  named own hactive := by cases hactive
  reads t c hc := by cases hc

end ReaderKept

structure KeysShared (start : Host) (past : List Event) : Prop where
  /-- The keys that were taken, each by one read, and those to come are those that were pressed, in
  that order. -/
  order : (start.taken past).map (fun p => KeyEvent.press p.2) ++ (start.run past).console.keys =
    (pressed past).map .press
  /-- A read that takes keys holds the ticket of the gate, and the reader names it. -/
  holds : ∀ t own, (start.run past).keysOf? t = some own → (start.run past).readerTickets t = 1 ∧
    (start.run past).reader.gate.size = 0 ∧ (start.run past).reader.active = some own
  /-- No two reads hold the ticket. -/
  sole : ∀ t u, (start.run past).readerTickets t = 1 → (start.run past).readerTickets u = 1 → t = u
  /-- A read in progress has applied all keys that it has taken. -/
  typed : ∀ t c, (start.run past).consoleOf? t = some c → c.Typed (start.takenBy past t)
  /-- A key is taken by the read that takes keys, which applies it at once: it ends with its line, or
  the line is edited. -/
  applied : ∀ e t p, (start.run past).takes? e = some (t, p) → ∃ commandLine token own,
    start.Reads past t commandLine token ∧ (start.run past).keysOf? t = some own ∧
      let line := SharedPrompt.typed commandLine (start.takenBy past t)
      if p.isEnter then (start.run past).ending? e = some (t, .line (.ok (String.ofList line)))
      else ∃ c, (start.run (past ++ [e])).consoleOf? t = some c ∧ c.keys? = some own ∧
        c.text = p.edit commandLine line
  /-- An abort fires the token of the read that takes keys, and no other. -/
  aborts : ∀ e, (start.run past).aborts e = true → ∀ x < (start.run past).tokens.all.length,
    (start.run (past ++ [e])).tokens.isFired x = true ↔
      (start.run past).tokens.isFired x = true ∨ ∃ t, (start.run past).keysOf? t = some x
  /-- A read ends with its line at Enter. Otherwise it takes no key in the end, and its caller has
  fired its token, or somebody aborted while it took keys. -/
  ended : ∀ e t a, (start.run past).ending? e = some (t, .line a) → ∃ commandLine token,
    start.Reads past t commandLine token ∧
      ((∃ p, (start.run past).takes? e = some (t, p) ∧ p.isEnter = true ∧
          a = .ok (String.ofList (SharedPrompt.typed commandLine (start.takenBy past t)))) ∨
        (start.run past).takes? e = none ∧ (a = .ok "" ∨ a = .error .cancelled) ∧
          (.fire token ∈ past ∨ start.AbortedAt past t))

section
variable {n : Nat} {cursor : Cursor} {past : List Event}

theorem keyboardKept_reading (n : Nat) (cursor : Cursor) : (reading n cursor).KeyboardKept :=
  .fresh rfl rfl

theorem atReader_reading (cursor : Cursor) (hpast : ∀ e ∈ past, e.atReader n = true) :
    ((reading n cursor).run past).AtReader :=
  (AtReader.reading n cursor).run (wellKept_reading n cursor) hpast

/-- What an event does at the reader in the course of a run. -/
theorem turn_reading (hpast : ∀ e ∈ past, e.atReader n = true) {e : Event}
    (he : e.atReader n = true) :
    ((reading n cursor).run past).ReaderTurn e (((reading n cursor).run past).apply e) :=
  (atReader_reading cursor hpast).turn
    ((keyboardKept_reading n cursor).run (wellKept_reading n cursor) past)
    ((wellKept_reading n cursor).run past).numbered he

theorem readerKept_reading (cursor : Cursor) (hpast : ∀ e ∈ past, e.atReader n = true) :
    (reading n cursor).ReaderKept n past := by
  induction past using List.reverseRecOn with
  | nil => exact .reading n cursor
  | append_singleton past e ih =>
    have hbefore e' (he' : e' ∈ past) := hpast e' (List.mem_append_left _ he')
    have he := hpast e (List.mem_append_right _ (List.mem_singleton_self e))
    exact (ih hbefore).concat (wellKept_reading n cursor)
      ((keyboardKept_reading n cursor).run (wellKept_reading n cursor) past) he
      (turn_reading hbefore he)

theorem takes?_of_keys_none {h : Host} {t : Nat} {bias : List Bool} {c : ConsoleRead}
    (hc : h.consoleOf? t = some c) (hkeys : c.keys? = none) : h.takes? (.poll t bias) = none := by
  rw [takes?_poll hc]
  cases c with
  | key => cases hkeys
  | _ => rfl

theorem applied_reading (hpast : ∀ e ∈ past, e.atReader n = true) {e : Event} {t : Nat}
    {p : KeyPress} (htakes : ((reading n cursor).run past).takes? e = some (t, p)) :
    ∃ commandLine token own, (reading n cursor).Reads past t commandLine token ∧
      ((reading n cursor).run past).keysOf? t = some own ∧
        let line := typed commandLine ((reading n cursor).takenBy past t)
        if p.isEnter then
          ((reading n cursor).run past).ending? e = some (t, .line (.ok (String.ofList line)))
        else ∃ c, ((reading n cursor).run (past ++ [e])).consoleOf? t = some c ∧
          c.keys? = some own ∧ c.text = p.edit commandLine line := by
  have hk := wellKept_reading n cursor
  have he : e.atReader n = true := by
    cases e with
    | poll u bias => rfl
    | _ => cases htakes
  cases (atReader_reading cursor hpast).stroke (hk.run past).numbered he with
  | still hnone => cases hnone.symm.trans htakes
  | pressed q hq =>
    subst hq
    cases htakes
  | struck u bias q rest call line commandLine own hpoll hread hstruck _ _ _ hends hgoes =>
    obtain ⟨rfl, rfl⟩ := Prod.mk.inj (Option.some.inj (hstruck.symm.trans htakes))
    have hline : line = typed commandLine ((reading n cursor).takenBy past u) :=
      (((AtReader.reading n cursor).typed hk rfl hpast).1 u _ hread).text
    obtain ⟨token, -, hreads, -⟩ := (readerKept_reading cursor hpast).reads u _ hread
    refine ⟨commandLine, token, own, hreads, by rw [keysOf?, hread]; rfl, ?_⟩
    cases henter : q.isEnter with
    | true =>
      rw [← hline]
      exact (hends henter).1
    | false =>
      rw [← hline, run_concat]
      exact ⟨_, hgoes henter, rfl, rfl⟩

theorem ended_reading (hpast : ∀ e ∈ past, e.atReader n = true) {e : Event} {t : Nat}
    {a : ConsoleRead.Answer} (hends : ((reading n cursor).run past).ending? e = some (t, .line a)) :
    ∃ commandLine token, (reading n cursor).Reads past t commandLine token ∧
      ((∃ p, ((reading n cursor).run past).takes? e = some (t, p) ∧ p.isEnter = true ∧
          a = .ok (String.ofList (typed commandLine ((reading n cursor).takenBy past t)))) ∨
        ((reading n cursor).run past).takes? e = none ∧ (a = .ok "" ∨ a = .error .cancelled) ∧
          (.fire token ∈ past ∨ (reading n cursor).AbortedAt past t)) := by
  have hk := wellKept_reading n cursor
  have hr := readerKept_reading cursor hpast
  obtain ⟨bias, -, rfl, -, -⟩ := ending?_eq_some hends
  cases turn_reading hpast (e := .poll t bias) rfl with
  | line u bias' c k r hpoll hread hs hturn =>
    cases hpoll
    obtain ⟨-, rfl⟩ := ending?_line hread hs hends
    have hc : ((reading n cursor).run past).consoleOf? t = some c := by
      rw [Host.consoleOf?, hread]
      rfl
    have htyped := ((AtReader.reading n cursor).typed hk rfl hpast).1 t c hc
    obtain ⟨token, hlt, hreads, hcallers, howns⟩ := hr.reads t c hc
    refine ⟨c.isCommandLine, token, hreads, ?_⟩
    cases hturn with
    | refused hfired =>
      obtain rfl := hcallers _ rfl
      exact .inr ⟨takes?_of_keys_none hc rfl, .inr rfl, .inl (hr.fired _ hlt hfired)⟩
    | waits _ _ _ _ _ _ _ hdone => exact absurd rfl (hdone a)
    | gaveUp _ hkeys hcaller hfired =>
      obtain rfl := hcallers _ hcaller
      exact .inr ⟨takes?_of_keys_none hc hkeys, .inl rfl, .inl (hr.fired _ hlt hfired)⟩
    | types _ _ _ _ _ _ hdone => exact absurd rfl (hdone a)
    | stops hkeys htakes hfired =>
      refine .inr ⟨?_, .inl rfl, (howns _ hkeys).2.2 hfired⟩
      rw [takes?_poll hc, htakes]
      rfl
    | @accepts _ _ p _ _ htakes henter =>
      refine .inl ⟨p, ?_, henter, by rw [htyped.text]⟩
      rw [takes?_poll hc, htakes]
      rfl
  | aborted u bias' hpoll htask =>
    cases hpoll
    rw [ending?, htask, Option.bind_some] at hends
    simp only [Task.step, AbortCall.step_start (atReader_reading cursor hpast).native] at hends
    cases hends
  | fired _ hpoll => cases hpoll
  | dropped _ _ hpoll => cases hpoll
  | started _ _ hpoll => cases hpoll
  | quiet _ _ _ _ hnot => exact absurd hends (hnot t a)

/-- Whatever reads of lines are started, polled, stopped by their callers, aborted and dropped at a
console while keys are pressed, they share the keys. -/
theorem overlapping_reads_share_keys (n : Nat) (cursor : Cursor) (past : List Event)
    (hpast : ∀ e ∈ past, e.atReader n = true) : (reading n cursor).KeysShared past := by
  have hk := wellKept_reading n cursor
  have hkeys := (keyboardKept_reading n cursor).run hk past
  have hr := readerKept_reading cursor hpast
  constructor
  · exact (AtReader.reading n cursor).taken_append_keys hk rfl hpast
  · intro t own hown
    have hone := readerTickets_of_keysOf hown
    exact ⟨hone, hkeys.taken t hone, (hkeys.keys t own hown).1⟩
  · exact hkeys.sole
  · exact ((AtReader.reading n cursor).typed hk rfl hpast).1
  · exact fun e t p => applied_reading hpast
  · intro e haborts x hx
    have he : e.atReader n = true := by
      cases e with
      | poll u bias => rfl
      | _ => cases haborts
    rw [run_concat, (turn_reading hpast he).isFired hx]
    constructor
    · rintro (hfired | ⟨token, rfl, -⟩ | ⟨-, own, hactive, -, hmem⟩)
      · exact .inl hfired
      · cases haborts
      · obtain ⟨t, hown⟩ := hr.named own hactive
        rw [hr.family_own hown, List.mem_singleton] at hmem
        exact .inr ⟨t, hmem ▸ hown⟩
    · rintro (hfired | ⟨t, hown⟩)
      · exact .inl hfired
      · by_cases hfired : ((reading n cursor).run past).tokens.isFired x = true
        · exact .inl hfired
        · refine .inr (.inr ⟨haborts, x, (hkeys.keys t x hown).1, by simpa using hfired, ?_⟩)
          rw [hr.family_own hown]
          exact List.mem_singleton_self x
  · exact fun e t a => ended_reading hpast

end

/-- A read has taken a key when another one begins, and another key is pressed. -/
def secondRead : List Event :=
  [.start (.line true 0), .key (.press ⟨.char 'a', false, false⟩)] ++
    List.replicate 5 (.poll 0 []) ++ [.start (.line true 1), .poll 1 [], .poll 1 [],
      .key (.press ⟨.char 'b', false, false⟩)]

/-- The first read has been aborted and leaves the second key alone, which goes to the second
read. -/
theorem overlapping_reads_share_keys_secondRead :
    let start := reading 2 {}
    (start.run secondRead).keysOf? 0 = some 2 ∧ (start.run secondRead).tokens.isFired 2 = true ∧
      start.results (secondRead ++ [.poll 0 [], .poll 0 []]) = [(0, .line (.ok ""))] ∧
      start.taken (secondRead ++ [.poll 0 [], .poll 0 []] ++ List.replicate 4 (.poll 1 [])) =
        [(0, ⟨.char 'a', false, false⟩), (1, ⟨.char 'b', false, false⟩)] ∧
      start.KeysShared secondRead :=
  ⟨rfl, rfl, rfl, rfl, overlapping_reads_share_keys 2 {} secondRead (by decide)⟩

end Host

end SharedPrompt
