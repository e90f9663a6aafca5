import SharedPrompt.Proofs.ReadsInTurn

/-!
# The stream of keys, cut into lines

Where reads come one after the other and nobody stops one, each read that ends has used up the keys
up to the next Enter, and its line is what these keys type. The keys after that Enter wait for the
next read, in the order in which they were pressed. A read that is polled comes to its Enter if that
has been pressed.
-/

namespace SharedPrompt

/-! ## The stream as the lines have it -/

/-- The keys of one line: some that are not Enter, and Enter. -/
def Closed (keys : List KeyPress) : Prop :=
  ∃ body enter, keys = body ++ [enter] ∧ enter.isEnter = true ∧ ∀ k ∈ body, k.isEnter = false

/-- Lines with their modes are cut off a stream one by one. -/
theorem linesOf_append {segments : List (List KeyPress)} {modes : List Bool}
    (hclosed : ∀ s ∈ segments, Closed s) (hlength : segments.length ≤ modes.length)
    (rest : List KeyPress) : linesOf modes (segments.flatten ++ rest) =
      (segments.zip modes).map (fun p => (p.1, String.ofList (typed p.2 p.1))) ++
        linesOf (modes.drop segments.length) rest := by
  induction segments generalizing modes with
  | nil => rfl
  | cons s segments ih =>
    cases modes with
    | nil => cases hlength
    | cons commandLine modes =>
      obtain ⟨body, enter, rfl, henter, hbody⟩ := hclosed s (List.mem_cons_self ..)
      have hcut : cut? ((body ++ [enter]) ++ (segments.flatten ++ rest)) =
          some (body ++ [enter], segments.flatten ++ rest) := by
        rw [List.append_assoc]
        exact cut?_append hbody henter _
      rw [List.flatten_cons, List.append_assoc, linesOf, hcut]
      dsimp only
      rw [ih (fun s hs => hclosed s (List.mem_cons_of_mem _ hs)) (Nat.le_of_succ_le_succ hlength)]
      rfl

namespace Host

def mode? : Event → Option Bool
  | .start (.line commandLine _) => some commandLine
  | _ => none

def modes (events : List Event) : List Bool := events.filterMap mode?

theorem modes_concat (past : List Event) (e : Event) :
    modes (past ++ [e]) = modes past ++ (mode? e).toList := by
  rw [modes, List.filterMap_append]
  cases he : mode? e <;> simp [modes, he]

/-! ## What a run has come to -/

structure LinesSoFar (start : Host) (past : List Event) (m : Nat) : Prop where
  modes : (modes past).length = (start.run past).nextTask
  order : (start.taken past).map (·.2) =
    (List.range m).flatMap (start.takenBy past) ++ start.takenBy past m
  closed : ∀ t < m, Closed (start.takenBy past t)
  results : start.results past = (List.range m).map fun t =>
    (t, .line (.ok (String.ofList (typed ((Host.modes past).getD t true) (start.takenBy past t)))))
  state : ((start.run past).NoRead ∧ (start.run past).nextTask = m) ∨
    ∃ c, (start.run past).OneRead m c ∧ (start.run past).nextTask = m + 1 ∧
      (Host.modes past)[m]? = some c.isCommandLine

namespace LinesSoFar

variable {start : Host} {past : List Event} {m : Nat} {e : Event}

/-- An event that ends no read, begins none and takes no key. -/
theorem quiet (hl : start.LinesSoFar past m) (htakes : (start.run past).takes? e = none)
    (hends : (start.run past).ending? e = none) (hmode : mode? e = none)
    (hnext : (start.run (past ++ [e])).nextTask = (start.run past).nextTask)
    (hstate : ((start.run (past ++ [e])).NoRead ∧ (start.run past).nextTask = m) ∨
      ∃ c, (start.run (past ++ [e])).OneRead m c ∧ (start.run past).nextTask = m + 1 ∧
        (Host.modes past)[m]? = some c.isCommandLine) : start.LinesSoFar (past ++ [e]) m := by
  have hmodes : Host.modes (past ++ [e]) = Host.modes past := by
    rw [modes_concat, hmode]
    exact List.append_nil _
  have htaken : start.taken (past ++ [e]) = start.taken past := by
    rw [taken, during_concat, htakes]
    exact List.append_nil _
  have hby : start.takenBy (past ++ [e]) = start.takenBy past :=
    funext fun t => takenBy_concat_of_none start htakes t
  have hresults : start.results (past ++ [e]) = start.results past := by
    rw [Host.results, during_concat, hends]
    exact List.append_nil _
  constructor
  · rw [hmodes, hnext, hl.modes]
  · rw [htaken, hby, hl.order]
  · rw [hby]
    exact hl.closed
  · rw [hresults, hby, hmodes, hl.results]
  · rw [hmodes, hnext]
    exact hstate

/-- A read begins where none is under way. -/
theorem started (hl : start.LinesSoFar past m) (hno : (start.run past).NoRead)
    (hnext : (start.run past).nextTask = m) (commandLine : Bool) (token : Nat) :
    start.LinesSoFar (past ++ [.start (.line commandLine token)]) m := by
  have hone := hno.start commandLine token
  rw [hnext] at hone
  have hmodes : Host.modes (past ++ [.start (.line commandLine token)]) =
      Host.modes past ++ [commandLine] := modes_concat past _
  have hlength : (Host.modes past).length = m := hl.modes.trans hnext
  have htaken : start.taken (past ++ [.start (.line commandLine token)]) = start.taken past := by
    rw [taken, during_concat]
    exact List.append_nil _
  have hby : start.takenBy (past ++ [.start (.line commandLine token)]) = start.takenBy past :=
    funext fun t => takenBy_concat_of_none start (e := .start (.line commandLine token)) rfl t
  have hafter : (start.run (past ++ [.start (.line commandLine token)])).nextTask = m + 1 := by
    rw [run_concat, ← hnext]
    exact ((start.run past).addTask (.line (.start commandLine token))).aside_wake
      (start.run past).nextTask |>.nextTask
  constructor
  · rw [hmodes, hafter, List.length_append, hlength]
    rfl
  · rw [htaken, hby, hl.order]
  · rw [hby]
    exact hl.closed
  · rw [Host.results, during_concat, ← Host.results, hby, hmodes, hl.results]
    refine (List.append_nil _).trans (List.map_congr_left fun t ht => ?_)
    have hlt := List.mem_range.1 ht
    rw [List.getD_eq_getElem?_getD, List.getD_eq_getElem?_getD,
      List.getElem?_append_left (by omega)]
  · right
    refine ⟨_, by rw [run_concat]; exact hone, hafter, ?_⟩
    rw [hmodes, List.getElem?_append_right (by omega), hlength, Nat.sub_self]
    rfl

section
variable {p : KeyPress} (htakes : (start.run past).takes? e = some (m, p))
include htakes

/-- The keys of the lines that have ended are not touched any more. -/
theorem flatMap_takenBy : (List.range m).flatMap (start.takenBy (past ++ [e])) =
    (List.range m).flatMap (start.takenBy past) := by
  refine List.flatMap_congr fun t ht => ?_
  rw [takenBy_concat_of_some start htakes, if_neg (List.mem_range.1 ht).ne', List.append_nil]

theorem takenBy_self : start.takenBy (past ++ [e]) m = start.takenBy past m ++ [p] := by
  rw [takenBy_concat_of_some start htakes, if_pos rfl]

theorem takenBy_ne {t : Nat} (ht : t ≠ m) :
    start.takenBy (past ++ [e]) t = start.takenBy past t := by
  rw [takenBy_concat_of_some start htakes, if_neg (Ne.symm ht), List.append_nil]

theorem order_concat (hl : start.LinesSoFar past m) : (start.taken (past ++ [e])).map (·.2) =
    (List.range m).flatMap (start.takenBy (past ++ [e])) ++ start.takenBy (past ++ [e]) m := by
  rw [flatMap_takenBy htakes, takenBy_self htakes, taken, during_concat, ← taken, htakes,
    List.map_append, hl.order, List.append_assoc]
  rfl

theorem results_eq (hl : start.LinesSoFar past m) (hmode : mode? e = none) :
    start.results past = (List.range m).map fun t => (t, .line (.ok (String.ofList
      (typed ((Host.modes (past ++ [e])).getD t true) (start.takenBy (past ++ [e]) t))))) := by
  rw [hl.results]
  refine List.map_congr_left fun t ht => ?_
  rw [takenBy_ne htakes (List.mem_range.1 ht).ne, modes_concat, hmode]
  simp

/-- The read that is under way takes a key that is not Enter. -/
theorem edited (hl : start.LinesSoFar past m) (hends : (start.run past).ending? e = none)
    (hmode : mode? e = none) {c : ConsoleRead}
    (hone : (start.run (past ++ [e])).OneRead m c)
    (hnext : (start.run (past ++ [e])).nextTask = (start.run past).nextTask)
    (hcount : (start.run past).nextTask = m + 1)
    (hc : (Host.modes past)[m]? = some c.isCommandLine) : start.LinesSoFar (past ++ [e]) m := by
  have hmodes : Host.modes (past ++ [e]) = Host.modes past := by
    rw [modes_concat, hmode]
    exact List.append_nil _
  constructor
  · rw [hmodes, hnext, hl.modes]
  · exact order_concat htakes hl
  · intro t ht
    rw [takenBy_ne htakes ht.ne]
    exact hl.closed t ht
  · rw [Host.results, during_concat, hends, ← Host.results]
    exact (List.append_nil _).trans (results_eq htakes hl hmode)
  · exact .inr ⟨c, hone, hnext.trans hcount, by rw [hmodes]; exact hc⟩

/-- It takes Enter, and ends. -/
theorem entered (hl : start.LinesSoFar past m) (henter : p.isEnter = true) {c : ConsoleRead}
    (htyped : c.Typed (start.takenBy past m))
    (hends : (start.run past).ending? e = some (m, .line (.ok (String.ofList c.text))))
    (hmode : mode? e = none) (hno : (start.run (past ++ [e])).NoRead)
    (hnext : (start.run (past ++ [e])).nextTask = (start.run past).nextTask)
    (hcount : (start.run past).nextTask = m + 1)
    (hc : (Host.modes past)[m]? = some c.isCommandLine)
    (hnew : start.takenBy past (m + 1) = []) : start.LinesSoFar (past ++ [e]) (m + 1) := by
  have hmodes : Host.modes (past ++ [e]) = Host.modes past := by
    rw [modes_concat, hmode]
    exact List.append_nil _
  have hline : typed ((Host.modes (past ++ [e])).getD m true) (start.takenBy (past ++ [e]) m) =
      c.text := by
    rw [hmodes, List.getD_eq_getElem?_getD, hc, Option.getD_some, takenBy_self htakes, typed_concat,
      KeyPress.edit_of_isEnter henter, htyped.text]
  constructor
  · rw [hmodes, hnext, hl.modes]
  · rw [order_concat htakes hl, List.range_succ, List.flatMap_append,
      takenBy_ne htakes (Nat.succ_ne_self m), hnew]
    simp
  · intro t ht
    rcases Nat.lt_succ_iff_lt_or_eq.1 ht with hlt | rfl
    · rw [takenBy_ne htakes hlt.ne]
      exact hl.closed t hlt
    · rw [takenBy_self htakes]
      exact ⟨_, p, rfl, henter, htyped.open_⟩
  · rw [Host.results, during_concat, hends, ← Host.results, results_eq htakes hl hmode,
      List.range_succ, List.map_append, List.map_singleton, hline]
    rfl
  · exact .inl ⟨hno, hnext.trans hcount⟩

end

/-! ## A whole run -/

section
variable {n : Nat} {cursor : Cursor}

theorem nextTask_apply_poll {h : Host} (t : Nat) (bias : List Bool) :
    (h.apply (.poll t bias)).nextTask = h.nextTask := by
  cases ht : h.task? t with
  | none => rw [apply_poll_of_none bias ht]
  | some task =>
    rcases hs : task.step h t bias with ⟨k, r⟩
    have hnext := (task.step_moves h t 0 bias).spawns.nextTask
    rw [hs] at hnext
    rw [apply_poll ht hs]
    rcases r with _ | _ | (_ | _ | _ | _ | _) <;> exact hnext

theorem poll (hpast : ∀ e ∈ past, e.inTurn n = true)
    (hone : (Host.reading n cursor).overlaps past = []) {m : Nat} {c : ConsoleRead}
    (hl : (Host.reading n cursor).LinesSoFar past m)
    (ho : ((Host.reading n cursor).run past).OneRead m c)
    (hcount : ((Host.reading n cursor).run past).nextTask = m + 1)
    (hmode : (Host.modes past)[m]? = some c.isCommandLine) (bias : List Bool) :
    ∃ m', (Host.reading n cursor).LinesSoFar (past ++ [.poll m bias]) m' := by
  have hk := wellKept_reading n cursor
  have hin := InTurn.reading hpast hone
  obtain ⟨htyped, hunstarted⟩ := (AtReader.reading n cursor).typed hk rfl fun e he =>
    Event.atReader_of_inTurn (hpast e he)
  have hnext : ((Host.reading n cursor).run (past ++ [.poll m bias])).nextTask =
      ((Host.reading n cursor).run past).nextTask := by
    rw [run_concat]
    exact nextTask_apply_poll m bias
  have hpoll := ho.poll hin bias
  rw [← run_concat] at hpoll
  cases hin.atReader.stroke (hk.run past).numbered (n := n) (e := .poll m bias) rfl with
  | still htakes _ _ hreads =>
    rcases hpoll with ⟨c', ho', hends⟩ | ⟨-, p, htaken, -⟩
    · refine ⟨m, hl.quiet htakes hends rfl hnext (.inr ⟨c', ho', hcount, ?_⟩)⟩
      have hc' := ho'.consoleOf?
      rw [run_concat] at hc'
      rcases hreads m c' hc' with ⟨c'', hc'', hgoes⟩ | ⟨_, _, hstart, -⟩
      · obtain rfl := Option.some.inj (hc''.symm.trans ho.consoleOf?)
        rw [hmode, hgoes.mode]
      · cases hstart
    · rw [takes?_poll ho.consoleOf?, htaken] at htakes
      cases htakes
  | pressed p hpress => cases hpress
  | struck t bias' p rest call line commandLine own he hread htakes _ _ _ hends hgoes =>
    cases he
    obtain rfl := Option.some.inj (ho.consoleOf?.symm.trans hread)
    cases henter : p.isEnter with
    | true =>
      rcases hpoll with ⟨c', -, hnone⟩ | ⟨hno, -⟩
      · rw [(hends henter).1] at hnone
        cases hnone
      · exact ⟨m + 1, entered htakes hl henter (htyped m _ hread) (hends henter).1 rfl hno hnext
          hcount hmode (hunstarted _ hcount.le)⟩
    | false =>
      have hafter := hgoes henter
      rcases hpoll with ⟨c', ho', hnone⟩ | ⟨-, q, hq, hqenter⟩
      · have hc' := ho'.consoleOf?
        rw [run_concat, hafter] at hc'
        obtain rfl := Option.some.inj hc'
        exact ⟨m, edited htakes hl hnone rfl ho' hnext hcount hmode⟩
      · rw [takes?_poll ho.consoleOf?, hq] at htakes
        cases htakes
        rw [henter] at hqenter
        cases hqenter

theorem run (hpast : ∀ e ∈ past, e.inTurn n = true)
    (hone : (Host.reading n cursor).overlaps past = []) :
    ∃ m, (Host.reading n cursor).LinesSoFar past m := by
  induction past using List.reverseRecOn with
  | nil =>
    refine ⟨0, rfl, rfl, fun t ht => absurd ht (Nat.not_lt_zero t), rfl, .inl ⟨⟨rfl, rfl, [], rfl⟩, rfl⟩⟩
  | append_singleton past e ih =>
    have hbefore e' (he' : e' ∈ past) := hpast e' (List.mem_append_left _ he')
    have he := hpast e (List.mem_append_right _ (List.mem_singleton_self e))
    obtain ⟨honly, hnone⟩ := (InTurn.overlaps_concat _ past e).1 hone
    obtain ⟨m, hl⟩ := ih hbefore honly
    have hstate := hl.state
    cases e with
    | poll t bias =>
      cases ht : ((Host.reading n cursor).run past).task? t with
      | none =>
        refine ⟨m, hl.quiet ?_ ?_ rfl ?_ ?_⟩
        · apply takes?_poll_of_none
          rw [Host.consoleOf?, ht]
          rfl
        · rw [ending?, ht]
          rfl
        · rw [run_concat, apply_poll_of_none bias ht]
        · rwa [run_concat, apply_poll_of_none bias ht]
      | some task =>
        rcases hstate with ⟨hno, -⟩ | ⟨c, ho, hcount, hmode⟩
        · rw [task?, hno.tasks] at ht
          cases ht
        · obtain rfl := ho.eq ht
          exact poll hbefore honly hl ho hcount hmode bias
    | start call =>
      cases call with
      | line commandLine token =>
        rcases hstate with ⟨hno, hnext⟩ | ⟨c, ho, -⟩
        · exact ⟨m, hl.started hno hnext commandLine token⟩
        · rw [overlap?, ho.tasks] at hnone
          cases hnone
      | _ => cases he
    | key k =>
      have hnext : ((Host.reading n cursor).run (past ++ [.key k])).nextTask =
          ((Host.reading n cursor).run past).nextTask := by
        rw [run_concat]
        exact (aside_wakeWaiter _ _).nextTask
      refine ⟨m, hl.quiet rfl rfl rfl hnext ?_⟩
      rw [run_concat]
      rcases hstate with ⟨hno, hcount⟩ | ⟨c, ho, hrest⟩
      · exact .inl ⟨hno.press k, hcount⟩
      · exact .inr ⟨c, ho.press k, hrest⟩
    | _ => cases he

end

/-! ## The lines that have ended -/

section
variable (hl : start.LinesSoFar past m)
include hl

theorem length_results : (start.results past).length = m := by
  rw [hl.results, List.length_map, List.length_range]

theorem length_modes : m ≤ (Host.modes past).length := by
  have hmodes := hl.modes
  rcases hl.state with ⟨-, hnext⟩ | ⟨_, -, hnext, -⟩ <;> omega

/-- The lines that are cut off the stream of the keys are those that the reads have come to. -/
theorem linesOf_take {rest : List KeyPress}
    (hpressed : pressed past = (List.range m).flatMap (start.takenBy past) ++ rest) :
    (linesOf (Host.modes past) (pressed past)).take m = (List.range m).map fun t =>
      (start.takenBy past t,
        String.ofList (typed ((Host.modes past).getD t true) (start.takenBy past t))) := by
  have hlength := hl.length_modes
  have hzip : ((List.range m).map (start.takenBy past)).zip (Host.modes past) =
      (List.range m).map fun t => (start.takenBy past t, (Host.modes past).getD t true) := by
    apply List.ext_getElem
    · simp [hlength]
    · intro t ht ht'
      have hlt : t < (Host.modes past).length := by
        rw [List.length_zip] at ht
        omega
      simp [List.getElem?_eq_getElem hlt]
  have hclosed : ∀ s ∈ (List.range m).map (start.takenBy past), Closed s := by
    intro s hs
    obtain ⟨t, ht, rfl⟩ := List.mem_map.1 hs
    exact hl.closed t (List.mem_range.1 ht)
  rw [hpressed, List.flatMap_def, linesOf_append hclosed (by simpa using hlength),
    hzip, List.map_map, List.take_left' (by simp)]
  rfl

end

end LinesSoFar

/-! ## Coming to Enter -/

section
variable {n : Nat} {cursor : Cursor} {past : List Event}

/-- A read that is polled long enough ends, if Enter has been pressed for it. -/
theorem ends_of_enter (hpast : ∀ e ∈ past, e.inTurn n = true)
    (hone : (reading n cursor).overlaps past = []) {t : Nat} {c : ConsoleRead}
    (ho : ((reading n cursor).run past).OneRead t c)
    (henter : ∃ p, .press p ∈ ((reading n cursor).run past).console.keys ∧ p.isEnter = true) :
    ∃ k, ((reading n cursor).results (past ++ List.replicate k (.poll t []))).length =
      ((reading n cursor).results past).length + 1 := by
  -- The number of keys to come decreases with each key, and in between the stage of the read.
  induction hr : 8 * ((reading n cursor).run past).console.keys.length + c.stage using
    Nat.strong_induction_on generalizing past c with
  | _ r ih =>
    have hk := wellKept_reading n cursor
    have hin := InTurn.reading hpast hone
    have hresults : (reading n cursor).results (past ++ [.poll t []]) =
        (reading n cursor).results past ++
          (((reading n cursor).run past).ending? (.poll t [])).toList := during_concat _ _ _ _
    have hpast' : ∀ e ∈ past ++ [.poll t []], e.inTurn n = true := by
      intro e he
      rcases List.mem_append.1 he with he | he
      · exact hpast e he
      · rw [List.mem_singleton.1 he]
        rfl
    have hone' : (reading n cursor).overlaps (past ++ [.poll t []]) = [] :=
      (InTurn.overlaps_concat _ past _).2 ⟨hone, rfl⟩
    -- It is enough that the read has gone on with less to do.
    have hless {c' : ConsoleRead} (ho' : (((reading n cursor).run past).apply (.poll t [])).OneRead t c')
        (hends : ((reading n cursor).run past).ending? (.poll t []) = none)
        (henter' : ∃ p, .press p ∈ (((reading n cursor).run past).apply (.poll t [])).console.keys ∧
          p.isEnter = true)
        (hlt : 8 * (((reading n cursor).run past).apply (.poll t [])).console.keys.length + c'.stage <
          r) : ∃ k, ((reading n cursor).results (past ++ List.replicate k (.poll t []))).length =
            ((reading n cursor).results past).length + 1 := by
      rw [← run_concat] at ho' henter' hlt
      obtain ⟨k, hlength⟩ := ih _ hlt hpast' hone' ho' henter' rfl
      refine ⟨k + 1, ?_⟩
      rw [hresults, hends, Option.toList_none, List.append_nil] at hlength
      rw [List.replicate_succ, List.append_cons]
      exact hlength
    have hpoll := ho.poll hin []
    cases hin.atReader.stroke (hk.run past).numbered (n := n) (e := .poll t []) rfl with
    | still htakes _ hface _ =>
      have hkeys : (((reading n cursor).run past).apply (.poll t [])).console.keys =
          ((reading n cursor).run past).console.keys := congrArg Prod.fst hface
      have hnone : c.takes? ((reading n cursor).run past) = none := by
        rw [takes?_poll ho.consoleOf?] at htakes
        exact Option.map_eq_none_iff.1 htakes
      rcases hpoll with ⟨c', ho', hends⟩ | ⟨-, p, hp, -⟩
      · obtain ⟨p, hp, hpenter⟩ := henter
        obtain ⟨k, c'', hs, hlt⟩ := c.step_stage hin.unfired t [] ho.alone
          (List.ne_nil_of_mem hp) hin.atReader.presses hnone
        have hstep : (Task.line c).step ((reading n cursor).run past) t [] =
            (k, .next (.line c'')) := by
          simp only [Task.step, hs]
          rfl
        have hc' := ho'.consoleOf?
        rw [consoleOf?_poll ho.task? hstep] at hc'
        obtain rfl := Option.some.inj hc'
        refine hless ho' hends ⟨p, by rwa [hkeys], hpenter⟩ ?_
        rw [hkeys]
        omega
      · rw [hnone] at hp
        cases hp
    | pressed p hpress => cases hpress
    | struck u bias p rest call line commandLine own he hread htakes hkeys hface _ hends hgoes =>
      cases he
      have hrest : (((reading n cursor).run past).apply (.poll t [])).console.keys = rest :=
        congrArg Prod.fst hface
      cases hpenter : p.isEnter with
      | true =>
        refine ⟨1, ?_⟩
        rw [List.replicate_one, hresults, (hends hpenter).1, List.length_append]
        rfl
      | false =>
        have hafter := hgoes hpenter
        rcases hpoll with ⟨c', ho', hnone⟩ | ⟨-, q, hq, hqenter⟩
        · obtain rfl := Option.some.inj (ho'.consoleOf?.symm.trans hafter)
          obtain ⟨q, hq, hqenter⟩ := henter
          refine hless ho' hnone ⟨q, ?_, hqenter⟩ ?_
          · rw [hkeys, List.mem_cons] at hq
            rw [hrest]
            rcases hq with hq | hq
            · cases hq
              rw [hqenter] at hpenter
              cases hpenter
            · exact hq
          · rw [hrest, ← hr, hkeys, List.length_cons, ConsoleRead.stage, KeyCall.stage]
            omega
        · rw [takes?_poll ho.consoleOf?, hq] at htakes
          cases htakes
          rw [hpenter] at hqenter
          cases hqenter

end

theorem exists_presses {keys : List KeyEvent} (hkeys : ∀ k ∈ keys, ∃ p, k = .press p) :
    ∃ presses : List KeyPress, keys = presses.map .press := by
  induction keys with
  | nil => exact ⟨[], rfl⟩
  | cons k rest ih =>
    obtain ⟨p, rfl⟩ := hkeys k (List.mem_cons_self ..)
    obtain ⟨presses, rfl⟩ := ih fun k hk => hkeys k (List.mem_cons_of_mem _ hk)
    exact ⟨p :: presses, rfl⟩

/-- What the reads of a run have come to, where `lines` is what is cut off the stream of the keys that
were pressed by as many reads as have ended. -/
structure SplitAtEnter (start : Host) (past : List Event) (lines : List (List KeyPress × String)) :
    Prop where
  /-- Each read that has ended answers its line. -/
  answers : start.results past = lines.zipIdx.map fun a => (a.2, .line (.ok a.1.2))
  /-- It has taken the keys of its line. -/
  consumed : (List.range lines.length).map (start.takenBy past) = lines.map (·.1)
  /-- The keys that follow have been taken by the next read, or are still to come, in order. -/
  buffered : (lines.flatMap (·.1) ++ start.takenBy past lines.length).map .press ++
    (start.run past).console.keys = (pressed past).map .press
  /-- The read in progress is the next one, and what it has taken is on its line. -/
  next : ∀ t c, (start.run past).consoleOf? t = some c →
    t = lines.length ∧ c.Typed (start.takenBy past t)
  /-- With no read in progress all keys are still to come. -/
  idle : (start.run past).tasks = [] → start.takenBy past lines.length = []
  /-- A read that is polled ends if Enter has been pressed for it. -/
  ends : ∀ t c, (start.run past).consoleOf? t = some c →
    (∃ p, .press p ∈ (start.run past).console.keys ∧ p.isEnter = true) →
      ∃ k, (start.results (past ++ List.replicate k (.poll t []))).length =
        (start.results past).length + 1

/-- Reads that come one after the other, and that nobody stops, cut the stream of the keys at Enter and
edit like the reference. -/
theorem reads_in_turn_split_at_enter (n : Nat) (cursor : Cursor) (past : List Event)
    (hpast : ∀ e ∈ past, e.inTurn n = true) (hone : (reading n cursor).overlaps past = []) :
    (reading n cursor).SplitAtEnter past ((linesOf (modes past) (pressed past)).take
      ((reading n cursor).results past).length) := by
  have hk := wellKept_reading n cursor
  have hin := InTurn.reading hpast hone
  have hreader : ∀ e ∈ past, e.atReader n = true := fun e he =>
    Event.atReader_of_inTurn (hpast e he)
  obtain ⟨htyped, hunstarted⟩ := (AtReader.reading n cursor).typed hk rfl hreader
  have hstream := (AtReader.reading n cursor).taken_append_keys hk rfl hreader
  obtain ⟨m, hl⟩ := LinesSoFar.run hpast hone
  -- All keys to come are presses, so the stream itself is cut.
  obtain ⟨keys, hkeys⟩ := exists_presses hin.atReader.presses
  have hpressed : pressed past = (List.range m).flatMap ((reading n cursor).takenBy past) ++
      ((reading n cursor).takenBy past m ++ keys) := by
    have hmap : (pressed past).map KeyEvent.press = ((List.range m).flatMap
        ((reading n cursor).takenBy past) ++ ((reading n cursor).takenBy past m ++ keys)).map .press := by
      rw [← hstream, hkeys, ← List.append_assoc, ← hl.order, List.map_append, List.map_map]
      rfl
    exact List.map_injective_iff.2 (fun a b hab => KeyEvent.press.inj hab) hmap
  have hlines := hl.linesOf_take hpressed
  rw [hl.length_results, hlines]
  constructor
  · rw [hl.results]
    apply List.ext_getElem <;> simp
  · simp
  · rw [hkeys, hpressed]
    simp [List.flatMap_map]
  · intro t c hc
    refine ⟨?_, htyped t c hc⟩
    rw [List.length_map, List.length_range]
    rcases hl.state with ⟨hno, -⟩ | ⟨c', ho, -⟩
    · have hread := hin.atReader.consoleOf? hc
      rw [task?, hno.tasks] at hread
      cases hread
    · exact ho.eq (hin.atReader.consoleOf? hc)
  · intro hnone
    rw [List.length_map, List.length_range]
    rcases hl.state with ⟨-, hnext⟩ | ⟨c, ho, -⟩
    · exact hunstarted m hnext.le
    · rw [ho.tasks] at hnone
      cases hnone
  · intro t c hc henter
    obtain ⟨c', -, ho⟩ := hin.oneRead (hin.atReader.consoleOf? hc)
    exact ends_of_enter hpast hone ho henter

/-- Two reads of lines from keys that were all pressed before. -/
def twoLines : List Event :=
  [.char 'a', .backspace, .backspace, .char 'b', .escape, .char 'c', .enter, .char 'd', .escape,
    .enter, .char 'e'].map (fun code => .key (.press ⟨code, false, false⟩)) ++
    .start (.line true 0) :: List.replicate 17 (.poll 0 []) ++
    .start (.line false 0) :: List.replicate 9 (.poll 1 [])

/-- Escape clears the first line, which is a command line, and not the second one; the last key is
left over. -/
theorem reads_in_turn_split_at_enter_twoLines :
    let start := reading 1 {}
    start.overlaps twoLines = [] ∧
      start.results twoLines = [(0, .line (.ok "c")), (1, .line (.ok "d"))] ∧
      (start.run twoLines).console.keys = [.press ⟨.char 'e', false, false⟩] ∧
      start.SplitAtEnter twoLines
        ((linesOf (modes twoLines) (pressed twoLines)).take (start.results twoLines).length) :=
  ⟨rfl, rfl, rfl, reads_in_turn_split_at_enter 1 {} twoLines (by decide) rfl⟩

end Host

end SharedPrompt
