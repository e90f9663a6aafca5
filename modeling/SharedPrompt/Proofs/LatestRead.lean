import SharedPrompt.Proofs.EnteredReads

/-!
# The latest read

The read that a host names as the latest is the last one that was entered, as long as it is under
way. Reads have names and tokens of their own, later ones greater ones.
-/

namespace SharedPrompt

namespace Host

def entries (h : Host) (past : List Event) : List EditorRead := h.during enters? past

def lastUnderWay? (h : Host) (entries : List EditorRead) : Option EditorRead :=
  entries.getLast?.filter fun x => decide (h.readOf? x.task = some x.id)

/-- The reads of a host are as they were entered; callers have the tokens below `first`. -/
structure ReadsKept (h : Host) (first : Nat) (entries : List EditorRead) : Prop where
  first_le : first ≤ h.tokens.all.length
  parted : h.tokens.Parted
  leads : h.tokens.Leads first
  ids : ∀ x ∈ entries, x.id < h.editor.nextId
  owns : ∀ x ∈ entries, first ≤ x.own ∧ x.own < h.tokens.all.length
  sorted : entries.Pairwise fun x y => x.id < y.id ∧ x.own < y.own
  entered : ∀ t id, h.readOf? t = some id → ∃ x ∈ entries, x.task = t ∧ x.id = id
  active : h.editor.active = (h.lastUnderWay? entries).map fun x => (x.id, x.own)
  derived : ∀ x ∈ entries, x.caller < first →
    x.own ∈ h.tokens.derivedOf x.caller ∨ h.tokens.isFired x.own = true

theorem lastUnderWay?_eq_some {h : Host} {entries : List EditorRead} {x : EditorRead} :
    h.lastUnderWay? entries = some x ↔
      entries.getLast? = some x ∧ h.readOf? x.task = some x.id := by
  rw [lastUnderWay?, Option.filter_eq_some_iff, decide_eq_true_iff]

theorem lastUnderWay?_concat {h : Host} (entries : List EditorRead) {x : EditorRead}
    (hx : h.readOf? x.task = some x.id) : h.lastUnderWay? (entries ++ [x]) = some x :=
  lastUnderWay?_eq_some.2 ⟨List.getLast?_concat, hx⟩

namespace ReadsKept

variable {h h' : Host} {first : Nat} {entries : List EditorRead}

/-- A read is known by its name. -/
theorem eq_of_id (hk : h.ReadsKept first entries) {x y : EditorRead} (hx : x ∈ entries)
    (hy : y ∈ entries) (hid : x.id = y.id) : x = y := by
  have hids : (entries.map EditorRead.id).Nodup :=
    List.pairwise_map.2 (hk.sorted.imp fun hlt => hlt.1.ne)
  exact List.inj_on_of_nodup_map hids hx hy hid

/-- A read is known by its own token. -/
theorem eq_of_own (hk : h.ReadsKept first entries) {x y : EditorRead} (hx : x ∈ entries)
    (hy : y ∈ entries) (hown : x.own = y.own) : x = y := by
  have howns : (entries.map EditorRead.own).Nodup :=
    List.pairwise_map.2 (hk.sorted.imp fun hlt => hlt.2.ne)
  exact List.inj_on_of_nodup_map howns hx hy hown

/-- What the tokens keep whatever is done with them. -/
theorem tokens (hk : h.ReadsKept first entries) (hs : h.tokens.Steps h'.tokens) :
    first ≤ h'.tokens.all.length ∧ h'.tokens.Parted ∧ h'.tokens.Leads first ∧
      (∀ x ∈ entries, first ≤ x.own ∧ x.own < h'.tokens.all.length) ∧
      ∀ x ∈ entries, x.caller < first →
        x.own ∈ h'.tokens.derivedOf x.caller ∨ h'.tokens.isFired x.own = true := by
  refine ⟨hk.first_le.trans hs.length_le, hk.parted.steps hs,
    hk.leads.steps hk.parted hk.first_le hs, fun x hx => ?_, fun x hx hcaller => ?_⟩
  · exact ⟨(hk.owns x hx).1, (hk.owns x hx).2.trans_le hs.length_le⟩
  · exact (hk.derived x hx hcaller).imp hs.mem_derivedOf hs.isFired

theorem off (hk : h.ReadsKept first entries) (ho : h.OffReads h')
    (hsame : ∀ t, h'.readOf? t = h.readOf? t) : h'.ReadsKept first entries := by
  obtain ⟨hfirst, hparted, hleads, howns, hderived⟩ := hk.tokens ho.tokens
  exact {
    first_le := hfirst
    parted := hparted
    leads := hleads
    ids := fun x hx => by
      rw [ho.editor]
      exact hk.ids x hx
    owns := howns
    sorted := hk.sorted
    entered := fun t id hid => hk.entered t id (by rwa [← hsame])
    active := by
      rw [ho.editor, hk.active]
      simp only [lastUnderWay?, hsame]
    derived := hderived }

/-- A read that is entered is the latest one. -/
theorem enter (hk : h.ReadsKept first entries) {x : EditorRead} (hid : x.id = h.editor.nextId)
    (hown : x.own = h.tokens.all.length) (heditor : h'.editor = ⟨some (x.id, x.own), x.id + 1⟩)
    (htokens : h'.tokens = (h.tokens.derive x.caller).2)
    (hnew : ∀ t, h'.readOf? t = if t = x.task then some x.id else h.readOf? t) :
    h'.ReadsKept first (entries ++ [x]) := by
  have hsteps : h.tokens.Steps h'.tokens := by
    rw [htokens]
    exact .single (.derive _ _)
  obtain ⟨hfirst, hparted, hleads, howns, hderived⟩ := hk.tokens hsteps
  have hlength : h'.tokens.all.length = h.tokens.all.length + 1 := by
    rw [htokens, Tokens.length_derive]
  have hx : h'.readOf? x.task = some x.id := by rw [hnew, if_pos rfl]
  exact {
    first_le := hfirst
    parted := hparted
    leads := hleads
    ids := fun y hy => by
      rw [heditor]
      rcases List.mem_append.1 hy with hy | hy
      · exact ((hk.ids y hy).trans_eq hid.symm).trans (Nat.lt_succ_self _)
      · rw [List.mem_singleton.1 hy]
        exact Nat.lt_succ_self _
    owns := fun y hy => by
      rcases List.mem_append.1 hy with hy | hy
      · exact howns y hy
      · have := hk.first_le
        rw [List.mem_singleton.1 hy]
        omega
    sorted := by
      refine List.pairwise_append.2 ⟨hk.sorted, List.pairwise_singleton _ _, fun y hy z hz => ?_⟩
      rw [List.mem_singleton.1 hz, hid, hown]
      exact ⟨hk.ids y hy, (hk.owns y hy).2⟩
    entered := fun t id hread => by
      rw [hnew] at hread
      split at hread
      next ht => exact ⟨x, by simp, ht.symm, Option.some.inj hread⟩
      next =>
        obtain ⟨y, hy, hyread⟩ := hk.entered t id hread
        exact ⟨y, List.mem_append_left _ hy, hyread⟩
    active := by rw [heditor, lastUnderWay?_concat entries hx, Option.map_some]
    derived := fun y hy hcaller => by
      rcases List.mem_append.1 hy with hy | hy
      · exact hderived y hy hcaller
      · rw [List.mem_singleton.1 hy] at hcaller ⊢
        rw [htokens, Tokens.derivedOf_derive, Tokens.isFired_derive, if_pos hown]
        by_cases hfired : h.tokens.isFired x.caller = true
        · exact .inr hfired
        · left
          rw [if_pos ⟨rfl, hcaller.trans_le hk.first_le, by simpa using hfired⟩, hown]
          simp }

/-- When a read ends, the latest read stays the latest unless it is that one. -/
theorem ended (hk : h.ReadsKept first entries) {t id : Nat} (hold : h.readOf? t = some id)
    (heditor : h'.editor = h.editor.without id) (hs : h.tokens.Steps h'.tokens)
    (hgone : ∀ u, h'.readOf? u = if u = t then none else h.readOf? u) :
    h'.ReadsKept first entries := by
  obtain ⟨hfirst, hparted, hleads, howns, hderived⟩ := hk.tokens hs
  obtain ⟨x, hx, hxtask, hxid⟩ := hk.entered t id hold
  have hnext : h'.editor.nextId = h.editor.nextId := by
    rw [heditor, EditorReads.without]
    split <;> rfl
  exact {
    first_le := hfirst
    parted := hparted
    leads := hleads
    ids := fun y hy => by
      rw [hnext]
      exact hk.ids y hy
    owns := howns
    sorted := hk.sorted
    entered := fun u id' hread => by
      rw [hgone] at hread
      split at hread
      · cases hread
      · exact hk.entered u id' hread
    active := by
      rw [heditor, EditorReads.without, hk.active]
      rcases hlast : h.lastUnderWay? entries with - | y
      · -- No read counts as the latest, and none begins to.
        have hnone : h'.lastUnderWay? entries = none := by
          rw [Option.eq_none_iff_forall_not_mem]
          intro y hy
          obtain ⟨hget, hread⟩ := lastUnderWay?_eq_some.1 hy
          rw [hgone] at hread
          split at hread
          · cases hread
          · rw [lastUnderWay?_eq_some.2 ⟨hget, hread⟩] at hlast
            cases hlast
        rw [hnone]
        split
        · rfl
        · exact hk.active.trans (by rw [hlast])
      · obtain ⟨hget, hread⟩ := lastUnderWay?_eq_some.1 hlast
        by_cases hy : y.task = t
        · -- The latest read is the one that ends.
          have hid : y.id = id := by
            rw [hy, hold] at hread
            exact (Option.some.inj hread).symm
          have hnone : h'.lastUnderWay? entries = none := by
            rw [lastUnderWay?, hget, Option.filter_some, if_neg]
            rw [hgone, if_pos hy]
            simp
          rw [hnone, Option.map_some, Option.map_some, if_pos (by rw [hid])]
          rfl
        · have hid : y.id ≠ id := by
            intro heq
            have hyx := hk.eq_of_id (List.mem_of_getLast? hget) hx (heq.trans hxid.symm)
            exact hy (by rw [hyx, hxtask])
          have hsame : h'.lastUnderWay? entries = some y :=
            lastUnderWay?_eq_some.2 ⟨hget, by rw [hgone, if_neg hy, hread]⟩
          rw [hsame, Option.map_some, Option.map_some, if_neg (by simpa using hid), hk.active, hlast]
          rfl
    derived := hderived }

/-- Whatever an event does to the reads keeps them so. -/
theorem turn (hk : h.ReadsKept first entries) {d : Option EditorRead} (ht : h.ReadTurn h' d) :
    h'.ReadsKept first (entries ++ d.toList) := by
  cases ht with
  | off ho hsame =>
    rw [Option.toList_none, List.append_nil]
    exact hk.off ho hsame
  | entered x hid hown hreads htokens hnew =>
    exact hk.enter hid hown (congrArg Prod.fst hreads) htokens hnew
  | ended hold hreads htokens hgone =>
    rw [Option.toList_none, List.append_nil]
    exact hk.ended hold (congrArg Prod.fst hreads) htokens hgone

theorem run {start : Host} (hkept : start.WellKept) (hs : start.ReadsKept first [])
    (past : List Event) : (start.run past).ReadsKept first (start.entries past) := by
  induction past using List.reverseRecOn with
  | nil => exact hs
  | append_singleton past e ih =>
    rw [run_concat, Host.entries, during_concat]
    exact ih.turn (readTurn_apply (hkept.run past).numbered e)

end ReadsKept

/-- What the line editor is like never changes. -/
theorem reads_run {start : Host} (hkept : start.WellKept) (past : List Event) :
    (start.run past).reads.2 = start.reads.2 := by
  induction past using List.reverseRecOn with
  | nil => rfl
  | append_singleton past e ih =>
    rw [run_concat, ← ih]
    have hturn := readTurn_apply (hkept.run past).numbered e
    generalize (start.run past).enters? e = d at hturn
    cases hturn with
    | off ho _ => rw [ho.reads]
    | entered x _ _ hreads _ _ => rw [hreads]
    | ended _ hreads _ _ => rw [hreads]

/-! ## A host that has just been taken into use -/

theorem offReads_established (native follows : Bool) (engine : Engine) (console : Console Waiter) :
    OffReads { native, engine, console } (established native follows engine console) := by
  have hcreate (k : Host) := k.offReads_createPipeline .current
  have hmain := hcreate { native, engine, console }
  unfold established establish
  split <;> rename_i hr <;> rw [hr] at hmain
  · exact hmain
  · rename_i main k
    have hline := hmain.trans (hcreate k)
    split <;> rename_i hr' <;> rw [hr'] at hline
    · exact hline
    · split
      · exact hline
      · dsimp only
        split
        · exact hline.trans (.same rfl rfl)
        · exact hline.trans (.same rfl rfl)

def callersTokens (n : Nat) : Tokens := ⟨List.replicate n .fresh⟩

theorem derivedOf_callersTokens (n id : Nat) : (callersTokens n).derivedOf id = [] := by
  rw [Tokens.derivedOf, Tokens.get, callersTokens, List.getElem?_replicate]
  split <;> rfl

theorem parted_callersTokens (n : Nat) : (callersTokens n).Parted where
  lt c d hd := by
    rw [derivedOf_callersTokens] at hd
    cases hd
  one c c' d hd := by
    rw [derivedOf_callersTokens] at hd
    cases hd

theorem leads_callersTokens (n : Nat) : (callersTokens n).Leads n where
  late c d hd := by
    rw [derivedOf_callersTokens] at hd
    cases hd
  fired c _ _ d hd := by
    rw [derivedOf_callersTokens] at hd
    cases hd

theorem ReadsKept.established (native follows : Bool) (engine : Engine) (console : Console Waiter)
    (n : Nat) :
    ReadsKept { established native follows engine console with tokens := callersTokens n } n [] := by
  have ho := offReads_established native follows engine console
  have heditor : (Host.established native follows engine console).editor = {} := ho.editor
  have htasks := (sameCalls_established native follows engine console).tasks
  exact {
    first_le := by simp [callersTokens]
    parted := parted_callersTokens n
    leads := leads_callersTokens n
    ids := fun x hx => by cases hx
    owns := fun x hx => by cases hx
    sorted := .nil
    entered := fun t id hid => by
      simp only [readOf?, task?, htasks] at hid
      cases hid
    active := by
      change (Host.established native follows engine console).editor.active = _
      rw [heditor]
      rfl
    derived := fun x hx => by cases hx }

/-- The line editor of a run is that of the host that was taken into use. -/
theorem editor_run_established (follows : Bool) (engine : Engine) (console : Console Waiter) (n : Nat)
    (past : List Event) :
    let start : Host := { established true follows engine console with tokens := callersTokens n }
    (start.run past).native = true ∧ (start.run past).engine.cancellable = engine.cancellable := by
  intro start
  have hkept : start.WellKept :=
    (WellKept.established true follows engine console).setTokens (callersTokens n)
  have hlike : (start.run past).reads.2 = (true, engine.cancellable) :=
    (reads_run hkept past).trans
      (congrArg Prod.snd (offReads_established true follows engine console).reads)
  exact ⟨congrArg Prod.fst hlike, congrArg Prod.snd hlike⟩

end Host

end SharedPrompt
