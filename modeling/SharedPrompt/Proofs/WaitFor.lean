import SharedPrompt.Proofs.OnePrompt

/-!
# What calls wait for

A call on its way to a permit may hold a ticket while it waits for another, but that other one is
always the ticket of the line prompt, which no call on its way holds. So whoever waits for a call
that cannot go on waits, at one remove, for a permit that somebody has.
-/

namespace SharedPrompt

def Part.isHandle : Part → Bool
  | lease _ => false
  | permit _ => true
  | remnant _ => true

namespace Host

/-- A call on its way to a permit that cannot go on by itself. -/
def Stands (h : Host) (l : Leasing) : Prop := ∀ me, l.step h me = (h, .blocked)

/-- A call waits behind a part that holds the ticket it waits for, or has been handed it. -/
inductive Behind (h : Host) (l : Leasing) (x : Part) : Prop where
  | holder {g : Nat} {w : Waiter} (hl : (g, w) ∈ l.places) (hx : g ∈ x.tickets)
  | heir {g : Nat} {w v : Waiter} (hl : (g, w) ∈ l.places) (hx : (g, v) ∈ x.places)
      (hv : ((h.stack.gate g).tickets.handed? v).isSome)

variable {h : Host} {l : Leasing}

theorem stands_iff :
    h.Stands l ↔ ∃ g w purpose, l = .wait g w purpose ∧
      (h.stack.gate g).tickets.handed? w = none := by
  constructor
  · intro hstands
    have hblocked := hstands 0
    cases l with
    | choose readLine => cases readLine <;> cases hblocked
    | ask g purpose =>
      have hgranted (line : Nat) : purpose.granted line g ≠ .blocked := by cases purpose <;> nofun
      simp only [Leasing.step] at hblocked
      split at hblocked
      · exact absurd (Prod.mk.inj hblocked).2 (hgranted _)
      · cases hblocked
    | wait g w purpose =>
      refine ⟨g, w, purpose, rfl, ?_⟩
      have hgranted (line : Nat) : purpose.granted line g ≠ .blocked := by cases purpose <;> nofun
      simp only [Leasing.step] at hblocked
      split at hblocked
      · exact absurd (Prod.mk.inj hblocked).2 (hgranted _)
      · rename_i hcollect
        simpa [collectGate?, TicketGate.collect?, WaitQueue.collect?] using hcollect
  · rintro ⟨g, w, purpose, rfl, hnone⟩ me
    simp [Leasing.step, collectGate?, TicketGate.collect?, WaitQueue.collect?, hnone]

/-- Whoever has been handed the ticket it waits for can go on. -/
theorem not_stands_of_handed {g : Nat} {w : Waiter} (hl : (g, w) ∈ l.places)
    (hw : ((h.stack.gate g).tickets.handed? w).isSome) : ¬ h.Stands l := by
  intro hstands
  obtain ⟨g', w', purpose, rfl, hnone⟩ := stands_iff.1 hstands
  obtain ⟨rfl, rfl⟩ := Prod.mk.inj (List.mem_singleton.1 hl)
  rw [hnone] at hw
  cases hw

namespace WellKept

theorem mem_line (hk : h.WellKept) {x : Part} (hx : x ∈ h.parts) {g : Nat} {w : Waiter}
    (hw : (g, w) ∈ x.places) : w ∈ (h.stack.gate g).line := by
  have hplaced := (hk.balanced.books.gates g).line w
  exact List.count_pos_iff.1 (hplaced ▸ Part.placed_pos g w hx hw)

/-- Nobody waits for nothing: the ticket of a gate with a line is held or has been handed over. -/
theorem exists_behind (hk : h.WellKept) (hl : .lease l ∈ h.parts) {g : Nat} {w : Waiter}
    (hw : (g, w) ∈ l.places) : ∃ x ∈ h.parts, h.Behind l x := by
  by_cases hheld : h.held g = 0
  · have hne : (h.stack.gate g).line ≠ [] := List.ne_nil_of_mem (hk.mem_line hl hw)
    obtain ⟨v, hv⟩ := Option.isSome_iff_exists.1 (List.isSome_head?.2 hne)
    obtain ⟨x, hx, hplace⟩ := hk.exists_place (List.mem_of_mem_head? hv)
    exact ⟨x, hx, .heir hw hplace (hk.handed_first hheld hv)⟩
  · obtain ⟨x, hx, hg⟩ := exists_ticket (c := h.parts) (Nat.pos_of_ne_zero hheld)
    exact ⟨x, hx, .holder hw hg⟩

/-- A call that holds a ticket on its way goes for that of the line prompt, and holds another. -/
theorem second_ticket (hk : h.WellKept) (hl : .lease l ∈ h.parts) {g : Nat} (hg : g ∈ l.tickets) :
    g ≠ 1 ∧ ∀ p ∈ l.places, p.1 = 1 := by
  have hsecond (g' : Nat) (held : Option Nat) (hgoal : l.goal? 1 = some ⟨g', held, true⟩)
      (hmem : g ∈ held.toList) : g' = 1 ∧ g ≠ 1 :=
    ((hk.balanced.known _ hl).fits _ hgoal).lease_of_main (Option.mem_toList.1 hmem)
  cases l with
  | choose readLine => cases hg
  | ask g' purpose =>
    cases purpose with
    | line held => exact ⟨(hsecond g' held rfl hg).2, fun p hp => by cases hp⟩
    | _ => cases hg
  | wait g' w purpose =>
    cases purpose with
    | line held =>
      obtain ⟨hline, hne⟩ := hsecond g' held rfl hg
      refine ⟨hne, fun p hp => ?_⟩
      rw [List.mem_singleton.1 hp]
      exact hline
    | _ => cases hg

/-- Behind a call that cannot go on there is a permit that somebody has, or a call that can go on,
or a reader that cannot and is in line for the line prompt. -/
theorem behind_cases (hk : h.WellKept) (hl : .lease l ∈ h.parts) {x : Part} (hx : x ∈ h.parts)
    (hbehind : h.Behind l x) :
    (x.isHandle = true ∧ ∃ g w, (g, w) ∈ l.places ∧ g ∈ x.tickets) ∨
      (∃ l', x = .lease l' ∧ (l'.tickets ≠ [] ∨ l'.places ≠ []) ∧ ¬ h.Stands l') ∨
      ∃ l' w, x = .lease l' ∧ (1, w) ∈ l'.places ∧ h.Stands l' ∧ ∀ p ∈ l.places, p.1 ≠ 1 := by
  cases hbehind with
  | @holder g w hw hg =>
    cases x with
    | permit p => exact .inl ⟨rfl, g, w, hw, hg⟩
    | remnant p => exact .inl ⟨rfl, g, w, hw, hg⟩
    | lease l' =>
      right
      obtain ⟨hne, hline⟩ := hk.second_ticket hx hg
      by_cases hstands : h.Stands l'
      · refine .inr ?_
        obtain ⟨g', w', purpose, rfl, -⟩ := stands_iff.1 hstands
        have hg' : g' = 1 := hline _ (List.mem_singleton_self _)
        refine ⟨_, w', rfl, by rw [hg']; exact List.mem_singleton_self _, hstands, ?_⟩
        cases l with
        | wait g'' w'' purpose' =>
          obtain ⟨rfl, -⟩ := Prod.mk.inj (List.mem_singleton.1 hw)
          intro p hp
          rwa [List.mem_singleton.1 hp]
        | _ => cases hw
      · exact .inl ⟨l', rfl, .inl (List.ne_nil_of_mem hg), hstands⟩
  | @heir g w v hw hv hhanded =>
    cases x with
    | permit p => cases hv
    | remnant p => cases hv
    | lease l' =>
      exact .inr (.inl ⟨l', rfl, .inr (List.ne_nil_of_mem hv), not_stands_of_handed hv hhanded⟩)

/-- If no call that holds a ticket or is in a line can go on, then whoever is in a line waits for a
permit that somebody has: at its own gate, or at that of the line prompt. -/
theorem exists_handle (hk : h.WellKept)
    (hall : ∀ l, .lease l ∈ h.parts → l.tickets ≠ [] ∨ l.places ≠ [] → h.Stands l)
    (hl : .lease l ∈ h.parts) (hplaces : l.places ≠ []) :
    ∃ x ∈ h.parts, x.isHandle = true ∧ ∃ g ∈ x.tickets, g = 1 ∨ g ∈ l.places.map (·.1) := by
  obtain ⟨⟨g, w⟩, hw⟩ := List.exists_mem_of_ne_nil _ hplaces
  obtain ⟨x, hx, hbehind⟩ := hk.exists_behind hl hw
  rcases hk.behind_cases hl hx hbehind with
    ⟨hhandle, g', w', hplace, hticket⟩ | ⟨l', rfl, hunder, hnot⟩ | ⟨l', w', rfl, hline, -, -⟩
  · exact ⟨x, hx, hhandle, g', hticket, .inr (List.mem_map_of_mem (f := Prod.fst) hplace)⟩
  · exact absurd (hall l' hx hunder) hnot
  · -- The reader waits for the line prompt, and nobody who holds its ticket is a call like that.
    obtain ⟨y, hy, hbehind'⟩ := hk.exists_behind hx hline
    rcases hk.behind_cases hx hy hbehind' with
      ⟨hhandle, g', v, hplace, hticket⟩ | ⟨l'', rfl, hunder, hnot⟩ | ⟨-, -, -, -, -, hne⟩
    · cases l' with
      | wait g'' v' purpose =>
        obtain ⟨rfl, -⟩ := Prod.mk.inj (List.mem_singleton.1 hline)
        obtain ⟨rfl, -⟩ := Prod.mk.inj (List.mem_singleton.1 hplace)
        exact ⟨y, hy, hhandle, 1, hticket, .inl rfl⟩
      | _ => cases hline
    · exact absurd (hall l'' hy hunder) hnot
    · exact absurd rfl (hne _ hline)

end WellKept

end Host

/-- Whatever happens to a host, calls on their way to permits never wait only for each other. If
none of those that hold a ticket or are in a line can go on, then each that is in a line waits for
a permit that somebody has not given back, be it for the ticket of the gate it waits at or, by way
of a reader, for that of the line prompt. -/
theorem Host.waiting_for_handle (native follows : Bool) (engine : Engine)
    (console : Console Waiter) (tokens : Tokens) (events : List Event) :
    let start : Host := { established native follows engine console with tokens }
    let h := start.run events
    (∀ l, .lease l ∈ h.parts → l.tickets ≠ [] ∨ l.places ≠ [] → h.Stands l) →
      ∀ l, .lease l ∈ h.parts → l.places ≠ [] →
        ∃ x ∈ h.parts, x.isHandle = true ∧
          ∃ g ∈ x.tickets, g = h.stack.line.gate ∨ g ∈ l.places.map (·.1) := by
  intro start h hall l hl hplaces
  have hk : h.WellKept :=
    ((WellKept.established native follows engine console).setTokens tokens).run events
  rw [hk.balanced.books.sound.line]
  exact hk.exists_handle hall hl hplaces

/-- A reader has its permit when a prompt is opened. A second reader takes the ticket of that prompt
and waits for the line prompt, and a command waits behind it. -/
def Host.readerBetween : List Event :=
  [.start (.lease true), .poll 0 [], .poll 0 [], .poll 0 [], .push false,
    .start (.lease true), .poll 1 [], .poll 1 [], .poll 1 [],
    .start (.lease false), .poll 2 [], .poll 2 []]

theorem Host.waiting_for_handle_readerBetween :
    let h := ({ established true false {} {} with tokens := {} } : Host).run readerBetween
    (.lease (.wait 1 ⟨1, 3⟩ (.line (some 2))) ∈ h.parts ∧
        .lease (.wait 2 ⟨2, 4⟩ .command) ∈ h.parts) ∧
      ∃ x ∈ h.parts, x.isHandle = true ∧ ∃ g ∈ x.tickets, g = 1 ∨ g ∈ [2] := by
  intro h
  have hparts : h.parts = {.lease (.wait 1 ⟨1, 3⟩ (.line (some 2))),
      .lease (.wait 2 ⟨2, 4⟩ .command), .permit ⟨1, some 0, true⟩} := rfl
  have hreader : .lease (.wait 1 ⟨1, 3⟩ (.line (some 2))) ∈ h.parts := by simp [hparts]
  have hcommand : .lease (.wait 2 ⟨2, 4⟩ .command) ∈ h.parts := by simp [hparts]
  refine ⟨⟨hreader, hcommand⟩, waiting_for_handle true false {} {} {} readerBetween ?_ _ hcommand
    (List.cons_ne_nil _ _)⟩
  intro l hl _
  change _ ∈ h.parts at hl
  simp only [hparts, Multiset.insert_eq_cons, Multiset.mem_cons, Multiset.mem_singleton,
    Part.lease.injEq, reduceCtorEq, or_false] at hl
  rcases hl with rfl | rfl
  · exact stands_iff.2 ⟨1, _, _, rfl, rfl⟩
  · exact stands_iff.2 ⟨2, _, _, rfl, rfl⟩

end SharedPrompt
