import SharedPrompt.Proofs.UnitValues

/-!
# Units at work

A unit at work stands somewhere on the way to its answer: its innermost frame has come part of the
way, and each frame below has come to the deed by which it handed over the next one.
-/

namespace SharedPrompt

theorem Engine.outcome_switched (e : Engine) (failures : Failures) (output : List Value)
    (list : List Action) : { e with failures }.outcome output list = e.outcome output list := by
  induction list generalizing output with
  | nil => rfl
  | cons a rest ih => cases a <;> simp only [outcome, variable_, ih]

/-- The switches make no difference to a command that has begun. -/
theorem Engine.conclusion?_switched (e : Engine) (failures : Failures) (inv : Invocation)
    (editing : Bool) : { e with failures }.conclusion? inv editing =
      (e.conclusion? inv editing).map fun p => (p.1, { p.2 with failures }) := by
  have hfinish (e : Engine) :
      { e with failures }.finish inv editing = { e.finish inv editing with failures } := by
    unfold finish
    cases inv.counted <;> cases editing <;> rfl
  unfold conclusion?
  rw [outcome_switched]
  cases editing with
  | true =>
    cases e.lines with
    | nil => rfl
    | cons line lines =>
      have hline := hfinish { e with lines }
      simp only [if_true, Option.map_some]
      rw [← hline]
  | false => simp [hfinish]

section Rules

/- `asked`: a ticket was given for a unit that was handed to another worker. -/
variable (worker thread : String) (thrown : Prop) (told : String → Work → WorkResult → Prop)
  (asked : Nat → String → Work → Prop)

inductive Frame.Stands (e₀ : Engine) (list : Work) : Frame → Engine → Prop
  | deeds {rest : Work} {entries : List Entry} {e : Engine}
      (h : Partly worker thread thrown told e₀ list entries rest e) :
      Stands e₀ list { rest, entries } e
  | command {d : Deed} {rest : Work} {entries : List Entry} {e e₁ : Engine} {inv : Invocation}
      {editing : Bool} (h : Partly worker thread thrown told e₀ list entries (d :: rest) e)
      (hd : e.does? worker thread d = e₁.conclusion? inv editing) {e₂ : Engine}
      (hs : e₁.Switched thrown e₂) :
      Stands e₀ list { rest, entries, doing := .command inv editing } e₂
  | awaiting {other : String} {inner rest : Work} {entries : List Entry} {e : Engine} {ticket : Nat}
      (h : Partly worker thread thrown told e₀ list entries (.submit other inner :: rest) e)
      (hother : other ≠ worker) (hasked : asked ticket other inner) :
      Stands e₀ list { rest, entries, doing := .awaiting ticket } e

/-- The frames below have each come to the deed by which it handed over the one above. -/
inductive Nested (e₀ : Engine) (list : Work) : List Frame → Work → Engine → Prop
  | outermost : Nested e₀ list [] list e₀
  | within {f : Frame} {below : List Frame} {outer inner : Work} {e₁ e : Engine}
      (h : Nested e₀ list below outer e₁) (hdoing : f.doing = .deeds)
      (hf : Partly worker thread thrown told e₁ outer f.entries (.submit worker inner :: f.rest) e) :
      Nested e₀ list (f :: below) inner e

def Running.Stands (e₀ : Engine) (list : Work) (run : Running) (e : Engine) : Prop :=
  ∃ inner e₁, Nested worker thread thrown told e₀ list run.below inner e₁ ∧
    run.frame.Stands worker thread thrown told asked e₁ inner e

end Rules

variable {worker thread : String} {thrown thrown' : Prop}
  {told told' : String → Work → WorkResult → Prop} {asked asked' : Nat → String → Work → Prop}

theorem Frame.Stands.switched {e₀ e e' : Engine} {list : Work} {f : Frame}
    (h : f.Stands worker thread thrown told asked e₀ list e) (hs : e.Switched thrown e') :
    f.Stands worker thread thrown told asked e₀ list e' := by
  cases h with
  | deeds h => exact .deeds (h.switched hs)
  | command h hd hs' => exact .command h hd (hs'.trans hs)
  | awaiting h hother hasked => exact .awaiting (h.switched hs) hother hasked

theorem Frame.Stands.mono (hthrown : thrown → thrown')
    (htold : ∀ other list r, told other list r → told' other list r)
    (hasked : ∀ t other list, asked t other list → asked' t other list) {e₀ e : Engine} {list : Work}
    {f : Frame} (h : f.Stands worker thread thrown told asked e₀ list e) :
    f.Stands worker thread thrown' told' asked' e₀ list e := by
  cases h with
  | deeds h => exact .deeds (h.mono hthrown htold)
  | command h hd hs => exact .command (h.mono hthrown htold) hd (hs.mono hthrown)
  | awaiting h hother ha => exact .awaiting (h.mono hthrown htold) hother (hasked _ _ _ ha)

theorem Nested.mono (hthrown : thrown → thrown')
    (htold : ∀ other list r, told other list r → told' other list r) {e₀ e : Engine}
    {list inner : Work} {below : List Frame} (h : Nested worker thread thrown told e₀ list below inner e) :
    Nested worker thread thrown' told' e₀ list below inner e := by
  induction h with
  | outermost => exact .outermost
  | within _ hdoing hf ih => exact .within ih hdoing (hf.mono hthrown htold)

theorem Running.Stands.mono (hthrown : thrown → thrown')
    (htold : ∀ other list r, told other list r → told' other list r)
    (hasked : ∀ t other list, asked t other list → asked' t other list) {e₀ e : Engine} {list : Work}
    {run : Running} (h : run.Stands worker thread thrown told asked e₀ list e) :
    run.Stands worker thread thrown' told' asked' e₀ list e := by
  obtain ⟨inner, e₁, hnested, hframe⟩ := h
  exact ⟨inner, e₁, hnested.mono hthrown htold, hframe.mono hthrown htold hasked⟩

theorem Running.Stands.switched {e₀ e e' : Engine} {list : Work} {run : Running}
    (h : run.Stands worker thread thrown told asked e₀ list e) (hs : e.Switched thrown e') :
    run.Stands worker thread thrown told asked e₀ list e' := by
  obtain ⟨inner, e₁, hnested, hframe⟩ := h
  exact ⟨inner, e₁, hnested, hframe.switched hs⟩

/-- A unit that has just been taken stands at its beginning. -/
theorem Running.Stands.begin (ticket holder : Nat) (list : Work) (e : Engine) :
    Running.Stands worker thread thrown told asked e list { ticket, holder, frame := { rest := list } } e :=
  ⟨list, e, .outermost, .deeds (.begun e list)⟩

/-! ## What the innermost frame does next -/

/-- What the deed comes to that a frame is at is what the deed comes to that it began with. -/
private theorem Frame.Stands.exists_does {e₀ e e' : Engine} {list : Work} {f : Frame}
    {report : Except Panic (List Entry)} (h : f.Stands worker thread thrown told asked e₀ list e)
    (hahead : e.ahead? worker thread f.rest f.doing = some (report, e')) :
    ∃ d e₁ e₂,
      Partly worker thread thrown told e₀ list f.entries (d :: f.doing.after f.rest) e₁ ∧
      e₁.does? worker thread d = some (report, e₂) ∧ e₂.Switched thrown e' := by
  cases h with
  | @deeds rest entries _ h =>
    cases rest with
    | nil => cases hahead
    | cons d rest => exact ⟨d, e, e', h, hahead, .refl e'⟩
  | @command d rest entries e₁ e₂ inv editing h hd _ hs =>
    obtain rfl | ⟨hthrown, failures, rfl⟩ := hs
    · exact ⟨d, e₁, e', h, hd.trans hahead, .refl e'⟩
    · have hswitched := (Engine.conclusion?_switched e₂ failures inv editing).symm.trans hahead
      obtain ⟨⟨report', e₃⟩, hconclusion, heq⟩ := Option.map_eq_some_iff.1 hswitched
      obtain ⟨rfl, rfl⟩ := Prod.mk.inj heq
      exact ⟨d, e₁, e₃, h, hd.trans hconclusion, .inr ⟨hthrown, failures, rfl⟩⟩
  | awaiting _ _ _ => cases hahead

theorem Frame.Stands.does {e₀ e e' : Engine} {list : Work} {f : Frame} {more : List Entry}
    (h : f.Stands worker thread thrown told asked e₀ list e)
    (hahead : e.ahead? worker thread f.rest f.doing = some (.ok more, e')) :
    Frame.Stands worker thread thrown told asked e₀ list
      { rest := f.doing.after f.rest, entries := f.entries ++ more } e' := by
  obtain ⟨d, e₁, e₂, hpartly, hdoes, hs⟩ := h.exists_does hahead
  exact .deeds ((hpartly.does hdoes).switched hs)

theorem Frame.Stands.panics {e₀ e e' : Engine} {list : Work} {f : Frame} {p : Panic}
    (h : f.Stands worker thread thrown told asked e₀ list e)
    (hahead : e.ahead? worker thread f.rest f.doing = some (.error p, e')) :
    Comes worker thread thrown told e₀ list (.error (.panicked p.message)) e' := by
  obtain ⟨d, e₁, e₂, hpartly, hdoes, hs⟩ := h.exists_does hahead
  exact ⟨_, _, _, hpartly, .panicked hdoes hs⟩

/-- A command goes on towards what it was on its way to. -/
theorem Frame.Stands.commands {e₀ e e' : Engine} {list : Work} {f : Frame} {inv : Invocation}
    {editing : Bool} (h : f.Stands worker thread thrown told asked e₀ list e)
    (hown : f.doing.IsOwn f.rest)
    (hahead : e'.conclusion? inv editing = e.ahead? worker thread f.rest f.doing) :
    Frame.Stands worker thread thrown told asked e₀ list
      { rest := f.doing.after f.rest, entries := f.entries, doing := .command inv editing } e' := by
  cases h with
  | @deeds rest entries _ h =>
    cases rest with
    | nil => exact absurd rfl hown
    | cons d rest => exact .command h hahead.symm (.refl e')
  | @command d rest entries e₁ e₂ first was h hd _ hs =>
    obtain rfl | ⟨hthrown, failures, rfl⟩ := hs
    · exact .command h (hd.trans hahead.symm) (.refl e')
    · -- The end of the command has the switches as they are then.
      have hback : { e' with failures := e₂.failures }.conclusion? inv editing =
          e₂.conclusion? first was := by
        have hahead : e'.conclusion? inv editing =
            { e₂ with failures }.conclusion? first was := hahead
        have hkept := Engine.conclusion?_switched e₂ e₂.failures first was
        rw [Engine.conclusion?_switched, hahead, Engine.conclusion?_switched, Option.map_map]
        exact hkept.symm
      exact .command h (hd.trans hback.symm) (.inr ⟨hthrown, e'.failures, rfl⟩)
  | awaiting _ _ _ => exact hown.elim

/-! ## Whole units -/

namespace Crew

variable {c : Crew} {w : Worker} {run : Running} {e₀ engine : Engine} {list : Work}

/-- What the innermost frame of a unit ends with is what it comes to. -/
theorem Ends.comes {e₁ : Engine} {inner : Work} {r : WorkResult} (h : c.Ends w run engine r)
    (hframe : run.frame.Stands w.name w.thread thrown told asked e₁ inner w.engine) :
    Comes w.name w.thread thrown told e₁ inner r engine := by
  cases h with
  | panics h => exact hframe.panics (sound_of_move? h)
  | returns h =>
    obtain ⟨ticket, holder, ⟨rest, entries, doing⟩, below⟩ := run
    obtain ⟨rfl, rfl⟩ := (Worker.reaches_of_move? h).of_returns
    cases hframe with
    | deeds hpartly => exact ⟨_, _, _, hpartly, .returned _⟩

/-- The move of a unit takes it from where it stands to where it stands then. -/
theorem Moves.stands {frame : Frame} {below : List Frame} (h : c.Moves w run engine frame below)
    (htold : ∀ t other inner r, asked t other inner → c.answer? t = some r → told other inner r)
    (hnew : ∀ other inner rest, c.nextMove? w run = some (.handsOver other inner rest) →
      asked c.replies.length other inner)
    (hs : run.Stands w.name w.thread thrown told asked e₀ list w.engine) :
    ({ run with frame, below } : Running).Stands w.name w.thread thrown told asked e₀ list engine := by
  obtain ⟨inner, e₁, hnested, hframe⟩ := hs
  obtain ⟨ticket, holder, ⟨rest, entries, doing⟩, frames⟩ := run
  cases h with
  | @goes _ _ left more doing' h =>
    refine ⟨inner, e₁, hnested, ?_⟩
    have hsound := sound_of_move? h
    cases doing' with
    | deeds =>
      obtain ⟨rfl, hahead⟩ := hsound
      exact hframe.does hahead
    | command inv editing =>
      obtain ⟨rfl, rfl, hown, hahead⟩ := hsound
      rw [List.append_nil]
      exact hframe.commands hown hahead
    | awaiting ticket => exact hsound.elim
  | enters h =>
    obtain ⟨rfl, rfl⟩ := (Worker.reaches_of_move? h).of_enters
    cases hframe with
    | deeds hpartly => exact ⟨_, _, hnested.within rfl hpartly, .deeds (.begun _ _)⟩
  | handsOver h =>
    have hasked := hnew _ _ _ h
    obtain ⟨rfl, rfl, hne⟩ := (Worker.reaches_of_move? h).of_handsOver
    cases hframe with
    | deeds hpartly => exact ⟨inner, e₁, hnested, .awaiting hpartly hne hasked⟩
  | hears h hr =>
    obtain rfl := (Worker.reaches_of_move? h).of_hears
    cases hframe with
    | awaiting hpartly hother hasked =>
      exact ⟨inner, e₁, hnested, .deeds (hpartly.elsewhere hother (htold _ _ _ _ hasked hr))⟩
  | dropsOwner h =>
    obtain ⟨rfl, rfl⟩ := (Worker.reaches_of_move? h).of_dropsOwner
    cases hframe with
    | deeds hpartly => exact ⟨inner, e₁, hnested, .deeds (hpartly.does rfl)⟩
  | @closes _ _ f _ h hbelow =>
    cases hbelow
    obtain ⟨more, left, e₂, hinner, hcloses⟩ := h.comes hframe
    obtain ⟨left, entries, doing⟩ := f
    cases hnested with
    | within hnested hdoing hf =>
      cases hdoing
      rw [Frame.told_of_deeds _ rfl]
      exact ⟨_, _, hnested, .deeds (hf.within hinner hcloses)⟩

/-- What a unit ends with is what it comes to. -/
theorem Ends.comes_of_stands {r : WorkResult} (h : c.Ends w run engine r) (hbelow : run.below = [])
    (hs : run.Stands w.name w.thread thrown told asked e₀ list w.engine) :
    Comes w.name w.thread thrown told e₀ list r engine := by
  obtain ⟨inner, e₁, hnested, hframe⟩ := hs
  rw [hbelow] at hnested
  cases hnested
  exact h.comes hframe

end Crew

end SharedPrompt
