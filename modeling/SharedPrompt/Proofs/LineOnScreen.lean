import Mathlib.Logic.Function.Basic
import SharedPrompt.Proofs.SharedKeys

/-!
# The line on the screen

What is written back for a key is a character, or a way of erasing characters that stand there. Read
by a terminal, all that a read has written leaves its line on the screen where the cursor was when
the read got hold of the console, with blanks after it and the cursor behind it.
-/

namespace SharedPrompt

/-! ## A terminal -/

/-- A screen without margins: what has been written in each cell, and the cursor. -/
structure Screen where
  cells : Cursor → Option Char
  cursor : Cursor

namespace Screen

/-- A line feed goes to the start of the next row, a backspace one column back; any other character
overwrites the cell at the cursor and goes one column on. -/
def put (s : Screen) (ch : Char) : Screen :=
  if ch = '\n' then { s with cursor := ⟨0, s.cursor.row + 1⟩ }
  else if ch = '\x08' then { s with cursor := ⟨s.cursor.column - 1, s.cursor.row⟩ }
  else ⟨Function.update s.cells s.cursor (some ch), ⟨s.cursor.column + 1, s.cursor.row⟩⟩

def after (origin : Cursor) (text : List Char) : Screen := text.foldl put ⟨fun _ => none, origin⟩

theorem after_append (origin : Cursor) (text more : List Char) :
    after origin (text ++ more) = more.foldl put (after origin text) := List.foldl_append

/-- A line stands on the screen from `origin` on, with blanks after it in all cells that have been
written in, and nothing anywhere else. The cursor is behind the line. -/
structure Shows (s : Screen) (origin : Cursor) (shown : List Char) : Prop where
  cursor : s.cursor = ⟨origin.column + shown.length, origin.row⟩
  text : ∀ i < shown.length, s.cells ⟨origin.column + i, origin.row⟩ = shown[i]?
  blank : ∀ i, shown.length ≤ i → s.cells ⟨origin.column + i, origin.row⟩ = none ∨
    s.cells ⟨origin.column + i, origin.row⟩ = some ' '
  elsewhere : ∀ place : Cursor, place.row ≠ origin.row ∨ place.column < origin.column →
    s.cells place = none

namespace Shows

variable {s : Screen} {origin : Cursor} {line : List Char}

theorem start (origin : Cursor) : (after origin []).Shows origin [] where
  cursor := rfl
  text i hi := absurd hi (Nat.not_lt_zero i)
  blank _ _ := .inl rfl
  elsewhere _ _ := rfl

/-- A cell of the line is another one than that at the column `n`. -/
theorem cell_ne {i n : Nat} (hi : i ≠ n) :
    (⟨origin.column + i, origin.row⟩ : Cursor) ≠ ⟨origin.column + n, origin.row⟩ := by
  intro heq
  have := congrArg Cursor.column heq
  dsimp only at this
  omega

theorem elsewhere_ne {place : Cursor} {n : Nat}
    (hplace : place.row ≠ origin.row ∨ place.column < origin.column) :
    place ≠ ⟨origin.column + n, origin.row⟩ := by
  rintro rfl
  rcases hplace with hrow | hcolumn
  · exact hrow rfl
  · dsimp only at hcolumn
    omega

/-- A character that is typed is put behind the line. -/
theorem type (hs : s.Shows origin line) {ch : Char} (hfeed : ch ≠ '\n') (hback : ch ≠ '\x08') :
    (s.put ch).Shows origin (line ++ [ch]) := by
  rw [put, if_neg hfeed, if_neg hback, hs.cursor]
  constructor
  · simp [Nat.add_assoc]
  · intro i hi
    dsimp only
    rw [List.length_append, List.length_singleton] at hi
    rcases Nat.lt_succ_iff_lt_or_eq.1 hi with hlt | rfl
    · rw [Function.update_of_ne (cell_ne hlt.ne), hs.text i hlt, List.getElem?_append_left hlt]
    · rw [Function.update_self, List.getElem?_append_right le_rfl, Nat.sub_self]
      rfl
  · intro i hi
    rw [List.length_append, List.length_singleton] at hi
    dsimp only
    rw [Function.update_of_ne (cell_ne (by omega))]
    exact hs.blank i (by omega)
  · intro place hplace
    dsimp only
    rw [Function.update_of_ne (elsewhere_ne hplace)]
    exact hs.elsewhere place hplace

/-- Erasing takes the last character of the line from the screen. -/
theorem erase (hs : s.Shows origin line) (hline : line ≠ []) :
    (eraseOne.foldl put s).Shows origin line.dropLast := by
  have hlength : line.dropLast.length = line.length - 1 := List.length_dropLast
  have hpos : 0 < line.length := List.length_pos_iff.2 hline
  have hput : eraseOne.foldl put s =
      ⟨Function.update s.cells ⟨origin.column + line.dropLast.length, origin.row⟩ (some ' '),
        ⟨origin.column + line.dropLast.length, origin.row⟩⟩ := by
    have hback : origin.column + line.length - 1 = origin.column + line.dropLast.length := by omega
    simp only [eraseOne, List.foldl_cons, List.foldl_nil, put, hs.cursor, hback]
    rfl
  rw [hput]
  constructor
  · rfl
  · intro i hi
    dsimp only
    rw [Function.update_of_ne (cell_ne hi.ne), hs.text i (by omega), List.getElem?_dropLast,
      if_pos (by omega)]
  · intro i hi
    dsimp only
    by_cases heq : i = line.dropLast.length
    · rw [heq, Function.update_self]
      exact .inr rfl
    · rw [Function.update_of_ne (cell_ne heq)]
      exact hs.blank i (by omega)
  · intro place hplace
    dsimp only
    rw [Function.update_of_ne (elsewhere_ne hplace)]
    exact hs.elsewhere place hplace

/-- Erasing as often as there are characters takes the whole line from the screen. -/
theorem clear (hs : s.Shows origin line) {times : List Char} (htimes : times.length = line.length) :
    ((times.flatMap fun _ => eraseOne).foldl put s).Shows origin [] := by
  induction times generalizing s line with
  | nil =>
    obtain rfl := List.length_eq_zero_iff.1 htimes.symm
    exact hs
  | cons ch times ih =>
    rw [List.length_cons] at htimes
    have hline : line ≠ [] := by
      rintro rfl
      cases htimes
    rw [List.flatMap_cons, List.foldl_append]
    exact ih (hs.erase hline) (by rw [List.length_dropLast]; omega)

end Shows

end Screen

/-! ## The echo of a key -/

/-- The characters that are typed as such are no line feed and no backspace. -/
def KeyPress.Printable (key : KeyPress) : Prop :=
  ∀ ch, key = ⟨.char ch, false, false⟩ → ch ≠ '\n' ∧ ch ≠ '\x08'

/-- A key other than Enter does nothing, or adds a character, or takes the last one or all of them,
and what is written back says so. -/
theorem Edit.echo_cases (commandLine : Bool) (line : List Char) {key : KeyPress}
    (hkey : key.isEnter = false) :
    ((ofKey commandLine line key).echo = [] ∧ key.edit commandLine line = line) ∨
      (∃ ch, key = ⟨.char ch, false, false⟩ ∧ (ofKey commandLine line key).echo = [ch] ∧
        key.edit commandLine line = line ++ [ch]) ∨
      (line ≠ [] ∧ (ofKey commandLine line key).echo = eraseOne ∧
        key.edit commandLine line = line.dropLast) ∨
      ((ofKey commandLine line key).echo = line.flatMap (fun _ => eraseOne) ∧
        key.edit commandLine line = []) := by
  obtain ⟨code, ctrl, alt⟩ := key
  cases code with
  | char ch =>
    cases ctrl with
    | true => exact .inl ⟨rfl, rfl⟩
    | false =>
      cases alt with
      | true => exact .inl ⟨rfl, rfl⟩
      | false => exact .inr (.inl ⟨ch, rfl, rfl, rfl⟩)
  | enter => cases hkey
  | backspace =>
    cases line with
    | nil => exact .inl ⟨rfl, rfl⟩
    | cons c rest => exact .inr (.inr (.inl ⟨by simp, rfl, rfl⟩))
  | escape =>
    cases commandLine with
    | true => exact .inr (.inr (.inr ⟨rfl, rfl⟩))
    | false => exact .inl ⟨rfl, rfl⟩
  | other => exact .inl ⟨rfl, rfl⟩

/-- After the echo of a key the screen shows the edited line. -/
theorem Screen.Shows.key {s : Screen} {origin : Cursor} {line : List Char}
    (hs : s.Shows origin line) (commandLine : Bool) {key : KeyPress} (hkey : key.isEnter = false)
    (hplain : key.Printable) : ((Edit.ofKey commandLine line key).echo.foldl Screen.put s).Shows
      origin (key.edit commandLine line) := by
  rcases Edit.echo_cases commandLine line hkey with
    ⟨hecho, hline⟩ | ⟨ch, hch, hecho, hline⟩ | ⟨hne, hecho, hline⟩ | ⟨hecho, hline⟩
  · rw [hecho, hline]
    exact hs
  · obtain ⟨hfeed, hback⟩ := hplain ch hch
    rw [hecho, hline]
    exact hs.type hfeed hback
  · rw [hecho, hline]
    exact hs.erase hne
  · rw [hecho, hline]
    exact hs.clear rfl

namespace Cursor

variable {column row : Nat}

theorem advance_erase (hcolumn : column + 1 ≤ cursorLimit) :
    eraseOne.foldl advance ⟨column + 1, row⟩ = ⟨column, row⟩ := by
  have hback : advance ⟨column + 1, row⟩ '\x08' = ⟨column, row⟩ := rfl
  have hblank : advance ⟨column, row⟩ ' ' = ⟨column + 1, row⟩ := by
    change Cursor.mk (min (column + 1) cursorLimit) row = _
    rw [Nat.min_eq_left hcolumn]
  rw [eraseOne, List.foldl_cons, hback, List.foldl_cons, hblank, List.foldl_cons, hback]
  rfl

theorem advance_clear {times : List Char} (hcolumn : column + times.length ≤ cursorLimit) :
    (times.flatMap fun _ => eraseOne).foldl advance ⟨column + times.length, row⟩ =
      ⟨column, row⟩ := by
  induction times with
  | nil => rfl
  | cons ch times ih =>
    rw [List.length_cons] at hcolumn
    rw [List.flatMap_cons, List.foldl_append, List.length_cons, ← Nat.add_assoc,
      advance_erase (by omega)]
    exact ih (by omega)

/-- The cursor of the console moves with the line, as long as the limit is far enough. -/
theorem advance_key {line : List Char} (commandLine : Bool) {key : KeyPress}
    (hkey : key.isEnter = false) (hplain : key.Printable)
    (hbefore : column + line.length ≤ cursorLimit)
    (hafter : column + (key.edit commandLine line).length ≤ cursorLimit) :
    (Edit.ofKey commandLine line key).echo.foldl advance ⟨column + line.length, row⟩ =
      ⟨column + (key.edit commandLine line).length, row⟩ := by
  rcases Edit.echo_cases commandLine line hkey with
    ⟨hecho, hline⟩ | ⟨ch, hch, hecho, hline⟩ | ⟨hne, hecho, hline⟩ | ⟨hecho, hline⟩
  · rw [hecho, hline]
    rfl
  · obtain ⟨hfeed, hback⟩ := hplain ch hch
    rw [hline, List.length_append, List.length_singleton] at hafter
    rw [hecho, hline, List.foldl_cons, List.foldl_nil, advance, if_neg hfeed, if_neg hback,
      List.length_append, List.length_singleton, ← Nat.add_assoc]
    exact congrArg (Cursor.mk · row) (Nat.min_eq_left (by omega))
  · have hpos : 0 < line.length := List.length_pos_iff.2 hne
    have hlength : column + line.length = column + line.dropLast.length + 1 := by
      rw [List.length_dropLast]
      omega
    rw [hlength] at hbefore
    rw [hecho, hline, hlength]
    exact advance_erase hbefore
  · rw [hecho, hline]
    exact advance_clear hbefore

end Cursor

/-! ## A read at the console -/

namespace Host

/-- The screen after a read whose line is `text`: all that was written since `before`, where the read
had just got hold of the console, shows the line, and the console's cursor is that of the screen. -/
def ShowsLine (before h : Host) (text : List Char) : Prop :=
  ∃ since, h.console.written = before.console.written ++ since ∧
    (Screen.after before.console.cursor since).Shows before.console.cursor text ∧
      h.console.cursor = (Screen.after before.console.cursor since).cursor

section
variable {n : Nat} {cursor : Cursor} {past later : List Event} {t token : Nat} {commandLine : Bool}

/-- A read that has the ticket is the only one that takes keys. -/
theorem KeyboardKept.eq_of_tickets {h : Host} (hk : h.KeyboardKept) {t u : Nat} {c c' : ConsoleRead}
    (hc : h.consoleOf? t = some c) (hticket : c.tickets = 1) (hc' : h.consoleOf? u = some c')
    {own : Nat} (hkeys : c'.keys? = some own) : u = t := by
  have hkeysOf : h.keysOf? u = some own := by
    rw [keysOf?, hc', Option.bind_some, hkeys]
  refine hk.sole u t (readerTickets_of_keysOf hkeysOf) ?_
  rw [readerTickets, hc]
  exact hticket

/-- While the read has the ticket, its line is what the keys type that it has taken, and the screen
shows it. -/
theorem shows_run (hpast : ∀ e ∈ past ++ later, e.atReader n = true)
    (hopened : ((reading n cursor).run past).consoleOf? t = some (.opened commandLine token))
    (hplain : ∀ p ∈ ((reading n cursor).run past).takenBy later t, p.Printable)
    (hroom : ∀ keys, keys <+: ((reading n cursor).run past).takenBy later t →
      ((reading n cursor).run past).console.cursor.column + (typed commandLine keys).length <
        cursorLimit)
    {c : ConsoleRead} (hc : ((reading n cursor).run (past ++ later)).consoleOf? t = some c) :
    c.tickets = 1 ∧ c.isCommandLine = commandLine ∧
      c.text = typed commandLine (((reading n cursor).run past).takenBy later t) ∧
        ((reading n cursor).run past).ShowsLine ((reading n cursor).run (past ++ later)) c.text := by
  have hk := wellKept_reading n cursor
  induction later using List.reverseRecOn generalizing c with
  | nil =>
    rw [List.append_nil] at hc ⊢
    obtain rfl := Option.some.inj (hopened.symm.trans hc)
    exact ⟨rfl, rfl, rfl, [], (List.append_nil _).symm, .start _, rfl⟩
  | append_singleton later e ih =>
    rw [← List.append_assoc] at hpast hc ⊢
    have hbefore e' (he' : e' ∈ past ++ later) := hpast e' (List.mem_append_left _ he')
    have hbegins : ((reading n cursor).run past).takenBy later t <+:
        ((reading n cursor).run past).takenBy (later ++ [e]) t := by
      rw [takenBy_concat]
      exact List.prefix_append _ _
    have hold {c : ConsoleRead}
        (hc : ((reading n cursor).run (past ++ later)).consoleOf? t = some c) :=
      ih hbefore (fun p hp => hplain p (hbegins.subset hp))
        (fun keys hkeys => hroom keys (hkeys.trans hbegins)) hc
    have hstroke := (atReader_reading cursor hbefore).stroke
      (hk.run (past ++ later)).numbered (hpast e (List.mem_append_right _ (List.mem_singleton_self e)))
    have hkeyboard := (keyboardKept_reading n cursor).run hk (past ++ later)
    rw [← run_concat] at hstroke
    -- Where the read takes no key, its line, the text and the cursor are as they were.
    have hquiet {c' : ConsoleRead}
        (hc' : ((reading n cursor).run (past ++ later)).consoleOf? t = some c')
        (hgoes : c'.GoesOn c)
        (htakes : ((reading n cursor).run (past ++ later)).takes? e = none)
        (hface : ((reading n cursor).run (past ++ later ++ [e])).console.face.2 =
          ((reading n cursor).run (past ++ later)).console.face.2) :
        c.tickets = 1 ∧ c.isCommandLine = commandLine ∧
          c.text = typed commandLine (((reading n cursor).run past).takenBy (later ++ [e]) t) ∧
            ((reading n cursor).run past).ShowsLine
              ((reading n cursor).run (past ++ later ++ [e])) c.text := by
      obtain ⟨hticket, hmode, htext, since, hwritten, hshows, hcursor⟩ := hold hc'
      have hle : c.tickets ≤ 1 := by cases c <;> simp [ConsoleRead.tickets]
      refine ⟨by have := hgoes.ticket; omega, hgoes.mode.trans hmode, ?_, ?_⟩
      · rw [takenBy_concat_of_none, hgoes.text, htext]
        rwa [← run_append]
      · rw [hgoes.text]
        exact ⟨since, (congrArg Prod.fst hface).trans hwritten, hshows,
          (congrArg Prod.snd hface).trans hcursor⟩
    cases hstroke with
    | still htakes _ hface hreads =>
      rcases hreads t c hc with ⟨c', hc', hgoes⟩ | ⟨_, _, -, hnew, -⟩
      · exact hquiet hc' hgoes htakes (congrArg Prod.snd hface)
      · have hstarted : t < ((reading n cursor).run past).nextTask :=
          lt_nextTask (hk.run past).numbered
            ((atReader_reading cursor fun e he => hbefore e (List.mem_append_left _ he)).consoleOf? hopened)
        have hgrows := ((reading n cursor).run past).grows_run later
        rw [← run_append] at hgrows
        exact absurd hnew (hstarted.trans_le hgrows.nextTask).ne
    | pressed p he hface hreads =>
      subst he
      exact hquiet ((hreads t).symm.trans hc) (.refl c) rfl (congrArg (·.2) hface)
    | struck u bias p rest call line mode own he hread htakes _ hface hreads hends hgoes =>
      subst he
      have hu : u = t := by
        by_contra hne
        have hc' := (hreads t (Ne.symm hne)).symm.trans hc
        exact hne (hkeyboard.eq_of_tickets hc' (hold hc').1 hread rfl)
      subst hu
      obtain ⟨-, hmode, htext, since, hwritten, hshows, hcursor⟩ := hold hread
      have hmode : mode = commandLine := hmode
      have htext : line = typed commandLine (((reading n cursor).run past).takenBy later u) := htext
      subst hmode
      have htaken : ((reading n cursor).run past).takenBy (later ++ [.poll u bias]) u =
          ((reading n cursor).run past).takenBy later u ++ [p] := by
        rw [takenBy_concat_of_some (u := u) (p := p), if_pos rfl]
        rwa [← run_append]
      cases henter : p.isEnter with
      | true =>
        rw [(hends henter).2] at hc
        cases hc
      | false =>
        rw [hgoes henter] at hc
        obtain rfl := Option.some.inj hc
        have hprint : p.Printable := hplain p (by rw [htaken]; simp)
        have hline : p.edit mode line =
            typed mode (((reading n cursor).run past).takenBy (later ++ [.poll u bias]) u) := by
          rw [htaken, typed_concat, htext]
        have hcolumn : ((reading n cursor).run (past ++ later)).console.cursor =
            ⟨((reading n cursor).run past).console.cursor.column + line.length,
              ((reading n cursor).run past).console.cursor.row⟩ := hcursor.trans hshows.cursor
        have hafter : ((Edit.ofKey mode line p).echo.foldl Screen.put
            (Screen.after ((reading n cursor).run past).console.cursor since)).Shows
              ((reading n cursor).run past).console.cursor (p.edit mode line) :=
          hshows.key mode henter hprint
        refine ⟨rfl, rfl, hline, since ++ (Edit.ofKey mode line p).echo, ?_, ?_, ?_⟩
        · rw [← List.append_assoc, ← hwritten]
          exact congrArg (·.2.1) hface
        · rw [Screen.after_append]
          exact hafter
        · rw [Screen.after_append, hafter.cursor]
          refine (congrArg (·.2.2) hface).trans ?_
          dsimp only
          rw [hcolumn]
          refine Cursor.advance_key mode henter hprint ?_ ?_
          · rw [htext]
            exact (hroom _ hbegins).le
          · rw [hline]
            exact (hroom _ List.prefix_rfl).le

/-- While a read goes on that has got hold of the console, the screen shows its line, wherever it
began and whatever happens at the reader, if no line feed and no backspace is typed and the line
stays within the limit. When the line is accepted, the cursor goes to the start of the next row. -/
theorem screen_shows_line (n : Nat) (cursor : Cursor) (past later : List Event) (t token : Nat)
    (commandLine : Bool) (hpast : ∀ e ∈ past ++ later, e.atReader n = true)
    (hopened : ((reading n cursor).run past).consoleOf? t = some (.opened commandLine token))
    (hplain : ∀ p ∈ ((reading n cursor).run past).takenBy later t, p.Printable)
    (hroom : ∀ keys, keys <+: ((reading n cursor).run past).takenBy later t →
      ((reading n cursor).run past).console.cursor.column + (typed commandLine keys).length <
        cursorLimit) :
    let before := (reading n cursor).run past
    let h := (reading n cursor).run (past ++ later)
    (∀ c, h.consoleOf? t = some c →
      c.text = typed commandLine (before.takenBy later t) ∧ before.ShowsLine h c.text) ∧
    ∀ e p, h.takes? e = some (t, p) → p.isEnter = true →
      let accepted := (reading n cursor).run (past ++ later ++ [e])
      ∃ since, accepted.console.written = before.console.written ++ since ∧
        (Screen.after before.console.cursor since).cursor = ⟨0, before.console.cursor.row + 1⟩ ∧
          (before.console.cursor.row < cursorLimit →
            accepted.console.cursor = ⟨0, before.console.cursor.row + 1⟩) := by
  intro before h
  have hk := wellKept_reading n cursor
  refine ⟨fun c hc => (shows_run hpast hopened hplain hroom hc).2.2, fun e p htakes henter => ?_⟩
  have he : e.atReader n = true := by
    cases e with
    | poll u bias => rfl
    | _ => cases htakes
  have hstroke := (atReader_reading cursor hpast).stroke
    (hk.run (past ++ later)).numbered he
  rw [← run_concat] at hstroke
  cases hstroke with
  | still hnone => cases hnone.symm.trans htakes
  | pressed q hq =>
    subst hq
    cases htakes
  | struck u bias q rest call line mode own hpoll hread hstruck _ hface =>
    obtain ⟨rfl, rfl⟩ := Prod.mk.inj (Option.some.inj (hstruck.symm.trans htakes))
    obtain ⟨-, -, -, since, hwritten, hshows, hcursor⟩ :=
      shows_run hpast hopened hplain hroom hread
    have hecho : (Edit.ofKey mode line q).echo = ['\n'] := by
      obtain ⟨code, ctrl, alt⟩ := q
      cases code with
      | enter => rfl
      | _ => cases henter
    rw [hecho] at hface
    refine ⟨since ++ ['\n'], ?_, ?_, fun hrow => ?_⟩
    · rw [← List.append_assoc, ← hwritten]
      exact congrArg (·.2.1) hface
    · rw [Screen.after_append]
      change (⟨0, (Screen.after before.console.cursor since).cursor.row + 1⟩ : Cursor) = _
      rw [hshows.cursor]
    · refine (congrArg (·.2.2) hface).trans ?_
      change (⟨0, min (h.console.cursor.row + 1) cursorLimit⟩ : Cursor) = _
      rw [hcursor, hshows.cursor]
      exact congrArg (Cursor.mk 0) (Nat.min_eq_left hrow)

/-- A read has got hold of the console, with the cursor in the middle of a row. -/
def cursorMidway : List Event := .start (.line true 0) :: List.replicate 2 (.poll 0 [])

/-- Two characters are typed, the first of them is left, and then Enter. -/
def oneErased : List Event :=
  [.char 'a', .char 'b', .backspace, .enter].map (fun code => .key (.press ⟨code, false, false⟩)) ++
    List.replicate 8 (.poll 0 [])

/-- The screen shows what is left, and Enter moves the cursor to the next row. -/
theorem screen_shows_line_oneErased :
    ((reading 1 ⟨7, 3⟩).run (cursorMidway ++ oneErased)).consoleOf? 0 =
        some (.key (.look 1) ['a'] true 1) ∧
      ((reading 1 ⟨7, 3⟩).run cursorMidway).ShowsLine
        ((reading 1 ⟨7, 3⟩).run (cursorMidway ++ oneErased)) ['a'] ∧
      ((reading 1 ⟨7, 3⟩).run (cursorMidway ++ oneErased ++ [.poll 0 []])).console.cursor =
        ⟨0, 4⟩ := by
  have hopened : ((reading 1 ⟨7, 3⟩).run cursorMidway).consoleOf? 0 = some (.opened true 0) := rfl
  have hcursor : ((reading 1 ⟨7, 3⟩).run cursorMidway).console.cursor = ⟨7, 3⟩ := rfl
  have htaken : ((reading 1 ⟨7, 3⟩).run cursorMidway).takenBy oneErased 0 =
      [⟨.char 'a', false, false⟩, ⟨.char 'b', false, false⟩, ⟨.backspace, false, false⟩] := by
    decide +kernel
  have hread : ((reading 1 ⟨7, 3⟩).run (cursorMidway ++ oneErased)).consoleOf? 0 =
      some (.key (.look 1) ['a'] true 1) := by decide +kernel
  obtain ⟨hshows, haccepts⟩ := screen_shows_line 1 ⟨7, 3⟩ cursorMidway oneErased 0 0 true
    (by decide) hopened
    (by
      rw [htaken]
      rintro p hp ch rfl
      simp only [List.mem_cons, KeyPress.mk.injEq, KeyCode.char.injEq, List.not_mem_nil] at hp
      rcases hp with ⟨rfl, -⟩ | ⟨rfl, -⟩ | ⟨⟨⟩, -⟩ | hp
      · decide
      · decide
      · exact hp.elim)
    (by
      rw [htaken, hcursor]
      intro keys hkeys
      have hroom : ∀ keys ∈ List.inits [⟨.char 'a', false, false⟩, ⟨.char 'b', false, false⟩,
        ⟨.backspace, false, false⟩], 7 + (typed true keys).length < cursorLimit := by decide
      exact hroom keys ((List.mem_inits _ _).2 hkeys))
  obtain ⟨-, -, -, hrow⟩ := haccepts (.poll 0 []) ⟨.enter, false, false⟩ (by decide +kernel) rfl
  rw [hcursor] at hrow
  exact ⟨hread, (hshows _ hread).2, hrow (by decide)⟩

end

end Host

end SharedPrompt
