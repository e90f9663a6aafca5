import SharedPrompt.Fault
import SharedPrompt.WaitQueue

/-!
# The console

Keys wait in a buffer until somebody reads them, and text that is written moves a cursor. A
reader with nothing to read waits for a signal; one signal is kept when nobody waits.
-/

namespace SharedPrompt

inductive KeyCode where
  | char (c : Char)
  | enter
  | backspace
  | escape
  /-- Any key that a line reader ignores. -/
  | other
  deriving Repr, DecidableEq, Inhabited

structure KeyPress where
  code : KeyCode
  ctrl : Bool := false
  alt : Bool := false
  deriving Repr, DecidableEq, Inhabited

/-- What reading the next key gives. -/
inductive KeyEvent where
  | press (key : KeyPress)
  | fault (fault : ConsoleFault)
  deriving Repr, DecidableEq, Inhabited

def KeyEvent.result : KeyEvent → Except ConsoleFault KeyPress
  | press k => .ok k
  | fault f => .error f

/-- Largest column and row of a cursor. -/
def cursorLimit : Nat := 65535

structure Cursor where
  column : Nat := 0
  row : Nat := 0
  deriving Repr, DecidableEq, Inhabited

/-- A line feed goes to the start of the next row, a backspace one column back, anything else one
column on; no cursor leaves the limits. -/
def Cursor.advance (c : Cursor) (ch : Char) : Cursor :=
  if ch = '\n' then ⟨0, min (c.row + 1) cursorLimit⟩
  else if ch = '\x08' then { c with column := c.column - 1 }
  else { c with column := min (c.column + 1) cursorLimit }

structure Console (ω : Type) where
  keys : List KeyEvent := []
  signal : WaitQueue ω Unit := {}
  written : List Char := []
  cursor : Cursor := {}
  /-- How many reads of a key have begun. -/
  reads : Nat := 0
  /-- A deaf console does not stop a read of a key when its token fires. -/
  deaf : Bool := false
  deriving Repr, DecidableEq, Inhabited

namespace Console

variable {ω : Type}

def keyAvailable (c : Console ω) : Bool := !c.keys.isEmpty

def write (c : Console ω) (text : List Char) : Console ω :=
  { c with written := c.written ++ text, cursor := text.foldl Cursor.advance c.cursor }

/-- Wakes the oldest waiting reader, or keeps one signal for the next. -/
def raise (c : Console ω) : Console ω :=
  if c.signal.waiting.isEmpty && !c.signal.items.isEmpty then c
  else { c with signal := c.signal.put () }

def pushKey (c : Console ω) (k : KeyEvent) : Console ω := { c with keys := c.keys ++ [k] }.raise

def popKey? (c : Console ω) : Option (KeyEvent × Console ω) :=
  match c.keys with
  | [] => none
  | k :: rest => some (k, { c with keys := rest })

variable [DecidableEq ω]

/-- A reader stops waiting for a signal; one it was given and did not use is raised again. -/
def ignore (c : Console ω) (w : ω) : Console ω :=
  match c.signal.collect? w with
  | some (_, s) => { c with signal := s }.raise
  | none => { c with signal := c.signal.leave w }

end Console

end SharedPrompt
