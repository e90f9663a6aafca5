import SharedPrompt.Console

/-!
# Editing a line

What one key does to the line being typed, and what is written back for it.
-/

namespace SharedPrompt

/-- Overwrites the last character with a blank and steps back. -/
def eraseOne : List Char := ['\x08', ' ', '\x08']

structure Edit where
  line : List Char
  echo : List Char := []
  accepted : Bool := false
  deriving Repr, DecidableEq, Inhabited

/-- Enter accepts, backspace takes the last character, escape clears a command line, a plain
character is appended; all other keys do nothing. -/
def Edit.ofKey (commandLine : Bool) (line : List Char) (key : KeyPress) : Edit :=
  match key.code with
  | .enter => { line, echo := ['\n'], accepted := true }
  | .backspace => if line.isEmpty then { line } else { line := line.dropLast, echo := eraseOne }
  | .escape =>
    if commandLine then { line := [], echo := line.flatMap fun _ => eraseOne } else { line }
  | .char c => if key.ctrl || key.alt then { line } else { line := line ++ [c], echo := [c] }
  | .other => { line }

end SharedPrompt
