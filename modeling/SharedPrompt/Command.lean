import SharedPrompt.Value
import SharedPrompt.Text.Blank

/-!
# Commands and the options they run with
-/

namespace SharedPrompt

/-- One unit of work for the engine. -/
inductive Command where
  | script (text : String)
  | call (name : String) (args : List Value)
  /-- Reads one line with the engine's own line editor. -/
  | readLine
  /-- Makes a blocked line editor give up its input and return. -/
  | revertLine
  deriving Repr, Inhabited

namespace Command

def isLineEditor : Command → Bool
  | readLine | revertLine => true
  | _ => false

/-- How a command is named in logs: a script by its first line that is not blank, a call by its
name and the number of its arguments. -/
def display : Command → String
  | script text => "script `" ++ Text.firstLine text ++ "`"
  | call name args => "call `" ++ name ++ "` (" ++ toString args.length ++ " args)"
  | readLine => "read-line"
  | revertLine => "revert-read-line"

def same : Command → Command → Bool
  | script a, script b => a == b
  | call n as, call m bs => n == m && Value.sameItems as bs
  | readLine, readLine => true
  | revertLine, revertLine => true
  | _, _ => false

instance : BEq Command := ⟨same⟩

end Command

/-- What the host does around a command. -/
structure Options where
  writeOutput : Bool := true
  writeErrors : Bool := true
  history : Bool := false
  /-- Stop a read in progress instead of waiting for an idle moment of it. -/
  interrupt : Bool := false
  /-- The command is the interactive read itself. -/
  readLine : Bool := false
  deriving Repr, DecidableEq, Inhabited

namespace Options

def silent : Options := { writeOutput := false, writeErrors := false }

def reading : Options := { silent with readLine := true }

/-- Five letters, one for each option that is on. -/
def flags (o : Options) : String :=
  let mark (on : Bool) (c : Char) : Char := if on then c else '-'
  String.ofList [mark o.writeOutput 'o', mark o.writeErrors 'e', mark o.history 'h',
    mark o.interrupt 'i', mark o.readLine 'r']

end Options

end SharedPrompt
