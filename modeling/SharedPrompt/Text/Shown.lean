import SharedPrompt.Text.Quoted
import SharedPrompt.Text.Stretches

/-!
# Characters and strings as they are shown in diagnostics

A character stands for itself unless it has no mark of its own.
-/

namespace SharedPrompt.Text

def hexDigits (n : Nat) : String := String.ofList ((Nat.toDigits 16 n).map Char.toLower)

def showEscape (c : Char) : String := "\\u\x7b" ++ hexDigits c.toNat ++ "\x7d"

/-- A character between single quotes. -/
def showChar (c : Char) : String :=
  let body :=
    if c = '\x00' then "\\0"
    else if c = '\t' then "\\t"
    else if c = '\r' then "\\r"
    else if c = '\n' then "\\n"
    else if c = '\'' then "\\'"
    else if c = '\\' then "\\\\"
    else if isShown c then c.toString
    else showEscape c
  "'" ++ body ++ "'"

end SharedPrompt.Text
