import SharedPrompt.Text.Quoted
import SharedPrompt.Toml.Tree

/-!
# Words of a settings document

Numbers, truth values and moments: everything that is written without quotes or brackets. Digits
may be set apart by single underscores.
-/

namespace SharedPrompt.Toml

open Text

/-- The digits of a text that holds digits only, and single underscores between them. -/
def separated? (value : Char → Option Nat) : List Char → Option (List Nat)
  | [] => none
  | [c] => (value c).map ([·])
  | c :: '_' :: rest => do some ((← value c) :: (← separated? value rest))
  | c :: rest => do some ((← value c) :: (← separated? value rest))

def ofDigits (base : Nat) (digits : List Nat) : Nat := digits.foldl (fun n d => base * n + d) 0

/-- The digits of a decimal number, which has no zeros in front. -/
def decimal? (cs : List Char) : Option (List Nat) :=
  match cs with
  | '0' :: _ :: _ => none
  | _ => separated? digit? cs

def digitBelow? (base : Nat) (c : Char) : Option Nat :=
  (hexValue c).bind fun d => if d < base then some d else none

/-- A sign, if there is one; whether it is a minus. -/
def sign : List Char → Option Bool × List Char
  | '+' :: rest => (some false, rest)
  | '-' :: rest => (some true, rest)
  | cs => (none, cs)

def int? (cs : List Char) : Option Int :=
  let based (base : Nat) (cs : List Char) : Option Int :=
    (separated? (digitBelow? base) cs).map fun ds => (ofDigits base ds : Int)
  match sign cs with
  | (none, '0' :: 'x' :: rest) => based 16 rest
  | (none, '0' :: 'o' :: rest) => based 8 rest
  | (none, '0' :: 'b' :: rest) => based 2 rest
  | (s, rest) => (decimal? rest).map fun ds =>
    let n : Int := ofDigits 10 ds
    if s = some true then -n else n

def isExponentMark (c : Char) : Bool := c == 'e' || c == 'E'

/-- The exponent of a number, from its mark on. -/
def exponent? : List Char → Option Int
  | [] => some 0
  | _ :: rest =>
    let (s, rest) := sign rest
    (separated? digit? rest).map fun ds =>
      let n : Int := ofDigits 10 ds
      if s = some true then -n else n

/-- The digits after the point, from the point on. -/
def fraction? : List Char → Option (List Nat)
  | [] => some []
  | _ :: rest => separated? digit? rest

def real? (cs : List Char) : Option Real :=
  let (s, cs) := sign cs
  let negative := s = some true
  if cs = "inf".toList then some (.infinite negative)
  else if cs = "nan".toList then some .undefined
  else do
    let front := cs.takeWhile (!isExponentMark ·)
    let exponent ← exponent? (cs.dropWhile (!isExponentMark ·))
    let whole ← decimal? (front.takeWhile (· != '.'))
    let fraction ← fraction? (front.dropWhile (· != '.'))
    some (.decimal negative (ofDigits 10 (whole ++ fraction)) (exponent - fraction.length))

/-- A word on its own. -/
def word? (cs : List Char) : Option Node :=
  if cs = "true".toList then some (.bool true)
  else if cs = "false".toList then some (.bool false)
  else ((int? cs).map .int).orElse fun _ =>
    ((real? cs).map .real).orElse fun _ => (Moment.read? cs).map .moment

/-- What ends a word. -/
def endsWord (c : Char) : Bool := "=,[]\x7b\x7d \t#\r\n".toList.contains c

/-- The word at the front of a text, and the text after it. A date and a time may have a single
space between them. -/
def readWord? (cs : List Char) : Option (Node × List Char) :=
  let front := cs.takeWhile (!endsWord ·)
  let back := cs.dropWhile (!endsWord ·)
  let second := back.tail.takeWhile (!endsWord ·)
  match (Date.read? front).map (·.2), back, second with
  | some [], ' ' :: rest, c :: cs => (word? (front ++ ' ' :: c :: cs)).map (·, rest.drop (c :: cs).length)
  | _, _, _ => (word? front).map (·, back)

end SharedPrompt.Toml
