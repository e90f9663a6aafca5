/-!
# Blank characters and lines

`isBlank` is the Unicode property White_Space. Lines end at a line feed, and one carriage return
before it belongs to the line end.
-/

namespace SharedPrompt.Text

/-- The characters with the property White_Space. -/
def isBlank (c : Char) : Bool :=
  let n := c.toNat
  (9 ≤ n && n ≤ 13) || n == 0x20 || n == 0x85 || n == 0xA0 || n == 0x1680 ||
  (0x2000 ≤ n && n ≤ 0x200A) || n == 0x2028 || n == 0x2029 || n == 0x202F || n == 0x205F ||
  n == 0x3000

/-- Splits at every line feed; the last piece is what follows the last one. -/
def splitLines : List Char → List (List Char)
  | [] => [[]]
  | c :: cs =>
    if c = '\n' then [] :: splitLines cs
    else match splitLines cs with
      | [] => [[c]]
      | l :: ls => (c :: l) :: ls

def trimStart (cs : List Char) : List Char := cs.dropWhile isBlank

def trim (cs : List Char) : List Char := (trimStart (trimStart cs).reverse).reverse

/-- The first line that is not blank, without the blanks around it. A return before the line end
is dropped with the line end or as a blank, so one rule serves both. -/
def firstLine (s : String) : String :=
  match ((splitLines s.toList).map trim).find? (!·.isEmpty) with
  | some line => String.ofList line
  | none => ""

end SharedPrompt.Text
