import SharedPrompt.Text.Quoted

/-!
# Strings of a settings document

Four kinds: in single or double quotes, on one line or, with the quotes tripled, on several. Only
double quotes have escapes. A reader gets the text after the opening quotes and gives the
characters of the string and the text after the closing ones.
-/

namespace SharedPrompt.Toml

open Text

/-- What may stand in a string, a comment or anywhere else where text is free: no control
characters but the tab. -/
def isPlain (c : Char) : Bool := c == '\t' || (' ' ≤ c && c != '\x7f')

def isBlank (c : Char) : Bool := c == ' ' || c == '\t'

abbrev Quoted := List Char × List Char

def Quoted.push (c : Char) (q : Quoted) : Quoted := (c :: q.1, q.2)

def escaped? : Char → Option Char
  | 'b' => some '\x08'
  | 't' => some '\t'
  | 'n' => some '\n'
  | 'f' => some '\x0c'
  | 'r' => some '\r'
  | 'e' => some '\x1b'
  | '"' => some '"'
  | '\\' => some '\\'
  | _ => none

/-- How many hexadecimal digits follow an escape. -/
def hexWidth? : Char → Option Nat
  | 'x' => some 2
  | 'u' => some 4
  | 'U' => some 8
  | _ => none

/-- The character with a number; surrogates are none. -/
def scalar? (n : Nat) : Option Char := if n.isValidChar then some (Char.ofNat n) else none

/-- The character of an escape, after the backslash, and the length of the escape. -/
def escape? : List Char → Option (Char × Nat)
  | [] => none
  | c :: rest =>
    match hexWidth? c with
    | some width =>
      let digits := rest.take width
      if digits.length = width then do
        let values ← digits.mapM hexValue
        some (← scalar? (values.foldl (fun n d => 16 * n + d) 0), width + 1)
      else none
    | none => (escaped? c).map (·, 1)

/-- Up to a single quote. -/
def literal? : List Char → Option Quoted
  | [] => none
  | '\'' :: rest => some ([], rest)
  | c :: rest => if isPlain c then (literal? rest).map (.push c) else none

/-- Up to a double quote; the characters of an escape that has been read are passed over. -/
def basic? (skip : Nat) : List Char → Option Quoted
  | [] => none
  | c :: rest =>
    match skip with
    | k + 1 => basic? k rest
    | 0 =>
      if c = '"' then some ([], rest)
      else if c = '\\' then
        match escape? rest with
        | some (d, length) => (basic? length rest).map (.push d)
        | none => none
      else if isPlain c then (basic? 0 rest).map (.push c)
      else none

/-- How many times a character stands at the front of a text. -/
def run (c : Char) (cs : List Char) : Nat := (cs.takeWhile (· == c)).length

/-- The end of a string of several lines: three quotes, and up to two more before them that belong
to the string. -/
def closing? (quote : Char) (cs : List Char) : Option Quoted :=
  let n := min (run quote cs) 5
  if 3 ≤ n then some (List.replicate (n - 3) quote, cs.drop n) else none

def startsLine : List Char → Bool
  | '\n' :: _ | '\r' :: '\n' :: _ => true
  | _ => false

/-- Up to three single quotes. -/
def literalLines? : List Char → Option Quoted
  | [] => none
  | c :: rest =>
    match closing? '\'' (c :: rest) with
    | some q => some q
    | none =>
      if isPlain c || c == '\n' || startsLine (c :: rest) then (literalLines? rest).map (.push c) else none

/-- Up to three double quotes. A backslash at the end of a line takes all blanks and line ends after
it out of the string; `folding` tells that this is going on. -/
def basicLines? (skip : Nat) (folding : Bool) : List Char → Option Quoted
  | [] => none
  | c :: rest =>
    match skip with
    | k + 1 => basicLines? k folding rest
    | 0 =>
      if folding && (isBlank c || c == '\n') then basicLines? 0 true rest
      else if folding && startsLine (c :: rest) then basicLines? 1 true rest
      else
        match closing? '"' (c :: rest) with
        | some q => some q
        | none =>
          if c = '\\' then
            if startsLine (rest.dropWhile isBlank) then basicLines? 0 true rest
            else
              match escape? rest with
              | some (d, length) => (basicLines? length false rest).map (.push d)
              | none => none
          else if isPlain c || c == '\n' || startsLine (c :: rest) then
            (basicLines? 0 false rest).map (.push c)
          else none

/-- A line end right after opening quotes is not part of the string. -/
def dropLineEnd : List Char → List Char
  | '\n' :: rest | '\r' :: '\n' :: rest => rest
  | cs => cs

/-- A string on one line, quotes included. -/
def line? : List Char → Option Quoted
  | '"' :: rest => basic? 0 rest
  | '\'' :: rest => literal? rest
  | _ => none

/-- A string of any kind, quotes included. -/
def quoted? : List Char → Option Quoted
  | '"' :: '"' :: '"' :: rest => basicLines? 0 false (dropLineEnd rest)
  | '\'' :: '\'' :: '\'' :: rest => literalLines? (dropLineEnd rest)
  | cs => line? cs

end SharedPrompt.Toml
