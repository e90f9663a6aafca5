import SharedPrompt.Toml.Quoted
import SharedPrompt.Toml.Scalar

/-!
# Reading a settings document

A document is a list of statements, one a line. Every reader takes the text that is left and gives
what it has read and the text after it, or nothing if the text cannot be read.
-/

namespace SharedPrompt.Toml

def dropBlanks (cs : List Char) : List Char := cs.dropWhile isBlank

/-- Leaves out blanks, line ends and comments. -/
def dropTrivia (comment : Bool) : List Char → Option (List Char)
  | [] => some []
  | c :: rest =>
    if c = '\n' then dropTrivia false rest
    else if c = '\r' then if startsLine (c :: rest) then dropTrivia comment rest else none
    else if comment then if isPlain c then dropTrivia true rest else none
    else if isBlank c then dropTrivia false rest
    else if c = '#' then dropTrivia true rest
    else some (c :: rest)

/-- The end of a line, with a comment before it or without. -/
def endLine? (cs : List Char) : Option (List Char) :=
  match dropBlanks cs with
  | [] => some []
  | c :: rest =>
    let back := if c = '#' then rest.dropWhile isPlain else c :: rest
    match back with
    | [] => some []
    | '\n' :: rest | '\r' :: '\n' :: rest => some rest
    | _ => none

def isBare (c : Char) : Bool := c.isAlphanum || c == '_' || c == '-'

/-- One part of a key. -/
def keyPart? (cs : List Char) : Option (String × List Char) :=
  match cs with
  | '"' :: '"' :: '"' :: _ | '\'' :: '\'' :: '\'' :: _ => none
  | _ =>
    match line? cs with
    | some (key, rest) => some (String.ofList key, rest)
    | none =>
      match cs.takeWhile isBare with
      | [] => none
      | key => some (String.ofList key, cs.dropWhile isBare)

/-- A key of one or more parts; `fuel` bounds their number. The text after it has no blanks in
front. -/
def key? : Nat → List Char → Option (List String × List Char)
  | 0, _ => none
  | fuel + 1, cs => do
    let (part, cs) ← keyPart? cs
    match dropBlanks cs with
    | '.' :: cs =>
      let (parts, cs) ← key? fuel (dropBlanks cs)
      some (part :: parts, cs)
    | cs => some ([part], cs)

/-- How deep brackets may be nested. -/
def maxDepth : Nat := 80

mutual
/-- A value, with brackets at most `depth` deep; `fuel` bounds the number of steps. -/
def node? : Nat → Nat → List Char → Option (Node × List Char)
  | 0, _, _ => none
  | fuel + 1, depth, cs =>
    match cs, depth with
    | '[' :: _, 0 | '\x7b' :: _, 0 => none
    | '[' :: cs, depth + 1 => do
      let (items, cs) ← items? fuel depth (← dropTrivia false cs)
      some (.array false items, cs)
    | '\x7b' :: cs, depth + 1 => do
      let (fields, cs) ← fields? fuel depth [] (← dropTrivia false cs)
      some (.table .inline fields, cs)
    | '"' :: _, _ | '\'' :: _, _ => do
      let (s, cs) ← quoted? cs
      some (.str (String.ofList s), cs)
    | cs, _ => readWord? cs

/-- The items of an array, up to its end. -/
def items? : Nat → Nat → List Char → Option (List Node × List Char)
  | 0, _, _ => none
  | fuel + 1, depth, cs =>
    match cs with
    | ']' :: cs => some ([], cs)
    | cs => do
      let (n, cs) ← node? fuel depth cs
      match ← dropTrivia false cs with
      | ']' :: cs => some ([n], cs)
      | ',' :: cs =>
        let (more, cs) ← items? fuel depth (← dropTrivia false cs)
        some (n :: more, cs)
      | _ => none

/-- The fields of a table in braces, up to its end, added to those before. -/
def fields? : Nat → Nat → Table → List Char → Option (Table × List Char)
  | 0, _, _, _ => none
  | fuel + 1, depth, t, cs =>
    match cs with
    | '\x7d' :: cs => some (t, cs)
    | cs => do
      let (key, cs) ← key? fuel cs
      let (n, cs) ← node? fuel depth (dropBlanks (← expect? '=' cs))
      let t ← Table.assign n key t
      match ← dropTrivia false cs with
      | '\x7d' :: cs => some (t, cs)
      | ',' :: cs => fields? fuel depth t (← dropTrivia false cs)
      | _ => none
end

/-- One statement, up to the end of its line. -/
def statement? (fuel : Nat) : List Char → Option (Statement × List Char)
  | '[' :: '[' :: cs => do
    let (path, cs) ← key? fuel (dropBlanks cs)
    some (.item path, ← endLine? (← expect? ']' (← expect? ']' cs)))
  | '[' :: cs => do
    let (path, cs) ← key? fuel (dropBlanks cs)
    some (.header path, ← endLine? (← expect? ']' cs))
  | cs => do
    let (key, cs) ← key? fuel cs
    let (n, cs) ← node? fuel maxDepth (dropBlanks (← expect? '=' cs))
    some (.assign key n, ← endLine? cs)

/-- All statements of a text; `fuel` bounds their number and the steps of each. -/
def statements? : Nat → List Char → Option (List Statement)
  | 0, _ => none
  | fuel + 1, cs => do
    match ← dropTrivia false cs with
    | [] => some []
    | cs =>
      let (s, cs) ← statement? fuel cs
      some (s :: (← statements? fuel cs))

/-- A mark of the byte order may stand in front of a text. -/
def dropMark : List Char → List Char
  | '\ufeff' :: cs => cs
  | cs => cs

/-- Reads a document as one table. -/
def Table.read? (text : String) : Option Table :=
  let cs := dropMark text.toList
  (statements? (2 * cs.length + 2) cs).bind Table.ofStatements?

end SharedPrompt.Toml
