import SharedPrompt.Value
import SharedPrompt.Text.Quoted

/-!
# Values as JSON text

`Value.text` writes a value without spaces. `Value.read?` reads one JSON value: the text is cut
into tokens, and the tokens are folded over a stack of the arrays and objects still open.
-/

namespace SharedPrompt

open Number Text

namespace Value

mutual
/-- Compact JSON text, fields in the order of their keys. -/
def text : Value → String
  | .null => "null"
  | .bool b => if b then "true" else "false"
  | .int n => toString n
  | .float x => x.text
  | .str s => quote s
  | .arr items => "[" ++ itemsText items ++ "]"
  | .obj fields => "\x7b" ++ fieldsText fields ++ "\x7d"

def itemsText : List Value → String
  | [] => ""
  | [v] => text v
  | v :: rest => text v ++ "," ++ itemsText rest

def fieldsText : List (String × Value) → String
  | [] => ""
  | [(k, v)] => quote k ++ ":" ++ text v
  | (k, v) :: rest => quote k ++ ":" ++ text v ++ "," ++ fieldsText rest
end

end Value

namespace Json

inductive Token where
  | open_ (object : Bool)
  | close (object : Bool)
  | comma
  | colon
  | str (s : String)
  | word (s : String)
  deriving Repr, DecidableEq

/-- What the lexer is inside of; texts are kept backwards. -/
inductive Mode where
  | between
  | str (acc : List Char)
  | escape (acc : List Char)
  | unicode (acc : List Char) (high : Option Nat) (value count : Nat)
  | afterHigh (acc : List Char) (high : Nat) (slash : Bool)
  | word (acc : List Char)
  deriving Repr

def escaped : Char → Option Char
  | '"' => some '"'
  | '\\' => some '\\'
  | '/' => some '/'
  | 'b' => some '\x08'
  | 'f' => some '\x0c'
  | 'n' => some '\n'
  | 'r' => some '\r'
  | 't' => some '\t'
  | _ => none

def isBlank (c : Char) : Bool := c == ' ' || c == '\n' || c == '\r' || c == '\t'

def punctuation : Char → Option Token
  | '\x7b' => some (.open_ true)
  | '\x7d' => some (.close true)
  | '[' => some (.open_ false)
  | ']' => some (.close false)
  | ',' => some .comma
  | ':' => some .colon
  | _ => none

private def backwards (acc : List Char) : String := String.ofList acc.reverse

/-- Cuts the text into tokens, latest first. -/
def lex (mode : Mode) (done : List Token) : List Char → Option (List Token)
  | [] => match mode with
    | .between => some done
    | .word acc => some (.word (backwards acc) :: done)
    | _ => none
  | c :: cs => match mode with
    | .between =>
      if isBlank c then lex .between done cs
      else if c = '"' then lex (.str []) done cs
      else match punctuation c with
        | some t => lex .between (t :: done) cs
        | none => lex (.word [c]) done cs
    | .word acc =>
      if isBlank c then lex .between (.word (backwards acc) :: done) cs
      else if c = '"' then none
      else match punctuation c with
        | some t => lex .between (t :: .word (backwards acc) :: done) cs
        | none => lex (.word (c :: acc)) done cs
    | .str acc =>
      if c = '"' then lex .between (.str (backwards acc) :: done) cs
      else if c = '\\' then lex (.escape acc) done cs
      else if c.toNat < 32 then none
      else lex (.str (c :: acc)) done cs
    | .escape acc =>
      if c = 'u' then lex (.unicode acc none 0 0) done cs
      else match escaped c with
        | some d => lex (.str (d :: acc)) done cs
        | none => none
    | .unicode acc high value count => match hexValue c with
      | none => none
      | some d =>
        let value := value * 16 + d
        if count < 3 then lex (.unicode acc high value (count + 1)) done cs
        else match high with
          | none =>
            if 0xD800 ≤ value ∧ value < 0xDC00 then lex (.afterHigh acc value false) done cs
            else if 0xDC00 ≤ value ∧ value < 0xE000 then none
            else lex (.str (Char.ofNat value :: acc)) done cs
          | some h =>
            if 0xDC00 ≤ value ∧ value < 0xE000 then
              lex (.str (Char.ofNat (0x10000 + (h - 0xD800) * 0x400 + (value - 0xDC00)) :: acc)) done cs
            else none
    | .afterHigh acc high slash =>
      if slash then (if c = 'u' then lex (.unicode acc (some high) 0 0) done cs else none)
      else if c = '\\' then lex (.afterHigh acc high true) done cs
      else none

def digitsValue (cs : List Char) : Nat := cs.foldl (fun n c => n * 10 + (c.toNat - 48)) 0

/-- The largest significand that is kept; digits past it are dropped. -/
def maxSignificand : Nat := powTwo 64 - 1

/-- Takes digits while they fit the significand; also how many were taken. -/
def takeDigits (n : Nat) (count : Nat) : List Char → Nat × Nat × List Char
  | [] => (n, count, [])
  | c :: cs =>
    let n' := n * 10 + (c.toNat - 48)
    if n' ≤ maxSignificand then takeDigits n' (count + 1) cs else (n, count, c :: cs)

/-- The parts of a number's text. -/
structure Numeral where
  negative : Bool
  whole : List Char
  fraction : Option (List Char)
  exponent : Option (Bool × List Char)

def Numeral.ofChars? (cs : List Char) : Option Numeral := do
  let (negative, cs) := match cs with
    | '-' :: rest => (true, rest)
    | _ => (false, cs)
  let whole := cs.takeWhile Char.isDigit
  let cs := cs.dropWhile Char.isDigit
  guard (!whole.isEmpty && (whole.length == 1 || whole.head? != some '0'))
  let (fraction, cs) := match cs with
    | '.' :: rest => (some (rest.takeWhile Char.isDigit), rest.dropWhile Char.isDigit)
    | _ => (none, cs)
  guard (fraction != some [])
  match cs with
  | [] => some ⟨negative, whole, fraction, none⟩
  | e :: rest =>
    guard (e == 'e' || e == 'E')
    let (down, rest) := match rest with
      | '-' :: r => (true, r)
      | '+' :: r => (false, r)
      | _ => (false, rest)
    guard (!rest.isEmpty && rest.all Char.isDigit)
    some ⟨negative, whole, fraction, some (down, rest)⟩

/-- A float is its leading digits, as far as they fit 64 bits, scaled by a power of ten. -/
def Numeral.float? (n : Numeral) : Option Binary64 := do
  let (sig, _, wholeRest) := takeDigits 0 0 n.whole
  let fraction := n.fraction.getD []
  let (sig, taken, _) := takeDigits sig 0 fraction
  let places := (wholeRest.length : Int) - taken
  let places := match n.exponent with
    | none => places
    | some (down, ds) => if down then places - digitsValue ds else places + digitsValue ds
  let start ← Binary64.ofRatio sig 1
  let x ← start.scaleByTen places
  some { x with negative := n.negative }

/-- A number without fraction or exponent is an integer if it fits 64 bits; minus zero does not. -/
def Numeral.value? (n : Numeral) : Option Value :=
  let whole := digitsValue n.whole
  if n.fraction.isNone ∧ n.exponent.isNone ∧ n.negative ∧ whole ≠ 0 ∧ whole ≤ powTwo 63 then
    some (.int (-(whole : Int)))
  else if n.fraction.isNone ∧ n.exponent.isNone ∧ !n.negative ∧ whole ≤ maxSignificand then
    some (.int whole)
  else n.float?.map .float

def wordValue? (s : String) : Option Value :=
  if s = "null" then some .null
  else if s = "true" then some (.bool true)
  else if s = "false" then some (.bool false)
  else (Numeral.ofChars? s.toList).bind Numeral.value?

/-- A container still open: its values so far, latest first. -/
inductive Open where
  | arr (items : List Value)
  | obj (fields : List (String × Value)) (key : Option String)

/-- What may come next. -/
inductive Expect where
  | value
  | valueOrClose
  | keyOrClose
  | key
  | colon
  | commaOrClose
  | done
  deriving DecidableEq

structure State where
  stack : List Open
  expect : Expect
  result : Option Value

/-- Places a finished value in the innermost open container. -/
def State.place (v : Value) : List Open → Option State
  | [] => some ⟨[], .done, some v⟩
  | .arr items :: rest => some ⟨.arr (v :: items) :: rest, .commaOrClose, none⟩
  | .obj fields (some k) :: rest => some ⟨.obj ((k, v) :: fields) none :: rest, .commaOrClose, none⟩
  | .obj _ none :: _ => none

def State.step (s : State) (t : Token) : Option State :=
  match s.expect, t with
  | .value, .open_ object | .valueOrClose, .open_ object =>
    if object then some ⟨.obj [] none :: s.stack, .keyOrClose, none⟩
    else some ⟨.arr [] :: s.stack, .valueOrClose, none⟩
  | .value, .str x | .valueOrClose, .str x => State.place (.str x) s.stack
  | .value, .word x | .valueOrClose, .word x => (wordValue? x).bind (State.place · s.stack)
  | .keyOrClose, .str k | .key, .str k => match s.stack with
    | .obj fields none :: rest => some ⟨.obj fields (some k) :: rest, .colon, none⟩
    | _ => none
  | .colon, .colon => some { s with expect := .value }
  | .commaOrClose, .comma => match s.stack with
    | .obj .. :: _ => some { s with expect := .key }
    | .arr .. :: _ => some { s with expect := .value }
    | [] => none
  | .valueOrClose, .close object | .keyOrClose, .close object | .commaOrClose, .close object =>
    match s.stack, object with
    | .arr items :: rest, false => State.place (.arr items.reverse) rest
    | .obj fields none :: rest, true => State.place (Value.ofFields fields.reverse) rest
    | _, _ => none
  | _, _ => none

end Json

/-- Reads one JSON value. -/
def Value.read? (s : String) : Option Value := do
  let tokens ← Json.lex .between [] s.toList
  let state ← tokens.reverse.foldlM Json.State.step ⟨[], .value, none⟩
  state.result

end SharedPrompt
