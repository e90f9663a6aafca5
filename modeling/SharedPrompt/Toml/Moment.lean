import SharedPrompt.Number.Power

/-!
# Dates and times

A moment is a date, a time, or both, and with both it may have an offset from universal time.
`Moment.read?` reads one and `Moment.text` writes it in its one normal form.
-/

namespace SharedPrompt.Toml

open Number

structure Date where
  year : Nat
  month : Nat
  day : Nat
  deriving Repr, DecidableEq, Inhabited

structure Time where
  hour : Nat
  minute : Nat
  second : Option Nat := none
  /-- In billionths of a second. -/
  fraction : Option Nat := none
  deriving Repr, DecidableEq, Inhabited

inductive Offset where
  | utc
  | minutes (n : Int)
  deriving Repr, DecidableEq, Inhabited

structure Moment where
  date : Option Date := none
  time : Option Time := none
  offset : Option Offset := none
  deriving Repr, DecidableEq, Inhabited

def digit? (c : Char) : Option Nat := if c.isDigit then some (c.toNat - '0'.toNat) else none

/-- A number of exactly `width` digits at the front of a text. -/
def fixedNumber? (width : Nat) (cs : List Char) : Option (Nat × List Char) := do
  let front := cs.take width
  if front.length = width then
    let digits ← front.mapM digit?
    some (digits.foldl (fun n d => 10 * n + d) 0, cs.drop width)
  else none

def expect? (c : Char) : List Char → Option (List Char)
  | d :: rest => if d = c then some rest else none
  | [] => none

/-- The decimal text of a number, filled up with zeros on the left. -/
def padded (width n : Nat) : String :=
  let digits := (Nat.repr n).toList
  String.ofList (List.replicate (width - digits.length) '0' ++ digits)

namespace Date

def isLeap (year : Nat) : Bool := year % 4 == 0 && (year % 100 != 0 || year % 400 == 0)

def daysIn (year month : Nat) : Nat :=
  if month = 2 then if isLeap year then 29 else 28
  else if month = 4 || month = 6 || month = 9 || month = 11 then 30
  else 31

def read? (cs : List Char) : Option (Date × List Char) := do
  let (year, cs) ← fixedNumber? 4 cs
  let (month, cs) ← fixedNumber? 2 (← expect? '-' cs)
  let (day, cs) ← fixedNumber? 2 (← expect? '-' cs)
  if 1 ≤ month && month ≤ 12 && 1 ≤ day && day ≤ daysIn year month then some (⟨year, month, day⟩, cs)
  else none

def text (d : Date) : String := padded 4 d.year ++ "-" ++ padded 2 d.month ++ "-" ++ padded 2 d.day

end Date

namespace Time

/-- Nine places of a fraction; what is finer is cut off. -/
def nineDigits (digits : List Nat) : Nat :=
  let front := digits.take 9
  front.foldl (fun n d => 10 * n + d) 0 * powTen (9 - front.length)

def readFraction? : List Char → Option (Option Nat × List Char)
  | '.' :: cs =>
    match (cs.takeWhile Char.isDigit).mapM digit? with
    | some (d :: ds) => some (some (nineDigits (d :: ds)), cs.dropWhile Char.isDigit)
    | _ => none
  | cs => some (none, cs)

/-- The seconds, with or without a fraction; they may be left out. A minute may have a second
more than usual. -/
def readSeconds? : List Char → Option ((Option Nat × Option Nat) × List Char)
  | ':' :: cs => do
    let (second, cs) ← fixedNumber? 2 cs
    let (fraction, cs) ← readFraction? cs
    if second ≤ 60 then some ((some second, fraction), cs) else none
  | cs => some ((none, none), cs)

def read? (cs : List Char) : Option (Time × List Char) := do
  let (hour, cs) ← fixedNumber? 2 cs
  let (minute, cs) ← fixedNumber? 2 (← expect? ':' cs)
  let ((second, fraction), cs) ← readSeconds? cs
  if hour ≤ 23 && minute ≤ 59 then some (⟨hour, minute, second, fraction⟩, cs) else none

/-- A fraction without zeros at its end, but with one digit at least. -/
def fractionText (nanos : Nat) : String :=
  match ((padded 9 nanos).toList.reverse.dropWhile (· == '0')).reverse with
  | [] => "0"
  | digits => String.ofList digits

def text (t : Time) : String :=
  padded 2 t.hour ++ ":" ++ padded 2 t.minute ++ t.second.elim "" (fun s => ":" ++ padded 2 s) ++
    t.fraction.elim "" (fun f => "." ++ fractionText f)

end Time

namespace Offset

def read? : List Char → Option (Option Offset × List Char)
  | [] => some (none, [])
  | c :: cs =>
    if c = 'Z' ∨ c = 'z' then some (some .utc, cs)
    else if c = '+' ∨ c = '-' then do
      let (hour, cs) ← fixedNumber? 2 cs
      let (minute, cs) ← fixedNumber? 2 (← expect? ':' cs)
      let total : Int := 60 * hour + minute
      if hour ≤ 23 && minute ≤ 59 then some (some (.minutes (if c = '-' then -total else total)), cs)
      else none
    else none

def text : Offset → String
  | utc => "Z"
  | minutes n =>
    (if n < 0 then "-" else "+") ++ padded 2 (n.natAbs / 60) ++ ":" ++ padded 2 (n.natAbs % 60)

end Offset

namespace Moment

def isSeparator (c : Char) : Bool := c == 'T' || c == 't' || c == ' '

/-- The whole text as a moment. -/
def read? (cs : List Char) : Option Moment :=
  match Date.read? cs with
  | some (date, []) => some { date := some date }
  | some (date, c :: cs) => do
    if !isSeparator c then none
    let (time, cs) ← Time.read? cs
    match ← Offset.read? cs with
    | (offset, []) => some ⟨some date, some time, offset⟩
    | _ => none
  | none =>
    match Time.read? cs with
    | some (time, []) => some { time := some time }
    | _ => none

def text (m : Moment) : String :=
  m.date.elim "" Date.text ++ (if m.date.isSome && m.time.isSome then "T" else "") ++
    m.time.elim "" Time.text ++ m.offset.elim "" Offset.text

end Moment

end SharedPrompt.Toml
