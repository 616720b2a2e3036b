import SchemaOrder.Format.Scan
import SchemaOrder.Unicode.CharClass
namespace SchemaOrder.Format
-- Dates and times of day.
def isLeapYear (year : Nat) : Bool :=
  (year % 4 == 0 && year % 100 != 0) || year % 400 == 0

def daysInMonth (year month : Nat) : Nat :=
  if month = 2 then (if isLeapYear year then 29 else 28)
  else if month = 4 || month = 6 || month = 9 || month = 11 then 30
  else 31

def isCalendarDay (year month day : Nat) : Bool :=
  1 ≤ month && month ≤ 12 && 1 ≤ day && day ≤ daysInMonth year month

def date? (cs : List Char) : Option (List Char) := do
  let (year,cs) ← number 4 cs
  let cs ← skip '-' cs
  let (month,cs) ← number 2 cs
  let cs ← skip '-' cs
  let (day,cs) ← number 2 cs
  if isCalendarDay year month day then some cs else none

def isDate (s : String) : Bool :=
  date? s.toList == some []

def isClockTime (hour minute second : Nat) : Bool :=
  hour < 24 && minute < 60 && second ≤ 60

def isOffset (hour minute : Nat) : Bool :=
  hour < 24 && minute < 60

def clock? (cs : List Char) : Option (List Char) := do
  let (hour,cs) ← number 2 cs
  let cs ← skip ':' cs
  let (minute,cs) ← number 2 cs
  let cs ← skip ':' cs
  let (second,cs) ← number 2 cs
  if isClockTime hour minute second then some cs else none

def fraction? (digit : Char → Bool) : List Char → Option (List Char)
  | '.' :: rest => if rest.head?.any digit then some (rest.dropWhile digit) else none
  | cs => some cs

def offset? : List Char → Option (List Char)
  | 'Z' :: rest => some rest
  | 'z' :: rest => some rest
  | c :: rest =>
    if c = '+' || c = '-' then do
      let (hour,rest) ← number 2 rest
      let rest ← skip ':' rest
      let (minute,rest) ← number 2 rest
      if isOffset hour minute then some rest else none
    else none
  | [] => none

def isDateTime (s : String) : Bool :=
  let read : Option (List Char) := do
    let cs ← date? s.toList
    let cs ← (skip 'T' cs).or (skip 't' cs)
    let cs ← clock? cs
    let cs ← fraction? isDigit cs
    offset? cs
  read == some []

def timeField? : List Char → Option (Nat × List Char)
  | a :: b :: rest =>
    if isDigit a && isDigit b then some (numberOf 10 [a,b],rest)
    else if Unicode.isDecimal a && Unicode.isDecimal b then some (0,rest)
    else none
  | _ => none

def timeOffset? : List Char → Option (List Char)
  | [] => some []
  | 'Z' :: rest => some rest
  | 'z' :: rest => some rest
  | c :: rest =>
    if c = '+' || c = '-' then do
      let (hour,rest) ← timeField? rest
      let rest ← skip ':' rest
      let (minute,rest) ← timeField? rest
      if isOffset hour minute then some rest else none
    else none

def isTime (s : String) : Bool :=
  let read : Option (List Char) := do
    let (hour,cs) ← timeField? s.toList
    let cs ← skip ':' cs
    let (minute,cs) ← timeField? cs
    let cs ← skip ':' cs
    let (second,cs) ← timeField? cs
    let cs ← fraction? Unicode.isDecimal cs
    let cs ← timeOffset? cs
    if isClockTime hour minute second then some cs else none
  read == some []
end SchemaOrder.Format
