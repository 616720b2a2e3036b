import SchemaOrder.Json
namespace SchemaOrder
namespace Json.Reader
-- Reading JSON text.
abbrev Input := List Char

def isBlank (c : Char) : Bool :=
  c = ' ' || c = '\n' || c = '\t' || c = '\r'

def skipBlanks (cs : Input) : Input :=
  cs.dropWhile isBlank

def word? : List Char → Input → Option Input
  | [],cs => some cs
  | _ :: _,[] => none
  | w :: ws,c :: cs => if w = c then word? ws cs else none

def isDigit (c : Char) : Bool :=
  '0' ≤ c && c ≤ '9'

def digitValue (c : Char) : Nat :=
  c.toNat - 48

def hexValue? (c : Char) : Option Nat :=
  if isDigit c then some (digitValue c)
  else if 'a' ≤ c && c ≤ 'f' then some (c.toNat - 87)
  else if 'A' ≤ c && c ≤ 'F' then some (c.toNat - 55)
  else none

def hex4? (a b c d : Char) : Option Nat := do
  let a ← hexValue? a
  let b ← hexValue? b
  let c ← hexValue? c
  let d ← hexValue? d
  return ((a * 16 + b) * 16 + c) * 16 + d

def simpleEscape? (c : Char) : Option Char :=
  match c with
  | '"' => some '"'
  | '\\' => some '\\'
  | '/' => some '/'
  | 'b' => some '\x08'
  | 'f' => some '\x0c'
  | 'n' => some '\n'
  | 'r' => some '\r'
  | 't' => some '\t'
  | _ => none

-- The rest of a string literal after its opening quote. `read` holds the characters so far, last one first.
def stringRest (read : List Char) : Input → Option (String × Input)
  | [] => none
  | '"' :: rest => some (String.ofList read.reverse,rest)
  | '\\' :: 'u' :: a :: b :: c :: d :: rest =>
    match hex4? a b c d with
    | none => none
    | some code =>
      if 0xD800 ≤ code && code < 0xDC00 then
        match rest with
        | '\\' :: 'u' :: e :: f :: g :: h :: rest =>
          match hex4? e f g h with
          | none => none
          | some low =>
            if 0xDC00 ≤ low && low < 0xE000 then
              stringRest (Char.ofNat (0x10000 + (code - 0xD800) * 0x400 + (low - 0xDC00)) :: read) rest
            else none
        | _ => none
      else if 0xDC00 ≤ code && code < 0xE000 then none
      else stringRest (Char.ofNat code :: read) rest
  | '\\' :: c :: rest =>
    match simpleEscape? c with
    | some e => stringRest (e :: read) rest
    | none => none
  | c :: rest => if c.toNat < 32 then none else stringRest (c :: read) rest

def naturalOf (digits : List Char) : Nat :=
  digits.foldl (fun n c => n * 10 + digitValue c) 0

def scientific? (mantissa : Nat) (exponent : Int) : Option Float :=
  if mantissa = 0 then some 0.0
  else
    let top := exponent + ((Nat.toDigits 10 mantissa).length : Int)
    if 310 < top then none
    else if top < -330 then some 0.0
    else
      let x := Float.ofScientific mantissa (exponent < 0) exponent.natAbs
      if x.isFinite then some x else none

def exponentPart? (cs : Input) : Option (Option Int × Input) :=
  match cs with
  | c :: rest =>
    if c = 'e' || c = 'E' then
      let (negative,rest) := match rest with
        | '-' :: r => (true,r)
        | '+' :: r => (false,r)
        | r => (false,r)
      let digits := rest.takeWhile isDigit
      if digits.isEmpty then none
      else
        let n : Int := naturalOf digits
        some (some (if negative then -n else n),rest.dropWhile isDigit)
    else some (none,cs)
  | [] => some (none,cs)

def fractionPart? (cs : Input) : Option (Option (List Char) × Input) :=
  match cs with
  | '.' :: rest =>
    let digits := rest.takeWhile isDigit
    if digits.isEmpty then none else some (some digits,rest.dropWhile isDigit)
  | _ => some (none,cs)

def numberOf? (negative : Bool) (whole : List Char) (fraction : Option (List Char)) (exponent : Option Int) :
    Option Num :=
  let signed := fun (x : Float) => if negative then -x else x
  match fraction,exponent with
  | none,none =>
    let n : Int := naturalOf whole
    match Whole.ofInt? (if negative then -n else n) with
    | some w => if negative && n = 0 then some (.double (-0.0)) else some (.whole w)
    | none => (scientific? (naturalOf whole) 0).map fun x => .double (signed x)
  | _,_ =>
    let decimals := fraction.getD []
    (scientific? (naturalOf (whole ++ decimals)) (exponent.getD 0 - (decimals.length : Int))).map
      fun x => .double (signed x)

def number? (cs : Input) : Option (Num × Input) := do
  let (negative,cs) := match cs with
    | '-' :: rest => (true,rest)
    | _ => (false,cs)
  let whole := cs.takeWhile isDigit
  let rest := cs.dropWhile isDigit
  if whole.isEmpty then none
  if 1 < whole.length && whole.head? = some '0' then none
  let (fraction,rest) ← fractionPart? rest
  let (exponent,rest) ← exponentPart? rest
  let n ← numberOf? negative whole fraction exponent
  return (n,rest)
mutual
-- One value at the front of the input. `room` is the nesting still allowed; each call spends one unit of `fuel`.
def value : (fuel room : Nat) → Input → Option (Json × Input)
  | 0,_,_ => none
  | fuel + 1,room,cs =>
    match skipBlanks cs with
    | [] => none
    | '"' :: rest => (stringRest [] rest).map fun (s,rest) => (.str s,rest)
    | '[' :: rest =>
      match room with
      | 0 => none
      | room + 1 =>
        match skipBlanks rest with
        | ']' :: rest => some (.arr [],rest)
        | rest => (items fuel room [] rest).map fun (vs,rest) => (.arr vs,rest)
    | '\x7b' :: rest =>
      match room with
      | 0 => none
      | room + 1 =>
        match skipBlanks rest with
        | '\x7d' :: rest => some (.obj [],rest)
        | rest => (members fuel room [] rest).map fun (fs,rest) => (.obj fs,rest)
    | 'n' :: rest => (word? ['u','l','l'] rest).map fun rest => (.null,rest)
    | 't' :: rest => (word? ['r','u','e'] rest).map fun rest => (.bool true,rest)
    | 'f' :: rest => (word? ['a','l','s','e'] rest).map fun rest => (.bool false,rest)
    | cs => (number? cs).map fun (n,rest) => (.num n,rest)

def items : (fuel room : Nat) → List Json → Input → Option (List Json × Input)
  | 0,_,_,_ => none
  | fuel + 1,room,done,cs =>
    match value fuel room cs with
    | none => none
    | some (v,rest) =>
      match skipBlanks rest with
      | ',' :: rest => items fuel room (v :: done) rest
      | ']' :: rest => some ((v :: done).reverse,rest)
      | _ => none

def members : (fuel room : Nat) → Fields → Input → Option (Fields × Input)
  | 0,_,_,_ => none
  | fuel + 1,room,done,cs =>
    match skipBlanks cs with
    | '"' :: rest =>
      match stringRest [] rest with
      | none => none
      | some (key,rest) =>
        match skipBlanks rest with
        | ':' :: rest =>
          match value fuel room rest with
          | none => none
          | some (v,rest) =>
            match skipBlanks rest with
            | ',' :: rest => members fuel room (done.put key v) rest
            | '\x7d' :: rest => some (done.put key v,rest)
            | _ => none
        | _ => none
    | _ => none
end
def maxNesting : Nat := 127
end Json.Reader
def Json.parse? (text : String) : Option Json :=
  let cs := text.toList
  match Json.Reader.value (2 * cs.length + 2) Json.Reader.maxNesting cs with
  | some (v,rest) => if (Json.Reader.skipBlanks rest).isEmpty then some v else none
  | none => none
end SchemaOrder
