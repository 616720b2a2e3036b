import SchemaOrder.Format.Scan
namespace SchemaOrder.Format
-- Network addresses of version 4 and 6.
def shortNumber? (base most : Nat) (digit : Char → Bool) (cs : List Char) : Option (Nat × List Char) :=
  let digits := cs.takeWhile digit
  if digits.isEmpty || most < digits.length then none
  else some (numberOf base digits,cs.drop digits.length)

def octet? (cs : List Char) : Option (List Char) := do
  let (n,rest) ← shortNumber? 10 3 isDigit cs
  if 255 < n || (cs.head? = some '0' && cs.length ≠ rest.length + 1) then none else some rest

def dottedQuad? (cs : List Char) : Option (List Char) := do
  let cs ← octet? cs
  let cs ← (skip '.' cs).bind octet?
  let cs ← (skip '.' cs).bind octet?
  (skip '.' cs).bind octet?

def isIpv4 (s : String) : Bool :=
  dottedQuad? s.toList == some []

def hexGroup? (cs : List Char) : Option (List Char) :=
  (shortNumber? 16 4 isHexDigit cs).map (·.2)

def separated (first : Bool) (read : List Char → Option (List Char)) (cs : List Char) : Option (List Char) :=
  if first then read cs else (skip ':' cs).bind read

structure Groups where
  count : Nat
  dotted : Bool
  rest : List Char

def groups : (room count : Nat) → List Char → Groups
  | 0,count,cs => ⟨count,false,cs⟩
  | room + 1,count,cs =>
    match (if 1 ≤ room then separated (count == 0) dottedQuad? cs else none) with
    | some rest => ⟨count + 2,true,rest⟩
    | none =>
      match separated (count == 0) hexGroup? cs with
      | some rest => groups room (count + 1) rest
      | none => ⟨count,false,cs⟩

def isIpv6 (s : String) : Bool :=
  let head := groups 8 0 s.toList
  if head.count = 8 then head.rest.isEmpty
  else if head.dotted then false
  else
    match (skip ':' head.rest).bind (skip ':') with
    | some rest => (groups (7 - head.count) 0 rest).rest.isEmpty
    | none => false
end SchemaOrder.Format
