import SchemaOrder.Format.Scan
namespace SchemaOrder.Format.Punycode
-- Labels outside ASCII written in ASCII.
def digit? (c : Char) : Option Nat :=
  if isDigit c then some (c.toNat - 22)
  else if 'a' ≤ c && c ≤ 'z' then some (c.toNat - 97)
  else if 'A' ≤ c && c ≤ 'Z' then some (c.toNat - 65)
  else none

def shrink : Nat → Nat → Nat → Nat × Nat
  | 0,delta,k => (delta,k)
  | fuel + 1,delta,k => if 455 < delta then shrink fuel (delta / 35) (k + 36) else (delta,k)

def adapt (delta count : Nat) (first : Bool) : Nat :=
  let delta := if first then delta / 700 else delta / 2
  let delta := delta + delta / count
  let (delta,k) := shrink (Nat.log2 delta + 1) delta 0
  k + 36 * delta / (delta + 38)

def threshold (k bias : Nat) : Nat :=
  if k ≤ bias then 1 else min 26 (k - bias)

def delta? (bias : Nat) : (value weight k : Nat) → List Char → Option (Nat × List Char)
  | _,_,_,[] => none
  | value,weight,k,c :: rest => do
    let digit ← digit? c
    let value := value + digit * weight
    let t := threshold k bias
    if digit < t then some (value,rest) else delta? bias value (weight * (36 - t)) (k + 36) rest

-- Inserts the characters that the digits describe. Every delta takes a digit, so the number of digits bounds the steps.
def insertAll : (fuel : Nat) → (point index bias : Nat) → List Nat → List Char → Option (List Nat)
  | _,_,_,_,found,[] => some found
  | 0,_,_,_,_,_ => none
  | fuel + 1,point,index,bias,found,cs => do
    let (next,rest) ← delta? bias index 1 36 cs
    let count := found.length + 1
    let point := point + next / count
    let place := next % count
    if 0x10ffff < point then none
    else
      insertAll fuel point (place + 1) (adapt (next - index) count (index == 0))
        (found.take place ++ point :: found.drop place) rest

def splitLast (cs : List Char) : List Char × List Char :=
  match cs.reverse.span (· ≠ '-') with
  | (digits,[]) => ([],digits.reverse)
  | (digits,_ :: ascii) => (ascii.reverse,digits.reverse)

def decode? (cs : List Char) : Option (List Nat) :=
  let (ascii,digits) := splitLast cs
  if ascii.all (·.toNat < 128) then insertAll digits.length 128 0 72 (ascii.map Char.toNat) digits else none
end SchemaOrder.Format.Punycode
