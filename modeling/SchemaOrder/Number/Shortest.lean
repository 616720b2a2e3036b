import SchemaOrder.Number
-- Shortest decimal text of a double.
namespace SchemaOrder.Shortest
-- A positive double as `mantissa * 2 ^ exponent`. `narrow`: the gap below it is half the gap above it.
structure Parts where
  mantissa : Nat
  exponent : Int
  narrow : Bool

def parts (x : Float) : Parts :=
  let bits := x.toBits.toNat
  let fraction : Nat := bits % 0x10000000000000
  let biased : Nat := bits / 0x10000000000000 % 2048
  if biased = 0 then ⟨fraction,-1074,false⟩
  else ⟨fraction + 0x10000000000000,(biased : Int) - 1075,fraction = 0 && biased > 1⟩

structure Decimal where
  digits : Nat
  exponent : Int

def digitCount (n : Nat) : Nat :=
  (Nat.toDigits 10 n).length

def magnitude (num den : Nat) : Int :=
  if den ≤ num then (digitCount (num / den) : Int) - 1
  else
    let len := digitCount (den / num)
    if num * Nat.pow 10 (len - 1) = den then -((len : Int) - 1) else -(len : Int)

structure Interval where
  low : Nat
  value : Nat
  high : Nat
  den : Nat
  closed : Bool

def interval (p : Parts) : Interval :=
  let scale := fun (quarters : Nat) => if 2 ≤ p.exponent then quarters * Nat.pow 2 (p.exponent - 2).toNat else quarters
  let den := if 2 ≤ p.exponent then 1 else Nat.pow 2 (2 - p.exponent).toNat
  ⟨scale (4 * p.mantissa - if p.narrow then 1 else 2),scale (4 * p.mantissa),scale (4 * p.mantissa + 2),den,
    p.mantissa % 2 = 0⟩

def Interval.holds (i : Interval) (n : Nat) (e : Int) : Bool :=
  let left := if 0 ≤ e then n * Nat.pow 10 e.toNat * i.den else n * i.den
  let unit := if 0 ≤ e then 1 else Nat.pow 10 (-e).toNat
  if i.closed then i.low * unit ≤ left && left ≤ i.high * unit
  else i.low * unit < left && left < i.high * unit

def Interval.onGrid (i : Interval) (e : Int) : Option Nat :=
  let num := if 0 ≤ e then i.value else i.value * Nat.pow 10 (-e).toNat
  let den := if 0 ≤ e then i.den * Nat.pow 10 e.toNat else i.den
  let below := num / den
  match i.holds below e && 0 < below,i.holds (below + 1) e with
  | true,true =>
    let rest := 2 * (num % den)
    if rest < den || (rest = den && below % 2 = 0) then some below else some (below + 1)
  | true,false => some below
  | false,true => some (below + 1)
  | false,false => none

def search (i : Interval) (top : Int) : Nat → Nat → Decimal
  | 0,_ => ⟨0,0⟩
  | more + 1,count =>
    let e := top - (count : Int)
    match i.onGrid e with
    | some n => ⟨n,e⟩
    | none => search i top more (count + 1)

def decimal (x : Float) : Decimal :=
  let i := interval (parts x)
  search i (magnitude i.value i.den) 18 0

def trim : Nat → Decimal → Decimal
  | 0,d => d
  | fuel + 1,d => if d.digits % 10 = 0 && 0 < d.digits then trim fuel ⟨d.digits / 10,d.exponent + 1⟩ else d
end SchemaOrder.Shortest
namespace SchemaOrder
structure DecimalLayout where
  least : Int
  most : Int

def documentLayout : DecimalLayout := ⟨-5,15⟩

def layDecimal (layout : DecimalLayout) (digits : List Char) (exponent : Int) : List Char :=
  if layout.least ≤ exponent && exponent ≤ layout.most then
    if exponent < 0 then
      '0' :: '.' :: (List.replicate (-exponent - 1).toNat '0' ++ digits)
    else
      let lead := exponent.toNat + 1
      let whole := digits.take lead ++ List.replicate (lead - digits.length) '0'
      let fraction := digits.drop lead
      whole ++ '.' :: (if fraction.isEmpty then ['0'] else fraction)
  else
    let mark := if exponent < 0 then ['e','-'] else ['e','+']
    let tail := mark ++ Nat.toDigits 10 exponent.natAbs
    match digits with
    | [] => tail
    | [d] => d :: tail
    | d :: rest => d :: '.' :: (rest ++ tail)

def doubleText (x : Float) : List Char :=
  let sign := if x.toBits.toNat < 0x8000000000000000 then [] else ['-']
  if x == 0.0 then sign ++ ['0','.','0']
  else
    let d := Shortest.trim 20 (Shortest.decimal x.abs)
    let digits := Nat.toDigits 10 d.digits
    sign ++ layDecimal documentLayout digits (d.exponent + (digits.length : Int) - 1)

def wholeText (n : Int) : List Char :=
  if n < 0 then '-' :: Nat.toDigits 10 n.natAbs else Nat.toDigits 10 n.natAbs

def Num.text : Num → List Char
  | .whole n => wholeText n.val
  | .double x => doubleText x
end SchemaOrder
