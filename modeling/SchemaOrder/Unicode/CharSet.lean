
namespace SchemaOrder.Unicode
-- Sets of code points as ascending lists of separate ranges.
structure Range where
  lo : Nat
  hi : Nat
deriving DecidableEq,Inhabited

def lastPoint : Nat := 0x10ffff

def nextPoint (c : Nat) : Nat :=
  if c = 0xd7ff then 0xe000 else c + 1

def prevPoint (c : Nat) : Nat :=
  if c = 0xe000 then 0xd7ff else c - 1

abbrev CharSet := List Range

def hexDigit? (c : Char) : Option Nat :=
  if '0' ≤ c && c ≤ '9' then some (c.toNat - 48)
  else if 'a' ≤ c && c ≤ 'f' then some (c.toNat - 87)
  else if 'A' ≤ c && c ≤ 'F' then some (c.toNat - 55)
  else none

def hexNat? (text : String) : Option Nat :=
  text.toList.foldl (fun n c => match n,hexDigit? c with
    | some n,some d => some (n * 16 + d)
    | _,_ => none) (some 0)

def parts (separates : Char → Bool) (text : String) : List String :=
  let (first,rest) : List Char × List (List Char) := text.toList.foldr
    (fun c (part,parts) => if separates c then ([],part :: parts) else (c :: part,parts)) ([],[])
  (first :: rest).map String.ofList

def words (text : String) : List String :=
  (parts (fun c => c = ' ' || c = '\n') text).filter (· ≠ "")

-- A code point in hexadecimal. Up to two digits count from the start of a page of 256 code points, more digits count
-- from zero.
def pointOn? (page : Nat) (digits : String) : Option Nat :=
  if digits.isEmpty then none
  else (hexNat? digits).map fun n => if digits.length ≤ 2 then page * 256 + n else n

-- A range written `lo-hi`, or one code point. The upper end counts from the page of the lower one.
def rangeOn? (page : Nat) (text : String) : Option Range :=
  match parts (· = '-') text with
  | [one] => (pointOn? page one).map fun c => ⟨c,c⟩
  | [lo,hi] => do
    let lo ← pointOn? page lo
    return ⟨lo,← pointOn? (lo / 256) hi⟩
  | _ => none

def stepsOn? (page : Nat) (text : String) : Option (Range × Nat) :=
  match parts (· = '/') text with
  | [range] => (rangeOn? page range).map fun r => (r,1)
  | [range,step] => do return (← rangeOn? page range,← hexNat? step)
  | _ => none

def Range.points (r : Range) (step : Nat) : List Nat :=
  (List.range ((r.hi - r.lo) / step + 1)).map fun i => r.lo + i * step

-- Reads the words of a table in turn. A word `1f:` opens the page from `1f00` to `1fff`, the others are read on the page
-- opened last.
def onPages {α : Type} (read : Nat → String → List α) : (page : Nat) → List String → List α
  | _,[] => []
  | page,word :: rest =>
    match parts (· = ':') word with
    | [opened,_] => onPages read ((hexNat? opened).getD 0) rest
    | _ => read page word ++ onPages read page rest

structure CharTable where
  ranges : Array Range
namespace CharTable
def search (ranges : Array Range) (c : Nat) : (fuel low high : Nat) → Bool
  | 0,_,_ => false
  | fuel + 1,low,high =>
    if low < high then
      let middle := (low + high) / 2
      match ranges[middle]? with
      | none => false
      | some r =>
        if c < r.lo then search ranges c fuel low middle
        else if r.hi < c then search ranges c fuel (middle + 1) high
        else true
    else false

def contains (t : CharTable) (c : Nat) : Bool :=
  search t.ranges c (t.ranges.size + 1) 0 t.ranges.size
end CharTable
namespace CharSet
def joinAfter (current : Range) : List Range → CharSet
  | [] => [current]
  | r :: rest =>
    if r.lo ≤ current.hi + 1 then joinAfter ⟨current.lo,max current.hi r.hi⟩ rest
    else current :: joinAfter r rest

def join : List Range → CharSet
  | [] => []
  | r :: rest => joinAfter r rest

def ofRanges (ranges : List Range) : CharSet :=
  join ((ranges.filter fun r => r.lo ≤ r.hi).mergeSort fun a b => decide (a.lo ≤ b.lo))

def single (c : Nat) : CharSet := [⟨c,c⟩]

def unionAll (sets : List CharSet) : CharSet :=
  ofRanges sets.flatten

def union (a b : CharSet) : CharSet :=
  ofRanges (a ++ b)

def gaps (start : Nat) : CharSet → CharSet
  | [] => if start ≤ lastPoint then [⟨start,lastPoint⟩] else []
  | r :: rest =>
    if start < r.lo then ⟨start,prevPoint r.lo⟩ :: gaps (nextPoint r.hi) rest else gaps (nextPoint r.hi) rest

def negate (s : CharSet) : CharSet :=
  gaps 0 s

def meet (a b : Range) : Option Range :=
  let lo := max a.lo b.lo
  let hi := min a.hi b.hi
  if lo ≤ hi then some ⟨lo,hi⟩ else none

def intersectWithin : Nat → CharSet → CharSet → CharSet
  | fuel + 1,a :: as,b :: bs =>
    let rest := if a.hi < b.hi then intersectWithin fuel as (b :: bs) else intersectWithin fuel (a :: as) bs
    match meet a b with
    | some r => r :: rest
    | none => rest
  | _,_,_ => []

def intersect (a b : CharSet) : CharSet :=
  intersectWithin (a.length + b.length) a b

def difference (a b : CharSet) : CharSet :=
  a.intersect b.negate

def symmetricDifference (a b : CharSet) : CharSet :=
  (a.union b).difference (a.intersect b)

def contains (s : CharSet) (c : Nat) : Bool :=
  s.any fun r => r.lo ≤ c && c ≤ r.hi

def toTable (s : CharSet) : CharTable :=
  ⟨s.toArray⟩

inductive Reading where
  | skip
  | take
  | alternate

-- Reads a table on from a code point. Numbers are in base 26; a small letter is followed by further digits, a capital
-- one ends its number, and `/` stands before a number of single points.
def ofDigits (reading : Reading) (place number : Nat) : List Char → CharSet
  | [] => []
  | c :: rest =>
    if c = '/' then ofDigits .alternate place 0 rest
    else if c.isLower then ofDigits reading place (number * 26 + (c.toNat - 97)) rest
    else if c.isUpper then
      let n := number * 26 + (c.toNat - 65)
      match reading with
      | .skip => ofDigits .take (place + n) 0 rest
      | .take => ⟨place,place + n - 1⟩ :: ofDigits .skip (place + n) 0 rest
      | .alternate => ((List.range n).map fun i => ⟨place + 2 * i + 1,place + 2 * i + 1⟩) ++
          ofDigits .skip (place + 2 * n) 0 rest
    else ofDigits reading place number rest

def ofText (text : String) : CharSet :=
  ofDigits .skip 0 0 text.toList

def ofChars (ranges : List (Char × Char)) : CharSet :=
  ranges.map fun (lo,hi) => ⟨lo.toNat,hi.toNat⟩
end CharSet
end SchemaOrder.Unicode
