import SchemaOrder.Format.Punycode
import SchemaOrder.Unicode.Category
import SchemaOrder.Unicode.Direction
import SchemaOrder.Unicode.HostReading
namespace SchemaOrder.Format.Domain
open Unicode
-- Internationalised domain names.
def isForbidden (c : Char) : Bool :=
  c.toNat ≤ 0x20 || c.toNat = 0x7f ||
    ['%','#','/',':','<','>','?','@','[','\\',']','^','|'].contains c

def readChar? (c : Char) : Option (List Char) :=
  if c.toNat < 128 then (if isForbidden c then none else some [c.toLower])
  else
    match hostReading c.toNat with
    | .kept => some [c]
    | .dropped => some []
    | .replaced points =>
      let cs := points.map Char.ofNat
      if cs.any fun d => d.toNat < 128 && isForbidden d then none else some cs
    | .refused => none

def readAll? : List Char → Option (List Char)
  | [] => some []
  | c :: rest => do return (← readChar? c) ++ (← readAll? rest)

def joinerTable : CharTable := (dualJoining.union leftJoining).toTable

def joinedTable : CharTable := (dualJoining.union rightJoining).toTable

def isMark (c : Char) : Bool :=
  Category.mnSet.contains c.toNat || Category.mcSet.contains c.toNat || Category.meSet.contains c.toNat

def skipTransparent (cs : List Char) : Option Char :=
  (cs.dropWhile fun c => transparentJoining.contains c.toNat).head?

def joinersFit : (before : List Char) → List Char → Bool
  | _,[] => true
  | before,c :: rest =>
    let afterVirama := before.head?.any fun b => viramas.contains b.toNat
    let fits :=
      if c.toNat = 0x200d then afterVirama
      else if c.toNat = 0x200c then
        afterVirama || ((skipTransparent before).any (joinerTable.contains ·.toNat) &&
          (skipTransparent rest).any (joinedTable.contains ·.toNat))
      else true
    fits && joinersFit (c :: before) rest

inductive Direction where
  | left
  | right
  | arabicNumber
  | europeanNumber
  | neutral
  | mark
deriving DecidableEq

def direction (c : Char) : Direction :=
  let n := c.toNat
  if n < 128 then
    if isDigit c then .europeanNumber else if isLetter c then .left else .neutral
  else if rightToLeft.contains n || arabicLetters.contains n then .right
  else if arabicNumbers.contains n then .arabicNumber
  else if europeanNumbers.contains n then .europeanNumber
  else if nonspacingMarks.contains n then .mark
  else if europeanSeparators.contains n || commonSeparators.contains n || europeanTerminators.contains n ||
      otherNeutrals.contains n || boundaryNeutrals.contains n then .neutral
  else .left

def lastDirection? (directions : List Direction) : Option Direction :=
  (directions.reverse.dropWhile (· = .mark)).head?

def directionsFit (label : List Char) : Bool :=
  let ds := label.map direction
  match ds.head? with
  | none => true
  | some .right =>
    !ds.contains .left && !(ds.contains .europeanNumber && ds.contains .arabicNumber) &&
      (lastDirection? ds).any fun d => d = .right || d = .europeanNumber || d = .arabicNumber
  | some .left =>
    !ds.contains .right && !ds.contains .arabicNumber &&
      (lastDirection? ds).any fun d => d = .left || d = .europeanNumber
  | some _ => false

def hasRightToLeft (label : List Char) : Bool :=
  label.any fun c => direction c = .right || direction c = .arabicNumber

def isAscii (label : List Char) : Bool :=
  label.all (·.toNat < 128)

def isProperLabel (label : List Char) : Bool :=
  !label.head?.any isMark && joinersFit [] label

def isStable (c : Char) : Bool :=
  readChar? c == some [c]

def decoded? (rest : List Char) : Option (List Char) := do
  let points ← Punycode.decode? rest
  if points.all (·.isValidChar) then
    let label := points.map Char.ofNat
    if !isAscii label && label.all isStable && isProperLabel label then some label else none
  else none

def label? : List Char → Option (List Char)
  | 'x' :: 'n' :: '-' :: '-' :: rest => decoded? rest
  | label => if isAscii label || isProperLabel label then some label else none

def labels? (cs : List Char) : Option (List (List Char)) := do
  let read ← readAll? cs
  let labels ← (splitAt '.' read).mapM label?
  if labels.any hasRightToLeft && !labels.all directionsFit then none else some labels
end SchemaOrder.Format.Domain
