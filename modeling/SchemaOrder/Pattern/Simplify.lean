import SchemaOrder.Pattern.Expr
import SchemaOrder.Pattern.Reader
import SchemaOrder.Unicode.Folding
namespace SchemaOrder.Pattern
open Unicode
-- From the written form of a regular expression to its simplified form.
structure Mode where
  caseInsensitive : Bool := false
  multiLine : Bool := false
  dotAll : Bool := false
  swapGreed : Bool := false
  unicode : Bool := true
  crlf : Bool := false
namespace Mode
def set (mode : Mode) : Flag × Bool → Mode
  | (.caseInsensitive,on) => { mode with caseInsensitive := on }
  | (.multiLine,on) => { mode with multiLine := on }
  | (.dotAll,on) => { mode with dotAll := on }
  | (.swapGreed,on) => { mode with swapGreed := on }
  | (.unicode,on) => { mode with unicode := on }
  | (.crlf,on) => { mode with crlf := on }
  | (.verbose,_) => mode

def change (mode : Mode) (changes : FlagChanges) : Mode :=
  changes.foldl set mode
end Mode
namespace Simplify
def asciiClass (name : String) : CharSet :=
  match name with
  | "alnum" => .ofChars [('0','9'),('A','Z'),('a','z')]
  | "alpha" => .ofChars [('A','Z'),('a','z')]
  | "ascii" => .ofChars [('\x00','\x7f')]
  | "blank" => .ofChars [('\x09','\x09'),(' ',' ')]
  | "cntrl" => .ofChars [('\x00','\x1f'),('\x7f','\x7f')]
  | "digit" => .ofChars [('0','9')]
  | "graph" => .ofChars [('!','~')]
  | "lower" => .ofChars [('a','z')]
  | "print" => .ofChars [(' ','~')]
  | "punct" => .ofChars [('!','/'),(':','@'),('[','\x60'),('\x7b','~')]
  | "space" => .ofChars [('\x09','\x0d'),(' ',' ')]
  | "upper" => .ofChars [('A','Z')]
  | "word" => .ofChars [('0','9'),('A','Z'),('_','_'),('a','z')]
  | "xdigit" => .ofChars [('0','9'),('A','F'),('a','f')]
  | _ => []

def shorthandSet (unicode : Bool) : Shorthand → CharSet
  | .digit => if unicode then decimalDigits else asciiClass "digit"
  | .space => if unicode then whiteSpace else asciiClass "space"
  | .word => if unicode then wordChars else asciiClass "word"

def isAscii (s : CharSet) : Bool :=
  s.all fun r => r.hi < 128

def negateBytes (s : CharSet) : CharSet :=
  s.negate.intersect [⟨0,0xff⟩]

def foldAscii (s : CharSet) : CharSet :=
  let shift := fun (letters : Range) (move : Nat → Nat) =>
    (s.intersect [letters]).map fun r => ({ lo := move r.lo,hi := move r.hi } : Range)
  .unionAll [s,shift ⟨65,90⟩ (· + 32),shift ⟨97,122⟩ (· - 32)]

def fold (mode : Mode) (s : CharSet) : CharSet :=
  if mode.caseInsensitive then (if mode.unicode then s.foldCase else foldAscii s) else s

def foldNegate? (mode : Mode) (negated : Bool) (s : CharSet) : Option CharSet :=
  let folded := fold mode s
  if mode.unicode then some (if negated then folded.negate else folded)
  else
    let result := if negated then negateBytes folded else folded
    if isAscii result then some result else none

def shorthandClass? (mode : Mode) (kind : Shorthand) (negated : Bool) : Option CharSet :=
  let s := shorthandSet mode.unicode kind
  if mode.unicode then some (if negated then s.negate else s)
  else if negated then none
  else some s

def propertyClass? (mode : Mode) (query : PropertyQuery) (negated : Bool) : Option CharSet :=
  if mode.unicode then
    let found := match query with
      | .name name => classNamed? name
      | .value property value => classOfValue? property value
    found.bind (foldNegate? mode negated)
  else none

def classPoint? (mode : Mode) (l : Literal) : Option Nat :=
  if mode.unicode then some l.char.toNat
  else if l.char.toNat < 128 then some l.char.toNat
  else none

def combine (op : SetOp) (left right : CharSet) : CharSet :=
  match op with
  | .intersection => left.intersect right
  | .difference => left.difference right
  | .symmetricDifference => left.symmetricDifference right
mutual
def members? (mode : Mode) : ClassSet → Option CharSet
  | .literal l => (classPoint? mode l).map CharSet.single
  | .range a b => do return [⟨← classPoint? mode a,← classPoint? mode b⟩]
  | .ascii name negated => foldNegate? mode negated (asciiClass name)
  | .shorthand kind negated => shorthandClass? mode kind negated
  | .property query negated => propertyClass? mode query negated
  | .bracket negated body => (members? mode body).bind (foldNegate? mode negated)
  | .union parts => (allMembers? mode parts).map CharSet.unionAll
  | .combine op left right => do
    return combine op (fold mode (← members? mode left)) (fold mode (← members? mode right))

def allMembers? (mode : Mode) : List ClassSet → Option (List CharSet)
  | [] => some []
  | s :: rest => do return (← members? mode s) :: (← allMembers? mode rest)
end
def kindOf (mode : Mode) : ClassKind :=
  if mode.unicode then .points else .bytes

def letter? (mode : Mode) (l : Literal) : Option Expr :=
  if mode.unicode then
    if mode.caseInsensitive then some (.class .points (CharSet.single l.char.toNat).foldCase)
    else some (.literal [l.char])
  else if l.byte && 128 ≤ l.char.toNat then none
  else if mode.caseInsensitive && l.char.toNat < 128 then
    some (.class .bytes (foldAscii (.single l.char.toNat)))
  else some (.literal [l.char])

def dot? (mode : Mode) : Option Expr :=
  if !mode.unicode then none
  else if mode.dotAll then some (.class .points anyPoint)
  else if mode.crlf then some (.class .points (CharSet.ofChars [('\x0a','\x0a'),('\x0d','\x0d')]).negate)
  else some (.class .points (CharSet.ofChars [('\x0a','\x0a')]).negate)

def look (mode : Mode) : Assertion → Look
  | .startLine => if mode.multiLine then (if mode.crlf then .startCrlf else .startLine) else .start
  | .endLine => if mode.multiLine then (if mode.crlf then .stopCrlf else .stopLine) else .stop
  | .startText => .start
  | .endText => .stop
  | .wordBoundary => word .boundary
  | .notWordBoundary => word .noBoundary
  | .wordStart => word .start
  | .wordEnd => word .stop
  | .wordStartHalf => word .startHalf
  | .wordEndHalf => word .stopHalf
where
  word (edge : WordEdge) : Look := .word (if mode.unicode then .unicode else .ascii) edge
mutual
def node? (mode : Mode) : Node → Option (Expr × Mode)
  | .empty => some (.empty,mode)
  | .flags changes => some (.empty,mode.change changes)
  | .literal l => (letter? mode l).map fun e => (e,mode)
  | .dot => (dot? mode).map fun e => (e,mode)
  | .assertion a => some (.look (look mode a),mode)
  | .shorthand kind negated => (shorthandClass? mode kind negated).map fun s => (.class (kindOf mode) s,mode)
  | .property query negated => (propertyClass? mode query negated).map fun s => (.class (kindOf mode) s,mode)
  | .bracket negated body => do
    let inside ← members? mode body
    let s ← foldNegate? mode negated inside
    return (.class (kindOf mode) (.ofRanges s),mode)
  | .repeated least most greedy body => do
    let (e,after) ← node? mode body
    return (.repeat least most (greedy != mode.swapGreed) e,after)
  | .capture index body => do
    let (e,_) ← node? mode body
    return (.capture index e,mode)
  | .group changes body => do
    let (e,_) ← node? (mode.change changes) body
    return (e,mode)
  | .concat parts => do
    let (es,after) ← nodes? mode parts
    return (.concatOf es,after)
  | .alternation branches => do
    let (es,after) ← nodes? mode branches
    return (.alternationOf es,after)

def nodes? (mode : Mode) : List Node → Option (List Expr × Mode)
  | [] => some ([],mode)
  | n :: rest => do
    let (e,mode) ← node? mode n
    let (es,mode) ← nodes? mode rest
    return (e :: es,mode)
end
end Simplify
def Expr.parse? (text : String) : Option Expr := do
  let node ← Node.parse? text
  let (e,_) ← Simplify.node? {} node
  return e
end SchemaOrder.Pattern
