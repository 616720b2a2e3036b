import SchemaOrder.Pattern.Syntax
import SchemaOrder.Unicode.CharClass
namespace SchemaOrder.Pattern
namespace Reader
open Unicode (isWhiteSpace isAlphabetic isAlphanumeric hexDigit?)
-- Reading the text of a regular expression.
structure Cursor where
  rest : List Char
  verbose : Bool
  captures : Nat
  names : List String

abbrev Read := StateT Cursor Option

def refuse {α : Type} : Read α := fun _ => none

def peek : Read (Option Char) := do return (← get).rest.head?

def advance : Read Unit := modify fun c => { c with rest := c.rest.tail }

def dropComments : Bool → List Char → List Char
  | _,[] => []
  | true,c :: rest => if c = '\n' then dropComments false rest else dropComments true rest
  | false,c :: rest =>
    if isWhiteSpace c then dropComments false rest
    else if c = '#' then dropComments true rest
    else c :: rest

def skip : Read Unit := modify fun c => if c.verbose then { c with rest := dropComments false c.rest } else c

def advanceSkip : Read Unit := do
  advance
  skip

def peekNext : Read (Option Char) := do
  let c ← get
  return (if c.verbose then dropComments false c.rest.tail else c.rest.tail).head?

def dropWord? : List Char → List Char → Option (List Char)
  | [],cs => some cs
  | w :: ws,c :: cs => if w = c then dropWord? ws cs else none
  | _ :: _,[] => none

def accept (word : String) : Read Bool := do
  match dropWord? word.toList (← get).rest with
  | some rest =>
    modify fun c => { c with rest }
    return true
  | none => return false

def largestCount : Nat := 0xffffffff

def digits : Nat → Read (List Char)
  | 0 => return []
  | fuel + 1 => do
    match ← peek with
    | some c =>
      if '0' ≤ c && c ≤ '9' then do
        advanceSkip
        return c :: (← digits fuel)
      else return []
    | none => return []

def count? : Read (Option Nat) := do
  modify fun c => { c with rest := c.rest.dropWhile isWhiteSpace }
  let ds ← digits ((← get).rest.length + 1)
  modify fun c => { c with rest := c.rest.dropWhile isWhiteSpace }
  if ds.isEmpty then return none
  let n := ds.foldl (fun n c => n * 10 + (c.toNat - 48)) 0
  if largestCount < n then refuse
  return some n

def charOfPoint? (n : Nat) : Option Char :=
  if n < 0xd800 || (0xe000 ≤ n && n ≤ 0x10ffff) then some (Char.ofNat n) else none

def pointOfHex? (cs : List Char) : Option Nat :=
  cs.foldl (fun n c => match n,hexDigit? c with
    | some n,some d => some (n * 16 + d)
    | _,_ => none) (some 0)

def fixedHex : Nat → Read (List Char)
  | 0 => return []
  | more + 1 => do
    match ← peek with
    | some c =>
      if (hexDigit? c).isSome then do
        advanceSkip
        return c :: (← fixedHex more)
      else refuse
    | none => refuse

def upToBrace : Nat → Read (List Char)
  | 0 => refuse
  | fuel + 1 => do
    match ← peek with
    | some '\x7d' => return []
    | some c =>
      advanceSkip
      return c :: (← upToBrace fuel)
    | none => refuse

def hexEscape (width : Nat) : Read Literal := do
  match ← peek with
  | some '\x7b' =>
    advanceSkip
    let ds ← upToBrace ((← get).rest.length + 1)
    advanceSkip
    if ds.isEmpty then refuse
    match (pointOfHex? ds).bind charOfPoint? with
    | some c => return ⟨c,false⟩
    | none => refuse
  | some _ =>
    let ds ← fixedHex width
    match (pointOfHex? ds).bind charOfPoint? with
    | some c => return ⟨c,width = 2⟩
    | none => refuse
  | none => refuse

def cutAt? (sep : List Char) : List Char → Option (List Char × List Char)
  | [] => none
  | c :: rest =>
    match dropWord? sep (c :: rest) with
    | some after => some ([],after)
    | none => (cutAt? sep rest).map fun (before,after) => (c :: before,after)

def queryOf (text : List Char) : PropertyQuery × Bool :=
  let value := fun (parts : List Char × List Char) =>
    PropertyQuery.value (String.ofList parts.1) (String.ofList parts.2)
  match cutAt? ['!','='] text,cutAt? [':'] text,cutAt? ['='] text with
  | some parts,_,_ => (value parts,true)
  | none,some parts,_ => (value parts,false)
  | none,none,some parts => (value parts,false)
  | none,none,none => (.name (String.ofList text),false)

def propertyClass (negated : Bool) : Read (PropertyQuery × Bool) := do
  match ← peek with
  | some '\x7b' =>
    advanceSkip
    let text ← upToBrace ((← get).rest.length + 1)
    advance
    let (query,flipped) := queryOf text
    return (query,negated != flipped)
  | some '\\' => refuse
  | some c =>
    advanceSkip
    return (.name (String.ofList [c]),negated)
  | none => refuse

def isMeta (c : Char) : Bool :=
  ['\\','.','+','*','?','(',')','|','[',']','\x7b','\x7d','^','$','#','&','-','~'].contains c

def isEscapable (c : Char) : Bool :=
  isMeta c || (c.toNat < 128 && !c.isAlphanum && c != '<' && c != '>')

inductive Primitive where
  | literal (l : Literal)
  | dot
  | assertion (a : Assertion)
  | shorthand (kind : Shorthand) (negated : Bool)
  | property (query : PropertyQuery) (negated : Bool)

def isBoundaryChar (c : Char) : Bool :=
  c.isAlpha || c = '-'

def boundaryName : Nat → Read (List Char)
  | 0 => return []
  | fuel + 1 => do
    match ← peek with
    | some c =>
      if isBoundaryChar c then do
        advanceSkip
        return c :: (← boundaryName fuel)
      else return []
    | none => return []

-- After `\b`, a name in braces picks a one-sided boundary. Braces without a name are left to be read as a quantifier.
def boundaryKind : Read Assertion := do
  let start ← get
  if (← peek) = some '\x7b' then
    advanceSkip
    match ← peek with
    | none => refuse
    | some c =>
      if isBoundaryChar c then
        let name ← boundaryName ((← get).rest.length + 1)
        if (← peek) = some '\x7d' then
          advance
          match String.ofList name with
          | "start" => return .wordStart
          | "end" => return .wordEnd
          | "start-half" => return .wordStartHalf
          | "end-half" => return .wordEndHalf
          | _ => refuse
        else refuse
      else
        set start
        return .wordBoundary
  else return .wordBoundary

def escape : Read Primitive := do
  match ← peek with
  | none => refuse
  | some c =>
    if c = 'x' || c = 'u' || c = 'U' then
      advanceSkip
      return .literal (← hexEscape (if c = 'x' then 2 else if c = 'u' then 4 else 8))
    else if c = 'p' || c = 'P' then
      advanceSkip
      let (query,negated) ← propertyClass (c = 'P')
      return .property query negated
    else
      advance
      let char := fun c => (pure (.literal ⟨c,false⟩) : Read Primitive)
      match c with
      | 'd' => return .shorthand .digit false
      | 'D' => return .shorthand .digit true
      | 's' => return .shorthand .space false
      | 'S' => return .shorthand .space true
      | 'w' => return .shorthand .word false
      | 'W' => return .shorthand .word true
      | 'a' => char '\x07'
      | 'f' => char '\x0c'
      | 't' => char '\t'
      | 'n' => char '\n'
      | 'r' => char '\r'
      | 'v' => char '\x0b'
      | 'A' => return .assertion .startText
      | 'z' => return .assertion .endText
      | 'b' => return .assertion (← boundaryKind)
      | 'B' => return .assertion .notWordBoundary
      | '<' => return .assertion .wordStart
      | '>' => return .assertion .wordEnd
      | _ => if isEscapable c then char c else refuse

def asciiNames : List String :=
  ["alnum","alpha","ascii","blank","cntrl","digit","graph","lower","print","punct","space","upper",
    "word","xdigit"]

def asciiClass? (cs : List Char) : Option (ClassSet × List Char) := do
  let cs ← dropWord? ['[',':'] cs
  let (negated,cs) := match cs with
    | '^' :: rest => (true,rest)
    | _ => (false,cs)
  let name := String.ofList (cs.takeWhile fun c => c != ':')
  let rest ← dropWord? [':',']'] (cs.dropWhile fun c => c != ':')
  if asciiNames.contains name then some (.ascii name negated,rest) else none

def unionOf : List ClassSet → ClassSet
  | [one] => one
  | members => .union members

def classPrimitive : Read Primitive := do
  match ← peek with
  | none => refuse
  | some '\\' =>
    advance
    escape
  | some c =>
    advance
    return .literal ⟨c,false⟩

def classMember : Primitive → Read ClassSet
  | .literal l => return .literal l
  | .shorthand kind negated => return .shorthand kind negated
  | .property query negated => return .property query negated
  | _ => refuse

def classRange : Read ClassSet := do
  let first ← classPrimitive
  skip
  match ← peek with
  | none => refuse
  | some '-' =>
    let after ← peekNext
    if after = some ']' || after = some '-' then classMember first
    else
      advanceSkip
      match first,← classPrimitive with
      | .literal a,.literal b => if a.char.toNat ≤ b.char.toNat then return .range a b else refuse
      | _,_ => refuse
  | some _ => classMember first

def leadingHyphens : Nat → Read (List ClassSet)
  | 0 => return []
  | fuel + 1 => do
    if (← peek) = some '-' then
      advanceSkip
      return .literal ⟨'-',false⟩ :: (← leadingHyphens fuel)
    else return []

def combineWith (pending : Option (SetOp × ClassSet)) (right : ClassSet) : ClassSet :=
  match pending with
  | some (op,left) => .combine op left right
  | none => right

def setOp? : Read (Option SetOp) := do
  if ← accept "&&" then return some .intersection
  if ← accept "--" then return some .difference
  if ← accept "~~" then return some .symmetricDifference
  return none

def classStart : Read (Bool × List ClassSet) := do
  skip
  let negated := (← peek) = some '^'
  if negated then advanceSkip
  let hyphens ← leadingHyphens ((← get).rest.length + 1)
  if hyphens.isEmpty && (← peek) = some ']' then
    advanceSkip
    return (negated,[.literal ⟨']',false⟩])
  return (negated,hyphens)

-- The members of a class up to its closing bracket. `pending` is the operator read last with its left operand, `members`
-- what was read since then, last one first.
def classBody : Nat → Option (SetOp × ClassSet) → List ClassSet → Read ClassSet
  | 0,_,_ => refuse
  | fuel + 1,pending,members => do
    skip
    match ← peek with
    | none => refuse
    | some '[' =>
      match asciiClass? (← get).rest with
      | some (ascii,rest) =>
        modify fun c => { c with rest }
        classBody fuel pending (ascii :: members)
      | none =>
        advance
        let (negated,front) ← classStart
        let body ← classBody fuel none front.reverse
        classBody fuel pending (.bracket negated body :: members)
    | some ']' =>
      advance
      return combineWith pending (unionOf members.reverse)
    | some _ =>
      match ← setOp? with
      | some op => classBody fuel (some (op,combineWith pending (unionOf members.reverse))) []
      | none =>
        let member ← classRange
        classBody fuel pending (member :: members)

def bracketed (fuel : Nat) : Read Node := do
  let (negated,front) ← classStart
  return .bracket negated (← classBody fuel none front.reverse)

def flagOf? (c : Char) : Option Flag :=
  match c with
  | 'i' => some .caseInsensitive
  | 'm' => some .multiLine
  | 's' => some .dotAll
  | 'U' => some .swapGreed
  | 'u' => some .unicode
  | 'R' => some .crlf
  | 'x' => some .verbose
  | _ => none

-- Flags up to the colon or parenthesis after them, which stays. `off` says that a hyphen was read; `fresh` that a flag
-- has to follow it.
def flagList : Nat → (off fresh : Bool) → FlagChanges → Read FlagChanges
  | 0,_,_,_ => refuse
  | fuel + 1,off,fresh,changes => do
    match ← peek with
    | none => refuse
    | some c =>
      if c = ':' || c = ')' then
        if fresh then refuse else return changes
      else if c = '-' then
        if off then refuse
        advance
        flagList fuel true true changes
      else
        match flagOf? c with
        | none => refuse
        | some flag =>
          if (changes.state? flag).isSome then refuse
          advance
          flagList fuel off false (changes ++ [(flag,!off)])

def isNameChar (first : Bool) (c : Char) : Bool :=
  if first then c = '_' || isAlphabetic c
  else c = '_' || c = '.' || c = '[' || c = ']' || isAlphanumeric c

def groupName : Read String := do
  let name := (← get).rest.takeWhile fun c => c != '>'
  match name with
  | [] => refuse
  | first :: others =>
    if isNameChar true first && others.all (isNameChar false) then
      modify fun c => { c with rest := c.rest.drop name.length }
      if ← accept ">" then return String.ofList name else refuse
    else refuse

inductive Opening where
  | capture (index : Nat)
  | group (changes : FlagChanges)
  | flags (changes : FlagChanges)

def newCapture : Read Opening := do
  modify fun c => { c with captures := c.captures + 1 }
  return .capture (← get).captures

def opening : Read Opening := do
  skip
  let rest := (← get).rest
  let lookAround := [['?','='],['?','!'],['?','<','='],['?','<','!']]
  if lookAround.any fun w => (dropWord? w rest).isSome then refuse
  if (← accept "?P<") || (← accept "?<") then
    let capture ← newCapture
    let name ← groupName
    if (← get).names.contains name then refuse
    modify fun c => { c with names := name :: c.names }
    return capture
  else if ← accept "?" then
    let changes ← flagList ((← get).rest.length + 1) false false []
    if ← accept ")" then
      if changes.isEmpty then refuse else return .flags changes
    else
      advance
      return .group changes
  else newCapture

def repeatable : List Node → Read (Node × List Node)
  | [] => refuse
  | .empty :: _ => refuse
  | .flags _ :: _ => refuse
  | node :: before => return (node,before)

def isGreedy : Read Bool := do
  if (← peek) = some '?' then
    advance
    return false
  return true

def counted : Read (Nat × Option Nat) := do
  skip
  if (← peek).isNone then refuse
  let first ← count?
  match ← peek with
  | some ',' =>
    advanceSkip
    match ← peek,first with
    | some '\x7d',some n => return (n,none)
    | some _,some n =>
      match ← count? with
      | some k => if n ≤ k then return (n,some k) else refuse
      | none => refuse
    | _,_ => refuse
  | some _ =>
    match first with
    | some n => return (n,some n)
    | none => refuse
  | none => refuse

def nodeOf (parts : List Node) : Node :=
  match parts with
  | [] => .empty
  | [one] => one
  | parts => .concat parts

def branchesOf (branches : List Node) : Node :=
  match branches with
  | [one] => one
  | branches => .alternation branches

def plain (c : Char) : Read Node := do
  advance
  match c with
  | '.' => return .dot
  | '^' => return .assertion .startLine
  | '$' => return .assertion .endLine
  | '\\' =>
    match ← escape with
    | .literal l => return .literal l
    | .dot => return .dot
    | .assertion a => return .assertion a
    | .shorthand kind negated => return .shorthand kind negated
    | .property query negated => return .property query negated
  | c => return .literal ⟨c,false⟩

-- Up to the end of the group. `branches` are the alternatives before the current one, `parts` its parts, last ones
-- first.
def sequence : Nat → (inGroup : Bool) → (branches parts : List Node) → Read Node
  | 0,_,_,_ => refuse
  | fuel + 1,inGroup,branches,parts => do
    skip
    match ← peek with
    | none =>
      if inGroup then refuse
      return branchesOf (nodeOf parts.reverse :: branches).reverse
    | some '(' =>
      advance
      match ← opening with
      | .flags changes =>
        if let some on := changes.state? .verbose then
          modify fun c => { c with verbose := on }
        sequence fuel inGroup branches (.flags changes :: parts)
      | .group changes =>
        let before := (← get).verbose
        modify fun c => { c with verbose := (changes.state? .verbose).getD before }
        let body ← sequence fuel true [] []
        modify fun c => { c with verbose := before }
        sequence fuel inGroup branches (.group changes body :: parts)
      | .capture index =>
        let before := (← get).verbose
        let body ← sequence fuel true [] []
        modify fun c => { c with verbose := before }
        sequence fuel inGroup branches (.capture index body :: parts)
    | some ')' =>
      if inGroup then
        advance
        return branchesOf (nodeOf parts.reverse :: branches).reverse
      else refuse
    | some '|' =>
      advance
      sequence fuel inGroup (nodeOf parts.reverse :: branches) []
    | some '[' =>
      advance
      let node ← bracketed fuel
      sequence fuel inGroup branches (node :: parts)
    | some '?' =>
      let (body,before) ← repeatable parts
      advance
      let greedy ← isGreedy
      sequence fuel inGroup branches (.repeated 0 (some 1) greedy body :: before)
    | some '*' =>
      let (body,before) ← repeatable parts
      advance
      let greedy ← isGreedy
      sequence fuel inGroup branches (.repeated 0 none greedy body :: before)
    | some '+' =>
      let (body,before) ← repeatable parts
      advance
      let greedy ← isGreedy
      sequence fuel inGroup branches (.repeated 1 none greedy body :: before)
    | some '\x7b' =>
      let (body,before) ← repeatable parts
      advance
      let (least,most) ← counted
      if (← peek) = some '\x7d' then
        advanceSkip
        let greedy ← isGreedy
        sequence fuel inGroup branches (.repeated least most greedy body :: before)
      else refuse
    | some c =>
      let node ← plain c
      sequence fuel inGroup branches (node :: parts)

def maxNesting : Nat := 250
end Reader
def Node.parse? (text : String) : Option Node :=
  let cs := text.toList
  match Reader.sequence (cs.length + 2) false [] [] ⟨cs,false,0,[]⟩ with
  | some (node,_) => if node.depth ≤ Reader.maxNesting then some node else none
  | none => none
end SchemaOrder.Pattern
