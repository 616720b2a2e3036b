
namespace SchemaOrder.Pattern
-- Regular expressions as they are written.
inductive Flag where
  | caseInsensitive
  | multiLine
  | dotAll
  | swapGreed
  | unicode
  | crlf
  | verbose
deriving DecidableEq

abbrev FlagChanges := List (Flag × Bool)

def FlagChanges.state? (changes : FlagChanges) (flag : Flag) : Option Bool :=
  (changes.find? fun change => change.1 = flag).map (·.2)

inductive Assertion where
  | startLine
  | endLine
  | startText
  | endText
  | wordBoundary
  | notWordBoundary
  | wordStart
  | wordEnd
  | wordStartHalf
  | wordEndHalf
deriving DecidableEq

inductive Shorthand where
  | digit
  | space
  | word
deriving DecidableEq

-- A literal character. `byte` marks the two-digit form `\xNN`, which stands for a byte when Unicode is switched off.
structure Literal where
  char : Char
  byte : Bool

inductive PropertyQuery where
  | name (name : String)
  | value (property value : String)

inductive SetOp where
  | intersection
  | difference
  | symmetricDifference
deriving DecidableEq

inductive ClassSet where
  | literal (l : Literal)
  | range (first last : Literal)
  | ascii (name : String) (negated : Bool)
  | shorthand (kind : Shorthand) (negated : Bool)
  | property (query : PropertyQuery) (negated : Bool)
  | bracket (negated : Bool) (body : ClassSet)
  | union (members : List ClassSet)
  | combine (op : SetOp) (left right : ClassSet)

inductive Node where
  | empty
  | flags (changes : FlagChanges)
  | literal (l : Literal)
  | dot
  | assertion (a : Assertion)
  | shorthand (kind : Shorthand) (negated : Bool)
  | property (query : PropertyQuery) (negated : Bool)
  | bracket (negated : Bool) (body : ClassSet)
  | repeated (least : Nat) (most : Option Nat) (greedy : Bool) (body : Node)
  | capture (index : Nat) (body : Node)
  | group (changes : FlagChanges) (body : Node)
  | concat (parts : List Node)
  | alternation (branches : List Node)
mutual
def ClassSet.depth : ClassSet → Nat
  | .bracket _ body => body.depth + 1
  | .union members => depthMembers members + 1
  | .combine _ left right => max left.depth right.depth + 1
  | _ => 0

def depthMembers : List ClassSet → Nat
  | [] => 0
  | s :: rest => max s.depth (depthMembers rest)
end
mutual
def Node.depth : Node → Nat
  | .bracket _ body => body.depth + 1
  | .repeated _ _ _ body => body.depth + 1
  | .capture _ body => body.depth + 1
  | .group _ body => body.depth + 1
  | .concat parts => depthNodes parts + 1
  | .alternation branches => depthNodes branches + 1
  | _ => 0

def depthNodes : List Node → Nat
  | [] => 0
  | n :: rest => max n.depth (depthNodes rest)
end
end SchemaOrder.Pattern
