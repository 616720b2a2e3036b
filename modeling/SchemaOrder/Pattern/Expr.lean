import SchemaOrder.Unicode.CharSet
namespace SchemaOrder.Pattern
open Unicode (CharSet Range)
-- Simplified regular expressions.
inductive WordClass where
  | ascii
  | unicode
deriving DecidableEq

inductive WordEdge where
  | boundary
  | noBoundary
  | start
  | stop
  | startHalf
  | stopHalf
deriving DecidableEq

inductive Look where
  | start
  | stop
  | startLine
  | stopLine
  | startCrlf
  | stopCrlf
  | word (letters : WordClass) (edge : WordEdge)
deriving DecidableEq

-- Whether a class was written over characters or over bytes. It has no influence on matching.
inductive ClassKind where
  | points
  | bytes
deriving DecidableEq

inductive Expr where
  | empty
  | literal (text : List Char)
  | cls (kind : ClassKind) (points : CharSet)
  | look (l : Look)
  | repetition (least : Nat) (most : Option Nat) (greedy : Bool) (body : Expr)
  | capture (index : Nat) (body : Expr)
  | concat (parts : List Expr)
  | alternation (branches : List Expr)
namespace Expr
mutual
def same : Expr → Expr → Bool
  | .empty,.empty => true
  | .literal a,.literal b => a == b
  | .cls k s,.cls l t => k == l && s == t
  | .look a,.look b => a == b
  | .repetition n m g a,.repetition p q h b => n == p && m == q && g == h && same a b
  | .capture i a,.capture j b => i == j && same a b
  | .concat as,.concat bs => sameAll as bs
  | .alternation as,.alternation bs => sameAll as bs
  | _,_ => false

def sameAll : List Expr → List Expr → Bool
  | [],[] => true
  | a :: as,b :: bs => same a b && sameAll as bs
  | _,_ => false
end
mutual
def onlyEmpty : Expr → Bool
  | .empty => true
  | .look _ => true
  | .repetition _ most _ body => most.isSome && onlyEmpty body
  | .capture _ body => onlyEmpty body
  | .concat parts => allOnlyEmpty parts
  | .alternation branches => allOnlyEmpty branches
  | _ => false

def allOnlyEmpty : List Expr → Bool
  | [] => true
  | e :: rest => onlyEmpty e && allOnlyEmpty rest
end
mutual
def size : Expr → Nat
  | .repetition _ _ _ body => size body + 1
  | .capture _ body => size body + 1
  | .concat parts => sizeAll parts + 1
  | .alternation branches => sizeAll branches + 1
  | _ => 1

def sizeAll : List Expr → Nat
  | [] => 0
  | e :: rest => size e + sizeAll rest
end
def nothing : Expr := .cls .bytes []

def onlyChar? : CharSet → Option Char
  | [⟨lo,hi⟩] => if lo = hi then some (Char.ofNat lo) else none
  | _ => none

def «class» (kind : ClassKind) (points : CharSet) : Expr :=
  if points.isEmpty then nothing
  else
    match onlyChar? points with
    | some c => .literal [c]
    | none => .cls kind points

def «repeat» (least : Nat) (most : Option Nat) (greedy : Bool) (body : Expr) : Expr :=
  let (least,most) := if body.onlyEmpty then (min least 1,some (min (most.getD 1) 1)) else (least,most)
  if least = 0 && most = some 0 then .empty
  else if least = 1 && most = some 1 then body
  else .repetition least most greedy body

def flatParts : List Expr → List Expr
  | [] => []
  | .empty :: rest => flatParts rest
  | .concat parts :: rest => parts ++ flatParts rest
  | e :: rest => e :: flatParts rest

def joinLiterals : List Expr → List Expr
  | [] => []
  | e :: rest =>
    match e,joinLiterals rest with
    | .literal a,.literal b :: more => .literal (a ++ b) :: more
    | e,joined => e :: joined

def concatOf (parts : List Expr) : Expr :=
  match joinLiterals (flatParts parts) with
  | [] => .empty
  | [one] => one
  | parts => .concat parts

def flatBranches : List Expr → List Expr
  | [] => []
  | .alternation branches :: rest => branches ++ flatBranches rest
  | e :: rest => e :: flatBranches rest

def singleChars? : List Expr → Option (List Char)
  | [] => some []
  | .literal [c] :: rest => (singleChars? rest).map (c :: ·)
  | _ => none

def classRanges? : List Expr → Option (List Range)
  | [] => some []
  | .cls _ points :: rest => (classRanges? rest).map (points ++ ·)
  | _ => none

def commonPrefix : List Expr → List Expr → List Expr
  | a :: as,b :: bs => if same a b then a :: commonPrefix as bs else []
  | _,_ => []

def branchParts? : List Expr → Option (List (List Expr))
  | [] => some []
  | .concat parts :: rest => (branchParts? rest).map (parts :: ·)
  | _ => none

def liftPrefix? (branches : List Expr) : Option (List Expr × List (List Expr)) :=
  match branchParts? branches with
  | some (first :: others) =>
    let common := others.foldl commonPrefix first
    if common.isEmpty then none else some (common,(first :: others).map (·.drop common.length))
  | _ => none

def alternationWithin : Nat → List Expr → Expr
  | 0,branches => .alternation branches
  | fuel + 1,branches =>
    match flatBranches branches with
    | [] => nothing
    | [one] => one
    | flat =>
      match singleChars? flat,classRanges? flat with
      | some chars,_ => «class» .points (.ofRanges (chars.map fun c => ⟨c.toNat,c.toNat⟩))
      | none,some ranges => «class» .points (.ofRanges ranges)
      | none,none =>
        match liftPrefix? flat with
        | some (common,rests) => concatOf (common ++ [alternationWithin fuel (rests.map concatOf)])
        | none => .alternation flat

def alternationOf (branches : List Expr) : Expr :=
  alternationWithin (sizeAll branches + 1) branches
end Expr
end SchemaOrder.Pattern
