import SchemaOrder.Pattern.Expr
import SchemaOrder.Unicode.CharClass
namespace SchemaOrder.Pattern
open Unicode (CharTable isWordChar)
-- Programs that search a text for a match.
inductive Instr where
  | accept
  | fail
  | char (c : Char) (next : Nat)
  | table (t : CharTable) (next : Nat)
  | look (l : Look) (next : Nat)
  | split (targets : List Nat)

structure Program where
  code : Array Instr
  start : Nat
namespace Program
structure Layout where
  code : Array Instr
  entry : Nat
namespace Layout
def push (l : Layout) (i : Instr) : Layout :=
  { code := l.code.push i,entry := l.code.size }

def times (step : Layout → Layout) : Nat → Layout → Layout
  | 0,l => l
  | n + 1,l => times step n (step l)

def loop (body : Layout → Layout) (l : Layout) : Layout :=
  let head := l.code.size
  let inner := body { code := l.code.push .fail,entry := head }
  { code := inner.code.setIfInBounds head (.split [inner.entry,l.entry]),entry := head }

def optional (body : Layout → Layout) (after : Nat) : Nat → Layout → Layout
  | 0,l => l
  | n + 1,l =>
    let inner := body l
    optional body after n (inner.push (.split [inner.entry,after]))

def chars : List Char → Layout → Layout
  | [],l => l
  | c :: rest,l =>
    let after := chars rest l
    after.push (.char c after.entry)
mutual
def expr : Expr → Layout → Layout
  | .empty,l => l
  | .literal text,l => chars text l
  | .cls _ points,l => l.push (.table points.toTable l.entry)
  | .look test,l => l.push (.look test l.entry)
  | .repetition least most _ body,l =>
    let tail := match most with
      | none => loop (expr body) l
      | some most => optional (expr body) l.entry (most - least) l
    times (expr body) least tail
  | .capture _ body,l => expr body l
  | .concat parts,l => sequence parts l
  | .alternation branches,l =>
    let (l,entries) := alternatives branches l.entry l
    l.push (.split entries)

def sequence : List Expr → Layout → Layout
  | [],l => l
  | e :: rest,l => expr e (sequence rest l)

def alternatives : List Expr → Nat → Layout → Layout × List Nat
  | [],_,l => (l,[])
  | e :: rest,after,l =>
    let branch := expr e { l with entry := after }
    let (l,entries) := alternatives rest after branch
    (l,branch.entry :: entries)
end
end Layout
def ofExpr (e : Expr) : Program :=
  let l := Layout.expr e { code := #[.accept],entry := 0 }
  { code := l.code,start := l.entry }

def isAsciiWordChar (c : Char) : Bool :=
  c.isAlphanum || c = '_'

def holds (before after : Option Char) : Look → Bool
  | .start => before.isNone
  | .stop => after.isNone
  | .startLine => before.isNone || before = some '\n'
  | .stopLine => after.isNone || after = some '\n'
  | .startCrlf => before.isNone || before = some '\n' || (before = some '\r' && after != some '\n')
  | .stopCrlf => after.isNone || after = some '\r' || (after = some '\n' && before != some '\r')
  | .word letters edge =>
    let inWord := match letters with
      | .ascii => isAsciiWordChar
      | .unicode => isWordChar
    let left := before.any inWord
    let right := after.any inWord
    match edge with
    | .boundary => left != right
    | .noBoundary => left == right
    | .start => !left && right
    | .stop => left && !right
    | .startHalf => !left
    | .stopHalf => !right

structure Reach where
  visited : Array Nat
  readers : List Nat
  accepted : Bool

def follow (code : Array Instr) (round : Nat) (before after : Option Char) : Nat → List Nat → Reach → Reach
  | 0,_,r => r
  | _,[],r => r
  | fuel + 1,i :: work,r =>
    if (r.visited.getD i round) = round then follow code round before after fuel work r
    else
      let r := { r with visited := r.visited.setIfInBounds i round }
      match code[i]? with
      | some .accept => { r with accepted := true }
      | some (.char _ _) | some (.table _ _) => follow code round before after fuel work { r with readers := i :: r.readers }
      | some (.look test next) =>
        if holds before after test then follow code round before after fuel (next :: work) r
        else follow code round before after fuel work r
      | some (.split targets) => follow code round before after fuel (targets ++ work) r
      | _ => follow code round before after fuel work r

def advance (code : Array Instr) (c : Char) (i : Nat) : Option Nat :=
  match code[i]? with
  | some (.char d next) => if c = d then some next else none
  | some (.table t next) => if t.contains c.toNat then some next else none
  | _ => none

def exits : Instr → Nat
  | .split targets => targets.length
  | _ => 1

def roundBound (p : Program) : Nat :=
  p.code.foldl (fun n i => n + exits i) 0 + p.code.size + 2

def searchFrom (p : Program) (bound : Nat) : (round : Nat) → (before : Option Char) → (places : List Nat) →
    (visited : Array Nat) → List Char → Bool
  | round,before,places,visited,text =>
    let r := follow p.code round before text.head? bound (places ++ [p.start])
      { visited := visited,readers := [],accepted := false }
    if r.accepted then true
    else
      match text with
      | [] => false
      | c :: rest => searchFrom p bound (round + 1) (some c) (r.readers.filterMap (advance p.code c)) r.visited rest

def search (p : Program) (text : String) : Bool :=
  searchFrom p p.roundBound 1 none [] (.replicate p.code.size 0) text.toList
end Program
end SchemaOrder.Pattern
