import SchemaOrder.Pattern.Simplify
import SchemaOrder.Random
namespace SchemaOrder.Pattern
open Unicode (CharSet Range)
-- Random words of a pattern.
def printable : Range := ⟨0x20,0x7e⟩

def preferredRanges (ranges : CharSet) : CharSet :=
  let clipped := ranges.filterMap (CharSet.meet printable)
  if clipped.isEmpty then ranges else clipped

def pointCount (ranges : CharSet) : Nat :=
  ranges.foldr (fun r n => (r.hi - r.lo + 1) + n) 0

def pointAt : CharSet → Nat → Option Nat
  | [],_ => none
  | r :: rest,offset =>
    let width := r.hi - r.lo + 1
    if offset < width then some (r.lo + offset) else pointAt rest (offset - width)

def charOfPoint? (point : Nat) : Option Char :=
  if point.isValidChar then some (Char.ofNat point) else none

structure Sampler where
  expr : Expr
  maxRepeat : Nat
  maxLength : Nat
namespace Sampler
def ofPattern? (pattern : String) (maxRepeat maxLength : Nat) : Option Sampler :=
  (Expr.parse? pattern).map fun e => { expr := e,maxRepeat := maxRepeat,maxLength := maxLength }

structure Draft (σ : Type) where
  text : String
  state : σ
variable {σ : Type}
namespace Draft
def write (d : Draft σ) (cs : List Char) : Draft σ :=
  { d with text := d.text ++ String.ofList cs }

def isOverlong (maxLength : Nat) (d : Draft σ) : Bool :=
  d.text.utf8ByteSize > maxLength * 4

def drawPoint (source : Random.Source σ) (ranges : CharSet) (state : σ) : Option Nat × σ :=
  match pointCount ranges with
  | 0 => (none,state)
  | limit + 1 =>
    let (offset,state) := source.wide limit state
    (pointAt ranges offset,state)

def drawChar (source : Random.Source σ) (ranges : CharSet) : (tries : Nat) → σ → Option Char × σ
  | 0,state => (none,state)
  | tries + 1,state =>
    let (point,state) := drawPoint source ranges state
    match point.bind charOfPoint? with
    | some c => (some c,state)
    | none => drawChar source ranges tries state

def classTries : ClassKind → Nat
  | .bytes => 1
  | .points => 8

def writeMember (source : Random.Source σ) (kind : ClassKind) (points : CharSet) (d : Draft σ) : Draft σ :=
  let (c,state) := drawChar source (preferredRanges points) (classTries kind) d.state
  { text := d.text ++ String.ofList c.toList,state := state }

def times (maxLength : Nat) (step : Draft σ → Draft σ) : Nat → Draft σ → Draft σ
  | 0,d => d
  | n + 1,d => if d.isOverlong maxLength then d else times maxLength step n (step d)
end Draft
def mostRounds (maxRepeat least : Nat) (most : Option Nat) : Nat :=
  let cap := min (least + maxRepeat) 0xffffffff
  max (match most with | none => cap | some most => min most cap) least
mutual
def emit (source : Random.Source σ) (maxRepeat maxLength : Nat) : Expr → Draft σ → Draft σ
  | e,d =>
    if d.isOverlong maxLength then d
    else
      match e with
      | .empty => d
      | .look _ => d
      | .literal text => d.write text
      | .cls kind points => d.writeMember source kind points
      | .repetition least most _ body =>
        let (extra,state) := source.narrow (mostRounds maxRepeat least most - least) d.state
        Draft.times maxLength (emit source maxRepeat maxLength body) (least + extra) { d with state := state }
      | .capture _ body => emit source maxRepeat maxLength body d
      | .concat parts => emitAll source maxRepeat maxLength parts d
      | .alternation branches =>
        let (index,state) := source.wide (branches.length - 1) d.state
        emitAt source maxRepeat maxLength branches index { d with state := state }

def emitAll (source : Random.Source σ) (maxRepeat maxLength : Nat) : List Expr → Draft σ → Draft σ
  | [],d => d
  | e :: rest,d => emitAll source maxRepeat maxLength rest (emit source maxRepeat maxLength e d)

def emitAt (source : Random.Source σ) (maxRepeat maxLength : Nat) : List Expr → Nat → Draft σ → Draft σ
  | [],_,d => d
  | e :: _,0,d => emit source maxRepeat maxLength e d
  | _ :: rest,index + 1,d => emitAt source maxRepeat maxLength rest index d
end
def sample (source : Random.Source σ) (s : Sampler) (state : σ) : Option String × σ :=
  let d := emit source s.maxRepeat s.maxLength s.expr { text := "",state := state }
  (if d.text.length ≤ s.maxLength then some d.text else none,d.state)

def samples (source : Random.Source σ) (s : Sampler) : Nat → σ → List (Option String)
  | 0,_ => []
  | n + 1,state =>
    let (word,state) := s.sample source state
    word :: samples source s n state
end Sampler
end SchemaOrder.Pattern
