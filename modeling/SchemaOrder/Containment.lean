import SchemaOrder.Engine
import SchemaOrder.Negation
namespace SchemaOrder
-- Containment of schemas: does every value of `sub` satisfy `sup`?
structure Report where
  isSubset : Bool
  merged : Option Json
  differences : List Difference
namespace Report
def holds (merged : Json) : Report :=
  { isSubset := true,merged := some merged,differences := [] }

def unionOf : List Json → Option Json
  | [] => none
  | [one] => some one
  | branches => some (.single "anyOf" (.arr branches))

def all (parts : List Report) : Report :=
  { isSubset := parts.all (·.isSubset)
    merged := unionOf (parts.filterMap (·.merged))
    differences := parts.flatMap (·.differences) }
end Report
inductive UnionKind where
  | anyOf
  | oneOf
deriving DecidableEq

def UnionKind.keyword : UnionKind → String
  | .anyOf => "anyOf"
  | .oneOf => "oneOf"

structure Split where
  kind : UnionKind
  branches : List Json
  beside : Fields

def Split.of? (schema : Json) : Option Split :=
  match schema with
  | .obj fields =>
    match Fields.get? fields "anyOf",Fields.get? fields "oneOf" with
    | some (.arr branches),_ => some ⟨.anyOf,branches,Fields.without fields ["anyOf"]⟩
    | _,some (.arr branches) => some ⟨.oneOf,branches,Fields.without fields ["oneOf"]⟩
    | _,_ => none
  | _ => none
mutual
def Json.unionCount : Json → Nat
  | .arr items => unionCountItems items
  | .obj fields => unionCountFields fields
  | _ => 0

def unionCountItems : List Json → Nat
  | [] => 0
  | v :: rest => v.unionCount + unionCountItems rest

def unionCountFields : List (String × Json) → Nat
  | [] => 0
  | (key,v) :: rest => (if key = "anyOf" || key = "oneOf" then 1 else 0) + v.unionCount + unionCountFields rest
end
namespace Engine
variable {m : Type → Type} [Monad m]
def withBeside (e : Engine m) (beside : Fields) (branch : Json) : m (Option Json) :=
  if beside.isEmpty then return some branch.normalize
  else return (← e.intersect? (.obj beside) branch).map Json.normalize

structure Settled where
  sup : Fields
  failures : List Difference
namespace Settled
def settle (s : Settled) (keyword : String) (replacement : Option Json) : Settled :=
  match replacement with
  | some v => { s with sup := s.sup.put keyword v }
  | none => { s with sup := s.sup.erase keyword }

def fail (s : Settled) (d : Difference) : Settled :=
  { s with failures := s.failures ++ [d] }

def decide (s : Settled) (verdict : Option Bool) (keyword : String) (replacement : Option Json) (violation : Difference) :
    Settled :=
  match verdict with
  | some true => s.settle keyword replacement
  | some false => s.fail violation
  | none => s
end Settled
def ownConstraint (sub : Fields) (keyword : String) : Json :=
  match (sub.get? keyword).bind Json.str? with
  | some s => .str s
  | none => ((sub.get? "const").or (sub.get? "enum")).getD .null

def patternVerdict (e : Engine m) (sub : Fields) (pattern : String) : m (Option Bool) :=
  match Negation.literals? sub with
  | some values => do
    return (← e.matcher pattern).map fun isMatch => (values.filterMap Json.str?).all isMatch
  | none =>
    match (sub.get? "pattern").bind Json.str? with
    | some own => e.patternWithin own pattern
    | none => return none

def settlePattern (e : Engine m) (sub : Fields) (path : String) (s : Settled) : m Settled :=
  match (s.sup.get? "pattern").bind Json.str? with
  | none => return s
  | some pattern => do
    let verdict ← e.patternVerdict sub pattern
    return s.decide verdict "pattern" (sub.get? "pattern")
      ⟨joinPath path "pattern",.changed,ownConstraint sub "pattern",.str pattern⟩

def formatVerdict (sub : Fields) (format : String) : Option Bool :=
  match Negation.literals? sub with
  | some values =>
    let answers := values.map fun v => Format.accepts? v format
    if answers.contains (some false) then some false
    else if answers.all (· == some true) then some true
    else none
  | none =>
    match (sub.get? "format").bind Json.str? with
    | some own =>
      if Format.within own format then some true
      else if Format.isKnown own && Format.isKnown format then some false
      else none
    | none => none

def settleFormat (sub : Fields) (path : String) (s : Settled) : Settled :=
  match (s.sup.get? "format").bind Json.str? with
  | none => s
  | some format =>
    s.decide (formatVerdict sub format) "format" (sub.get? "format")
      ⟨joinPath path "format",.changed,ownConstraint sub "format",.str format⟩

def negationVerdict (sub : Fields) (negated : Json) : Option Bool :=
  match relation sub negated.normalize with
  | .disjoint => some true
  | .contained | .overlaps => some false
  | .unknown => none

def settleNegation (sub : Fields) (path : String) (s : Settled) : Settled :=
  match s.sup.get? "not" with
  | none => s
  | some negated =>
    if (sub.get? "not").any fun own => equivalent own negated then s
    else s.decide (negationVerdict sub negated) "not" none ⟨joinPath path "not",.added,.null,negated⟩

def reconcileWithin (e : Engine m) : Nat → Json → Json → String → m (Json × List Difference)
  | depth + 1,.obj sub,.obj sup,path => do
    let s ← e.settlePattern sub path { sup := sup,failures := [] }
    let s := settleNegation sub path (settleFormat sub path s)
    let s ← (pairedPositions sub sup path .settling).foldlM
      (fun s p => do
        let (settled,failures) ← reconcileWithin e depth p.left p.right p.path
        return { sup := p.slot.place s.sup settled,failures := s.failures ++ failures })
      s
    return (.obj s.sup,s.failures)
  | _,_,sup,_ => return (sup,[])

def reconcile (e : Engine m) (sub sup : Json) (path : String) : m (Json × List Difference) :=
  e.reconcileWithin sub.depth sub sup path

def isUnsatisfiable (schema : Json) : Bool :=
  equivalent schema (.bool false)

def excludedByNegation (sub sup : Json) : Bool :=
  match sub,sup.field? "not" with
  | .obj fields,some negated => relation fields negated.normalize = .contained
  | _,_ => false

def checkFailed (e : Engine m) (sub sup : Json) (failures : List Difference) : m Report := do
  let merged ← if excludedByNegation sub sup then pure none else e.intersect? sub sup
  return { isSubset := false
           merged := (merged.map Json.normalize).filter (!isUnsatisfiable ·)
           differences := failures }

def checkSettled (e : Engine m) (sub sup : Json) (path : String) : m Report := do
  match ← e.intersect sub sup with
  | .error c => return { isSubset := false,merged := none,differences := [c.toDifference path] }
  | .ok common =>
    let merged := common.normalize
    let isSubset := equivalent merged sub
    return { isSubset := isSubset
             merged := if isUnsatisfiable merged then none else some merged
             differences := if isSubset then [] else differences sub merged path }

def checkAtomic (e : Engine m) (sub sup : Json) (path : String) : m Report := do
  if equivalent sub sup then return .holds sub
  let (sup,failures) ← e.reconcile sub sup path
  if failures.isEmpty then e.checkSettled sub sup path else e.checkFailed sub sup failures

def closer (closest : Option Report) (r : Report) : Option Report :=
  match closest with
  | none => some r
  | some c => if c.merged.isNone && r.merged.isSome then some r else some c

def checkBranches (e : Engine m) (sub : Json) (beside : Fields) (path : String) :
    Option Report → List Json → m (Option Report)
  | closest,[] => return closest
  | closest,branch :: rest => do
    match ← e.withBeside beside branch with
    | none => checkBranches e sub beside path closest rest
    | some sup =>
      let r ← e.checkAtomic sub sup path
      if r.isSubset then return some r else checkBranches e sub beside path (closer closest r) rest

structure Part where
  beside : Fields
  branch : Json
  path : String

def unionParts (split : Split) (path : String) : List Part :=
  split.branches.zipIdx.map fun (branch,i) => ⟨split.beside,branch,indexPath (joinPath path split.kind.keyword) i⟩

def typeParts (sub : Json) (path : String) : List Part :=
  match sub.field? "type" with
  | some (.arr types) => if types.length < 2 then [] else types.map fun t => ⟨[("type",t)],sub,path⟩
  | _ => []

def checkParts (e : Engine m) (check : Json → String → OptionT m Report) : List Part → OptionT m (List Report)
  | [] => return []
  | p :: rest => do
    match ← OptionT.lift (e.withBeside p.beside p.branch) with
    | none => checkParts e check rest
    | some sub =>
      let r ← check sub p.path
      return r :: (← checkParts e check rest)

def noBranch (sub sup : Json) (kind : UnionKind) (path : String) : Report :=
  { isSubset := false,merged := none,differences := [⟨joinPath path kind.keyword,.changed,sub,sup⟩] }

def checkAgainst (e : Engine m) (sup : Json) : (fuel : Nat) → Json → String → OptionT m Report
  | 0,_,_ => OptionT.fail
  | fuel + 1,sub,path =>
    match Split.of? sup with
    | none => OptionT.lift (e.checkAtomic sub sup path)
    | some split => do
      let closest ← OptionT.lift (e.checkBranches sub split.beside path none split.branches)
      let answer := closest.getD (noBranch sub sup split.kind path)
      let parts := typeParts sub path
      if answer.isSubset || parts.isEmpty then return answer
      let byType := Report.all (← e.checkParts (checkAgainst e sup fuel) parts)
      return if byType.isSubset then byType else answer

def typeFuel (sub : Json) : Nat :=
  ((sub.field? "type").map Json.depth).getD 0 + 2

def checkWithin (e : Engine m) (sup : Json) : (fuel : Nat) → Json → String → OptionT m Report
  | 0,_,_ => OptionT.fail
  | fuel + 1,sub,path =>
    if sub.isFalse then return { isSubset := true,merged := none,differences := [] }
    else if sup.isTrue || equivalent sup .emptyObj then return .holds sub
    else
      let sub := if sub.isTrue then .emptyObj else sub
      if equivalent sub sup then return .holds sub
      else
        match Split.of? sub with
        | none => e.checkAgainst sup (typeFuel sub) sub path
        | some split => return Report.all (← e.checkParts (checkWithin e sup fuel) (unionParts split path))

def unfinished : Report :=
  { isSubset := false,merged := none,differences := [] }

def check (e : Engine m) (sub sup : Json) : m Report := do
  let sub := sub.normalize
  let report ← (e.checkWithin sup.normalize (sub.unionCount + 2) sub "").run
  return report.getD unfinished

def intersection? (e : Engine m) (a b : Json) : m (Option Json) := do
  let merged ← e.intersect? a.normalize b.normalize
  return (merged.map Json.normalize).filter (!isUnsatisfiable ·)
end Engine
def equivalentSchemas (a b : Json) : Bool :=
  equivalent a.normalize b.normalize
end SchemaOrder
