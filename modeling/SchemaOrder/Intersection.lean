import SchemaOrder.Bound
import SchemaOrder.Conflict
namespace SchemaOrder
-- Intersection of two schemas, keyword by keyword. What one keyword cannot say goes to a residual `allOf` beside the
-- rest, and a schema's own `allOf` is folded in before anything else. Asking `lookup` for a pattern may have an effect
-- in `m`.
abbrev Matcher := String → Bool

abbrev Lookup (m : Type → Type) := String → m (Option Matcher)

abbrev Attempt (m : Type → Type) := ExceptT Conflict (OptionT m)
namespace Attempt
variable {m : Type → Type} [Monad m]
def outOfFuel {α : Type} : Attempt m α :=
  ExceptT.mk (OptionT.mk (pure none))

def ask {α : Type} (x : m α) : Attempt m α :=
  ExceptT.mk (OptionT.mk (do return some (.ok (← x))))

def conflict {α : Type} (c : Conflict) : Attempt m α :=
  ExceptT.mk (OptionT.mk (pure (some (.error c))))

def ofExcept {α : Type} (x : Except Conflict α) : Attempt m α :=
  ExceptT.mk (OptionT.mk (pure (some x)))

-- Takes `fallback` in place of a conflict. Running out of fuel is not a conflict.
def orElse {α : Type} (x : Attempt m α) (fallback : Conflict → Attempt m α) : Attempt m α :=
  tryCatch x fallback
end Attempt
namespace Intersection
def commonType? (a b : String) : Option String :=
  if typeWithin a b then some a else if typeWithin b a then some b else none

def commonTypes (left right : List String) : List String :=
  left.foldl
    (fun found l => right.foldl
      (fun found r =>
        match commonType? l r with
        | some t => if found.contains t then found else found ++ [t]
        | none => found) found) []

def types (left right : Json) (path : String) : Except Conflict Json :=
  match commonTypes (typeNames left) (typeNames right) with
  | [] => .error (.types path left right)
  | [only] => .ok (.str only)
  | many => .ok (.strings many)

def enums (left right : Json) (path : String) : Except Conflict Json :=
  match left,right with
  | .arr ls,.arr rs =>
    match ls.filter fun l => rs.any fun r => l.deepEqual r with
    | [] => .error (.enums path left right)
    | common => .ok (.arr common)
  | _,_ => .ok left

def multipleOf? (left right : Json) : Option Json := do
  let a ← left.float?
  let b ← right.float?
  if a ≤ 0.0 || b ≤ 0.0 then none
  if isMultipleOf a b then return left
  if isMultipleOf b a then return right
  let l ← left.num?.bind Num.unsigned?
  let r ← right.num?.bind Num.unsigned?
  let lcm ← Num.ofInt? ((l / Nat.gcd l r * r : Nat) : Int)
  return .num lcm

def bound (side : Side) (left right : Json) : Json :=
  match left.float?,right.float? with
  | some l,some r => if Bound.tighter side r l then right else left
  | _,_ => left

def appendNew (have_ more : List Json) : List Json :=
  more.foldl (fun seen entry => if seen.any fun e => e.deepEqual entry then seen else seen ++ [entry]) have_

def definitions (left right : Json) : Json :=
  .obj ((left.fields?.getD []).foldl (fun defs (name,schema) => Fields.put defs name schema)
    (right.fields?.getD []))

def required (fields : Fields) : List String :=
  match fields.get? "required" with
  | some names => names.listedStrings
  | none => []

def residualSubSchemas : List String := ["contains","if","then","else"]
section Rules
variable {m : Type → Type} [Monad m]
abbrev Step (m : Type → Type) := Json → Json → String → Attempt m Json

-- Where both maps have an entry the entries are intersected, and one without common value forbids what it governs.
def schemaMaps (recur : Step m) (left right : Json) (path : String) : Attempt m Json :=
  match left,right with
  | .obj l,.obj r => do
    let out ← r.foldlM (fun (out : Fields) (key,rs) => do
      let merged ← match Fields.get? l key with
        | some ls => (recur ls rs (joinPath path key)).orElse fun _ => pure (.bool false)
        | none => pure rs
      return out.put key merged) l
    return .obj out
  | _,_ => pure left

def dependency (recur : Step m) (left right : Json) (path : String) : Attempt m Json :=
  match left,right with
  | .arr a,.arr b => pure (.arr (unionStrings a b))
  | .arr names,schema => recur schema (.single "required" (.arr names)) path
  | schema,.arr names => recur schema (.single "required" (.arr names)) path
  | l,r => recur l r path

def dependencies (recur : Step m) (left right : Json) (path : String) : Attempt m Json :=
  match left,right with
  | .obj l,.obj r => do
    let out ← r.foldlM (fun (out : Fields) (key,rd) => do
      let merged ← match Fields.get? l key with
        | some ld => dependency recur ld rd (joinPath path key)
        | none => pure rd
      return out.put key merged) l
    return .obj out
  | _,_ => pure left

def keyword (recur : Step m) (key : String) (left right : Json) (path : String) :
    Attempt m (Json × List Json) :=
  let alone := fun (x : Attempt m Json) => do return ((← x),([] : List Json))
  let residual := (left,[Json.single key right])
  if left.deepEqual right then pure (left,[])
  else
    match key with
    | "type" => alone (.ofExcept (types left right path))
    | "const" => .conflict (.constants path left right)
    | "enum" => alone (.ofExcept (enums left right path))
    | "required" => pure (.arr (unionStrings left.itemsOrNone right.itemsOrNone),[])
    | "uniqueItems" => pure (.bool (left.bool?.getD false || right.bool?.getD false),[])
    | "multipleOf" =>
      match multipleOf? left right with
      | some divisor => pure (divisor,[])
      | none => pure residual
    | "not" => pure (.single "anyOf" (.arr [left,right]),[])
    | "allOf" => pure (.arr (appendNew left.itemsOrNone right.itemsOrNone),[])
    | "definitions" => pure (definitions left right,[])
    | _ =>
      match Keyword.shape key with
      | .lowerBound => pure (bound .lower left right,[])
      | .upperBound => pure (bound .upper left right,[])
      | .subSchema =>
        if residualSubSchemas.contains key then pure residual
        else alone (recur left right (joinPath path key))
      | .schemaMap => alone (schemaMaps recur left right (joinPath path key))
      | .dependencies => alone (dependencies recur left right (joinPath path key))
      | .note => pure (left,[])
      | _ => pure residual

def constraints (lookup : String → m (Option Matcher)) (owner : Fields) (name : String) : m (List Json) := do
  let patterns := ((owner.get? "patternProperties").bind Json.fields?).getD []
  let governing ← patterns.filterM fun (pattern,_) => do
    match ← lookup pattern with
    | some isMatch => return isMatch name
    | none => return false
  if governing.isEmpty then return (owner.get? "additionalProperties").toList
  else return governing.map (·.2)

def constrainUndeclared (lookup : String → m (Option Matcher)) (recur : Step m) (schema : Json) (owner : Fields)
    (name path : String) : Attempt m Json := do
  let governing ← Attempt.ask (constraints lookup owner name)
  governing.foldlM (fun acc constraint => recur acc constraint path) schema

def settleProperty (wanted : List String) (name : String) (merged : Attempt m Json) : Attempt m Json :=
  merged.orElse fun c => if wanted.contains name then .conflict c else pure (.bool false)

def properties (lookup : String → m (Option Matcher)) (recur : Step m) (left right : Fields) (path : String) :
    Attempt m (Option Json) := do
  let declared := fun (fields : Fields) => (fields.get? "properties").bind Json.fields?
  match declared left,declared right with
  | none,none => return none
  | lp,rp =>
    let lp : Fields := lp.getD []
    let rp : Fields := rp.getD []
    let wanted := required left ++ required right
    let base := joinPath path "properties"
    let out ← lp.foldlM (fun (out : Fields) (name,lv) => do
      let merged := match rp.get? name with
        | some rv => recur lv rv (joinPath base name)
        | none => constrainUndeclared lookup recur lv right name (joinPath base name)
      return out.put name (← settleProperty wanted name merged)) []
    let out ← rp.foldlM (fun (out : Fields) (name,rv) => do
      if lp.has name then return out
      let merged := constrainUndeclared lookup recur rv left name (joinPath base name)
      return out.put name (← settleProperty wanted name merged)) out
    return some (.obj out)

def optional (recur : Step m) (left right : Option Json) (path : String) : Attempt m (Option Json) :=
  match left,right with
  | some l,some r => return some (← recur l r path)
  | some one,none | none,some one => return some one
  | none,none => return none

def tupleWith (recur : Step m) (single : Json) (path : String) : Nat → List Json → Attempt m (List Json)
  | _,[] => return []
  | index,entry :: rest => do
    let first ← recur entry single (indexPath path index)
    return first :: (← tupleWith recur single path (index + 1) rest)

-- Two tuples entry by entry. The longer one meets the other side's schema for further items.
def tuples (recur : Step m) (leftMore rightMore : Json) (path : String) :
    Nat → List Json → List Json → Attempt m (List Json)
  | _,[],[] => return []
  | index,l :: ls,[] => do
    let first ← recur l rightMore (indexPath path index)
    return first :: (← tuples recur leftMore rightMore path (index + 1) ls [])
  | index,[],r :: rs => do
    let first ← recur leftMore r (indexPath path index)
    return first :: (← tuples recur leftMore rightMore path (index + 1) [] rs)
  | index,l :: ls,r :: rs => do
    let first ← recur l r (indexPath path index)
    return first :: (← tuples recur leftMore rightMore path (index + 1) ls rs)

def items (recur : Step m) (left right : Fields) (path : String) : Attempt m (Option Json × Option Json) := do
  let base := joinPath path "items"
  let more := joinPath path "additionalItems"
  let la := left.get? "additionalItems"
  let ra := right.get? "additionalItems"
  match left.get? "items",right.get? "items" with
  | none,none => return (none,← optional recur la ra more)
  | some l,none => return (some l,la)
  | none,some r => return (some r,ra)
  | some (.arr ls),some (.arr rs) =>
    let merged ← tuples recur (la.getD (.bool true)) (ra.getD (.bool true)) base 0 ls rs
    return (some (.arr merged),← optional recur la ra more)
  | some (.arr tuple),some single =>
    let merged ← tupleWith recur single base 0 tuple
    return (some (.arr merged),← optional recur la (some single) more)
  | some single,some (.arr tuple) =>
    let merged ← tupleWith recur single base 0 tuple
    return (some (.arr merged),← optional recur (some single) ra more)
  | some l,some r => return (some (← recur l r base),none)

def sameOption : Option Json → Option Json → Bool
  | some a,some b => a.deepEqual b
  | none,none => true
  | _,_ => false

def conditionalsClash (left right : Fields) : Bool :=
  left.has "if" && right.has "if" &&
    Keyword.conditional.any fun k => !sameOption (left.get? k) (right.get? k)

def setAside (clash : Bool) (key : String) : Bool :=
  key == "properties" || key == "items" || key == "additionalItems" || (clash && Keyword.conditional.contains key)

def putOption (fields : Fields) (key : String) : Option Json → Fields
  | some v => fields.put key v
  | none => fields

def sharedKeywords (recur : Step m) (clash : Bool) (left right : Fields) (path : String) (residual : List Json) :
    Attempt m (Fields × List Json) :=
  left.foldlM (fun ((out,residual) : Fields × List Json) (key,lv) => do
    if setAside clash key then return (out,residual)
    match right.get? key with
    | some rv =>
      let (merged,extra) ← keyword recur key lv rv path
      return (out.put key merged,residual ++ extra)
    | none => return (out.put key lv,residual)) ([],residual)

def rightKeywords (clash : Bool) (left right out : Fields) : Fields :=
  right.foldl (fun out (key,rv) => if left.has key || setAside clash key then out else out.put key rv) out

def leftConditional (clash : Bool) (left out : Fields) : Fields :=
  if clash then Keyword.conditional.foldl (fun out key => putOption out key (left.get? key)) out else out

def addResidual (out : Fields) (residual : List Json) : Fields :=
  if residual.isEmpty then out
  else out.put "allOf" (.arr (appendNew (((out.get? "allOf").bind Json.items?).getD []) residual))
end Rules
def fitsType (fields : Fields) (v : Json) : Bool :=
  match fields.get? "type" with
  | none => true
  | some declared => (typeNames declared).any v.hasType

def reconcileValues (fields : Fields) (path : String) : Except Conflict Fields :=
  let constant := fields.get? "const"
  match constant.filter fun c => !fitsType fields c with
  | some c => .error (.valueOutsideType path c ((fields.get? "type").getD .null))
  | none =>
    match fields.get? "enum" with
    | some (.arr members) =>
      let kept := members.filter fun v => fitsType fields v && constant.all fun c => v.deepEqual c
      if kept.isEmpty then
        match constant with
        | some c => .error (.constantOutsideEnum path c (.arr members))
        | none => .error (.enums path (.arr members) ((fields.get? "type").getD .null))
      else if kept.length = members.length then .ok fields
      else .ok (fields.put "enum" (.arr kept))
    | _ => .ok fields

def checkBounds (fields : Fields) (path : String) : Except Conflict Unit :=
  match Bound.pairs.find? fun p => p.empties fields with
  | some p =>
    .error (.bounds path p.lower ((fields.get? p.lower).getD .null) p.upper ((fields.get? p.upper).getD .null))
  | none => .ok ()
section Rules
variable {m : Type → Type} [Monad m]
def objects (lookup : String → m (Option Matcher)) (recur : Step m) (left right : Fields) (path : String) :
    Attempt m Fields := do
  let clash := conditionalsClash left right
  let residual := if clash then [Json.obj (right.pick Keyword.conditional)] else []
  let (out,residual) ← sharedKeywords recur clash left right path residual
  let out := leftConditional clash left (rightKeywords clash left right out)
  let out := putOption out "properties" (← properties lookup recur left right path)
  let (single,more) ← items recur left right path
  let out := putOption (putOption out "items" single) "additionalItems" more
  let out ← .ofExcept (reconcileValues (addResidual out residual) path)
  let out := Bound.fold out
  .ofExcept (checkBounds out path)
  return out

def foldAllOf (recur : Step m) (schema : Json) (path : String) : Attempt m Json :=
  match schema with
  | .obj fields =>
    match Fields.get? fields "allOf" with
    | some (.arr entries) => entries.foldlM (fun acc entry => recur acc entry path) (.obj (Fields.erase fields "allOf"))
    | _ => pure schema
  | _ => pure schema

def step (lookup : String → m (Option Matcher)) (recur : Step m) : Step m := fun a b path => do
  let a ← foldAllOf recur a path
  let b ← foldAllOf recur b path
  match a,b with
  | .bool false,_ | _,.bool false => return .bool false
  | .bool true,other | other,.bool true => return other
  | .obj left,.obj right => return .obj (← objects lookup recur left right path)
  | .obj _,other | other,_ => .conflict (.notASchema path other)

def mergeWithin (lookup : String → m (Option Matcher)) : Nat → Step m
  | 0 => fun _ _ _ => .outOfFuel
  | fuel + 1 => step lookup (mergeWithin lookup fuel)

def budget (a b : Json) : Nat :=
  Nat.pow (a.size + b.size + 1) 4

-- Running out of fuel, which the budget excludes, would leave the intersection unsimplified.
def merge (lookup : String → m (Option Matcher)) (a b : Json) : m (Except Conflict Json) := do
  match ← (mergeWithin lookup (budget a b) a b "").run.run with
  | some result => return result
  | none => return .ok (.single "allOf" (.arr [a,b]))
end Rules
end Intersection
end SchemaOrder
