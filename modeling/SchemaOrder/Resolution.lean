import SchemaOrder.Condition
import SchemaOrder.Containment
namespace SchemaOrder
-- Resolution of `if`, `then` and `else` against data.
inductive Branch where
  | consequent
  | alternative
deriving DecidableEq

def Branch.keyword : Branch → String
  | .consequent => "then"
  | .alternative => "else"

def Branch.ofCondition (holds : Bool) : Branch :=
  if holds then .consequent else .alternative

structure Resolution where
  resolved : Json
  branch : Option Branch
  -- the data that conditions looked at, under dotted names
  discriminant : Fields
namespace Resolution
def discriminating : List String :=
  ["const","enum","minimum","maximum","exclusiveMinimum","exclusiveMaximum","pattern","minLength","maxLength",
    "multipleOf","minItems","maxItems","format"]

def isDiscriminating : Json → Bool
  | .obj schema => discriminating.any fun key => Fields.has schema key
  | _ => false

def collect (condition data : Json) (found : Fields) : Fields :=
  match (condition.field? "properties").bind Json.fields?,data with
  | some properties,.obj fields =>
    properties.foldl
      (fun found (name,schema) =>
        match Fields.get? fields name with
        | some value => if isDiscriminating schema then found.put name value else found
        | none => found)
      found
  | _,_ => found

def hasConditional (schema : Json) : Bool :=
  (schema.field? "if").isSome ||
    ((schema.field? "allOf").bind Json.items?).any fun entries => entries.any fun entry => (entry.field? "if").isSome

def tighterBound (side : Side) (existing incoming : Json) : Json :=
  match existing.float?,incoming.float? with
  | some a,some b => if Bound.tighter side a b then existing else incoming
  | _,_ => incoming
variable {m : Type → Type} [Monad m]
def mergeKeyword? (e : Engine m) (key : String) (a b : Json) : m (Option Json) := do
  match ← e.intersect? (.single key a) (.single key b) with
  | some (.obj [(k,v)]) => return if k = key then some v else none
  | _ => return none

def mergeEntries (merge : Json → Json → m Json) (existing incoming : Json) : m Json :=
  match existing,incoming with
  | .obj current,.obj more => do
    let out ← more.foldlM
      (fun (out : Fields) (name,v) => do
        match Fields.get? current name with
        | some prior => return out.put name (← merge prior v)
        | none => return out.put name v)
      current
    return .obj out
  | _,_ => return incoming

def mergeSchema (e : Engine m) (prior incoming : Json) : m Json :=
  return (← e.intersect? prior incoming).getD incoming

def mergeDependency (e : Engine m) (prior incoming : Json) : m Json :=
  match prior,incoming with
  | .arr a,.arr b => return .arr (unionStrings a b)
  | .arr _,_ => return incoming
  | _,.arr _ => return incoming
  | _,_ => mergeSchema e prior incoming

def mergeValues (e : Engine m) (key : String) (existing incoming : Json) : m Json :=
  match key with
  | "required" => return .arr (unionStrings existing.itemsOrNone incoming.itemsOrNone)
  | "properties" => mergeEntries (mergeSchema e) existing incoming
  | "dependencies" => mergeEntries (mergeDependency e) existing incoming
  | "pattern" | "format" => return incoming
  | "uniqueItems" => return .bool (existing.bool?.getD false || incoming.bool?.getD false)
  | _ =>
    match Keyword.shape key with
    | .lowerBound => return tighterBound .lower existing incoming
    | .upperBound => return tighterBound .upper existing incoming
    | _ => return (← mergeKeyword? e key existing incoming).getD incoming

def branchFields : Json → Fields
  | .obj fields => fields
  | .bool false => [("not",.emptyObj)]
  | _ => []

def mergeBranch (e : Engine m) (schema : Fields) (branch : Json) : m Fields :=
  (branchFields branch).foldlM
    (fun out (key,incoming) => do
      match out.get? key with
      | none => return out.put key incoming
      | some existing =>
        if existing.deepEqual incoming then return out
        else return out.put key (← mergeValues e key existing incoming))
    schema

structure State where
  schema : Fields
  discriminant : Fields

structure Entries where
  kept : List Json
  taken : List Json
  discriminant : Fields

def decideBranch (e : Engine m) (condition data : Json) (discriminant : Fields) : m (Branch × Fields) := do
  let holds ← e.holds condition data
  return (.ofCondition holds,collect condition data discriminant)

def resolveEntry (e : Engine m) (data : Json) (s : Entries) (entry : Json) : m Entries := do
  match entry,entry.field? "if" with
  | .obj fields,some condition =>
    let (branch,discriminant) ← decideBranch e condition data s.discriminant
    let rest := Fields.without fields Keyword.conditional
    return { kept := if rest.isEmpty then s.kept else s.kept ++ [.obj rest]
             taken := s.taken ++ (Fields.get? fields branch.keyword).toList
             discriminant := discriminant }
  | _,_ => return { s with kept := s.kept ++ [entry] }

def resolveAllOf (e : Engine m) (data : Json) (s : State) : m State := do
  match s.schema.get? "allOf" with
  | some (.arr entries) =>
    let result ← entries.foldlM (resolveEntry e data) { kept := [],taken := [],discriminant := s.discriminant }
    let schema := if result.kept.isEmpty then s.schema.erase "allOf" else s.schema.put "allOf" (.arr result.kept)
    return { schema := ← result.taken.foldlM (mergeBranch e) schema,discriminant := result.discriminant }
  | _ => return s

def resolveOwn (e : Engine m) (data : Json) (s : State) : m (Option Branch × State) := do
  match s.schema.get? "if" with
  | none => return (none,s)
  | some condition =>
    let (branch,discriminant) ← decideBranch e condition data s.discriminant
    let schema ← match s.schema.get? branch.keyword with
      | some chosen => mergeBranch e s.schema chosen
      | none => pure s.schema
    return (some branch,{ schema := schema.without Keyword.conditional,discriminant := discriminant })

def nestedData (data : Json) (name : String) : Json :=
  match data.field? name with
  | some (.obj fields) => .obj fields
  | _ => .emptyObj

def addBelow (name : String) (found nested : Fields) : Fields :=
  nested.foldl (fun found (key,value) => found.put (name ++ "." ++ key) value) found

def resolveProperties (resolve : Json → Json → m Resolution) (data : Json) (s : State) : m State := do
  match s.schema.get? "properties" with
  | some (.obj properties) =>
    if properties.any fun (_,schema) => hasConditional schema then
      let result ← properties.foldlM
        (fun (r : State) (name,schema) => do
          if hasConditional schema then
            let nested ← resolve schema (nestedData data name)
            return { schema := r.schema ++ [(name,nested.resolved)]
                     discriminant := addBelow name r.discriminant nested.discriminant }
          else return { r with schema := r.schema ++ [(name,schema)] })
        { schema := [],discriminant := s.discriminant }
      return { schema := s.schema.put "properties" (.obj result.schema),discriminant := result.discriminant }
    else return s
  | _ => return s

def resolveWithin (e : Engine m) : Nat → Json → Json → m Resolution
  | depth + 1,.obj fields,data => do
    let s ← resolveAllOf e data { schema := fields,discriminant := [] }
    let (branch,s) ← resolveOwn e data s
    let s ← resolveProperties (resolveWithin e depth) data s
    return { resolved := .obj s.schema,branch := branch,discriminant := s.discriminant }
  | _,schema,_ => return { resolved := schema,branch := none,discriminant := [] }
end Resolution
def Engine.resolve {m : Type → Type} [Monad m] (e : Engine m) (schema data : Json) : m Resolution :=
  Resolution.resolveWithin e (schema.depth + 1) schema data

structure ResolvedReport where
  report : Report
  sub : Resolution
  sup : Resolution

-- Resolves both schemas, then checks the results. The data of `sub` serves for both by default.
def Engine.checkResolved {m : Type → Type} [Monad m] (e : Engine m) (sub sup subData : Json) (supData : Option Json) :
    m ResolvedReport := do
  let resolvedSub ← e.resolve sub subData
  let resolvedSup ← e.resolve sup (supData.getD subData)
  let report ← e.check resolvedSub.resolved resolvedSup.resolved
  return { report := report,sub := resolvedSub,sup := resolvedSup }
end SchemaOrder
