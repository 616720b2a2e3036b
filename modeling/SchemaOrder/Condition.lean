import SchemaOrder.Engine
import SchemaOrder.Format
namespace SchemaOrder
namespace Condition
-- Conditions on data.
def bound? (schema : Fields) (keyword : String) : Option Float :=
  (schema.get? keyword).bind Json.float?

def within (schema : Fields) (keyword : String) (holds : Float → Bool) : Bool :=
  ((bound? schema keyword).map holds).getD true

def literalFits (schema : Fields) (value : Json) : Bool :=
  let constFits := match schema.get? "const" with
    | some expected => expected.deepEqual value
    | none => true
  let enumFits := match schema.get? "enum" with
    | some (.arr members) => members.any fun member => member.deepEqual value
    | _ => true
  let typeFits := match schema.get? "type" with
    | some declared => (typeNames declared).isEmpty || (typeNames declared).any value.hasType
    | none => true
  constFits && enumFits && typeFits

def numberFits (schema : Fields) (value : Json) : Bool :=
  match value.float? with
  | none => true
  | some n =>
    within schema "minimum" (fun m => m ≤ n) && within schema "maximum" (fun m => n ≤ m) &&
      within schema "exclusiveMinimum" (fun m => m < n) && within schema "exclusiveMaximum" (fun m => n < m) &&
      within schema "multipleOf" (fun m => isMultipleOf n m)

def isUnique : List Json → Bool
  | [] => true
  | v :: rest => rest.all (fun w => !v.deepEqual w) && isUnique rest

def arrayFits (schema : Fields) (value : Json) : Bool :=
  match value with
  | .arr items =>
    let count := items.length.toFloat
    let unique := !(schema.get? "uniqueItems").any Json.isTrue || isUnique items
    within schema "minItems" (fun m => m ≤ count) && within schema "maxItems" (fun m => count ≤ m) && unique
  | _ => true
variable {m : Type → Type} [Monad m]
def stringFits (e : Engine m) (schema : Fields) (value : Json) : m Bool :=
  match value with
  | .str text => do
    let patternFits ← match (schema.get? "pattern").bind Json.str? with
      | some pattern => do
        match ← e.matcher pattern with
        | some isMatch => pure (isMatch text)
        | none => pure true
      | none => pure true
    let formatFits := match (schema.get? "format").bind Json.str? with
      | some format => Format.accepts? value format != some false
      | none => true
    let length := text.length.toFloat
    return within schema "minLength" (fun m => m ≤ length) && within schema "maxLength" (fun m => length ≤ m) &&
      patternFits && formatFits
  | _ => return true

def allHold {α : Type} (test : α → m Bool) : List α → m Bool
  | [] => return true
  | a :: rest => do if ← test a then allHold test rest else return false

def someHolds {α : Type} (test : α → m Bool) : List α → m Bool
  | [] => return false
  | a :: rest => do if ← test a then return true else someHolds test rest

def oneHolds {α : Type} (test : α → m Bool) : List α → m Bool
  | [] => return false
  | a :: rest => do
    if ← test a then return !(← someHolds test rest) else oneHolds test rest

-- The keywords of a condition on an object's fields. Fields that are missing are the concern of `required`.
def fieldsHold (nested : Json → m Bool) (fits : Json → Json → m Bool) (condition : Fields) (data : Json) : m Bool := do
  let fields := data.fields?.getD []
  if let some (.obj properties) := condition.get? "properties" then
    let hold ← allHold (fun (name,schema) => do
      match fields.get? name with
      | some value => fits schema value
      | none => return true) properties
    if !hold then return false
  if let some (.arr names) := condition.get? "required" then
    if !(names.filterMap Json.str?).all fields.has then return false
  if let some (.arr entries) := condition.get? "allOf" then
    if !(← allHold nested entries) then return false
  if let some (.arr entries) := condition.get? "anyOf" then
    if !(← someHolds nested entries) then return false
  if let some (.arr entries) := condition.get? "oneOf" then
    if !(← oneHolds nested entries) then return false
  if let some (.obj negated) := condition.get? "not" then
    if ← nested (.obj negated) then return false
  return true
mutual
def holdsWithin (e : Engine m) : Nat → Json → Json → m Bool
  | _,.bool b,_ => return b
  | depth + 1,.obj condition,data =>
    fieldsHold (fun c => holdsWithin e depth c data) (fitsWithin e depth) condition data
  | _,_,_ => return true

def fitsWithin (e : Engine m) : Nat → Json → Json → m Bool
  | _,.bool b,_ => return b
  | depth + 1,.obj schema,value => do
    let nestedFit ←
      if value.isObj && (Fields.has schema "properties" || Fields.has schema "required") then
        fieldsHold (fun c => holdsWithin e depth c value) (fitsWithin e depth) schema value
      else pure true
    if !(literalFits schema value && numberFits schema value) then return false
    if !(← stringFits e schema value) then return false
    return arrayFits schema value && nestedFit
  | _,_,_ => return true
end
end Condition
namespace Engine
variable {m : Type → Type} [Monad m]
def holds (e : Engine m) (condition data : Json) : m Bool :=
  Condition.holdsWithin e condition.depth condition data

def fits (e : Engine m) (schema value : Json) : m Bool :=
  Condition.fitsWithin e schema.depth schema value
end Engine
end SchemaOrder
