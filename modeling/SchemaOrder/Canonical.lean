import SchemaOrder.Bound
import SchemaOrder.Json.Text
namespace SchemaOrder
namespace Canonical
-- Canonical form and comparison of schemas.
def nothing : Json := .obj [("not",.obj [])]

def isNothing : Json → Bool
  | .obj [("not",.obj [])] => true
  | _ => false

def dropRepeats {α : Type} (key : α → String) (last : String) : List α → List α
  | [] => []
  | a :: rest => if key a = last then dropRepeats key last rest else a :: dropRepeats key (key a) rest

def dedup {α : Type} (key : α → String) : List α → List α
  | [] => []
  | a :: rest => a :: dropRepeats key (key a) rest

def insertBy {α : Type} (key : α → String) (a : α) : List α → List α
  | [] => [a]
  | b :: rest => if key b < key a then b :: insertBy key a rest else a :: b :: rest

def sortBy {α : Type} (key : α → String) : List α → List α
  | [] => []
  | a :: rest => insertBy key a (sortBy key rest)

def sortNames (names : List String) : List String :=
  dedup id (sortBy id names)

def sortSet (members : List Json) : List Json :=
  (dedup Prod.fst (sortBy Prod.fst (members.map fun v => (v.text,v)))).map Prod.snd

def number : Num → Num
  | .whole n => .whole n
  | .double x =>
    if isMultipleOf x 1.0 && x.abs < 9.0e15 then
      let whole : Int := (integerPart x).abs.toUInt64.toNat
      match Num.ofInt? (if x < 0.0 then -whole else whole) with
      | some n => n
      | none => .double x
    else .double x
mutual
def value : Json → Json
  | .num n => .num (number n)
  | .arr items => .arr (valueItems items)
  | .obj fields => .obj (valueFields fields)
  | v => v

def valueItems : List Json → List Json
  | [] => []
  | v :: rest => value v :: valueItems rest

def valueFields : List (String × Json) → List (String × Json)
  | [] => []
  | (k,v) :: rest => (k,value v) :: valueFields rest
end
def isInert (key : String) (v : Json) : Bool :=
  match key with
  | "uniqueItems" => v.isFalse
  | "minLength" | "minItems" | "minProperties" =>
    match v.float? with
    | some x => x ≤ 0.0
    | none => false
  | _ => Keyword.shape key == .note

inductive Treatment where
  | drop
  | typeSet
  | nameSet
  | valueSet
  | optionalForm
  | items
  | form
  | formSet
  | entries
  | value

def treatment (key : String) (v : Json) : Treatment :=
  if isInert key v then .drop
  else
    match key with
    | "type" => .typeSet
    | "required" => .nameSet
    | "enum" => .valueSet
    | "additionalProperties" | "additionalItems" | "propertyNames" => .optionalForm
    | _ =>
      match Keyword.shape key with
      | .items => .items
      | .subSchema => .form
      | .schemaList => .formSet
      | .schemaMap | .dependencies => .entries
      | _ => .value

def closeObject (fields : Fields) : Fields :=
  match fields.get? "additionalProperties",fields.get? "patternProperties",fields.get? "properties" with
  | some extra,none,some (.obj declared) =>
    if isNothing extra then
      match declared.filter fun property => !isNothing property.2 with
      | [] => fields.erase "properties"
      | kept => fields.put "properties" (.obj kept)
    else fields
  | _,_,_ => fields

def unlessTrivial (v : Json) : Option Json :=
  if v.isEmptyObj then none else some v

def unlessEmpty (fields : Fields) : Option Json :=
  if fields.isEmpty then none else some (.obj fields)
mutual
def form : Json → Json
  | .bool true => .obj []
  | .bool false => nothing
  | .obj fields => .obj (closeObject (Bound.fold (keywords fields)))
  | .num n => .num (number n)
  | .arr items => .arr (valueItems items)
  | v => v

def forms : List Json → List Json
  | [] => []
  | v :: rest => form v :: forms rest

def keywords : List (String × Json) → List (String × Json)
  | [] => []
  | (key,v) :: rest =>
    match
      (match treatment key v with
        | .drop => none
        | .typeSet => some (.strings (sortNames (typeNames v)))
        | .nameSet =>
          match sortNames v.listedStrings with
          | [] => none
          | names => some (.strings names)
        | .valueSet => some (.arr (sortSet (valueItems v.itemsOrNone)))
        | .optionalForm => unlessTrivial (form v)
        | .items =>
          match v with
          | .arr tuple => some (.arr (forms tuple))
          | single => unlessTrivial (form single)
        | .form => some (form v)
        | .formSet =>
          match v with
          | .arr members => some (.arr (sortSet (forms members)))
          | _ => some (.arr [])
        | .entries =>
          match v with
          | .obj members => unlessEmpty (entries members)
          | _ => none
        | .value => some (value v) : Option Json) with
    | some c => (key,c) :: keywords rest
    | none => keywords rest

def entries : List (String × Json) → List (String × Json)
  | [] => []
  | (name,.arr list) :: rest => (name,.arr (sortSet (valueItems list))) :: entries rest
  | (name,schema) :: rest => (name,form schema) :: entries rest
end
end Canonical
def compareSchemas (a b : Json) : Ordering :=
  compareText (Canonical.form a).text (Canonical.form b).text

def equivalent (a b : Json) : Bool :=
  compareSchemas a b == .eq
end SchemaOrder
