import SchemaOrder.Format
import SchemaOrder.Normal
namespace SchemaOrder
-- How the values of a schema lie to a negated schema.
inductive Relation where
  | disjoint
  | contained
  | overlaps
  | unknown
deriving DecidableEq
namespace Negation
def coveredKeywords : List String :=
  ["type","const","enum","format","required","properties","anyOf","oneOf"]

def literals? (sub : Fields) : Option (List Json) :=
  match sub.get? "const" with
  | some constant => some [constant]
  | none => (sub.get? "enum").bind Json.items?

def confinedTypes? (sub : Fields) : Option (List String) :=
  match literals? sub with
  | some values => some (values.map Json.kind)
  | none => (sub.get? "type").bind fun t => if (typeNames t).isEmpty then none else some (typeNames t)

def listed (fields : Fields) (keyword : String) : List String :=
  ((fields.get? keyword).map Json.listedStrings).getD []

def typeRelation? (sub negated : Fields) : Option Relation :=
  (negated.get? "type").map fun t =>
    let excluded := typeNames t
    match confinedTypes? sub with
    | none => .unknown
    | some own =>
      if own.all fun t => excluded.any fun e => typeWithin t e then .contained
      else if own.all fun t => excluded.all fun e => !typesOverlap t e then .disjoint
      else .overlaps

def excludedValues? (negated : Fields) : Option (List Json) :=
  match negated.get? "const",negated.get? "enum" with
  | some constant,_ => some [constant]
  | none,some (.arr members) => some members
  | none,_ => none

def valueRelation? (sub negated : Fields) : Option Relation :=
  (excludedValues? negated).map fun excluded =>
    match literals? sub with
    | none => .unknown
    | some own =>
      if own.all fun v => !v.among excluded then .disjoint
      else if own.all fun v => v.among excluded then .contained
      else .overlaps

def formatRelation? (sub negated : Fields) : Option Relation :=
  ((negated.get? "format").bind Json.str?).map fun format =>
    match confinedTypes? sub with
    | none => .unknown
    | some types =>
      if types.all (· != "string") then .contained
      else if types.any (· != "string") then .unknown
      else
        match literals? sub with
        | some values =>
          if values.all fun v => Format.accepts? v format == some false then .disjoint
          else if values.all fun v => Format.accepts? v format == some true then .contained
          else .unknown
        | none =>
          match (sub.get? "format").bind Json.str? with
          | some own => if Format.within own format then .contained else .unknown
          | none => .unknown

def property? (sub : Fields) (name : String) : Option Fields :=
  (((sub.get? "properties").bind Json.fields?).bind fun ps => ps.get? name).bind Json.fields?

def neverPresent (sub : Fields) (name : String) : Bool :=
  let declared := ((sub.get? "properties").bind Json.fields?).bind fun ps => ps.get? name
  let closed := (sub.get? "additionalProperties").any Json.isFalse && !sub.has "patternProperties"
  (closed && declared.isNone) || declared.any Json.isFalse

def objectRelation? (relate : Fields → Json → Relation) (sub negated : Fields) : Option Relation :=
  let wanted := listed negated "required"
  let constrained := (negated.get? "properties").bind Json.fields?
  if wanted.isEmpty && constrained.isNone then none
  else
    let constrained := constrained.getD []
    let required := listed sub "required"
    let relates := fun (r : Relation) (name : String) (schema : Json) =>
      (property? sub name).any fun own => relate own schema.normalize = r
    let objectsOnly := (confinedTypes? sub).any fun types => types.all (· == "object")
    let excluded := wanted.any (neverPresent sub) ||
      constrained.any fun (name,schema) => required.contains name && relates .disjoint name schema
    if objectsOnly && excluded then some .disjoint
    else if wanted.all required.contains && constrained.all fun (name,schema) => relates .contained name schema then
      some .contained
    else some .unknown

def unionRelation? (relate : Fields → Json → Relation) (sub negated : Fields) : Option Relation :=
  (((negated.get? "anyOf").or (negated.get? "oneOf")).bind Json.items?).map fun alternatives =>
    let relations := alternatives.map fun a => relate sub a.normalize
    if relations.all (· = .disjoint) then .disjoint
    else if relations.contains .contained then .contained
    else if relations.contains .overlaps then .overlaps
    else .unknown

def join (described : Bool) (answers : List Relation) : Relation :=
  if answers.contains .disjoint then .disjoint
  else if !described || answers.isEmpty || answers.contains .unknown then .unknown
  else
    match (answers.filter (· = .overlaps)).length with
    | 0 => .contained
    | 1 => .overlaps
    | _ => .unknown

def isDescribed (negated : Fields) : Bool :=
  negated.all fun (key,_) => coveredKeywords.contains key || Keyword.shape key = .note

def relationWithin : Nat → Fields → Json → Relation
  | _,_,.bool true => .contained
  | _,_,.bool false => .disjoint
  | _,_,.obj [] => .contained
  | depth + 1,sub,.obj negated =>
    join (isDescribed negated) <| List.filterMap id
      [typeRelation? sub negated,valueRelation? sub negated,formatRelation? sub negated,
        objectRelation? (relationWithin depth) sub negated,unionRelation? (relationWithin depth) sub negated]
  | _,_,_ => .unknown
end Negation
def relation (sub : Fields) (negated : Json) : Relation :=
  Negation.relationWithin negated.depth sub negated
end SchemaOrder
