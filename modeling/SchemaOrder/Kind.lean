import SchemaOrder.Json
namespace SchemaOrder
-- Kinds of values. `integer` lies inside `number`; any other two distinct names have nothing in common.
def Json.kind : Json → String
  | .null => "null"
  | .bool _ => "boolean"
  | .num n => if n.isIntegral then "integer" else "number"
  | .str _ => "string"
  | .arr _ => "array"
  | .obj _ => "object"

def Json.hasType (v : Json) (name : String) : Bool :=
  match name,v with
  | "number",.num _ => true
  | "integer",.num n => n.isIntegral
  | "null",.null => true
  | "boolean",.bool _ => true
  | "string",.str _ => true
  | "array",.arr _ => true
  | "object",.obj _ => true
  | _,_ => false

def typeNames : Json → List String
  | .str name => [name]
  | .arr items => items.filterMap Json.str?
  | _ => []

def typeWithin (inner outer : String) : Bool :=
  inner == outer || (inner == "integer" && outer == "number")

def typesOverlap (a b : String) : Bool :=
  typeWithin a b || typeWithin b a
end SchemaOrder
