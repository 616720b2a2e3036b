import SchemaOrder.Json
namespace SchemaOrder
-- Every walk over a schema classifies keywords through `Keyword.shape`, so all agree on where sub-schemas sit.
inductive Shape where
  | subSchema
  | items
  | schemaList
  | schemaMap
  | dependencies
  -- a floor: the larger value restricts more
  | lowerBound
  -- a ceiling: the smaller value restricts more
  | upperBound
  | note
  | scalar
deriving DecidableEq
namespace Keyword
def shape (keyword : String) : Shape :=
  match keyword with
  | "additionalProperties" | "additionalItems" | "contains" | "propertyNames" | "not" | "if" | "then" | "else" =>
    .subSchema
  | "items" => .items
  | "allOf" | "anyOf" | "oneOf" => .schemaList
  | "properties" | "patternProperties" | "definitions" => .schemaMap
  | "dependencies" => .dependencies
  | "minimum" | "exclusiveMinimum" | "minLength" | "minItems" | "minProperties" => .lowerBound
  | "maximum" | "exclusiveMaximum" | "maxLength" | "maxItems" | "maxProperties" => .upperBound
  | "title" | "description" | "default" | "examples" | "$comment" | "$id" | "$schema" | "readOnly" | "writeOnly" =>
    .note
  | _ => .scalar

def appliesTo? (keyword : String) : Option String :=
  match keyword with
  | "minimum" | "maximum" | "exclusiveMinimum" | "exclusiveMaximum" | "multipleOf" => some "number"
  | "minLength" | "maxLength" | "pattern" | "format" => some "string"
  | "minItems" | "maxItems" | "uniqueItems" => some "array"
  | "minProperties" | "maxProperties" => some "object"
  | _ => none

def conditional : List String := ["if","then","else"]
end Keyword
def joinPath (parent key : String) : String :=
  parent ++ "." ++ key

def indexPath (parent : String) (index : Nat) : String :=
  parent ++ "[" ++ String.ofList (Nat.toDigits 10 index) ++ "]"

def displayPath (path : String) : String :=
  "$" ++ path
end SchemaOrder
