import SchemaOrder.Keyword
import SchemaOrder.Kind
namespace SchemaOrder
namespace Normal
-- Normal form of a schema: a one-member `enum` becomes `const`, a `const` gets its type, and an `enum` that holds the
-- `const` beside it is dropped, at every place where a sub-schema sits. The set of accepted values stays the same.
def collapseEnum (fields : Fields) : Fields :=
  match fields.get? "const",fields.get? "enum" with
  | none,some (.arr [only]) => (fields.erase "enum").put "const" only
  | _,_ => fields

def dropEnum (fields : Fields) : Fields :=
  match fields.get? "const",fields.get? "enum" with
  | some constant,some (.arr members) => if constant.among members then fields.erase "enum" else fields
  | _,_ => fields

def inferType (fields : Fields) : Fields :=
  match fields.get? "type",fields.get? "const" with
  | none,some constant => fields.put "type" (.str constant.kind)
  | _,_ => fields

def settle (fields : Fields) : Fields :=
  inferType (dropEnum (collapseEnum fields))
end Normal
mutual
def Json.normalize : Json → Json
  | .obj fields => .obj (Normal.settle (normalizeKeywords fields))
  | v => v

def normalizeKeywords : List (String × Json) → List (String × Json)
  | [] => []
  | (key,value) :: rest =>
    (key,
      match Keyword.shape key,value with
      | .subSchema,v => v.normalize
      | .items,.obj fields => .obj (Normal.settle (normalizeKeywords fields))
      | .items,.arr items => .arr (normalizeItems items)
      | .schemaList,.arr items => .arr (normalizeItems items)
      | .schemaMap,.obj entries => .obj (normalizeEntries entries)
      | .dependencies,.obj entries => .obj (normalizeEntries entries)
      | _,v => v) :: normalizeKeywords rest

def normalizeItems : List Json → List Json
  | [] => []
  | v :: rest => v.normalize :: normalizeItems rest

def normalizeEntries : List (String × Json) → List (String × Json)
  | [] => []
  | (name,v) :: rest => (name,v.normalize) :: normalizeEntries rest
end
end SchemaOrder
