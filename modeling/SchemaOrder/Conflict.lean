import SchemaOrder.Difference
import SchemaOrder.Json.Text
namespace SchemaOrder
-- Why two schemas have no common value: the path, the message, and the difference under which reports list it.
inductive Conflict where
  | constants (path : String) (left right : Json)
  | constantOutsideEnum (path : String) (value members : Json)
  | enums (path : String) (left right : Json)
  | types (path : String) (left right : Json)
  | valueOutsideType (path : String) (value types : Json)
  | formats (path : String) (left right : String)
  | closedObject (path reason : String)
  | bounds (path lowerKeyword : String) (lower : Json) (upperKeyword : String) (upper : Json)
  | notASchema (path : String) (value : Json)
namespace Conflict
def path : Conflict → String
  | constants p _ _ | constantOutsideEnum p _ _ | enums p _ _ | types p _ _ | valueOutsideType p _ _
  | formats p _ _ | closedObject p _ | bounds p _ _ _ _ | notASchema p _ => p

def message : Conflict → String
  | constants p l r => "conflicting const at " ++ displayPath p ++ ": " ++ l.text ++ " vs " ++ r.text
  | constantOutsideEnum p v ms => "const " ++ v.text ++ " at " ++ displayPath p ++ " is not one of " ++ ms.text
  | enums p l r => "no common enum member at " ++ displayPath p ++ ": " ++ l.text ++ " vs " ++ r.text
  | types p l r => "conflicting type at " ++ displayPath p ++ ": " ++ l.text ++ " vs " ++ r.text
  | valueOutsideType p v ts => "value " ++ v.text ++ " at " ++ displayPath p ++ " does not have type " ++ ts.text
  | formats p l r => "incompatible formats at " ++ displayPath p ++ ": '" ++ l ++ "' vs '" ++ r ++ "'"
  | closedObject p reason => "additionalProperties conflict at " ++ displayPath p ++ ": " ++ reason
  | bounds p lk l uk u =>
    "empty range at " ++ displayPath p ++ ": " ++ lk ++ " " ++ l.text ++ " > " ++ uk ++ " " ++ u.text
  | notASchema p v => "not a schema at " ++ displayPath p ++ ": " ++ v.text

def toDifference (base : String) (c : Conflict) : Difference :=
  let place := base ++ c.path
  match c with
  | constants _ l r => ⟨joinPath place "const",.changed,l,r⟩
  | constantOutsideEnum _ v ms => ⟨joinPath place "const",.changed,v,ms⟩
  | enums _ l r => ⟨joinPath place "enum",.changed,l,r⟩
  | types _ l r => ⟨joinPath place "type",.changed,l,r⟩
  | valueOutsideType _ v ts => ⟨joinPath place "type",.changed,v,ts⟩
  | formats _ l r => ⟨joinPath place "format",.changed,.str l,.str r⟩
  | bounds _ lk l _ u => ⟨joinPath place lk,.changed,l,u⟩
  | closedObject _ _ | notASchema _ _ => ⟨place,.changed,.null,.str c.message⟩
end Conflict
end SchemaOrder
