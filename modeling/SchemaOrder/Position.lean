import SchemaOrder.Keyword
namespace SchemaOrder
-- Positions shared by two schemas.
inductive Walk where
  | constants
  | formats
  | settling
deriving DecidableEq

def Walk.keywords : Walk → List String
  | .constants =>
    ["properties","patternProperties","items","additionalProperties","contains","propertyNames","not"]
  | .formats => ["properties","items","additionalProperties"]
  | .settling => ["properties","patternProperties","items","additionalProperties"]

inductive Slot where
  | keyed (keyword key : String)
  | single (keyword : String)
  | indexed (index : Nat)
deriving DecidableEq

structure Paired where
  slot : Slot
  left : Json
  right : Json
  path : String
namespace Paired
def ofMaps (keyword path : String) (left right : Fields) : List Paired :=
  left.filterMap fun (key,l) => (right.get? key).map fun r => ⟨.keyed keyword key,l,r,joinPath path key⟩

def ofTuples (path : String) : Nat → List Json → List Json → List Paired
  | index,l :: ls,r :: rs => ⟨.indexed index,l,r,indexPath path index⟩ :: ofTuples path (index + 1) ls rs
  | _,_,_ => []

def ofKeyword (keyword path : String) (left right : Json) : List Paired :=
  match Keyword.shape keyword,left,right with
  | .schemaMap,.obj l,.obj r => ofMaps keyword path l r
  | .schemaMap,_,_ => []
  | .items,.arr l,.arr r => ofTuples path 0 l r
  | .items,.arr _,_ => []
  | .items,_,.arr _ => []
  | _,l,r => [⟨.single keyword,l,r,path⟩]
end Paired
def pairedPositions (left right : Fields) (path : String) (walk : Walk) : List Paired :=
  walk.keywords.flatMap fun keyword =>
    match left.get? keyword,right.get? keyword with
    | some l,some r => Paired.ofKeyword keyword (joinPath path keyword) l r
    | _,_ => []

def Slot.get? (fields : Fields) : Slot → Option Json
  | .keyed keyword key => (fields.get? keyword).bind fun map => map.field? key
  | .single keyword => fields.get? keyword
  | .indexed index => (fields.get? "items").bind fun items => items.items?.bind fun entries => entries[index]?

def Slot.place (fields : Fields) (slot : Slot) (value : Json) : Fields :=
  match slot with
  | .keyed keyword key =>
    match fields.get? keyword with
    | some (.obj entries) =>
      if Fields.has entries key then fields.put keyword (.obj (Fields.put entries key value)) else fields
    | _ => fields
  | .single keyword => if fields.has keyword then fields.put keyword value else fields
  | .indexed index =>
    match fields.get? "items" with
    | some (.arr entries) => fields.put "items" (.arr (entries.set index value))
    | _ => fields
end SchemaOrder
