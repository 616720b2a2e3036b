import SchemaOrder.Keyword
import SchemaOrder.Kind
namespace SchemaOrder
-- Bounds: which of two restricts more, which is implied by the other, and when a pair leaves no value.
inductive Side where
  | lower
  | upper
deriving DecidableEq
namespace Bound
def tighter : Side → Float → Float → Bool
  | .lower,a,b => b < a
  | .upper,a,b => a < b

def value? (fields : Fields) (keyword : String) : Option Float :=
  (fields.get? keyword).bind Json.float?

def dropImplied (side : Side) (soft strict : String) (fields : Fields) : Fields :=
  match value? fields soft,value? fields strict with
  | some s,some t => if tighter side s t then fields.erase strict else fields.erase soft
  | _,_ => fields

def fold (fields : Fields) : Fields :=
  dropImplied .upper "maximum" "exclusiveMaximum" (dropImplied .lower "minimum" "exclusiveMinimum" fields)

-- A lower and an upper keyword for one quantity. `strict` says that equal values leave no room.
structure Pair where
  lower : String
  upper : String
  strict : Bool

def pairs : List Pair :=
  [⟨"minimum","maximum",false⟩,⟨"exclusiveMinimum","maximum",true⟩,⟨"minimum","exclusiveMaximum",true⟩,
    ⟨"exclusiveMinimum","exclusiveMaximum",true⟩,⟨"minLength","maxLength",false⟩,
    ⟨"minItems","maxItems",false⟩,⟨"minProperties","maxProperties",false⟩]

def typeConfined (fields : Fields) (kind : String) : Bool :=
  match fields.get? "type" with
  | none => false
  | some declared =>
    let names := typeNames declared
    !names.isEmpty && names.all fun name => typeWithin name kind

def Pair.empties (p : Pair) (fields : Fields) : Bool :=
  match value? fields p.lower,value? fields p.upper,Keyword.appliesTo? p.lower with
  | some l,some u,some kind => (if p.strict then u ≤ l else u < l) && typeConfined fields kind
  | _,_,_ => false
end Bound
end SchemaOrder
