import SchemaOrder.Number
namespace SchemaOrder
-- An object is a list of fields. Those that come out of the reader and of every operation here hold each key once and in
-- ascending order of code points, which `Fields.Sorted` states.
inductive Json where
  | null
  | bool (b : Bool)
  | num (n : Num)
  | str (s : String)
  | arr (items : List Json)
  | obj (fields : List (String × Json))

abbrev Fields := List (String × Json)
namespace Fields
def get? : Fields → String → Option Json
  | [],_ => none
  | (k,v) :: rest,key => if k = key then some v else get? rest key

def has (fields : Fields) (key : String) : Bool :=
  (fields.get? key).isSome

def put : Fields → String → Json → Fields
  | [],key,value => [(key,value)]
  | (k,v) :: rest,key,value =>
    if k = key then (key,value) :: rest
    else if key < k then (key,value) :: (k,v) :: rest
    else (k,v) :: put rest key value

def erase : Fields → String → Fields
  | [],_ => []
  | (k,v) :: rest,key => if k = key then rest else (k,v) :: erase rest key

def without (fields : Fields) (keys : List String) : Fields :=
  fields.filter fun field => !keys.contains field.1

def pick (fields : Fields) (keys : List String) : Fields :=
  fields.filter fun field => keys.contains field.1

def Sorted (fields : Fields) : Prop :=
  fields.Pairwise fun a b => a.1 < b.1
end Fields
namespace Json
def ofNat (n : Nat) : Json :=
  match Whole.ofNat? n with
  | some w => .num (.whole w)
  | none => .num (.double n.toFloat)

def emptyObj : Json := .obj []

def single (key : String) (value : Json) : Json := .obj [(key,value)]

def strings (names : List String) : Json := .arr (names.map .str)

def field? : Json → String → Option Json
  | .obj fields,key => Fields.get? fields key
  | _,_ => none

def fields? : Json → Option Fields
  | .obj fields => some fields
  | _ => none

def items? : Json → Option (List Json)
  | .arr items => some items
  | _ => none

def str? : Json → Option String
  | .str s => some s
  | _ => none

def bool? : Json → Option Bool
  | .bool b => some b
  | _ => none

def num? : Json → Option Num
  | .num n => some n
  | _ => none

def float? : Json → Option Float
  | .num n => some n.toFloat
  | _ => none

def isNull : Json → Bool
  | .null => true
  | _ => false

def isObj : Json → Bool
  | .obj _ => true
  | _ => false

def isArr : Json → Bool
  | .arr _ => true
  | _ => false

def isTrue : Json → Bool
  | .bool true => true
  | _ => false

def isFalse : Json → Bool
  | .bool false => true
  | _ => false

def isEmptyObj : Json → Bool
  | .obj [] => true
  | _ => false

def itemsOrNone (v : Json) : List Json :=
  v.items?.getD []

def listedStrings (v : Json) : List String :=
  v.itemsOrNone.filterMap str?
mutual
def depth : Json → Nat
  | .arr items => depthItems items + 1
  | .obj fields => depthFields fields + 1
  | _ => 0

def depthItems : List Json → Nat
  | [] => 0
  | v :: rest => max (depth v) (depthItems rest)

def depthFields : List (String × Json) → Nat
  | [] => 0
  | (_,v) :: rest => max (depth v) (depthFields rest)
end
mutual
def size : Json → Nat
  | .arr items => sizeItems items + 1
  | .obj fields => sizeFields fields + 1
  | _ => 1

def sizeItems : List Json → Nat
  | [] => 0
  | v :: rest => size v + sizeItems rest

def sizeFields : List (String × Json) → Nat
  | [] => 0
  | (_,v) :: rest => size v + sizeFields rest + 1
end
mutual
def deepEqual : Json → Json → Bool
  | .null,.null => true
  | .bool a,.bool b => a == b
  | .num a,.num b => a.equal b
  | .str a,.str b => a == b
  | .arr xs,.arr ys => equalItems xs ys
  | .obj xs,.obj ys => xs.length == ys.length && equalFields xs ys
  | _,_ => false

def equalItems : List Json → List Json → Bool
  | [],[] => true
  | x :: xs,y :: ys => deepEqual x y && equalItems xs ys
  | _,_ => false

def equalFields : List (String × Json) → List (String × Json) → Bool
  | [],_ => true
  | (k,v) :: rest,ys =>
    (match Fields.get? ys k with
      | some w => deepEqual v w
      | none => false) && equalFields rest ys
end
def among (v : Json) (members : List Json) : Bool :=
  members.any fun m => m.deepEqual v
end Json
-- Union of two lists in order of first appearance. Entries that are not strings are dropped.
def unionStrings (left right : List Json) : List Json :=
  ((left ++ right).filterMap Json.str?).foldl
    (fun seen name => if seen.contains name then seen else seen ++ [name]) [] |>.map .str
end SchemaOrder
