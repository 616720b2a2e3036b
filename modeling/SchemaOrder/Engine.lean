import SchemaOrder.Canonical
import SchemaOrder.Format.Inclusion
import SchemaOrder.Intersection
import SchemaOrder.Position
namespace SchemaOrder
-- Conflicts that lie deeper than single keywords are looked for first, then the schemas are intersected.
structure Engine (m : Type → Type) where
  primitive : Json → Json → m (Except Conflict Json)
  matcher : String → m (Option Matcher)
  patternWithin : String → String → m (Option Bool)
namespace Engine
def constantAgainst (holder other : Fields) (path : String) : Option Conflict :=
  match holder.get? "const" with
  | none => none
  | some v =>
    match (other.get? "const").filter fun w => !v.deepEqual w with
    | some w => some (.constants path v w)
    | none =>
      match other.get? "enum" with
      | some (.arr members) => if v.among members then none else some (.constantOutsideEnum path v (.arr members))
      | _ => none

def constantConflict : Nat → Json → Json → String → Option Conflict
  | depth + 1,.obj left,.obj right,path =>
    (constantAgainst left right path).or <|
      (constantAgainst right left path).or <|
        (pairedPositions left right path .constants).findSome? fun p => constantConflict depth p.left p.right p.path
  | _,_,_,_ => none

def formatAgainst (left right : Fields) (path : String) : Option Conflict :=
  match (left.get? "format").bind Json.str?,(right.get? "format").bind Json.str? with
  | some l,some r => if Format.within l r || Format.within r l then none else some (.formats path l r)
  | _,_ => none

def formatConflict : Nat → Json → Json → String → Option Conflict
  | depth + 1,.obj left,.obj right,path =>
    (formatAgainst left right path).or <|
      (pairedPositions left right path .formats).findSome? fun p => formatConflict depth p.left p.right p.path
  | _,_,_,_ => none

def declared? (fields : Fields) : Option Fields :=
  (fields.get? "properties").bind Json.fields?
section Closed
variable {m : Type → Type} [Monad m]
def matchesPattern (e : Engine m) (fields : Fields) (name : String) : m Bool :=
  (((fields.get? "patternProperties").bind Json.fields?).getD []).anyM fun (pattern,_) => do
    match ← e.matcher pattern with
    | some isMatch => return isMatch name
    | none => return false

def covers (e : Engine m) (fields : Fields) (name : String) : m Bool :=
  if ((declared? fields).getD []).has name then return true else e.matchesPattern fields name

def refusal? (closed : Fields) (extra : Json) (name : String) (wanted : Json) : Option String :=
  match extra with
  | .bool false =>
    if ((declared? closed).getD []).isEmpty then none
    else some ("required property '" ++ name ++ "' is not allowed")
  | .obj extraFields =>
    match Fields.get? extraFields "type",wanted.field? "type" with
    | some allowed,some wantedType =>
      if (typeNames wantedType).all fun w => (typeNames allowed).all fun a => !typesOverlap w a then
        some ("required property '" ++ name ++ "' has type " ++ wantedType.text ++ ", extra properties must be " ++
          allowed.text)
      else none
    | _,_ => none
  | _ => none

def refusedName (e : Engine m) (closed : Fields) (extra : Json) (declared : Fields) (path : String) :
    List String → m (Option Conflict)
  | [] => return none
  | name :: rest => do
    match declared.get? name with
    | none => refusedName e closed extra declared path rest
    | some wanted =>
      if ← e.covers closed name then refusedName e closed extra declared path rest
      else
        match refusal? closed extra name wanted with
        | some reason => return some (.closedObject path reason)
        | none => refusedName e closed extra declared path rest

def closedAgainst (e : Engine m) (closed other : Fields) (path : String) : m (Option Conflict) :=
  match closed.get? "additionalProperties",declared? other with
  | some extra,some declared => e.refusedName closed extra declared path (Intersection.required other)
  | _,_ => return none

def firstAmong (search : Json → Json → String → m (Option Conflict)) (path : String) (right : Fields) :
    Fields → m (Option Conflict)
  | [] => return none
  | (name,schema) :: rest => do
    match schema,right.get? name with
    | .obj _,some other =>
      match ← search schema other (joinPath path name) with
      | some c => return some c
      | none => firstAmong search path right rest
    | _,_ => firstAmong search path right rest

def closedConflict (e : Engine m) : Nat → Json → Json → String → m (Option Conflict)
  | depth + 1,.obj left,.obj right,path => do
    if let some c ← e.closedAgainst left right path then return some c
    if let some c ← e.closedAgainst right left path then return some c
    match declared? left,declared? right with
    | some lp,some rp => firstAmong (closedConflict e depth) (joinPath path "properties") rp lp
    | _,_ => return none
  | _,_,_,_ => return none

def intersect (e : Engine m) (a b : Json) : m (Except Conflict Json) := do
  if let some c := constantConflict a.depth a b "" then return .error c
  if let some c := formatConflict a.depth a b "" then return .error c
  if let some c ← e.closedConflict a.depth a b "" then return .error c
  e.primitive a b

def intersect? (e : Engine m) (a b : Json) : m (Option Json) :=
  return (← e.intersect a b).toOption
end Closed
end Engine
end SchemaOrder
