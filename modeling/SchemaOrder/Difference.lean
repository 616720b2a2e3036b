import SchemaOrder.Keyword
namespace SchemaOrder
-- Differences between a schema and a version of it.
inductive ChangeKind where
  | added
  | removed
  | changed
deriving DecidableEq

-- One divergence. The absent side of an addition or a removal is `null`.
structure Change where
  position : List String
  kind : ChangeKind
  expected : Json
  actual : Json

structure Difference where
  path : String
  kind : ChangeKind
  expected : Json
  actual : Json
namespace Change
def below (key : String) (c : Change) : Change :=
  { c with position := key :: c.position }

def toDifference (base : String) (c : Change) : Difference :=
  ⟨c.position.foldl joinPath base,c.kind,c.expected,c.actual⟩
end Change
def additions (before after : Fields) : List Change :=
  (after.filter fun field => !before.has field.1).map fun (key,value) => ⟨[key],.added,.null,value⟩
mutual
def changes : Json → Json → List Change
  | .obj before,.obj after => changedKeywords before after ++ additions before after
  | before,after => if before.deepEqual after then [] else [⟨[],.changed,before,after⟩]

def changedKeywords : List (String × Json) → Fields → List Change
  | [],_ => []
  | (key,value) :: rest,after =>
    (match after.get? key with
      | none => [⟨[key],.removed,value,.null⟩]
      | some other =>
        if value.deepEqual other then []
        else
          match Keyword.shape key,value,other with
          | .subSchema,.obj l,.obj r => (changedKeywords l r ++ additions l r).map (Change.below key)
          | .items,.obj l,.obj r => (changedKeywords l r ++ additions l r).map (Change.below key)
          | .schemaMap,.obj l,.obj r => (changedEntries l r ++ additions l r).map (Change.below key)
          | .dependencies,.obj l,.obj r => (changedEntries l r ++ additions l r).map (Change.below key)
          | _,l,r => [⟨[key],.changed,l,r⟩]) ++ changedKeywords rest after

def changedEntries : List (String × Json) → Fields → List Change
  | [],_ => []
  | (name,schema) :: rest,after =>
    (match after.get? name with
      | none => [⟨[name],.removed,schema,.null⟩]
      | some other =>
        if schema.deepEqual other then []
        else if schema.isArr || other.isArr then [⟨[name],.changed,schema,other⟩]
        else (changes schema other).map (Change.below name)) ++ changedEntries rest after
end
def differences (before after : Json) (base : String) : List Difference :=
  (changes before after).map (Change.toDifference base)
end SchemaOrder
