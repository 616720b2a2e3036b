import SchemaOrder.Resolution
namespace SchemaOrder
-- Reports as text and as values.
def ChangeKind.name : ChangeKind → String
  | .added => "added"
  | .removed => "removed"
  | .changed => "changed"

def ChangeKind.ofName? (name : String) : Option ChangeKind :=
  match name with
  | "added" => some .added
  | "removed" => some .removed
  | "changed" => some .changed
  | _ => none
namespace Difference
def toJson (d : Difference) : Json :=
  .obj [("path",.str d.path),("kind",.str d.kind.name),("expected",d.expected),("actual",d.actual)]

def line (d : Difference) : String :=
  let path := displayPath d.path
  match d.kind with
  | .added => "  + " ++ path ++ ": " ++ d.actual.text
  | .removed => "  - " ++ path ++ ": was " ++ d.expected.text
  | .changed => "  ~ " ++ path ++ ": " ++ d.expected.text ++ " → " ++ d.actual.text

def parts? (names : List String) (v : Json) : Option (List Json) :=
  match v with
  | .obj fields => names.mapM fun name => Fields.get? fields name
  | .arr items => if items.length = names.length then some items else none
  | _ => none

def ofJson? (v : Json) : Option Difference := do
  let [.str path,.str kind,expected,actual] ← parts? ["path","kind","expected","actual"] v | none
  return { path := path,kind := ← ChangeKind.ofName? kind,expected := expected,actual := actual }
end Difference
namespace Report
def fields (r : Report) : Fields :=
  [("isSubset",.bool r.isSubset),("merged",r.merged.getD .null),("diffs",.arr (r.differences.map Difference.toJson))]

def toJson (r : Report) : Json :=
  .obj r.fields

def explain (label : String) (r : Report) : String :=
  let verdict := (if r.isSubset then "✅ " else "❌ ") ++ label ++ ": " ++ (if r.isSubset then "true" else "false")
  "\n".intercalate (verdict :: r.differences.map Difference.line)

def ofJson? (v : Json) : Option Report := do
  let (isSubset,merged,differences) ← match v with
    | .obj fields => pure (← Fields.get? fields "isSubset",(Fields.get? fields "merged").getD .null,
        ← Fields.get? fields "diffs")
    | .arr [isSubset,merged,differences] => pure (isSubset,merged,differences)
    | _ => none
  return { isSubset := ← isSubset.bool?
           merged := if merged.isNull then none else some merged
           differences := ← (← differences.items?).mapM Difference.ofJson? }

def direction : String := "sourceOutput ⊆ targetInput"

def connectionJson (r : Report) : Json :=
  .obj (r.fields ++ [("direction",.str direction)])
end Report
def Branch.name (b : Branch) : String :=
  b.keyword

def Resolution.toJson (r : Resolution) : Json :=
  .obj [("resolved",r.resolved),("branch",(r.branch.map fun b => Json.str b.name).getD .null),
    ("discriminant",.obj r.discriminant)]

def ResolvedReport.toJson (r : ResolvedReport) : Json :=
  .obj (r.report.fields ++ [("resolvedSub",r.sub.toJson),("resolvedSup",r.sup.toJson)])
end SchemaOrder
