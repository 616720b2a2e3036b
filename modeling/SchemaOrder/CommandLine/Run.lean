import SchemaOrder.CommandLine.Command
import SchemaOrder.Memory
import SchemaOrder.Report
import SchemaOrder.Yaml.Reader
namespace SchemaOrder.CommandLine
-- Running a command: documents are read, the question is answered and the answer is printed.
inductive LoadError where
  | unreadable (path : String)
  | invalidJson (path : String)
  | invalidYaml (path : String)
deriving DecidableEq

def LoadError.message : LoadError → String
  | .unreadable path => "cannot read " ++ path
  | .invalidJson path => "invalid JSON in " ++ path
  | .invalidYaml path => "invalid YAML in " ++ path

def defaultSettingsFile : String := "schema-compat.config.json"

def fileExtension (path : String) : String :=
  let name := ((path.splitOn "/").getLast?.getD "").toList
  let after := (name.reverse.takeWhile (· ≠ '.')).reverse
  if after.length + 1 < name.length then String.ofList (after.map Char.toLower) else ""

def isYamlFile (path : String) : Bool :=
  fileExtension path = "yaml" || fileExtension path = "yml"

def parseDocument (path text : String) : Except LoadError Json :=
  if isYamlFile path then
    match Yaml.parse? text with
    | some v => .ok v
    | none => .error (.invalidYaml path)
  else
    match Json.parse? text with
    | some v => .ok v
    | none => .error (.invalidJson path)
section Run
variable {m : Type → Type} [Monad m]
def load (read : String → m (Option String)) (path : String) : ExceptT LoadError m Json := do
  match ← read path with
  | some text => ExceptT.mk (pure (parseDocument path text))
  | none => throw (.unreadable path)

def settingsIn? (read : String → m (Option String)) (path : String) : m (Option Settings) := do
  match ← (load read path).run with
  | .ok document => return (Settings.ofJson document).toOption
  | .error _ => return none

def loadSettings (read : String → m (Option String)) (named : Option String) : m Settings := do
  let own ← match named with
    | some path => settingsIn? read path
    | none => pure none
  match own with
  | some s => return s
  | none => return (← settingsIn? read defaultSettingsFile).getD {}

def printed (v : Json) : String :=
  v.pretty ++ "\n"

def summary (label : String) (r : Report) : String :=
  r.explain label ++ "\n"

def ask {α : Type} (settings : Settings) (question : Engine (StateM Memory) → StateM Memory α) : α :=
  ((question (Memory.engine settings)).run {}).1

def Command.run (read : String → m (Option String)) (settings : Settings) :
    Command → ExceptT LoadError m String
  | .check sub sup text => do
    let subDocument ← load read sub
    let supDocument ← load read sup
    let report := ask settings (·.check subDocument supDocument)
    return if text then summary (sub ++ " ⊆ " ++ sup) report else printed report.toJson
  | .connect source target text => do
    let sourceDocument ← load read source
    let targetDocument ← load read target
    let report := ask settings (·.check sourceDocument targetDocument)
    return if text then summary (source ++ " → " ++ target) report else printed report.connectionJson
  | .equal a b => do
    let a ← load read a
    let b ← load read b
    return printed (.single "equal" (.bool (equivalentSchemas a b)))
  | .intersect a b => do
    let a ← load read a
    let b ← load read b
    return printed ((ask settings (·.intersection? a b)).getD .null)
  | .normalize schema => do
    return printed (← load read schema).normalize
  | .resolve schema data => do
    let schema ← load read schema
    let data ← load read data
    return printed (ask settings (·.resolve schema data)).toJson
  | .checkResolved sub sup subData supData text => do
    let supValue ← match supData with
      | some path => do pure (some (← load read path))
      | none => pure none
    let subDocument ← load read sub
    let supDocument ← load read sup
    let subValue ← load read subData
    let resolved := ask settings (·.checkResolved subDocument supDocument subValue supValue)
    return if text then summary (sub ++ " ⊆ " ++ sup ++ " (resolved)") resolved.report else printed resolved.toJson

def Invocation.run (read : String → m (Option String)) (i : Invocation) : m (Except LoadError String) := do
  let settings ← loadSettings read i.settings
  (i.command.run read settings).run
end Run
end SchemaOrder.CommandLine
