import SchemaOrder.CommandLine.Arguments
namespace SchemaOrder.CommandLine
-- The commands of the program and the arguments they are read from.
inductive Command where
  | check (sub sup : String) (text : Bool)
  | connect (source target : String) (text : Bool)
  | equal (a b : String)
  | intersect (a b : String)
  | normalize (schema : String)
  | resolve (schema data : String)
  | checkResolved (sub sup subData : String) (supData : Option String) (text : Bool)

structure Invocation where
  verbosity : Nat
  settings : Option String
  command : Command

def mainSpec : Spec where
  valued := ["config"]
  flags := []
  counted := [("verbose",'v')]
  subcommands := ["check","connect","equal","intersect","normalize","resolve","check-resolved","help"]

def optionsOf (name : String) : List String × List String :=
  match name with
  | "check" => (["sub","sup"],["text"])
  | "connect" => (["source","target"],["text"])
  | "equal" | "intersect" => (["a","b"],[])
  | "normalize" => (["schema"],[])
  | "resolve" => (["schema","data"],[])
  | "check-resolved" => (["sub","sup","sub-data","sup-data"],["text"])
  | _ => ([],[])

def subcommandSpec (name : String) : Spec :=
  { valued := (optionsOf name).1,flags := (optionsOf name).2,counted := [],subcommands := [] }

def helpOn : (known : List String) → List String → ArgumentError
  | _,[] => .helpWanted
  | known,word :: rest =>
    if !known.contains word then .unknownSubcommand
    else helpOn (if word = "help" then mainSpec.subcommands else []) rest

def required (o : Options) (name : String) : Except ArgumentError String :=
  match o.value? name with
  | some v => .ok v
  | none => .error .missingRequired
namespace Command
def ofOptions (name : String) (o : Options) : Except ArgumentError Command := do
  let text := o.flags.contains "text"
  match name with
  | "check" => return .check (← required o "sub") (← required o "sup") text
  | "connect" => return .connect (← required o "source") (← required o "target") text
  | "equal" => return .equal (← required o "a") (← required o "b")
  | "intersect" => return .intersect (← required o "a") (← required o "b")
  | "normalize" => return .normalize (← required o "schema")
  | "resolve" => return .resolve (← required o "schema") (← required o "data")
  | "check-resolved" =>
    return .checkResolved (← required o "sub") (← required o "sup") (← required o "sub-data") (o.value? "sup-data") text
  | _ => throw .unknownSubcommand

def parse (name : String) (arguments : List String) : Except ArgumentError Command := do
  if name = "help" then throw (helpOn mainSpec.subcommands arguments)
  let found ← scan (subcommandSpec name) {} arguments
  ofOptions name (← found.options.settle)
end Command
namespace Invocation
def parse (arguments : List String) : Except ArgumentError Invocation := do
  let found ← scan mainSpec {} arguments
  match found.subcommand with
  | some (name,rest) =>
    let command ← Command.parse name rest
    let options ← found.options.settle
    return { verbosity := options.counted.length,settings := options.value? "config",command := command }
  | none =>
    let options ← found.options.settle
    throw (if options.isEmpty then .nothingGiven else .missingSubcommand)
end Invocation
end SchemaOrder.CommandLine
