import SchemaOrder.CommandLine.Run
namespace SchemaOrder.CommandLine
-- The program: arguments in, the answer on standard output, errors on standard error.
def usage : String :=
  "\n".intercalate
    ["JSON Schema (Draft-07) compatibility checks",
      "",
      "Usage: schema-order [-v] [--config FILE] COMMAND",
      "",
      "Commands:",
      "  check           --sub FILE --sup FILE [--text]",
      "  connect         --source FILE --target FILE [--text]",
      "  equal           --a FILE --b FILE",
      "  intersect       --a FILE --b FILE",
      "  normalize       --schema FILE",
      "  resolve         --schema FILE --data FILE",
      "  check-resolved  --sub FILE --sup FILE --sub-data FILE [--sup-data FILE] [--text]"]

def ArgumentError.message : ArgumentError → String
  | .helpWanted => usage
  | .nothingGiven => usage
  | .missingSubcommand => "error: a command is required"
  | .unknownSubcommand => "error: unknown command"
  | .missingRequired => "error: a required option is missing"
  | .unknownArgument => "error: unexpected argument"
  | .missingValue => "error: an option lacks its value"
  | .givenTwice => "error: an option was given twice"
  | .unexpectedValue => "error: a flag takes no value"

def readFile (path : String) : IO (Option String) := do
  try
    return some (← IO.FS.readFile path)
  catch _ => return none

def runProgram (arguments : List String) : IO UInt32 := do
  match Invocation.parse arguments with
  | .error .helpWanted =>
    IO.println usage
    return 0
  | .error e =>
    IO.eprintln e.message
    return 2
  | .ok invocation =>
    match ← invocation.run readFile with
    | .ok text =>
      IO.print text
      return 0
    | .error e =>
      IO.eprintln ("Error: " ++ e.message)
      return 1
end SchemaOrder.CommandLine
def main (arguments : List String) : IO UInt32 :=
  SchemaOrder.CommandLine.runProgram arguments
