
namespace SchemaOrder.CommandLine
-- Arguments of a command: options with a value, flags, and the word that starts a subcommand.
inductive ArgumentError where
  | helpWanted
  | nothingGiven
  | missingSubcommand
  | unknownSubcommand
  | missingRequired
  | unknownArgument
  | missingValue
  | givenTwice
  | unexpectedValue
deriving DecidableEq

structure Spec where
  valued : List String
  flags : List String
  counted : List (String × Char)
  subcommands : List String

structure Pending where
  name : String
  value : Option String

structure Options where
  values : List (String × String) := []
  flags : List String := []
  counted : List String := []
  pending : Option Pending := none
namespace Options
def value? (o : Options) (name : String) : Option String :=
  o.values.lookup name

def isEmpty (o : Options) : Bool :=
  o.values.isEmpty && o.flags.isEmpty && o.counted.isEmpty

def addValue (o : Options) (name value : String) : Except ArgumentError Options :=
  if (o.value? name).isSome then .error .givenTwice else .ok { o with values := (name,value) :: o.values }

def settle (o : Options) : Except ArgumentError Options :=
  match o.pending with
  | none => .ok o
  | some p =>
    match p.value with
    | none => .error .missingValue
    | some v => { o with pending := none }.addValue p.name v

def isWaiting (o : Options) : Bool :=
  o.pending.any fun p => p.value.isNone

def supply (o : Options) (value : String) : Options :=
  { o with pending := o.pending.map fun p => { p with value := some value } }

def addFlag (spec : Spec) (o : Options) (name : String) : Except ArgumentError Options := do
  let o ← o.settle
  if name = "help" then .error .helpWanted
  else if spec.counted.any (·.1 = name) then .ok { o with counted := name :: o.counted }
  else if o.flags.contains name then .error .givenTwice
  else .ok { o with flags := name :: o.flags }

def addLong (spec : Spec) (o : Options) (name : String) (attached : Option String) : Except ArgumentError Options :=
  if spec.valued.contains name then do
    let o ← o.settle
    match attached with
    | some v => o.addValue name v
    | none => .ok { o with pending := some ⟨name,none⟩ }
  else if name = "help" || spec.flags.contains name || spec.counted.any (·.1 = name) then
    if attached.isSome then .error .unexpectedValue else addFlag spec o name
  else .error .unknownArgument

def addShorts (spec : Spec) : Options → List Char → Except ArgumentError Options
  | o,[] => .ok o
  | o,c :: rest =>
    if c = 'h' then do addShorts spec (← addFlag spec o "help") rest
    else
      match spec.counted.find? (·.2 = c) with
      | some (name,_) => do addShorts spec (← addFlag spec o name) rest
      | none => .error .unknownArgument
end Options
def splitEquals (cs : List Char) : String × Option String :=
  match cs.span (· ≠ '=') with
  | (name,[]) => (String.ofList name,none)
  | (name,_ :: value) => (String.ofList name,some (String.ofList value))

def strayError (spec : Spec) (afterDashes : Bool) (word : String) : ArgumentError :=
  if spec.subcommands.isEmpty then .unknownArgument
  else if afterDashes && spec.subcommands.contains word then .unknownArgument
  else .unknownSubcommand

structure Scan where
  options : Options
  subcommand : Option (String × List String)

def scan (spec : Spec) : Options → List String → Except ArgumentError Scan
  | o,[] => .ok ⟨o,none⟩
  | o,word :: rest =>
    if !o.isWaiting && spec.subcommands.contains word then .ok ⟨o,some (word,rest)⟩
    else
      match word.toList with
      | ['-','-'] =>
        -- what follows two dashes is never an option
        match rest with
        | [] => .ok ⟨o,none⟩
        | stray :: _ => .error (strayError spec true stray)
      | '-' :: '-' :: cs => do
        let (name,attached) := splitEquals cs
        scan spec (← o.addLong spec name attached) rest
      | '-' :: c :: cs => do scan spec (← o.addShorts spec (c :: cs)) rest
      | _ => if o.isWaiting then scan spec (o.supply word) rest else .error (strayError spec false word)
end SchemaOrder.CommandLine
