import SchemaOrder.Yaml.Scalar
namespace SchemaOrder.Yaml
-- Reading YAML documents: block and flow collections, comments, plain, quoted and block scalars.
abbrev Text := List Char

def indentOf (cs : Text) : Nat :=
  (cs.takeWhile (· = ' ')).length

def line (cs : Text) : Text :=
  cs.takeWhile (· ≠ '\n')

def nextLine (cs : Text) : Text :=
  (cs.dropWhile (· ≠ '\n')).drop 1

def isBlankLine (l : Text) : Bool :=
  match l.dropWhile isSpace with
  | [] => true
  | c :: _ => c = '#'

def skipBlankLines : (fuel : Nat) → Text → Text
  | 0,cs => cs
  | fuel + 1,cs => if !cs.isEmpty && isBlankLine (line cs) then skipBlankLines fuel (nextLine cs) else cs

def skipBlank (cs : Text) : Text :=
  skipBlankLines (cs.length + 1) cs

def finishLine? (cs : Text) : Option Text :=
  match cs with
  | [] => some []
  | '\n' :: rest => some rest
  | c :: _ => if isSpace c && isBlankLine (line cs) then some (nextLine cs) else none

def isMarker (marker : Char) (cs : Text) : Bool :=
  match cs with
  | a :: b :: c :: rest => a = marker && b = marker && c = marker && rest.head?.all fun d => isSpace d || d = '\n'
  | _ => false

def isDocumentEnd (cs : Text) : Bool :=
  cs.isEmpty || isMarker '.' cs || isMarker '-' cs

def isFlowIndicator (c : Char) : Bool :=
  c = ',' || c = '[' || c = ']' || c = '\x7b' || c = '\x7d'

def indicators : List Char :=
  ['#','&','*','!','|','>','\'','"','%','@','\x60','\n']

def startsPlain (inFlow : Bool) (cs : Text) : Bool :=
  match cs with
  | [] => false
  | c :: rest =>
    if c = '-' || c = '?' || c = ':' then
      rest.head?.any fun d => !isSpace d && d ≠ '\n' && !(inFlow && isFlowIndicator d)
    else
      !isFlowIndicator c && !isSpace c && !indicators.contains c

def endsKey (inFlow : Bool) (rest : Text) : Bool :=
  match rest with
  | [] => true
  | d :: _ => isSpace d || d = '\n' || (inFlow && isFlowIndicator d)

def plainPart (inFlow : Bool) : (afterSpace : Bool) → Text → Text × Text
  | _,[] => ([],[])
  | afterSpace,c :: rest =>
    if c = '#' && afterSpace then ([],' ' :: c :: rest)
    else if c = '\n' || (c = ':' && endsKey inFlow rest) || (inFlow && isFlowIndicator c) then ([],c :: rest)
    else
      let (part,rest) := plainPart inFlow (isSpace c) rest
      (c :: part,rest)

-- Further lines of a plain scalar, which are indented by more than `parent`; `parent` counts from one, so that zero
-- stands for the document itself. The rest begins where the scalar's last line ends.
def plainLines (parent : Nat) : (fuel : Nat) → (rest : Text) → List Text × Text
  | 0,rest => ([],rest)
  | fuel + 1,rest =>
    match rest with
    | '\n' :: after =>
      let l := line after
      if (l.dropWhile isSpace).isEmpty then
        -- an empty line counts if the scalar goes on behind it
        if after.isEmpty then ([],rest)
        else
          match plainLines parent fuel (after.dropWhile (· ≠ '\n')) with
          | ([],_) => ([],rest)
          | (lines,rest) => ([] :: lines,rest)
      else if indentOf l + 1 ≤ parent || isBlankLine l || isDocumentEnd after then ([],rest)
      else
        let (part,rest) := plainPart false false (after.dropWhile isSpace)
        let (lines,rest) := plainLines parent fuel rest
        (trimEnd part :: lines,rest)
    | _ => ([],rest)

def blockPlain? (parent : Nat) (cs : Text) : Option (String × Text) :=
  if startsPlain false cs then
    let (first,rest) := plainPart false false cs
    let (more,rest) := plainLines parent (cs.length + 1) rest
    some (String.ofList (foldFlow (trimEnd first :: more)),rest)
  else none

def blockLines (indent : Nat) : (fuel : Nat) → Text → List Text × Text
  | 0,cs => ([],cs)
  | fuel + 1,cs =>
    if cs.isEmpty then ([],[])
    else
      let l := line cs
      if l.all (· = ' ') && l.length ≤ indent then
        let (lines,rest) := blockLines indent fuel (nextLine cs)
        ([] :: lines,rest)
      else if indent ≤ indentOf l then
        let (lines,rest) := blockLines indent fuel (nextLine cs)
        (l.drop indent :: lines,rest)
      else ([],cs)

def contentIndent : (fuel : Nat) → Text → Nat
  | 0,_ => 0
  | fuel + 1,cs =>
    if cs.isEmpty then 0
    else if (line cs).all (· = ' ') then contentIndent fuel (nextLine cs)
    else indentOf cs

def blockScalar? (parent : Nat) (folded : Bool) (cs : Text) : Option (String × Text) := do
  let (header,rest) ← indicators? { folded := folded,chomping := .clip,indent := none } cs
  let body ← finishLine? rest
  let indent := match header.indent with
    | some n => (parent - 1) + n
    | none => max parent (contentIndent (body.length + 1) body)
  let (lines,rest) := blockLines indent (body.length + 1) body
  return (blockText header lines,rest)

def skipFlow : (fuel : Nat) → (afterSpace : Bool) → Text → Text
  | 0,_,cs => cs
  | fuel + 1,afterSpace,cs =>
    match cs with
    | c :: rest =>
      if isSpace c || c = '\n' then skipFlow fuel true rest
      else if c = '#' && afterSpace then skipFlow fuel true (rest.dropWhile (· ≠ '\n'))
      else cs
    | [] => []

def flowBlanks (cs : Text) : Text :=
  skipFlow (cs.length + 1) false cs

def flowPlainLines : (fuel : Nat) → Text → List Text × Text
  | 0,cs => ([],cs)
  | fuel + 1,cs =>
    let (part,rest) := plainPart true false cs
    match rest with
    | '\n' :: after =>
      let next := after.dropWhile fun c => isSpace c || c = '\n'
      if next.head?.any fun c => isFlowIndicator c || c = '#' || (c = ':' && endsKey true (next.drop 1)) then
        ([trimEnd part],rest)
      else
        let (lines,rest) := flowPlainLines fuel (after.dropWhile isSpace)
        (trimEnd part :: lines,rest)
    | _ => ([trimEnd part],rest)

inductive Scalar where
  | plain (text : String)
  | quoted (text : String)
namespace Scalar
def text : Scalar → String
  | .plain s => s
  | .quoted s => s

def value : Scalar → Json
  | .plain s => plainValue s
  | .quoted s => .str s
end Scalar
def flowScalar? (cs : Text) : Option (Scalar × Text) :=
  match quoted? cs with
  | some (s,rest) => some (.quoted s,rest)
  | none =>
    if startsPlain true cs then
      let (lines,rest) := flowPlainLines (cs.length + 1) cs
      some (.plain (String.ofList (foldFlow lines)),rest)
    else none

def addField? (fields : Fields) (key : String) (v : Json) : Option Fields :=
  if fields.has key then none else some (fields.put key v)

def flowColon? (key : Scalar) (cs : Text) : Option Text :=
  match cs with
  | ':' :: rest =>
    match key with
    | .quoted _ => some rest
    | .plain _ => if endsKey true rest then some rest else none
  | _ => none
mutual
def flowNode? : (fuel : Nat) → Text → Option (Json × Text)
  | 0,_ => none
  | fuel + 1,cs =>
    match flowBlanks cs with
    | '[' :: rest => flowItems? fuel [] rest
    | '\x7b' :: rest => flowFields? fuel [] rest
    | cs => (flowScalar? cs).map fun (s,rest) => (s.value,rest)

def flowItems? : (fuel : Nat) → List Json → Text → Option (Json × Text)
  | 0,_,_ => none
  | fuel + 1,items,cs =>
    match flowBlanks cs with
    | ']' :: rest => some (.arr items.reverse,rest)
    | cs => do
      let (item,rest) ← flowItem? fuel cs
      match flowBlanks rest with
      | ',' :: rest => flowItems? fuel (item :: items) rest
      | ']' :: rest => some (.arr (item :: items).reverse,rest)
      | _ => none

def flowItem? : (fuel : Nat) → Text → Option (Json × Text)
  | 0,_ => none
  | fuel + 1,cs =>
    match flowScalar? cs with
    | none => flowNode? fuel cs
    | some (key,rest) =>
      match flowColon? key (flowBlanks rest) with
      | none => some (key.value,rest)
      | some rest => (flowValue? fuel rest).map fun (v,rest) => (.single key.text v,rest)

def flowValue? : (fuel : Nat) → Text → Option (Json × Text)
  | 0,_ => none
  | fuel + 1,cs =>
    match flowBlanks cs with
    | ',' :: rest => some (.null,',' :: rest)
    | ']' :: rest => some (.null,']' :: rest)
    | '\x7d' :: rest => some (.null,'\x7d' :: rest)
    | cs => flowNode? fuel cs

def flowFields? : (fuel : Nat) → Fields → Text → Option (Json × Text)
  | 0,_,_ => none
  | fuel + 1,fields,cs =>
    match flowBlanks cs with
    | '\x7d' :: rest => some (.obj fields,rest)
    | cs => do
      let (key,rest) ← flowScalar? cs
      let (v,rest) ← match flowColon? key (flowBlanks rest) with
        | none => some (.null,rest)
        | some rest => flowValue? fuel rest
      let fields ← addField? fields key.text v
      match flowBlanks rest with
      | ',' :: rest => flowFields? fuel fields rest
      | '\x7d' :: rest => some (.obj fields,rest)
      | _ => none
end
def key? (cs : Text) : Option (String × Text) :=
  match quoted? cs with
  | some (s,rest) =>
    if (cs.take (cs.length - rest.length)).contains '\n' then none
    else
      match rest.dropWhile isSpace with
      | ':' :: rest => if endsKey false rest then some (s,rest) else none
      | _ => none
  | none =>
    if startsPlain false cs then
      match plainPart false false cs with
      | (part,':' :: rest) => some (String.ofList (trimEnd part),rest)
      | _ => none
    else none

def isEntry (cs : Text) : Bool :=
  match cs with
  | '-' :: rest => endsKey false rest
  | _ => false

def inlineNode? (parent : Nat) (cs : Text) : Option (Json × Text) :=
  match cs with
  | '|' :: rest => (blockScalar? parent false rest).map fun (s,rest) => (.str s,rest)
  | '>' :: rest => (blockScalar? parent true rest).map fun (s,rest) => (.str s,rest)
  | '[' :: _ | '\x7b' :: _ => do
    let (v,rest) ← flowNode? (4 * cs.length + 4) cs
    return (v,← finishLine? rest)
  | '\'' :: _ | '"' :: _ => do
    let (s,rest) ← quoted? cs
    return (.str s,← finishLine? rest)
  | _ => do
    let (s,rest) ← blockPlain? parent cs
    return (plainValue s,← finishLine? rest)
mutual
def node? : (fuel : Nat) → (least : Nat) → Text → Option (Json × Text)
  | 0,_,_ => none
  | fuel + 1,least,cs =>
    let cs := skipBlank cs
    let indent := indentOf cs
    let body := cs.drop indent
    if isDocumentEnd cs || indent < least then some (.null,cs)
    else if isEntry body then entries? fuel indent [] cs
    else if (key? body).isSome then fields? fuel indent [] cs
    else inlineNode? least body

def entries? : (fuel : Nat) → (indent : Nat) → List Json → Text → Option (Json × Text)
  | 0,_,_,_ => none
  | fuel + 1,indent,items,cs =>
    let cs := skipBlank cs
    if isDocumentEnd cs || indentOf cs ≠ indent || !isEntry (cs.drop indent) then some (.arr items.reverse,cs)
    else do
      let (item,rest) ← node? fuel (indent + 1) (List.replicate (indent + 1) ' ' ++ cs.drop (indent + 1))
      entries? fuel indent (item :: items) rest

def fields? : (fuel : Nat) → (indent : Nat) → Fields → Text → Option (Json × Text)
  | 0,_,_,_ => none
  | fuel + 1,indent,fields,cs =>
    let cs := skipBlank cs
    if isDocumentEnd cs || indentOf cs < indent then some (.obj fields,cs)
    else if indentOf cs ≠ indent then none
    else do
      let (key,rest) ← key? (cs.drop indent)
      let (v,rest) ← fieldValue? fuel indent rest
      fields? fuel indent (← addField? fields key v) rest

-- The value behind a colon: on the same line, or in the lines below. A list may stand below its key without further
-- indentation.
def fieldValue? : (fuel : Nat) → (indent : Nat) → Text → Option (Json × Text)
  | 0,_,_ => none
  | fuel + 1,indent,cs =>
    if isBlankLine (line cs) then
      let below := skipBlank (nextLine cs)
      if indentOf below = indent && !isDocumentEnd below && isEntry (below.drop indent) then entries? fuel indent [] below
      else node? fuel (indent + 1) below
    else inlineNode? (indent + 1) (cs.dropWhile isSpace)
end
def unifyBreaks : Text → Text
  | '\r' :: '\n' :: rest => '\n' :: unifyBreaks rest
  | '\r' :: rest => '\n' :: unifyBreaks rest
  | c :: rest => c :: unifyBreaks rest
  | [] => []

def dropStart (cs : Text) : Text :=
  let cs := skipBlank cs
  if isMarker '-' cs then ' ' :: ' ' :: ' ' :: cs.drop 3 else cs

def isFinished (cs : Text) : Bool :=
  let cs := skipBlank cs
  cs.isEmpty || (isMarker '.' cs && isBlankLine (line (cs.drop 3)) && (skipBlank (nextLine cs)).isEmpty)

def parse? (text : String) : Option Json := do
  let cs := dropStart (unifyBreaks text.toList)
  let (v,rest) ← node? (4 * cs.length + 8) 0 cs
  if isFinished rest then some v else none
end SchemaOrder.Yaml
