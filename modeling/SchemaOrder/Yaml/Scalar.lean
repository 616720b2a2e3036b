import SchemaOrder.Json.Reader
namespace SchemaOrder.Yaml
-- Scalars of YAML.
def isDigit (c : Char) : Bool :=
  '0' ≤ c && c ≤ '9'

def nullWords : List String := ["","~","null"]

def trueWords : List String := ["y","yes","true","on"]

def falseWords : List String := ["n","no","false","off"]

def splitSign : List Char → Bool × List Char
  | '-' :: rest => (true,rest)
  | '+' :: rest => (false,rest)
  | cs => (false,cs)

def decimal? (cs : List Char) : Option Num := do
  let (negative,cs) := splitSign cs
  let whole := cs.takeWhile isDigit
  let afterWhole := cs.dropWhile isDigit
  let (fraction,afterFraction) := match afterWhole with
    | '.' :: rest => (some (rest.takeWhile isDigit),rest.dropWhile isDigit)
    | rest => (none,rest)
  if whole.isEmpty && (fraction.getD []).isEmpty then none
  else
    let (exponent,rest) ← Json.Reader.exponentPart? afterFraction
    if rest.isEmpty then Json.Reader.numberOf? negative whole fraction exponent else none

def radixDigit? (radix : Nat) (c : Char) : Option Nat :=
  (Json.Reader.hexValue? c).bind fun d => if d < radix then some d else none

def radixNumber? (radix : Nat) : List Char → Option Nat
  | [] => none
  | cs => cs.foldlM (fun n c => (radixDigit? radix c).map (n * radix + ·)) 0

def prefixed? (cs : List Char) : Option Num :=
  let (negative,cs) := splitSign cs
  let magnitude := match cs with
    | '0' :: 'x' :: rest => radixNumber? 16 rest
    | '0' :: 'o' :: rest => radixNumber? 8 rest
    | '0' :: 'b' :: rest => radixNumber? 2 rest
    | _ => none
  magnitude.bind fun n => Num.ofInt? (if negative then -(n : Int) else n)

def whole? (cs : List Char) : Option Num :=
  let (negative,digits) := splitSign cs
  (radixNumber? 10 digits).bind fun n => Num.ofInt? (if negative then -(n : Int) else n)

def plainValue (text : String) : Json :=
  let lower := text.map Char.toLower
  if nullWords.contains lower then .null
  else if trueWords.contains lower then .bool true
  else if falseWords.contains lower then .bool false
  else
    let cs := text.toList
    match ((prefixed? cs).or (whole? cs)).or (decimal? cs) with
    | some n => .num n
    | none => .str text

def isSpace (c : Char) : Bool :=
  c = ' ' || c = '\t'

def trimEnd (cs : List Char) : List Char :=
  (cs.reverse.dropWhile isSpace).reverse

def foldLines : (started : Bool) → (empty : Nat) → List (List Char) → List Char
  | _,empty,[] => List.replicate empty '\n'
  | started,empty,line :: rest =>
    if line.isEmpty && !rest.isEmpty && started then foldLines true (empty + 1) rest
    else
      let gap := if !started then [] else if empty = 0 then [' '] else List.replicate empty '\n'
      gap ++ line ++ foldLines true 0 rest

def foldFlow : List (List Char) → List Char
  | [] => []
  | [one] => one
  | first :: rest =>
    let inner := (rest.dropLast.map fun line => trimEnd (line.dropWhile isSpace)) ++
      (rest.getLast?.toList.map fun line => line.dropWhile isSpace)
    foldLines false 0 (trimEnd first :: inner)

structure Quoted where
  done : List (List Char)
  line : List Char
namespace Quoted
def push (q : Quoted) (c : Char) : Quoted :=
  { q with line := c :: q.line }

def newLine (q : Quoted) : Quoted :=
  { done := q.line.reverse :: q.done,line := [] }

def text (q : Quoted) : String :=
  String.ofList (foldFlow (q.line.reverse :: q.done).reverse)
end Quoted
def singleQuoted : Quoted → List Char → Option (String × List Char)
  | _,[] => none
  | q,'\'' :: '\'' :: rest => singleQuoted (q.push '\'') rest
  | q,'\'' :: rest => some (q.text,rest)
  | q,'\n' :: rest => singleQuoted q.newLine rest
  | q,c :: rest => singleQuoted (q.push c) rest

def escape? (c : Char) : Option Char :=
  match c with
  | '0' => some '\x00'
  | 'a' => some '\x07'
  | 'b' => some '\x08'
  | 't' => some '\t'
  | '\t' => some '\t'
  | 'n' => some '\n'
  | 'v' => some '\x0b'
  | 'f' => some '\x0c'
  | 'r' => some '\r'
  | 'e' => some '\x1b'
  | ' ' => some ' '
  | '"' => some '"'
  | '/' => some '/'
  | '\\' => some '\\'
  | 'N' => some '\u0085'
  | '_' => some '\u00a0'
  | 'L' => some '\u2028'
  | 'P' => some '\u2029'
  | _ => none

def hexWidth? (c : Char) : Option Nat :=
  match c with
  | 'x' => some 2
  | 'u' => some 4
  | 'U' => some 8
  | _ => none

def charOfHex? (digits : List Char) : Option Char := do
  let n ← radixNumber? 16 digits
  if n.isValidChar then some (Char.ofNat n) else none

-- The rest of a double-quoted scalar. Every step takes a character, so their number bounds the steps.
def doubleQuoted : (fuel : Nat) → Quoted → List Char → Option (String × List Char)
  | 0,_,_ => none
  | fuel + 1,q,cs =>
    match cs with
    | [] => none
    | '"' :: rest => some (q.text,rest)
    | '\\' :: '\n' :: rest => doubleQuoted fuel q (rest.dropWhile isSpace)
    | '\\' :: c :: rest =>
      match hexWidth? c with
      | some width =>
        if rest.length < width then none
        else
          match charOfHex? (rest.take width) with
          | some d => doubleQuoted fuel (q.push d) (rest.drop width)
          | none => none
      | none =>
        match escape? c with
        | some d => doubleQuoted fuel (q.push d) rest
        | none => none
    | '\n' :: rest => doubleQuoted fuel q.newLine rest
    | c :: rest => doubleQuoted fuel (q.push c) rest

def quoted? : List Char → Option (String × List Char)
  | '\'' :: rest => singleQuoted ⟨[],[]⟩ rest
  | '"' :: rest => doubleQuoted (rest.length + 1) ⟨[],[]⟩ rest
  | _ => none

inductive Chomping where
  | clip
  | strip
  | keep
deriving DecidableEq

structure BlockHeader where
  folded : Bool
  chomping : Chomping
  indent : Option Nat

def indicators? : BlockHeader → List Char → Option (BlockHeader × List Char)
  | h,'-' :: rest => indicators? { h with chomping := .strip } rest
  | h,'+' :: rest => indicators? { h with chomping := .keep } rest
  | h,c :: rest =>
    if '1' ≤ c && c ≤ '9' then
      if h.indent.isSome then none else indicators? { h with indent := some (c.toNat - 48) } rest
    else some (h,c :: rest)
  | h,[] => some (h,[])

def isIndentedMore (line : List Char) : Bool :=
  line.head?.any isSpace

-- Joins the lines of a folded scalar. `empty` counts empty lines since the last line, `more` tells that it was indented
-- further.
def foldBlock : (started more : Bool) → (empty : Nat) → List (List Char) → List Char
  | _,_,_,[] => []
  | started,more,empty,line :: rest =>
    if line.isEmpty then foldBlock started more (empty + 1) rest
    else
      let keepsBreaks := more || isIndentedMore line
      let gap :=
        if !started then List.replicate empty '\n'
        else if keepsBreaks then List.replicate (empty + 1) '\n'
        else if empty = 0 then [' ']
        else List.replicate empty '\n'
      gap ++ line ++ foldBlock true (isIndentedMore line) 0 rest

def blockText (h : BlockHeader) (lines : List (List Char)) : String :=
  let trailing := (lines.reverse.takeWhile List.isEmpty).length
  let content := lines.take (lines.length - trailing)
  let body := if h.folded then foldBlock false false 0 content else List.intercalate ['\n'] content
  let tail := match h.chomping with
    | .strip => 0
    | .clip => if content.isEmpty then 0 else 1
    | .keep => if content.isEmpty then trailing else trailing + 1
  String.ofList (body ++ List.replicate tail '\n')
end SchemaOrder.Yaml
