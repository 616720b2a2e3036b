import SchemaOrder.Json
import SchemaOrder.Number.Shortest
namespace SchemaOrder
namespace Json
-- Written forms of a JSON value: compact, as used in messages and comparisons, and indented by two blanks.
def hexDigit (n : Nat) : Char :=
  if n < 10 then Char.ofNat (48 + n) else Char.ofNat (87 + n)

-- A character inside a string literal. Only the quote, the backslash and control characters are escaped.
def escapeChar (c : Char) : List Char :=
  match c with
  | '"' => ['\\','"']
  | '\\' => ['\\','\\']
  | '\n' => ['\\','n']
  | '\r' => ['\\','r']
  | '\t' => ['\\','t']
  | '\x08' => ['\\','b']
  | '\x0c' => ['\\','f']
  | c =>
    if c.toNat < 32 then ['\\','u','0','0',hexDigit (c.toNat / 16),hexDigit (c.toNat % 16)]
    else [c]

def quote (s : String) : List Char :=
  '"' :: (s.toList.flatMap escapeChar ++ ['"'])
mutual
def chars : Json → List Char
  | .null => ['n','u','l','l']
  | .bool true => ['t','r','u','e']
  | .bool false => ['f','a','l','s','e']
  | .num n => n.text
  | .str s => quote s
  | .arr items => '[' :: charsItems items
  | .obj fields => '\x7b' :: charsFields fields

def charsItems : List Json → List Char
  | [] => [']']
  | [v] => chars v ++ [']']
  | v :: rest => chars v ++ ',' :: charsItems rest

def charsFields : List (String × Json) → List Char
  | [] => ['\x7d']
  | [(k,v)] => quote k ++ ':' :: (chars v ++ ['\x7d'])
  | (k,v) :: rest => quote k ++ ':' :: (chars v ++ ',' :: charsFields rest)
end
def text (v : Json) : String :=
  String.ofList v.chars

def newLine (level : Nat) : List Char :=
  '\n' :: List.replicate (2 * level) ' '
mutual
def indented (level : Nat) : Json → List Char
  | .arr [] => ['[',']']
  | .arr items => '[' :: indentedItems level items
  | .obj [] => ['\x7b','\x7d']
  | .obj fields => '\x7b' :: indentedFields level fields
  | .null => ['n','u','l','l']
  | .bool true => ['t','r','u','e']
  | .bool false => ['f','a','l','s','e']
  | .num n => n.text
  | .str s => quote s

def indentedItems (level : Nat) : List Json → List Char
  | [] => newLine level ++ [']']
  | [v] => newLine (level + 1) ++ indented (level + 1) v ++ newLine level ++ [']']
  | v :: rest => newLine (level + 1) ++ indented (level + 1) v ++ ',' :: indentedItems level rest

def indentedFields (level : Nat) : List (String × Json) → List Char
  | [] => newLine level ++ ['\x7d']
  | [(k,v)] =>
    newLine (level + 1) ++ quote k ++ ':' :: ' ' :: (indented (level + 1) v ++ newLine level ++ ['\x7d'])
  | (k,v) :: rest =>
    newLine (level + 1) ++ quote k ++ ':' :: ' ' :: (indented (level + 1) v ++ ',' :: indentedFields level rest)
end
def pretty (v : Json) : String :=
  String.ofList (v.indented 0)
end Json
def compareText (a b : String) : Ordering :=
  if a < b then .lt else if a = b then .eq else .gt
end SchemaOrder
