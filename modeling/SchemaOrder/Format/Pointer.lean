import SchemaOrder.Format.Scan
namespace SchemaOrder.Format
-- Pointers into documents, templates of addresses, and unique identifiers.
def tildesEscaped : List Char → Bool
  | [] => true
  | '~' :: '0' :: rest => tildesEscaped rest
  | '~' :: '1' :: rest => tildesEscaped rest
  | c :: rest => c ≠ '~' && tildesEscaped rest

def isPointerText (cs : List Char) : Bool :=
  cs.isEmpty || (cs.head? = some '/' && tildesEscaped cs)

def isJsonPointer (s : String) : Bool :=
  isPointerText s.toList

def isRelativeJsonPointer (s : String) : Bool :=
  let digits := s.toList.takeWhile isDigit
  let rest := s.toList.dropWhile isDigit
  !digits.isEmpty && (digits.length = 1 || digits.head? != some '0') && (rest = ['#'] || isPointerText rest)

def bracesBalanced : (inside : Bool) → List Char → Bool
  | inside,[] => !inside
  | inside,c :: rest =>
    if c = '\x7b' then !inside && bracesBalanced true rest
    else if c = '\x7d' then inside && bracesBalanced false rest
    else bracesBalanced inside rest

def isUriTemplate (s : String) : Bool :=
  bracesBalanced false s.toList

def isUuid (s : String) : Bool :=
  let parts := splitAt '-' s.toList
  parts.map List.length = [8,4,4,4,12] && parts.all (·.all isHexDigit)
end SchemaOrder.Format
