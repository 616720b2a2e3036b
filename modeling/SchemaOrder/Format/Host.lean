import SchemaOrder.Format.Scan
import SchemaOrder.Unicode.CharClass
namespace SchemaOrder.Format
-- Host names and mail addresses.
def isLabel (member : Char → Bool) (label : List Char) : Bool :=
  1 ≤ label.length && label.length ≤ 63 && label.head? != some '-' && label.getLast? != some '-' &&
    label.all fun c => c = '-' || member c

def isHostOf (member : Char → Bool) (s : String) : Bool :=
  s.length ≤ 253 && (splitAt '.' s.toList).all (isLabel member)

def isHostname (s : String) : Bool :=
  isHostOf isLetterOrDigit s

def isIdnHostname (s : String) : Bool :=
  isHostOf Unicode.isAlphanumeric s

def isMailChar (c : Char) : Bool :=
  isLetterOrDigit c ||
    ['.','!','#','$','%','&','\'','*','+','/','=','?','^','_','\x60','\x7b','|','\x7d','~',
      '-'].contains c

def isEmail (s : String) : Bool :=
  match splitAt '@' s.toList with
  | [user,domain] => !user.isEmpty && user.all isMailChar && (splitAt '.' domain).all (isLabel isLetterOrDigit)
  | _ => false

def isIdnEmail (s : String) : Bool :=
  match splitAt '@' s.toList with
  | [user,domain] =>
    !user.isEmpty && !domain.isEmpty && user.all (!Unicode.isWhiteSpace ·) && domain.all (!Unicode.isWhiteSpace ·)
  | _ => false
end SchemaOrder.Format
