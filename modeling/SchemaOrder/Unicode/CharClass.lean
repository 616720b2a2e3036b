import SchemaOrder.Unicode.Property
import SchemaOrder.Unicode.Script
namespace SchemaOrder.Unicode
-- White space, letters, digits and word characters, and the look-up of a class by the name of a property.
def anyPoint : CharSet := [⟨0,lastPoint⟩]

def whiteSpace : CharSet := .ofText Property.whiteSpace.further

def decimalDigits : CharSet := Category.ndSet

def wordChars : CharSet :=
  .unionAll [Property.alphabetic.points,Category.mnSet,Category.mcSet,Category.meSet,Category.ndSet,
    Category.pcSet,Property.joinControl.points]

def whiteSpaceTable : CharTable := whiteSpace.toTable

def decimalTable : CharTable := decimalDigits.toTable

def wordTable : CharTable := wordChars.toTable

def alphabeticTable : CharTable := Property.alphabetic.points.toTable

def numericTable : CharTable := (CharSet.unionAll [Category.ndSet,Category.nlSet,Category.noSet]).toTable

def isWhiteSpace (c : Char) : Bool := whiteSpaceTable.contains c.toNat

def isDecimal (c : Char) : Bool := decimalTable.contains c.toNat

def isWordChar (c : Char) : Bool := wordTable.contains c.toNat

def isAlphabetic (c : Char) : Bool := alphabeticTable.contains c.toNat

def isAlphanumeric (c : Char) : Bool := c.isAlphanum || isAlphabetic c || numericTable.contains c.toNat

def looseName (name : String) : String :=
  let stripped := match name.toList with
    | i :: s :: rest => if (i = 'i' || i = 'I') && (s = 's' || s = 'S') then rest else i :: s :: rest
    | cs => cs
  let kept := (stripped.filter fun c => c != ' ' && c != '_' && c != '-' && c.toNat < 128).map Char.toLower
  if kept = ['c'] && stripped.length < name.length then "isc" else String.ofList kept

def categoryNamed? (name : String) : Option CharSet :=
  match name with
  | "any" => some anyPoint
  | "assigned" => some Category.assignedSet
  | "ascii" => some [⟨0,0x7f⟩]
  | _ => (Category.named? name).map fun cs => .unionAll (cs.map Category.set)

def classNamed? (name : String) : Option CharSet :=
  let name := looseName name
  let property := if name = "cf" || name = "sc" || name = "lc" then none else Property.named? name
  (property.or (categoryNamed? name)).or (Script.named? name)

def classOfValue? (property value : String) : Option CharSet :=
  match looseName property with
  | "gc" | "generalcategory" => categoryNamed? (looseName value)
  | "sc" | "script" | "scx" | "scriptextensions" => Script.named? (looseName value)
  | _ => none
end SchemaOrder.Unicode
