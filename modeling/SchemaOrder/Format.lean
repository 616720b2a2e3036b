import SchemaOrder.Format.Calendar
import SchemaOrder.Format.Host
import SchemaOrder.Format.Inclusion
import SchemaOrder.Format.Locator
import SchemaOrder.Format.Pointer
import SchemaOrder.Json
import SchemaOrder.Pattern.Regex
namespace SchemaOrder
namespace Format
-- String formats.
def test? (name : String) : Option (String → Bool) :=
  match name with
  | "date-time" => some isDateTime
  | "date" => some isDate
  | "time" => some isTime
  | "email" => some isEmail
  | "idn-email" => some isIdnEmail
  | "hostname" => some isHostname
  | "idn-hostname" => some isIdnHostname
  | "ipv4" => some isIpv4
  | "ipv6" => some isIpv6
  | "uri" => some isUri
  | "uri-reference" => some isUriReference
  | "iri" => some isIri
  | "iri-reference" => some isIriReference
  | "uri-template" => some isUriTemplate
  | "uuid" => some isUuid
  | "json-pointer" => some isJsonPointer
  | "relative-json-pointer" => some isRelativeJsonPointer
  | "regex" => some fun s => (Pattern.Regex.compile? s).isSome
  | _ => none

def isKnown (name : String) : Bool :=
  (test? name).isSome

def accepts? (value : Json) (name : String) : Option Bool :=
  match value with
  | .str s => (test? name).map (· s)
  | _ => some true
end Format
end SchemaOrder
