
namespace SchemaOrder.Format
-- Known inclusions between string formats.
def inclusions : List (String × String) :=
  [("email","idn-email"),("hostname","idn-hostname"),("uri","iri"),("uri-reference","iri-reference")]

def within (sub sup : String) : Bool :=
  sub == sup || inclusions.contains (sub,sup)
end SchemaOrder.Format
