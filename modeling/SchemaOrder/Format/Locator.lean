import SchemaOrder.Format.Address
import SchemaOrder.Format.Domain
import SchemaOrder.Unicode.CharClass
namespace SchemaOrder.Format
-- Resource locators and references.
def ipv6From : (fuel pieces : Nat) → (compressed : Bool) → List Char → Bool
  | _,pieces,compressed,[] => compressed || pieces == 8
  | 0,_,_,_ => false
  | fuel + 1,pieces,compressed,cs =>
    if pieces = 8 then false
    else
      match skip ':' cs with
      | some rest => !compressed && ipv6From fuel (pieces + 1) true rest
      | none =>
        let digits := (cs.take 4).takeWhile isHexDigit
        match cs.drop digits.length with
        | [] => ipv6From fuel (pieces + 1) compressed []
        | '.' :: _ =>
          !digits.isEmpty && pieces ≤ 6 && dottedQuad? cs == some [] && (compressed || pieces == 6)
        | ':' :: more => !more.isEmpty && ipv6From fuel (pieces + 1) compressed more
        | _ => false

def isBracketedAddress (cs : List Char) : Bool :=
  match cs with
  | ':' :: ':' :: rest => ipv6From cs.length 1 true rest
  | ':' :: _ => false
  | _ => 2 ≤ cs.length && ipv6From cs.length 0 false cs

-- A number of an address of version 4: hexadecimal behind `0x`, octal behind `0`.
def addressNumber? (cs : List Char) : Option Nat :=
  match cs with
  | [] => none
  | '0' :: 'x' :: rest => if rest.all isHexDigit then some (numberOf 16 rest) else none
  | '0' :: d :: rest => if (d :: rest).all (fun c => '0' ≤ c && c ≤ '7') then some (numberOf 8 (d :: rest)) else none
  | _ => if cs.all isDigit then some (numberOf 10 cs) else none

def dropEmptyLast (parts : List (List Char)) : List (List Char) :=
  if parts.getLast? = some [] then parts.dropLast else parts

def endsInNumber (labels : List (List Char)) : Bool :=
  let labels := if labels.length ≤ 1 then labels else dropEmptyLast labels
  match labels.getLast? with
  | none => false
  | some last => (!last.isEmpty && last.all isDigit) || (addressNumber? last).isSome

def isAddress (labels : List (List Char)) : Bool :=
  let parts := dropEmptyLast labels
  match parts.mapM addressNumber? with
  | none => false
  | some numbers =>
    match numbers.getLast? with
    | none => false
    | some last => numbers.length ≤ 4 && last < Nat.pow 256 (5 - numbers.length) && numbers.dropLast.all (· ≤ 255)

def percentDecoded : List UInt8 → List UInt8
  | 0x25 :: a :: b :: rest =>
    let x := Char.ofNat a.toNat
    let y := Char.ofNat b.toNat
    if isHexDigit x && isHexDigit y then UInt8.ofNat (hexValue x * 16 + hexValue y) :: percentDecoded rest
    else 0x25 :: percentDecoded (a :: b :: rest)
  | c :: rest => c :: percentDecoded rest
  | [] => []

def percentDecode? (cs : List Char) : Option (List Char) :=
  (String.fromUTF8? ⟨(percentDecoded (String.ofList cs).toUTF8.toList).toArray⟩).map String.toList

def isDomainHost (cs : List Char) : Bool :=
  match (percentDecode? cs).bind Domain.labels? with
  | none => false
  | some labels => labels != [[]] && (!endsInNumber labels || isAddress labels)

def isBracketed (cs : List Char) : Option Bool :=
  if cs.head? = some '[' then
    some (2 ≤ cs.length && cs.getLast? = some ']' && isBracketedAddress (cs.drop 1).dropLast)
  else none

def isWebHost (cs : List Char) : Bool :=
  (isBracketed cs).getD (isDomainHost cs)

def separators : List Char :=
  ['\x00','\t','\n','\r',' ','#','/',':','<','>','?','@','[','\\',']','^','|']

def isOpaqueHost (cs : List Char) : Bool :=
  (isBracketed cs).getD <| cs.all fun c => !separators.contains c

inductive SchemeKind where
  | web
  | file
  | other
deriving DecidableEq

def SchemeKind.ofName (name : String) : SchemeKind :=
  if ["http","https","ws","wss","ftp"].contains name then .web
  else if name = "file" then .file
  else .other

def endsAuthority (kind : SchemeKind) (c : Char) : Bool :=
  c = '/' || c = '?' || c = '#' || (c = '\\' && kind != .other)

def splitCredentials (cs : List Char) : Option (List Char × List Char) :=
  match cs.reverse.span (· ≠ '@') with
  | (_,[]) => none
  | (host,_ :: credentials) => some (credentials.reverse,host.reverse)

def splitHost : (inBrackets : Bool) → List Char → List Char × List Char
  | _,[] => ([],[])
  | inBrackets,c :: rest =>
    if c = ':' && !inBrackets then ([],c :: rest)
    else
      let (host,after) := splitHost (if c = '[' then true else if c = ']' then false else inBrackets) rest
      (c :: host,after)

def isPort (cs : List Char) : Bool :=
  cs.all isDigit && numberOf 10 cs ≤ 65535

def hasCredentials (cs : List Char) : Bool :=
  !cs.isEmpty && cs != [':']

-- Checks host and port. `named` tells that somebody is named before the host.
def isHostAndPort (kind : SchemeKind) (named : Bool) (cs : List Char) : Bool :=
  let (host,after) := splitHost false cs
  let hostFits := match kind with
    | .other => isOpaqueHost host && !(host.isEmpty && (named || !after.isEmpty))
    | _ => !host.isEmpty && isWebHost host
  hostFits &&
    match after with
    | _ :: port => isPort (if kind = .other then port.takeWhile (· ≠ '\\') else port)
    | [] => true

def isAuthority (kind : SchemeKind) (cs : List Char) : Bool :=
  let authority := cs.takeWhile (!endsAuthority kind ·)
  let rest := cs.dropWhile (!endsAuthority kind ·)
  match splitCredentials authority with
  | none => isHostAndPort kind false authority
  | some (credentials,host) =>
    !(credentials.isEmpty && host.isEmpty && !rest.isEmpty) && isHostAndPort kind (hasCredentials credentials) host

def isDriveLetter (cs : List Char) : Bool :=
  match cs with
  | [a,b] => isLetter a && (b = ':' || b = '|')
  | _ => false

def isFileHost (cs : List Char) : Bool :=
  let host := cs.takeWhile (!endsAuthority .file ·)
  host.isEmpty || isDriveLetter host || isWebHost host

def isSlash (c : Char) : Bool :=
  c = '/' || c = '\\'

def scheme? (cs : List Char) : Option (String × List Char) :=
  match cs.span fun c => isLetterOrDigit c || c = '+' || c = '-' || c = '.' with
  | (name,':' :: rest) => if name.head?.any isLetter then some (String.ofList (name.map Char.toLower),rest) else none
  | _ => none

def trimControls (cs : List Char) : List Char :=
  ((cs.dropWhile (·.toNat ≤ 0x20)).reverse.dropWhile (·.toNat ≤ 0x20)).reverse

def isAfterScheme (kind : SchemeKind) (rest : List Char) : Bool :=
  match kind with
  | .file =>
    match rest with
    | a :: b :: more => !(isSlash a && isSlash b) || isFileHost more
    | _ => true
  | .web => isAuthority .web (rest.dropWhile isSlash)
  | .other =>
    match rest with
    | '/' :: '/' :: more => isAuthority .other more
    | _ => true

def isLocator (s : String) : Bool :=
  match scheme? (trimControls s.toList) with
  | some (name,rest) => isAfterScheme (.ofName name) rest
  | none => false

def isRelative (cs : List Char) : Bool :=
  if 2 ≤ (cs.takeWhile isSlash).length then
    match cs with
    | '/' :: '/' :: rest => isAuthority .web rest
    | _ => isAuthority .web (cs.dropWhile isSlash)
  else true

def isJoined (s : String) : Bool :=
  let cs := trimControls s.toList
  match scheme? cs with
  | some (name,rest) =>
    if name = "http" && (rest.takeWhile isSlash).length < 2 then true else isAfterScheme (.ofName name) rest
  | none => isRelative cs

def isReference (s : String) : Bool :=
  isLocator s || isJoined s

def hasNoBlank (s : String) : Bool :=
  s.toList.all (!Unicode.isWhiteSpace ·)

def isAsciiText (s : String) : Bool :=
  s.toList.all (·.toNat < 128)

def isUri (s : String) : Bool :=
  isAsciiText s && hasNoBlank s && isLocator s

def isUriReference (s : String) : Bool :=
  isAsciiText s && hasNoBlank s && isReference s

def isIri (s : String) : Bool :=
  hasNoBlank s && isLocator s

def isIriReference (s : String) : Bool :=
  hasNoBlank s && isReference s
end SchemaOrder.Format
