import SchemaOrder.Pattern.Sampler
namespace SchemaOrder.Pattern
-- Is every text of one pattern a text of another?
def universalPatterns : List String :=
  [".*",".+","^.*$","^.+$","^.*","^.+",".*$",".+$","^(.*)$","^(.+)$"]

def isTrivial (pattern : String) : Bool :=
  pattern.toList.all Unicode.isWhiteSpace || universalPatterns.contains pattern

structure Effort where
  maxRepeat : Nat
  maxLength : Nat
  attemptsFactor : Nat
  seed : Nat

def Effort.attempts (effort : Effort) (wanted : Nat) : Nat :=
  min (wanted * effort.attemptsFactor) 0xffffffffffffffff

def outcome (seen : List String) : Option Bool :=
  if seen.isEmpty then none else some true

def probe {σ : Type} (draw : σ → Option String × σ) (inSub inSup : String → Bool) (wanted : Nat) :
    (attempts : Nat) → (seen : List String) → σ → Option Bool
  | 0,seen,_ => outcome seen
  | attempts + 1,seen,state =>
    if wanted ≤ seen.length then outcome seen
    else
      let (word,state) := draw state
      match word with
      | none => probe draw inSub inSup wanted attempts seen state
      | some w =>
        if seen.contains w || !inSub w then probe draw inSub inSup wanted attempts seen state
        else if inSup w then probe draw inSub inSup wanted attempts (w :: seen) state
        else some false
end SchemaOrder.Pattern
