import SchemaOrder.Json
import SchemaOrder.Pattern.Inclusion
namespace SchemaOrder
-- Settings of a checker and the documents they are read from.
structure Settings where
  sampleCount : Nat := 200
  maxRepeat : Nat := 20
  maxSampleLength : Nat := 100
  attemptsFactor : Nat := 3
  sampleSeed : Nat := 0x5eedcafe
deriving DecidableEq

inductive SettingsError where
  | malformed
  | notPositive (name : String)
deriving DecidableEq

def SettingsError.message : SettingsError → String
  | .malformed => "Failed to parse checker configuration"
  | .notPositive name => "Invalid checker configuration: " ++ name ++ " must be positive"
namespace Settings
def names : List String :=
  ["pattern_sample_count","max_repeat","max_sample_length","attempts_factor","sample_seed"]

def natural? (limit : Nat) (v : Json) : Option Nat :=
  match v.num?.bind Num.unsigned? with
  | some n => if n ≤ limit then some n else none
  | none => none

def wordLimit : Nat := 0xffffffffffffffff

def read? (limit default : Nat) : Option Json → Option Nat
  | none => some default
  | some v => natural? limit v

def ofLookup? (find : String → Option Json) : Option Settings := do
  let d : Settings := {}
  return {
    sampleCount := ← read? wordLimit d.sampleCount (find "pattern_sample_count")
    maxRepeat := ← read? 0xffffffff d.maxRepeat (find "max_repeat")
    maxSampleLength := ← read? wordLimit d.maxSampleLength (find "max_sample_length")
    attemptsFactor := ← read? wordLimit d.attemptsFactor (find "attempts_factor")
    sampleSeed := ← read? wordLimit d.sampleSeed (find "sample_seed") }

def shape? : Json → Option Settings
  | .obj fields => ofLookup? (Fields.get? fields)
  | .arr values => if values.length ≤ names.length then ofLookup? (Fields.get? (names.zip values)) else none
  | _ => none

def validate (s : Settings) : Except SettingsError Settings :=
  if s.sampleCount = 0 then .error (.notPositive "pattern_sample_count")
  else if s.maxSampleLength = 0 then .error (.notPositive "max_sample_length")
  else if s.attemptsFactor = 0 then .error (.notPositive "attempts_factor")
  else .ok s

def ofJson (document : Json) : Except SettingsError Settings :=
  match shape? document with
  | none => .error .malformed
  | some s => s.validate

def effort (s : Settings) : Pattern.Effort :=
  { maxRepeat := s.maxRepeat,maxLength := s.maxSampleLength,attemptsFactor := s.attemptsFactor,seed := s.sampleSeed }
end Settings
end SchemaOrder
