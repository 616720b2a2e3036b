import SchemaOrder.Engine
import SchemaOrder.Pattern.Regex
import SchemaOrder.Settings
namespace SchemaOrder
open Pattern (Regex Sampler)
-- An entry is made at the first use of its key and stays until all is forgotten; failures are entries too.
structure Question where
  sub : String
  sup : String
  samples : Nat
deriving DecidableEq

structure Memory where
  regexes : List (String × Option Regex) := []
  samplers : List (String × Option Sampler) := []
  verdicts : List (Question × Option Bool) := []

structure Dice where
  State : Type
  source : Random.Source State
  start : State

def Dice.seeded (seed : Nat) : Dice :=
  ⟨Random.Stream,Random.Stream.source,.ofSeed (.ofNat seed)⟩
namespace Memory
def regex? (memory : Memory) (pattern : String) : Option (Option Regex) :=
  memory.regexes.lookup pattern

def sampler? (memory : Memory) (pattern : String) : Option (Option Sampler) :=
  memory.samplers.lookup pattern

def verdict? (memory : Memory) (q : Question) : Option (Option Bool) :=
  memory.verdicts.lookup q

def addRegex (memory : Memory) (pattern : String) (r : Option Regex) : Memory :=
  { memory with regexes := (pattern,r) :: memory.regexes }

def addSampler (memory : Memory) (pattern : String) (s : Option Sampler) : Memory :=
  { memory with samplers := (pattern,s) :: memory.samplers }

def setVerdict (memory : Memory) (q : Question) (verdict : Option Bool) : Memory :=
  { memory with verdicts := (q,verdict) :: memory.verdicts.filter fun entry => entry.1 ≠ q }
section Use
variable {m : Type → Type} [Monad m] [MonadStateOf Memory m]
def regex (pattern : String) : m (Option Regex) := do
  match (← getThe Memory).regex? pattern with
  | some known => return known
  | none =>
    let compiled := Regex.compile? pattern
    modifyThe Memory (·.addRegex pattern compiled)
    return compiled

def sampler (pattern : String) (maxRepeat maxLength : Nat) : m (Option Sampler) := do
  match (← getThe Memory).sampler? pattern with
  | some known => return known
  | none =>
    let built := Sampler.ofPattern? pattern maxRepeat maxLength
    modifyThe Memory (·.addSampler pattern built)
    return built

def matcher (pattern : String) : m (Option Matcher) :=
  return (← regex pattern).map Regex.isMatch

-- Judges by sampling whether one pattern lies within another. The second is compiled first.
def judgeWith (dice : Dice) (effort : Pattern.Effort) (q : Question) : m (Option Bool) := do
  let some sup ← regex q.sup | return none
  let some sub ← regex q.sub | return none
  let some s ← sampler q.sub effort.maxRepeat effort.maxLength | return none
  return Pattern.probe (s.sample dice.source) sub.isMatch sup.isMatch q.samples (effort.attempts q.samples) [] dice.start

-- The remembered verdict, or else a fresh one. A pattern lies within itself and within what matches everything.
def patternWithinWith (dice : Question → Dice) (effort : Pattern.Effort) (q : Question) : m (Option Bool) := do
  if q.sub = q.sup || Pattern.isTrivial q.sup then return some true
  match (← getThe Memory).verdict? q with
  | some known => return known
  | none =>
    let verdict ← judgeWith (dice q) effort q
    modifyThe Memory (·.setVerdict q verdict)
    return verdict

def patternsEquivalentWith (dice : Question → Dice) (effort : Pattern.Effort) (q : Question) : m (Option Bool) := do
  if q.sub = q.sup then return some true
  let some forward ← patternWithinWith dice effort q | return none
  let some backward ← patternWithinWith dice effort { q with sub := q.sup,sup := q.sub } | return none
  return some (forward && backward)

def engineWith (dice : Question → Dice) (settings : Settings) : Engine m where
  primitive := Intersection.merge matcher
  matcher := matcher
  patternWithin sub sup := patternWithinWith dice settings.effort ⟨sub,sup,settings.sampleCount⟩

-- Each question starts afresh from the seed.
def patternWithin (effort : Pattern.Effort) (q : Question) : m (Option Bool) :=
  patternWithinWith (fun _ => .seeded effort.seed) effort q

def patternsEquivalent (effort : Pattern.Effort) (q : Question) : m (Option Bool) :=
  patternsEquivalentWith (fun _ => .seeded effort.seed) effort q

def engine (settings : Settings) : Engine m := engineWith (fun _ => .seeded settings.sampleSeed) settings
end Use
end Memory
structure Tally where
  merges : Nat := 0
  memory : Memory := {}

def Tally.engine (settings : Settings) : Engine (StateT Tally (StateM Memory)) :=
  { Memory.engine settings with
    primitive := fun a b => do
      let tally ← getThe Tally
      let (merged,memory) := (Intersection.merge Memory.matcher a b : StateM Memory (Except Conflict Json)).run tally.memory
      set { merges := tally.merges + 1,memory := memory : Tally }
      return merged }
end SchemaOrder
