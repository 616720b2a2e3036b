import SchemaOrder.Memory
import SchemaOrder.Report
namespace SchemaOrder
-- A session: requests to one checker, one after the other, on one memory.
inductive Request where
  | check (sub sup : Json)
  | isSubset (sub sup : Json)
  | connect (source target : Json)
  | equal (a b : Json)
  | intersect (a b : Json)
  | normalize (schema : Json)
  | resolve (schema data : Json)
  | checkResolved (sub sup subData : Json) (supData : Option Json)
  | patternWithin (sub sup : String)
  | patternsEquivalent (sub sup : String)
  | forget

inductive Reply where
  | report (r : Report)
  | connection (r : Report) (direction : String)
  | verdict (holds : Bool)
  | schema (merged : Option Json)
  | resolution (r : Resolution)
  | resolvedReport (r : ResolvedReport)
  | estimate (holds : Option Bool)
  | forgotten
section Use
variable {m : Type → Type} [Monad m] [MonadStateOf Memory m]
def Request.answerWith (dice : Question → Dice) (settings : Settings) : Request → m Reply
  | .check sub sup => return .report (← (Memory.engineWith dice settings).check sub sup)
  | .isSubset sub sup => return .verdict (← (Memory.engineWith dice settings).check sub sup).isSubset
  | .connect source target => return .connection (← (Memory.engineWith dice settings).check source target) Report.direction
  | .equal a b => return .verdict (equivalentSchemas a b)
  | .intersect a b => return .schema (← (Memory.engineWith dice settings).intersection? a b)
  | .normalize schema => return .schema (some schema.normalize)
  | .resolve schema data => return .resolution (← (Memory.engineWith dice settings).resolve schema data)
  | .checkResolved sub sup subData supData =>
    return .resolvedReport (← (Memory.engineWith dice settings).checkResolved sub sup subData supData)
  | .patternWithin sub sup => return .estimate (← Memory.patternWithinWith dice settings.effort ⟨sub,sup,settings.sampleCount⟩)
  | .patternsEquivalent sub sup =>
    return .estimate (← Memory.patternsEquivalentWith dice settings.effort ⟨sub,sup,settings.sampleCount⟩)
  | .forget => do
    modifyThe Memory fun _ => {}
    return .forgotten

def Request.answer (settings : Settings) (r : Request) : m Reply :=
  r.answerWith (fun _ => .seeded settings.sampleSeed) settings
end Use
namespace Session
def run (settings : Settings) (requests : List Request) : List Reply × Memory :=
  (requests.mapM fun r => (r.answer settings : StateM Memory Reply)).run {}

def replies (settings : Settings) (requests : List Request) : List Reply :=
  (run settings requests).1

def memory (settings : Settings) (requests : List Request) : Memory :=
  (run settings requests).2
end Session
end SchemaOrder
