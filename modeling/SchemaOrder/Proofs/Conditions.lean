import SchemaOrder.Proofs.Evaluation
import SchemaOrder.Proofs.Memory
import SchemaOrder.Proofs.Settling
-- Conditions as a checker evaluates them, with the patterns and formats it knows.
namespace SchemaOrder
open Condition Acceptance
-- A pattern that cannot be compiled and a format that is not known accept every text.
lemma Memory.reads_library (settings : Settings) :
    ReadsAll Texts.library Honest (engine settings : Engine (StateM Memory)) := by
  refine ⟨fun pat => ?_,fun format text => ?_⟩
  · refine .bind (ensures_regex pat) fun found compiled => .pure fun text => ?_
    rw [compiled,Option.all_map]
    rfl
  change ((Format.test? format).map (· text) != some false) = (Format.test? format).all (· text)
  cases Format.test? format with
  | none => rfl
  | some test =>
    change (some (test text) != some false) = test text
    cases test text <;> rfl

-- A condition that is built from the keywords the evaluator reads holds of an object just if the object is accepted.
theorem Engine.holds_iff_accepts (settings : Settings) (memory : Memory) (honest : memory.Honest) (c : Json)
    (members : Fields) (condition : isCondition true c = true) (orderly : c.Orderly) (dataOrderly : (Json.obj members).Orderly) :
    (((Memory.engine settings : Engine (StateM Memory)).holds c (.obj members)).run memory).1 =
      c.accepts Texts.library (.obj members) :=
  (holds_answers (fun _ => Memory.reads_library settings) condition orderly dataOrderly memory honest).2

-- Of two ways to pay just one is taken, and the name is none that is reserved.
def paidOnce : Json :=
  .obj [("not",.obj [("properties",.obj [("name",.obj [("pattern",.str "^root")])]),("required",.strings ["name"])]),
    ("oneOf",.arr [.obj [("required",.strings ["cash"])],.obj [("properties",.obj [("card",.obj [("properties",
      .obj [("digits",.obj [("minLength",.digit 4)])]),("required",.strings ["digits"])])]),("required",.strings ["card"])]])]

theorem Engine.holds_iff_accepts_paidOnce :
    let named := fun name => [("card",Json.obj [("digits",.str "1234")]),("name",.str name)]
    isCondition true paidOnce = true ∧
      (((Memory.engine {} : Engine (StateM Memory)).holds paidOnce (.obj (named "ann"))).run {}).1 =
        paidOnce.accepts Texts.library (.obj (named "ann")) ∧
      (((Memory.engine {} : Engine (StateM Memory)).holds paidOnce (.obj (named "rooted"))).run {}).1 =
        paidOnce.accepts Texts.library (.obj (named "rooted")) ∧
      paidOnce.accepts Texts.library (.obj (named "ann")) = true ∧
      paidOnce.accepts Texts.library (.obj (named "rooted")) = false := by
  have honest : Memory.Honest {} := fun _ _ found => nomatch found
  have condition : isCondition true paidOnce = true := by decide +kernel
  have orderly : paidOnce.Orderly := by decide +kernel
  exact ⟨condition,holds_iff_accepts {} {} honest _ _ condition orderly (by decide +kernel),
    holds_iff_accepts {} {} honest _ _ condition orderly (by decide +kernel),by decide +kernel,by decide +kernel⟩
end SchemaOrder
