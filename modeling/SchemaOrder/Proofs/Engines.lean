import SchemaOrder.Proofs.Simulation
import SchemaOrder.Resolution
namespace SchemaOrder
open Condition Resolution Engine
variable {m n : Type → Type} [Monad m] [Monad n]
-- Engines whose intersections, matchers and verdicts on patterns are related give related answers to every question.
structure Simulation.Asking (sim : Simulation m n) (e : Engine m) (e' : Engine n) : Prop where
  matcher : ∀ pat, sim.rel (e.matcher pat) (e'.matcher pat)
  patternWithin : ∀ sub sup, sim.rel (e.patternWithin sub sup) (e'.patternWithin sub sup)

structure Simulation.Engines (sim : Simulation m n) (e : Engine m) (e' : Engine n) : Prop extends sim.Asking e e' where
  primitive : ∀ a b, sim.rel (e.primitive a b) (e'.primitive a b)
namespace Simulation.Asking
variable {sim : Simulation m n} {e : Engine m} {e' : Engine n}
section
variable (asking : sim.Asking e e')
include asking
lemma covers (fs : Fields) (name : String) : sim.rel (e.covers fs name) (e'.covers fs name) := by
  unfold Engine.covers
  split
  · exact sim.pure true
  refine sim.anyM (fun entry => sim.bind (asking.matcher _) fun found => ?_) _
  cases found with
  | some isMatch | none => exact sim.pure _

lemma closedAgainst (closed other : Fields) (path : String) :
    sim.rel (e.closedAgainst closed other path) (e'.closedAgainst closed other path) := by
  unfold Engine.closedAgainst
  split
  · generalize Intersection.required other = ns
    induction ns with
    | nil => exact sim.pure none
    | cons name rest ih =>
      rw [refusedName,refusedName]
      split
      · exact ih
      refine sim.bind (asking.covers closed name) fun covered => ?_
      split
      · exact ih
      split
      · exact sim.pure _
      · exact ih
  · exact sim.pure none

lemma closedConflict (depth : Nat) (a b : Json) (path : String) :
    sim.rel (e.closedConflict depth a b path) (e'.closedConflict depth a b path) := by
  induction depth generalizing a b path with
  | zero => exact sim.pure none
  | succ depth ih =>
    have among path right left : sim.rel (firstAmong (e.closedConflict depth) path right left)
        (firstAmong (e'.closedConflict depth) path right left) := by
      induction left with
      | nil => exact sim.pure none
      | cons entry rest rest_ih =>
        unfold firstAmong
        split
        · refine sim.bind (ih _ _ _) fun found => ?_
          cases found with
          | none => exact rest_ih
          | some c => exact sim.pure _
        · exact rest_ih
    cases a with
    | obj left =>
      cases b with
      | obj right =>
        refine sim.bind (asking.closedAgainst left right path) fun found => ?_
        split
        · exact sim.pure _
        refine sim.bind (asking.closedAgainst right left path) fun found => ?_
        split
        · exact sim.pure _
        split
        · exact among _ _ _
        · exact sim.pure none
      | _ => exact sim.pure none
    | _ => exact sim.pure none

lemma settlePattern (sub : Fields) (path : String) (s : Settled) :
    sim.rel (e.settlePattern sub path s) (e'.settlePattern sub path s) := by
  unfold Engine.settlePattern
  split
  · exact sim.pure s
  refine sim.bind ?_ fun _ => sim.pure _
  unfold patternVerdict
  split
  · exact sim.bind (asking.matcher _) fun _ => sim.pure _
  split
  · exact asking.patternWithin _ _
  · exact sim.pure none

lemma reconcileWithin (depth : Nat) (sub sup : Json) (path : String) :
    sim.rel (e.reconcileWithin depth sub sup path) (e'.reconcileWithin depth sub sup path) := by
  induction depth generalizing sub sup path with
  | zero => exact sim.pure _
  | succ depth ih =>
    cases sub with
    | obj sub =>
      cases sup with
      | obj sup =>
        refine sim.bind (asking.settlePattern sub path _) fun s => sim.bind (sim.foldlM (fun s p => ?_) _ _) fun _ => sim.pure _
        exact sim.bind (ih _ _ _) fun _ => sim.pure _
      | _ => exact sim.pure _
    | _ => exact sim.pure _
end
end Simulation.Asking
namespace Simulation.Engines
variable {sim : Simulation m n} {e : Engine m} {e' : Engine n}
section
variable (engines : sim.Engines e e')
include engines
lemma intersect (a b : Json) : sim.rel (e.intersect a b) (e'.intersect a b) := by
  unfold Engine.intersect
  split
  · exact sim.pure _
  split
  · exact sim.pure _
  refine sim.bind (engines.closedConflict _ _ _ _) fun found => ?_
  split
  · exact sim.pure _
  · exact engines.primitive a b

lemma intersect? (a b : Json) : sim.rel (e.intersect? a b) (e'.intersect? a b) :=
  sim.bind (engines.intersect a b) fun _ => sim.pure _

lemma intersection? (a b : Json) : sim.rel (e.intersection? a b) (e'.intersection? a b) :=
  sim.bind (engines.intersect? _ _) fun _ => sim.pure _

lemma withBeside (beside : Fields) (branch : Json) :
    sim.rel (e.withBeside beside branch) (e'.withBeside beside branch) := by
  unfold Engine.withBeside
  split
  · exact sim.pure _
  · exact sim.bind (engines.intersect? _ _) fun _ => sim.pure _

lemma checkAtomic (sub sup : Json) (path : String) :
    sim.rel (e.checkAtomic sub sup path) (e'.checkAtomic sub sup path) := by
  unfold Engine.checkAtomic
  split
  · exact sim.pure _
  refine sim.bind (engines.reconcileWithin _ _ _ _) fun (sup,failures) => ?_
  dsimp only
  split
  · refine sim.bind (engines.intersect sub sup) fun result => ?_
    cases result with
    | error c | ok common => exact sim.pure _
  unfold checkFailed
  split
  · exact sim.bind (sim.pure none) fun _ => sim.pure _
  · exact sim.bind (engines.intersect? sub sup) fun _ => sim.pure _

lemma checkBranches (sub : Json) (beside : Fields) (path : String) (bs : List Json) (closest : Option Report) :
    sim.rel (e.checkBranches sub beside path closest bs) (e'.checkBranches sub beside path closest bs) := by
  induction bs generalizing closest with
  | nil => exact sim.pure closest
  | cons branch rest ih =>
    refine sim.bind (engines.withBeside beside branch) fun found => ?_
    cases found with
    | none => exact ih closest
    | some sup =>
      refine sim.bind (engines.checkAtomic sub sup path) fun r => ?_
      split
      · exact sim.pure _
      · exact ih _

lemma checkParts {check : Json → String → OptionT m Report}
    {check' : Json → String → OptionT n Report} (related : ∀ sub path, sim.answers.rel (check sub path) (check' sub path))
    (parts : List Part) : sim.answers.rel (e.checkParts check parts) (e'.checkParts check' parts) := by
  induction parts with
  | nil => exact sim.answers.pure []
  | cons part rest ih =>
    refine sim.answers.bind (sim.answers_lift (engines.withBeside _ _)) fun found => ?_
    cases found with
    | none => exact ih
    | some sub => exact sim.answers.bind (related _ _) fun _ => sim.answers.bind ih fun _ => sim.answers.pure _

lemma checkAgainst (sup : Json) (fuel : Nat) (sub : Json) (path : String) :
    sim.answers.rel (e.checkAgainst sup fuel sub path) (e'.checkAgainst sup fuel sub path) := by
  induction fuel generalizing sub path with
  | zero => exact sim.pure none
  | succ fuel ih =>
    unfold Engine.checkAgainst
    split
    · exact sim.answers_lift (engines.checkAtomic sub sup path)
    refine sim.answers.bind (sim.answers_lift (engines.checkBranches _ _ _ _ _)) fun closest => ?_
    dsimp only
    split
    · exact sim.answers.pure _
    · exact sim.answers.bind (engines.checkParts ih _) fun _ => sim.answers.pure _

lemma checkWithin (sup : Json) (fuel : Nat) (sub : Json) (path : String) :
    sim.answers.rel (e.checkWithin sup fuel sub path) (e'.checkWithin sup fuel sub path) := by
  induction fuel generalizing sub path with
  | zero => exact sim.pure none
  | succ fuel ih =>
    unfold Engine.checkWithin
    split
    · exact sim.answers.pure _
    split
    · exact sim.answers.pure _
    dsimp only
    generalize (if sub.isTrue then Json.emptyObj else sub) = sub
    split
    · exact sim.answers.pure _
    split
    · exact engines.checkAgainst sup _ _ path
    · exact sim.answers.bind (engines.checkParts ih _) fun _ => sim.answers.pure _

lemma check (sub sup : Json) : sim.rel (e.check sub sup) (e'.check sub sup) :=
  sim.bind (engines.checkWithin _ _ _ _) fun _ => sim.pure _
end
section Conditions
variable {α : Type} {test : α → m Bool} {test' : α → n Bool}
section
variable (related : ∀ a, sim.rel (test a) (test' a)) (l : List α)
include related l
lemma allHold : sim.rel (allHold test l) (allHold test' l) := by
  induction l with
  | nil => exact sim.pure true
  | cons a rest ih =>
    refine sim.bind (related a) fun holds => ?_
    split
    · exact ih
    · exact sim.pure false

lemma someHolds : sim.rel (someHolds test l) (someHolds test' l) := by
  induction l with
  | nil => exact sim.pure false
  | cons a rest ih =>
    refine sim.bind (related a) fun holds => ?_
    split
    · exact sim.pure true
    · exact ih

lemma oneHolds : sim.rel (oneHolds test l) (oneHolds test' l) := by
  induction l with
  | nil => exact sim.pure false
  | cons a rest ih =>
    refine sim.bind (related a) fun holds => ?_
    split
    · exact sim.bind (someHolds related rest) fun _ => sim.pure _
    · exact ih
end
-- The tests of a condition run one after the other, and the first that fails ends them.
lemma failing (fails : Bool) (rest : sim.rel k k') :
    sim.rel (if fails then Pure.pure false else k) (if fails then Pure.pure false else k') := by
  split
  · exact sim.pure false
  · exact rest

lemma onList {tests : List Json → m Bool} {tests' : List Json → n Bool} (found : Option Json)
    (each : ∀ es, sim.rel (tests es) (tests' es)) (rest : sim.rel k k') :
    sim.rel (match found with | some (.arr es) => tests es | _ => k)
      (match found with | some (.arr es) => tests' es | _ => k') := by
  split
  · exact each _
  · exact rest

lemma onFields {tests : Fields → m Bool} {tests' : Fields → n Bool} (found : Option Json)
    (each : ∀ es, sim.rel (tests es) (tests' es)) (rest : sim.rel k k') :
    sim.rel (match found with | some (.obj es) => tests es | _ => k)
      (match found with | some (.obj es) => tests' es | _ => k') := by
  split
  · exact each _
  · exact rest

lemma fieldsHold {nested : Json → m Bool} {nested' : Json → n Bool} {fits : Json → Json → m Bool}
    {fits' : Json → Json → n Bool} (nestedRelated : ∀ c, sim.rel (nested c) (nested' c))
    (fitsRelated : ∀ schema value, sim.rel (fits schema value) (fits' schema value)) (cond : Fields) (data : Json) :
    sim.rel (fieldsHold nested fits cond data) (fieldsHold nested' fits' cond data) := by
  refine onFields _ (fun props => sim.bind (allHold (fun entry => ?prop) _) fun _ => failing _ ?required) ?required
  case prop =>
    dsimp only
    split
    · exact fitsRelated _ _
    · exact sim.pure true
  refine onList _ (fun ns => failing _ ?allOf) ?allOf
  refine onList _ (fun es => sim.bind (allHold nestedRelated _) fun _ => failing _ ?anyOf) ?anyOf
  refine onList _ (fun es => sim.bind (someHolds nestedRelated _) fun _ => failing _ ?oneOf) ?oneOf
  refine onList _ (fun es => sim.bind (oneHolds nestedRelated _) fun _ => failing _ ?negated) ?negated
  exact onFields _ (fun negated => sim.bind (nestedRelated _) fun _ => failing _ (sim.pure true)) (sim.pure true)
end Conditions
lemma stringFits (engines : sim.Engines e e') (schema : Fields) (value : Json) :
    sim.rel (stringFits e schema value) (stringFits e' schema value) := by
  unfold Condition.stringFits
  split
  · dsimp only
    split
    · refine sim.bind (engines.matcher _) fun found => ?_
      cases found with
      | some isMatch | none => exact sim.bind (sim.pure _) fun _ => sim.pure _
    · exact sim.bind (sim.pure _) fun _ => sim.pure _
  · exact sim.pure true

lemma conditionsWithin (engines : sim.Engines e e') (depth : Nat) :
    (∀ cond data, sim.rel (holdsWithin e depth cond data) (holdsWithin e' depth cond data)) ∧
      ∀ schema value, sim.rel (fitsWithin e depth schema value) (fitsWithin e' depth schema value) := by
  induction depth with
  | zero =>
    refine ⟨fun cond data => ?_,fun schema value => ?_⟩
    · cases cond <;> exact sim.pure _
    · cases schema <;> exact sim.pure _
  | succ depth ih =>
    refine ⟨fun cond data => ?_,fun schema value => ?_⟩
    · cases cond with
      | obj cond => exact fieldsHold (fun c => ih.1 c data) ih.2 cond data
      | _ => exact sim.pure _
    cases schema with
    | obj schema =>
      have rest nestedFit : sim.rel (if (!(Condition.literalFits schema value && Condition.numberFits schema
          value)) then Pure.pure false else Condition.stringFits e schema value >>= fun fits =>
          if (!fits) then Pure.pure false else Pure.pure (arrayFits schema value && nestedFit))
          (if (!(literalFits schema value && numberFits schema value)) then Pure.pure false else
          Condition.stringFits e' schema value >>= fun fits =>
          if (!fits) then Pure.pure false else Pure.pure (arrayFits schema value && nestedFit)) :=
        failing _ (sim.bind (engines.stringFits schema value) fun _ => failing _ (sim.pure _))
      unfold fitsWithin
      dsimp only
      split
      · exact sim.bind (fieldsHold (fun c => ih.1 c value) ih.2 schema value) rest
      · exact sim.bind (sim.pure _) rest
    | _ => exact sim.pure _

lemma holds (engines : sim.Engines e e') (cond data : Json) : sim.rel (e.holds cond data) (e'.holds cond data) :=
  (engines.conditionsWithin _).1 cond data

lemma mergeEntries {merge : Json → Json → m Json} {merge' : Json → Json → n Json}
    (related : ∀ a b, sim.rel (merge a b) (merge' a b)) (existing incoming : Json) :
    sim.rel (mergeEntries merge existing incoming) (mergeEntries merge' existing incoming) := by
  unfold Resolution.mergeEntries
  split
  · refine sim.bind (sim.foldlM (fun out entry => ?_) _ _) fun _ => sim.pure _
    dsimp only
    split
    · exact sim.bind (related _ _) fun _ => sim.pure _
    · exact sim.pure _
  · exact sim.pure _
section
variable (engines : sim.Engines e e')
include engines
lemma mergeValues (key : String) (existing incoming : Json) :
    sim.rel (mergeValues e key existing incoming) (mergeValues e' key existing incoming) := by
  have schema prior incoming : sim.rel (mergeSchema e prior incoming) (mergeSchema e' prior incoming) :=
    sim.bind (engines.intersect? prior incoming) fun _ => sim.pure _
  have dependency prior incoming : sim.rel (mergeDependency e prior incoming) (mergeDependency e' prior incoming) := by
    unfold mergeDependency
    split
    all_goals first
      | exact sim.pure _
      | exact schema _ _
  have keyword : sim.rel (mergeKeyword? e key existing incoming) (mergeKeyword? e' key existing incoming) := by
    refine sim.bind (engines.intersect? _ _) fun found => ?_
    split
    all_goals exact sim.pure _
  unfold Resolution.mergeValues
  split
  all_goals first
    | exact sim.pure _
    | exact mergeEntries schema _ _
    | exact mergeEntries dependency _ _
    | skip
  split
  all_goals first
    | exact sim.pure _
    | exact sim.bind keyword fun _ => sim.pure _

lemma mergeBranch (schema : Fields) (branch : Json) :
    sim.rel (mergeBranch e schema branch) (mergeBranch e' schema branch) := by
  refine sim.foldlM (fun out entry => ?_) _ _
  dsimp only
  split
  · exact sim.pure _
  split
  · exact sim.pure _
  · exact sim.bind (engines.mergeValues _ _ _) fun _ => sim.pure _

lemma decideBranch (cond data : Json) (discriminant : Fields) :
    sim.rel (decideBranch e cond data discriminant) (decideBranch e' cond data discriminant) :=
  sim.bind (engines.holds cond data) fun _ => sim.pure _

lemma resolveAllOf (data : Json) (s : State) : sim.rel (resolveAllOf e data s) (resolveAllOf e' data s) := by
  unfold Resolution.resolveAllOf
  split
  · refine sim.bind (sim.foldlM (fun s entry => ?_) _ _) fun _ => sim.bind (sim.foldlM engines.mergeBranch _ _) fun _ => sim.pure _
    unfold resolveEntry
    split
    · exact sim.bind (engines.decideBranch _ _ _) fun _ => sim.pure _
    · exact sim.pure _
  · exact sim.pure s

lemma resolveOwn (data : Json) (s : State) : sim.rel (resolveOwn e data s) (resolveOwn e' data s) := by
  unfold Resolution.resolveOwn
  split
  · exact sim.pure _
  refine sim.bind (engines.decideBranch _ _ _) fun decided => ?_
  dsimp only
  split
  · exact sim.bind (engines.mergeBranch _ _) fun _ => sim.pure _
  · exact sim.bind (sim.pure _) fun _ => sim.pure _
end
lemma resolveProperties {resolve : Json → Json → m Resolution} {resolve' : Json → Json → n Resolution}
    (related : ∀ schema data, sim.rel (resolve schema data) (resolve' schema data)) (data : Json) (s : State) :
    sim.rel (resolveProperties resolve data s) (resolveProperties resolve' data s) := by
  unfold Resolution.resolveProperties
  split
  · split
    · refine sim.bind (sim.foldlM (fun r entry => ?_) _ _) fun _ => sim.pure _
      dsimp only
      split
      · exact sim.bind (related _ _) fun _ => sim.pure _
      · exact sim.pure _
    · exact sim.pure s
  · exact sim.pure s

lemma resolveWithin (engines : sim.Engines e e') (depth : Nat) (schema data : Json) :
    sim.rel (resolveWithin e depth schema data) (resolveWithin e' depth schema data) := by
  induction depth generalizing schema data with
  | zero => exact sim.pure _
  | succ depth ih =>
    cases schema with
    | obj fs =>
      exact sim.bind (engines.resolveAllOf _ _) fun _ => sim.bind (engines.resolveOwn _ _) fun _ =>
        sim.bind (resolveProperties ih _ _) fun _ => sim.pure _
    | _ => exact sim.pure _

lemma resolve (engines : sim.Engines e e') (schema data : Json) : sim.rel (e.resolve schema data) (e'.resolve schema data) :=
  engines.resolveWithin _ schema data

lemma checkResolved (engines : sim.Engines e e') (sub sup subData : Json) (supData : Option Json) :
    sim.rel (e.checkResolved sub sup subData supData) (e'.checkResolved sub sup subData supData) :=
  sim.bind (engines.resolve _ _) fun _ => sim.bind (engines.resolve _ _) fun _ => sim.bind (engines.check _ _) fun _ =>
    sim.pure _
end Simulation.Engines
end SchemaOrder
