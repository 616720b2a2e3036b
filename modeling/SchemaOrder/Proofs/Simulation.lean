import Mathlib
import SchemaOrder.Intersection
namespace SchemaOrder
open Attempt Intersection
-- Two runs of one program.
structure Simulation (m n : Type → Type) [Monad m] [Monad n] where
  rel : {α : Type} → m α → n α → Prop
  pure : ∀ {α : Type} (a : α), rel (Pure.pure a) (Pure.pure a)
  bind : ∀ {α β : Type} {x : m α} {y : n α} {f : α → m β} {g : α → n β},
    rel x y → (∀ a, rel (f a) (g a)) → rel (x >>= f) (y >>= g)

structure MergeSimulation (m n : Type → Type) [Monad m] [Monad n] extends Simulation (Attempt m) (Attempt n) where
  conflict : ∀ {α : Type} (c : Conflict), rel (conflict c : Attempt m α) (conflict c)
  orElse : ∀ {α : Type} {x : Attempt m α} {y : Attempt n α} {f : Conflict → Attempt m α} {g : Conflict → Attempt n α},
    rel x y → (∀ c, rel (f c) (g c)) → rel (x.orElse f) (y.orElse g)
variable {m n : Type → Type} [Monad m] [Monad n]
namespace Simulation
variable {α β : Type} (sim : Simulation m n)
lemma foldlM {f : β → α → m β} {g : β → α → n β} (step : ∀ b a, sim.rel (f b a) (g b a)) (l : List α) :
    ∀ b, sim.rel (l.foldlM f b) (l.foldlM g b) := by
  induction l with
  | nil => exact sim.pure
  | cons a rest ih =>
    intro b
    exact sim.bind (step b a) ih

lemma filterM {p : α → m Bool} {q : α → n Bool} (each : ∀ a, sim.rel (p a) (q a)) (l : List α) :
    sim.rel (l.filterM p) (l.filterM q) := by
  have aux : ∀ (rest seen : List α), sim.rel (rest.filterAuxM p seen) (rest.filterAuxM q seen) := by
    intro rest
    induction rest with
    | nil => exact sim.pure
    | cons a rest ih => exact fun seen => sim.bind (each a) fun _ => ih _
  exact sim.bind (aux l []) fun _ => sim.pure _

lemma anyM {p : α → m Bool} {q : α → n Bool} (each : ∀ a, sim.rel (p a) (q a)) (l : List α) :
    sim.rel (l.anyM p) (l.anyM q) := by
  induction l with
  | nil => exact sim.pure false
  | cons a rest ih =>
    refine sim.bind (each a) fun found => ?_
    cases found with
    | true => exact sim.pure true
    | false => exact ih

def same (m : Type → Type) [Monad m] : Simulation m m where
  rel x y := x = y
  pure _ := rfl
  bind first next := by rw [first,funext next]

def answers : Simulation (OptionT m) (OptionT n) where
  rel x y := sim.rel x.run y.run
  pure a := sim.pure (some a)
  bind related next := by
    refine sim.bind related fun found => ?_
    cases found with
    | none => exact sim.pure none
    | some a => exact next a

lemma answers_lift (related : sim.rel x y) : sim.answers.rel (OptionT.lift x) (OptionT.lift y) :=
  sim.bind related fun a => sim.pure (some a)

def merges : MergeSimulation m n where
  rel x y := sim.rel x.run.run y.run.run
  pure a := sim.pure (some (Except.ok a))
  bind related next := by
    refine sim.bind related fun result => ?_
    match result with
    | none => exact sim.pure none
    | some (.error c) => exact sim.pure (some (Except.error c))
    | some (.ok a) => exact next a
  conflict c := sim.pure (some (Except.error c))
  orElse related next := by
    refine sim.bind related fun result => ?_
    match result with
    | none => exact sim.pure none
    | some (.error c) => exact next c
    | some (.ok a) => exact sim.pure (some (Except.ok a))

lemma merges_ask (related : sim.rel x y) : sim.merges.rel (ask x) (ask y) :=
  sim.bind related fun a => sim.pure (some (Except.ok a))
end Simulation
namespace MergeSimulation
variable (sim : MergeSimulation m n)
lemma ofExcept {α : Type} (x : Except Conflict α) : sim.rel (Attempt.ofExcept x) (Attempt.ofExcept x) := by
  cases x with
  | error c => exact sim.conflict c
  | ok a => exact sim.pure a
open Intersection
variable {lookup : Lookup m} {other : String → n (Option Matcher)}
  {recur : Step m} {recur' : Step n}
section
variable (related : ∀ a b path, sim.rel (recur a b path) (recur' a b path))
include related
lemma dependency (left right : Json)
    (path : String) : sim.rel (dependency recur left right path) (dependency recur' left right path) := by
  unfold Intersection.dependency
  split
  · exact sim.pure _
  all_goals exact related _ _ _

lemma keyword (key : String) (left right : Json)
    (path : String) : sim.rel (keyword recur key left right path) (keyword recur' key left right path) := by
  have alone : ∀ {x : Attempt m Json} {y}, sim.rel x y →
      sim.rel (do return ((← x),([] : List Json))) (do return ((← y),([] : List Json))) :=
    fun same => sim.bind same fun _ => sim.pure _
  have schemaMaps path : sim.rel (schemaMaps recur left right path) (schemaMaps recur' left right path) := by
    unfold schemaMaps
    split
    · refine sim.bind (sim.foldlM (fun out entry => ?_) _ _) fun _ => sim.pure _
      dsimp only
      split
      · exact sim.bind (sim.orElse (related _ _ _) fun _ => sim.pure _) fun _ => sim.pure _
      · exact sim.bind (sim.pure _) fun _ => sim.pure _
    · exact sim.pure _
  have dependencies path : sim.rel (dependencies recur left right path) (dependencies recur' left right path) := by
    unfold dependencies
    split
    · refine sim.bind (sim.foldlM (fun out entry => ?_) _ _) fun _ => sim.pure _
      dsimp only
      split
      · exact sim.bind (sim.dependency related _ _ _) fun _ => sim.pure _
      · exact sim.bind (sim.pure _) fun _ => sim.pure _
    · exact sim.pure _
  unfold Intersection.keyword
  split
  · exact sim.pure _
  split
  all_goals first
    | exact sim.pure _
    | exact sim.conflict _
    | exact alone (sim.ofExcept _)
    | skip
  · split
    all_goals exact sim.pure _
  split
  all_goals first
    | exact sim.pure _
    | exact alone (schemaMaps _)
    | exact alone (dependencies _)
    | skip
  split
  · exact sim.pure _
  · exact alone (related _ _ _)

lemma properties
    (asked : ∀ owner name, sim.rel (ask (constraints lookup owner name)) (ask (constraints other owner name)))
    (left right : Fields) (path : String) :
    sim.rel (properties lookup recur left right path) (properties other recur' left right path) := by
  have undeclared : ∀ schema owner name path, sim.rel (constrainUndeclared lookup recur schema owner name path)
      (constrainUndeclared other recur' schema owner name path) :=
    fun _ _ _ _ => sim.bind (asked _ _) fun _ => sim.foldlM (fun _ _ => related _ _ _) _ _
  have settled wanted name {x} {y} (same : sim.rel x y) :
      sim.rel (settleProperty wanted name x) (settleProperty wanted name y) := by
    refine sim.orElse same fun c => ?_
    split
    · exact sim.conflict c
    · exact sim.pure _
  unfold Intersection.properties
  dsimp only
  split
  · exact sim.pure _
  refine sim.bind (sim.foldlM (fun out entry => sim.bind (settled _ _ ?_) fun _ => sim.pure _) _ _) fun out =>
    sim.bind (sim.foldlM (fun out entry => ?_) _ _) fun _ => sim.pure _
  · split
    · exact related _ _ _
    · exact undeclared _ _ _ _
  · split
    · exact sim.pure _
    · exact sim.bind (settled _ _ (undeclared _ _ _ _)) fun _ => sim.pure _

lemma items (left right : Fields) (path : String) :
    sim.rel (items recur left right path) (items recur' left right path) := by
  have optional left right path : sim.rel (optional recur left right path) (optional recur' left right path) := by
    unfold Intersection.optional
    split
    · exact sim.bind (related _ _ _) fun _ => sim.pure _
    all_goals exact sim.pure _
  have tupleWith : ∀ single path tuple i, sim.rel (tupleWith recur single path i tuple)
      (tupleWith recur' single path i tuple) := by
    intro single path tuple
    induction tuple with
    | nil => exact fun _ => sim.pure _
    | cons entry rest ih =>
      exact fun _ => sim.bind (related _ _ _) fun _ => sim.bind (ih _) fun _ => sim.pure _
  have tuples lMore rMore path ls rs i : sim.rel (tuples recur lMore rMore path i ls rs)
      (tuples recur' lMore rMore path i ls rs) := by
    induction i, ls, rs using tuples.induct with
    | case1 =>
      rw [tuples,tuples]
      exact sim.pure _
    | case2 _ _ _ ih | case3 _ _ _ ih | case4 _ _ _ _ _ ih =>
      rw [tuples,tuples]
      exact sim.bind (related _ _ _) fun _ => sim.bind ih fun _ => sim.pure _
  unfold Intersection.items
  split
  · exact sim.bind (optional _ _ _) fun _ => sim.pure _
  · exact sim.pure _
  · exact sim.pure _
  · exact sim.bind (tuples _ _ _ _ _ _) fun _ => sim.bind (optional _ _ _) fun _ => sim.pure _
  · exact sim.bind (tupleWith _ _ _ _) fun _ => sim.bind (optional _ _ _) fun _ => sim.pure _
  · exact sim.bind (tupleWith _ _ _ _) fun _ => sim.bind (optional _ _ _) fun _ => sim.pure _
  · exact sim.bind (related _ _ _) fun _ => sim.pure _

lemma step (asked : ∀ owner name, sim.rel (ask (constraints lookup owner name)) (ask (constraints other owner name)))
    (a b : Json) (path : String) : sim.rel (step lookup recur a b path) (step other recur' a b path) := by
  have folded schema : sim.rel (foldAllOf recur schema path) (foldAllOf recur' schema path) := by
    unfold foldAllOf
    split
    · split
      · exact sim.foldlM (fun _ _ => related _ _ _) _ _
      · exact sim.pure _
    · exact sim.pure _
  have shared clash left right residual : sim.rel (sharedKeywords recur clash left right path residual)
      (sharedKeywords recur' clash left right path residual) := by
    refine sim.foldlM (fun out entry => ?_) _ _
    dsimp only
    split
    · exact sim.pure _
    split
    · exact sim.bind (sim.keyword related _ _ _ _) fun _ => sim.pure _
    · exact sim.pure _
  refine sim.bind (folded a) fun a => sim.bind (folded b) fun b => ?_
  split
  all_goals first
    | exact sim.pure _
    | exact sim.conflict _
    | skip
  refine sim.bind ?_ fun _ => sim.pure _
  refine sim.bind (shared _ _ _ _) fun _ => sim.bind (sim.properties related asked _ _ _) fun _ =>
    sim.bind (sim.items related _ _ _) fun _ => sim.bind (sim.ofExcept _) fun _ => sim.bind (sim.ofExcept _) fun _ => ?_
  exact sim.pure _
end
end MergeSimulation
lemma Simulation.merge (sim : Simulation m n) {lookup : Lookup m}
    {other : String → n (Option Matcher)} (asked : ∀ pat, sim.rel (lookup pat) (other pat)) (a b : Json) :
    sim.rel (merge lookup a b) (merge other a b) := by
  have constraints owner name : sim.merges.rel (ask (constraints lookup owner name))
      (ask (constraints other owner name)) := by
    refine sim.merges_ask (sim.bind (sim.filterM (fun entry => sim.bind (asked _) fun found => ?_) _) fun governing => ?_)
    · cases found with
      | some isMatch | none => exact sim.pure _
    split
    all_goals exact sim.pure _
  have within : ∀ fuel a b path, sim.merges.rel (mergeWithin lookup fuel a b path)
      (mergeWithin other fuel a b path) := by
    intro fuel
    induction fuel with
    | zero => exact fun _ _ _ => sim.pure none
    | succ fuel ih => exact sim.merges.step ih constraints
  refine sim.bind (within _ a b "") fun result => ?_
  cases result with
  | none | some result => exact sim.pure _
section Fuel
variable {σ ρ τ : Type}
def Outlasted (x y : StateM σ (Option ρ)) : Prop := ∀ s, (x.run s).1 = none ∨ x.run s = y.run s

lemma Outlasted.elimM {f g : ρ → StateM σ (Option τ)} (first : Outlasted x y)
    (next : ∀ r, Outlasted (f r) (g r)) : Outlasted (Option.elimM x (pure none) f) (Option.elimM y (pure none) g) := by
  have split : ∀ x (f : ρ → StateM σ (Option τ)) s,
      (Option.elimM x (pure none) f).run s = ((x.run s).1.elim (pure none) f).run (x.run s).2 := fun _ _ _ => rfl
  intro s
  rw [split,split]
  rcases first s with out | same
  · rw [out]
    exact .inl rfl
  rw [← same]
  cases (x.run s).1 with
  | none => exact .inl rfl
  | some r => exact next r _

def MergeSimulation.outlasting (σ : Type) : MergeSimulation (StateM σ) (StateM σ) where
  rel x y := Outlasted x.run.run y.run.run
  pure _ _ := .inr rfl
  conflict _ _ := .inr rfl
  bind first next := by
    rw [ExceptT.run_bind,ExceptT.run_bind,OptionT.run_bind,OptionT.run_bind]
    refine first.elimM fun r => ?_
    cases r with
    | error c => exact fun _ => .inr rfl
    | ok a => exact next a
  orElse first next := by
    unfold Attempt.orElse
    rw [ExceptT.run_tryCatch,ExceptT.run_tryCatch,OptionT.run_bind,OptionT.run_bind]
    refine first.elimM fun r => ?_
    cases r with
    | error c => exact next c
    | ok a => exact fun _ => .inr rfl

lemma Intersection.outlasted_mergeWithin (lookup : Lookup (StateM σ))
    (enough : fuel ≤ more) (a b : Json) (path : String) :
    Outlasted (mergeWithin lookup fuel a b path).run.run (mergeWithin lookup more a b path).run.run := by
  induction fuel generalizing more a b path with
  | zero => exact fun _ => .inl rfl
  | succ fuel ih =>
    cases more with
    | zero => cases enough
    | succ more =>
      exact (MergeSimulation.outlasting σ).step (fun a b path => ih (Nat.le_of_succ_le_succ enough) a b path)
        (fun _ _ _ => .inr rfl) a b path
end Fuel
end SchemaOrder
