import SchemaOrder.Proofs.Annotations.Merging
import SchemaOrder.Proofs.Comparison
import SchemaOrder.Proofs.Rounding
namespace SchemaOrder
open Schemas Canonical List Fields Json SchemaOrder.Bound Keyword
-- Schemas whose keywords always combine: of two under one name a third takes their place, and nothing is left over.
def combinable : Vocabulary where
  keywords := ["type","const","enum","uniqueItems","required","properties","patternProperties","additionalProperties",
    "items","additionalItems","propertyNames","dependencies","not","allOf"]

def Num.isSmall : Num → Bool
  | .whole n => n.val.natAbs ≤ 0x20000000000000
  | .double _ => false
namespace Schemas
-- Bounds are numbers that doubles hold as they are.
def boundsAt (key : String) (s : Json) : Bool :=
  !([Shape.lowerBound,.upperBound].contains (shape key)) || s.num?.any Num.isSmall

def hasSmallBounds (fs : Fields) : Bool :=
  fs.all fun field => boundsAt field.1 field.2

-- A negated schema is never taken apart. Two of them make an `anyOf`, which may stand nowhere else.
def unites (formed : Json → Bool) (key : String) (s : Json) : Bool :=
  combinable.has key && boundsAt key s &&
    if key = "not" then s.isExact && s.isSchemaWithout [] else keywordFormed formed key s

def stepCombinable (formed : Json → Bool) : Json → Bool
  | .bool _ => true
  | .obj fs => decide (Sorted fs) && fs.all fun field => unites formed field.1 field.2
  | _ => false
end Schemas
def Json.isCombinable (s : Json) : Bool :=
  recurse stepCombinable false s

structure Combinable (fs : Fields) : Prop where
  sorted : fs.Sorted
  each : ∀ key s, fs.get? key = some s → unites isCombinable key s
namespace Schemas
variable {fs : Fields} {key : String} {s : Json} {formed : Json → Bool}
lemma isCombinable_eq (s : Json) : s.isCombinable = stepCombinable isCombinable s := by
  refine recurse_eq (fun s f g agree => ?_) s
  cases s with
  | obj fs =>
    change (_ && _) = (_ && _)
    rw [Acceptance.all_agree fun field mem => ?_]
    unfold unites
    rw [keywordFormed_agree fun t shallow => agree t (lt_of_le_of_lt shallow (depth_field mem))]
  | _ => rfl

lemma isCombinable_obj : (obj fs).isCombinable ↔ Combinable fs := by
  rw [isCombinable_eq]
  change (_ && _) ↔ _
  rw [Bool.and_eq_true,decide_eq_true_eq,all_eq_true]
  constructor
  · rintro ⟨sorted,each⟩
    exact ⟨sorted,fun key s found => each (key,s) (mem_of_get? found)⟩
  rintro ⟨sorted,each⟩
  exact ⟨sorted,fun field mem => each _ _ (get?_of_mem sorted mem)⟩

@[simp] lemma isCombinable_bool (b : Bool) : (bool b).isCombinable := isCombinable_eq _

lemma isCombinable_cases (good : s.isCombinable) : (∃ b, s = .bool b) ∨ ∃ fs : Fields, s = .obj fs ∧ Combinable fs := by
  cases s with
  | bool b => exact .inl ⟨b,rfl⟩
  | obj fs => exact .inr ⟨fs,rfl,isCombinable_obj.mp good⟩
  | _ => cases good

lemma isArr_of_isCombinable (good : s.isCombinable) : s.isArr = false := by
  rcases isCombinable_cases good with ⟨b,rfl⟩ | ⟨fs,rfl,_⟩ <;> rfl

lemma unites_iff : unites formed key s ↔ combinable.has key ∧ boundsAt key s ∧
    (key = "not" → s.isExact ∧ s.isSchemaWithout []) ∧ (key ≠ "not" → keywordFormed formed key s) := by
  unfold unites
  rw [Bool.and_eq_true,Bool.and_eq_true,and_assoc]
  refine and_congr_right fun _ => and_congr_right fun _ => ?_
  by_cases negated : key = "not" <;> simp [negated]

lemma known_of_unites (holds : unites formed key s) : combinable.has key := (unites_iff.mp holds).1

lemma formed_of_unites (holds : unites formed key s) (other : key ≠ "not") : keywordFormed formed key s :=
  (unites_iff.mp holds).2.2.2 other

-- Away from bounds and negations a keyword only has to be well-formed.
lemma unites_formed (known : combinable.has key) (other : key ≠ "not")
    (unbounded : shape key ∉ [.lowerBound,.upperBound]) (holds : keywordFormed formed key s) : unites formed key s := by
  refine unites_iff.mpr ⟨known,?_,fun negated => absurd negated other,fun _ => holds⟩
  unfold boundsAt
  simp only [contains_eq_mem,unbounded,decide_false,Bool.not_false,Bool.true_or]

lemma small_of_bound (holds : unites formed key s) (bounded : shape key ∈ [.lowerBound,.upperBound]) :
    ∃ n : Whole, s = .num (.whole n) ∧ n.val.natAbs ≤ 0x20000000000000 := by
  have small := (unites_iff.mp holds).2.1
  unfold boundsAt at small
  simp only [contains_eq_mem,bounded] at small
  cases s with
  | num n =>
    cases n with
    | whole n => exact ⟨n,rfl,of_decide_eq_true small⟩
    | double x => cases small
  | _ => cases small

lemma exact_combinable (good : s.isCombinable) : s.isExact := by
  induction s using byDepth with
  | step s ih =>
    rcases isCombinable_cases good with ⟨b,rfl⟩ | ⟨fs,rfl,combinable⟩
    · rfl
    refine exact_obj.mpr ⟨combinable.sorted,fun field mem => ?_⟩
    have found : fs.get? field.1 = some field.2 := get?_of_mem combinable.sorted mem
    have holds := combinable.each _ _ found
    by_cases negated : field.1 = "not"
    · exact ((unites_iff.mp holds).2.2.1 negated).1
    exact exact_keyword (fun t shallow => ih t (lt_of_le_of_lt shallow (depth_get? found)))
      (formed_of_unites holds negated)

lemma schema_combinable (good : s.isCombinable) : s.isSchemaWithout [] := by
  induction s using byDepth with
  | step s ih =>
    rcases isCombinable_cases good with ⟨b,rfl⟩ | ⟨fs,rfl,combinable⟩
    · exact isSchemaWithout_eq _
    refine isSchemaWithout_obj.mpr ⟨⟨orderly_of_exact (exact_combinable good),fun key t found => ?_⟩,nofun⟩
    have holds := combinable.each key t found
    by_cases negated : key = "not"
    · subst negated
      exact places_of_formed ((unites_iff.mp holds).2.2.1 rfl).2
    exact places_of_formed (keywordFormed_mono
      (fun u shallow => ih u (lt_of_le_of_lt shallow (depth_get? found))) (formed_of_unites holds negated))

lemma combinable_of_schema (schema : s.isSchemaWith combinable hasSmallBounds) : s.isCombinable := by
  induction s using byDepth with
  | step s ih =>
    cases s with
    | bool b => exact isCombinable_bool b
    | obj fs =>
      obtain ⟨formed,small⟩ := isSchemaWith_obj.mp schema
      obtain ⟨sorted,allowed,formed,_⟩ := (step_obj _).mp formed
      refine isCombinable_obj.mpr ⟨sorted,fun key t found => ?_⟩
      have below (u : Json) shallow : u.isSchemaWith combinable hasSmallBounds → u.isCombinable :=
        ih u (lt_of_le_of_lt shallow (depth_get? found))
      refine unites_iff.mpr ⟨Vocabulary.has_of_allows (allowed key t found),
        all_eq_true.mp small _ (mem_of_get? found),fun negated => ?_,
        fun _ => keywordFormed_mono below (formed key t found)⟩
      subst negated
      have good := below t (le_rfl) (formed _ t found)
      exact ⟨exact_combinable good,schema_combinable good⟩
    | _ => cases schema

lemma members_of_enum (holds : keywordFormed formed "enum" s) : ∃ ms, s = .arr ms ∧ ∀ v ∈ ms, v.isExact := by
  cases s with
  | arr ms => exact ⟨ms,rfl,Intersection.formed_enum.mp holds⟩
  | _ => cases holds
end Schemas
namespace Combinable
variable {fs : Fields} {key : String} {s : Json}
section
variable (combinable : Combinable fs)
include combinable
lemma exact (found : fs.get? key = some s) : s.isExact :=
  exact_get? (exact_combinable (isCombinable_obj.mpr combinable)) found

lemma formed (found : fs.get? key = some s) (other : key ≠ "not") : keywordFormed isCombinable key s :=
  formed_of_unites (combinable.each key s found) other

lemma absent (unknown : SchemaOrder.combinable.has key = false) : fs.get? key = none := by
  cases found : fs.get? key with
  | none => rfl
  | some s =>
    have known := known_of_unites (combinable.each key s found)
    rw [unknown] at known
    cases known

lemma erase (key : String) : Combinable (fs.erase key) := by
  refine ⟨sorted_erase combinable.sorted,fun other s found => ?_⟩
  rw [get?_erase combinable.sorted] at found
  split at found
  · cases found
  · exact combinable.each other s found

lemma fold : Combinable (fold fs) := by
  have dropped : ∀ {side soft strict} {fs}, Combinable fs → Combinable (dropImplied side soft strict fs) :=
    fun combinable => dropImplied_cases combinable (combinable.erase _) (combinable.erase _)
  exact dropped (dropped combinable)

lemma enum (found : fs.get? "enum" = some s) : ∃ ms, s = .arr ms ∧ ∀ v ∈ ms, v.isExact :=
  members_of_enum (combinable.formed found (by decide))
end
end Combinable
structure Congruent (key : String) (v w : Json) : Prop where
  form : formKeyword key v = formKeyword key w
  bound : shape key ∈ [.lowerBound,.upperBound] → v = w

def CongruentFields (f g : Fields) : Prop := ∀ key, Option.Rel (Congruent key) (f.get? key) (g.get? key)

lemma Congruent.refl (key : String) (v : Json) : Congruent key v v := ⟨rfl,fun _ => rfl⟩

lemma Congruent.of_form (unbounded : shape key ∉ [.lowerBound,.upperBound])
    (form : formKeyword key v = formKeyword key w) : Congruent key v w :=
  ⟨form,fun bounded => absurd bounded unbounded⟩
namespace Canonical
variable {fs : Fields} {f g : Fields}
lemma get?_form_obj (sorted : fs.Sorted) (other : key ≠ "properties") (unbounded : limit? key = none) :
    (closeObject (fold (keywords fs))).get? key = (fs.get? key).bind (formKeyword key) := by
  rw [get?_closeObject other,get?_fold unbounded,keywords_treated,get?_treated _ sorted]

def SameForm (s t : Json) : Prop := form s = form t

def SameEntry (s t : Json) : Prop := formEntry s = formEntry t

lemma SameEntry.refl (s : Json) : SameEntry s s := rfl

lemma formEntry_combinable (good : s.isCombinable) : formEntry s = form s := by
  rcases isCombinable_cases good with ⟨b,rfl⟩ | ⟨fs,rfl,_⟩ <;> rfl

lemma entries_treated (fields : Fields) :
    entries fields = fields.filterMap fun field => (some (formEntry field.2)).map fun t => (field.1,t) := by
  induction fields with
  | nil => rfl
  | cons field rest ih =>
    obtain ⟨name,s⟩ := field
    rw [filterMap_cons,← ih]
    cases s <;> rfl

lemma entries_congruent (leftSorted : f.Sorted) (rightSorted : g.Sorted)
    (related : ∀ name, Option.Rel SameEntry (f.get? name) (g.get? name)) : entries f = entries g := by
  rw [entries_treated,entries_treated]
  refine ext (sorted_treated (fun _ s => some (formEntry s)) leftSorted)
    (sorted_treated (fun _ s => some (formEntry s)) rightSorted) fun name => ?_
  rw [get?_treated (fun _ s => some (formEntry s)) leftSorted,get?_treated (fun _ s => some (formEntry s)) rightSorted]
  have here := related name
  generalize f.get? name = v at here
  generalize g.get? name = w at here
  cases here with
  | some same => exact congrArg some same
  | none => rfl

lemma form_congruent (lSorted : f.Sorted) (rSorted : g.Sorted) (congruent : CongruentFields f g) :
    form (.obj f) = form (.obj g) := by
  have same : keywords f = keywords g := by
    rw [keywords_treated,keywords_treated]
    refine ext (sorted_treated _ lSorted) (sorted_treated _ rSorted) fun key => ?_
    rw [get?_treated _ lSorted,get?_treated _ rSorted]
    have here := congruent key
    generalize f.get? key = v at here
    generalize g.get? key = w at here
    cases here with
    | some same => exact same.form
    | none => rfl
  rw [form_obj,form_obj,same]
end Canonical
namespace CongruentFields
variable {f g : Fields}
lemma mem_typeNames (congruent : Congruent "type" v w) (name : String) : name ∈ typeNames v ↔ name ∈ typeNames w := by
  have form : some (strings (sortNames (typeNames v))) = some (.strings (sortNames (typeNames w))) := congruent.form
  have same : sortNames (typeNames v) = sortNames (typeNames w) := by
    have listed := congrArg listedStrings (Option.some.inj form)
    rwa [listedStrings_strings,listedStrings_strings] at listed
  rw [← mem_sortNames,same,mem_sortNames]

lemma fitsType_congr (here : Option.Rel (Congruent "type") (f.get? "type") (g.get? "type")) (v : Json) :
    Intersection.fitsType f v = Intersection.fitsType g v := by
  unfold Intersection.fitsType
  generalize f.get? "type" = s at here
  generalize g.get? "type" = t at here
  cases here with
  | some same => exact any_same (mem_typeNames same)
  | none => rfl

lemma typeConfined_congr (here : Option.Rel (Congruent "type") (f.get? "type") (g.get? "type")) (kind : String) :
    typeConfined f kind = typeConfined g kind := by
  unfold typeConfined
  generalize f.get? "type" = s at here
  generalize g.get? "type" = t at here
  cases here with
  | some same =>
    have empty (l : List String) : (!l.isEmpty) = l.any fun _ => true := by cases l <;> rfl
    dsimp only
    rw [empty,empty,any_same (mem_typeNames same),all_same (mem_typeNames same)]
  | none => rfl
section
variable (congruent : CongruentFields f g)
include congruent
lemma fitsType_eq (v : Json) : Intersection.fitsType f v = Intersection.fitsType g v :=
  fitsType_congr (congruent "type") v

lemma get?_bound (bounded : shape key ∈ [.lowerBound,.upperBound]) : f.get? key = g.get? key := by
  have here := congruent key
  generalize f.get? key = s at here
  generalize g.get? key = t at here
  cases here with
  | some same => rw [same.bound bounded]
  | none => rfl

lemma erase (lSorted : f.Sorted) (rSorted : g.Sorted) (key : String) : CongruentFields (f.erase key) (g.erase key) := by
  intro other
  rw [get?_erase lSorted,get?_erase rSorted]
  split
  · exact .none
  · exact congruent other

-- What is dropped depends on the bounds alone.
lemma fold (lSorted : f.Sorted) (rSorted : g.Sorted) : CongruentFields (fold f) (fold g) := by
  have dropped {side soft strict} {f g} (softBound : shape soft ∈ [.lowerBound,.upperBound])
      (strictBound : shape strict ∈ [.lowerBound,.upperBound]) (lSorted : f.Sorted) (rSorted : g.Sorted)
      (congruent : CongruentFields f g) : CongruentFields (dropImplied side soft strict f)
      (dropImplied side soft strict g) := by
    unfold dropImplied value?
    rw [congruent.get?_bound softBound,congruent.get?_bound strictBound]
    split
    · split
      · exact congruent.erase lSorted rSorted strict
      · exact congruent.erase lSorted rSorted soft
    · exact congruent
  exact dropped (by decide) (by decide) (sorted_dropImplied lSorted) (sorted_dropImplied rSorted)
    (dropped (by decide) (by decide) lSorted rSorted congruent)
end
lemma checkBounds_congr (bounds : ∀ key, shape key ∈ [.lowerBound,.upperBound] → f.get? key = g.get? key)
    (types : Option.Rel (Congruent "type") (f.get? "type") (g.get? "type")) :
    Intersection.checkBounds f path = .ok () ↔ Intersection.checkBounds g path = .ok () := by
  have empties p (mem : p ∈ pairs) : p.empties f = p.empties g := by
    have bounded : shape p.lower ∈ [.lowerBound,.upperBound] ∧ shape p.upper ∈ [.lowerBound,.upperBound] := by
      revert p
      decide
    unfold Pair.empties value?
    rw [bounds _ bounded.1,bounds _ bounded.2]
    split
    · rw [typeConfined_congr types]
    · rfl
  unfold Intersection.checkBounds
  rw [← find?_congr empties]
  split
  · exact ⟨nofun,nofun⟩
  · exact Iff.rfl

lemma checkBounds (congruent : CongruentFields f g) (passed : Intersection.checkBounds f path = .ok ()) :
    Intersection.checkBounds g path = .ok () :=
  (checkBounds_congr (fun _ bounded => congruent.get?_bound bounded) (congruent "type")).mp passed
end CongruentFields
namespace Intersection
variable {fs out f g : Fields} {path : String}
def keptMembers (fs : Fields) (ms : List Json) : List Json :=
  ms.filter fun v => fitsType fs v && (fs.get? "const").all fun c => v.deepEqual c

structure Reconciled (fs out : Fields) : Prop where
  sorted : fs.Sorted → out.Sorted
  constant : ∀ c, fs.get? "const" = some c → fitsType fs c
  other : ∀ key, key ≠ "enum" → out.get? key = fs.get? key
  none : fs.get? "enum" = none → out.get? "enum" = none
  some : ∀ ms, fs.get? "enum" = some (.arr ms) →
    keptMembers fs ms ≠ [] ∧ out.get? "enum" = some (.arr (keptMembers fs ms))

lemma reconciled_of_ok (made : reconcileValues fs path = .ok out) : Reconciled fs out := by
  have other := fun key (apart : key ≠ "enum") => get?_reconcileValues made apart
  unfold reconcileValues at made
  dsimp only at made
  split at made
  · cases made
  next fitting =>
  have constant c (found : fs.get? "const" = some c) : fitsType fs c := by
    rw [found] at fitting
    simpa [filter] using fitting
  split at made
  · next ms found =>
    split at made
    · split at made <;> cases made
    next remain =>
    have kept : keptMembers fs ms ≠ [] := fun none => remain (isEmpty_iff.mpr none)
    split at made
    · next all =>
      cases made
      refine ⟨id,constant,other,fun absent => absent,fun own is => ?_⟩
      obtain rfl : ms = own := by rw [found] at is; cases is; rfl
      refine ⟨kept,found.trans (congrArg (fun l => some (arr l)) ?_)⟩
      exact (filter_sublist.eq_of_length all).symm
    cases made
    refine ⟨sorted_put,constant,other,fun absent => ?_,fun own is => ?_⟩
    · rw [found] at absent
      cases absent
    obtain rfl : ms = own := by rw [found] at is; cases is; rfl
    exact ⟨kept,get?_put_self _ _ _⟩
  · next unlisted =>
    cases made
    exact ⟨id,constant,other,id,fun own is => absurd is (unlisted own)⟩

lemma ok_of_reconcilable (constant : ∀ c, fs.get? "const" = some c → fitsType fs c)
    (kept : ∀ ms, fs.get? "enum" = some (.arr ms) → keptMembers fs ms ≠ []) (path : String) :
    ∃ out, reconcileValues fs path = .ok out := by
  unfold reconcileValues
  dsimp only
  split
  · next c misfit =>
    obtain ⟨found,outside⟩ := Option.filter_eq_some_iff.mp misfit
    rw [constant c found] at outside
    cases outside
  split
  · next ms found =>
    split
    · next none => exact absurd (isEmpty_iff.mp none) (kept ms found)
    · split <;> exact ⟨_,rfl⟩
  · exact ⟨_,rfl⟩

lemma Reconciled.combinable (reconciled : Reconciled fs out) (combinable : Combinable fs) : Combinable out := by
  refine ⟨reconciled.sorted combinable.sorted,fun key s found => ?_⟩
  by_cases listed : key = "enum"
  · subst listed
    cases held : fs.get? "enum" with
    | none => rw [reconciled.none held] at found; cases found
    | some t =>
      obtain ⟨ms,rfl,exacts⟩ := combinable.enum held
      rw [(reconciled.some ms held).2] at found
      cases found
      refine unites_formed (by decide) (by decide) (by decide) (formed_enum.mpr fun v mem => ?_)
      exact exacts v (mem_filter.mp mem).1
  · rw [reconciled.other key listed] at found
    exact combinable.each key s found
end Intersection
namespace CongruentFields
open Intersection
variable {f g : Fields} {path : String}
lemma const_eq (congruent : CongruentFields f g) (left : Combinable f) (right : Combinable g) :
    f.get? "const" = g.get? "const" := by
  have here := congruent "const"
  generalize atL : f.get? "const" = v at here
  generalize atR : g.get? "const" = w at here
  cases here with
  | @some v w same =>
    have form : some (value v) = some (value w) := same.form
    rw [value_orderly (orderly_of_exact (left.exact atL)),value_orderly (orderly_of_exact (right.exact atR))] at form
    exact form
  | none => rfl

lemma formKeyword_enum (exacts : ∀ v ∈ ms, v.isExact) : formKeyword "enum" (.arr ms) = some (.arr (sortSet ms)) := by
  have values := valueItems_orderly fun v mem => orderly_of_exact (exacts v mem)
  exact congrArg (fun l => some (arr (sortSet l))) values

lemma mem_enum (congruent : Congruent "enum" (.arr ls) (.arr rs)) (lefts : ∀ v ∈ ls, v.isExact)
    (rights : ∀ v ∈ rs, v.isExact) (v : Json) : v ∈ ls ↔ v ∈ rs := by
  have form := congruent.form
  rw [formKeyword_enum lefts,formKeyword_enum rights] at form
  have same : sortSet ls = sortSet rs := arr.inj (Option.some.inj form)
  rw [← mem_sortSet,same,mem_sortSet]

lemma congruent_enum (lefts : ∀ v ∈ ls, v.isExact) (rights : ∀ v ∈ rs, v.isExact)
    (same : ∀ v, v ∈ ls ↔ v ∈ rs) : Congruent "enum" (.arr ls) (.arr rs) := by
  refine .of_form (by decide) ?_
  rw [formKeyword_enum lefts,formKeyword_enum rights]
  exact congrArg (fun l => some (arr l)) (sortSet_congr same)
section
variable (congruent : CongruentFields f g) (left : Combinable f) (right : Combinable g)
include congruent left right
lemma mem_keptMembers (same : ∀ v, v ∈ ls ↔ v ∈ rs) (v : Json) : v ∈ keptMembers f ls ↔ v ∈ keptMembers g rs := by
  unfold keptMembers
  rw [mem_filter,mem_filter,same,congruent.fitsType_eq,congruent.const_eq left right]

lemma enums (atR : g.get? "enum" = some (.arr rs)) : ∃ ls, f.get? "enum" = some (.arr ls) ∧ ∀ v, v ∈ ls ↔ v ∈ rs := by
  have here := congruent "enum"
  rw [atR] at here
  cases atL : f.get? "enum" with
  | none => rw [atL] at here; cases here
  | some s =>
    obtain ⟨ls,rfl,lefts⟩ := left.enum atL
    obtain ⟨_,is,rights⟩ := right.enum atR
    cases is
    rw [atL] at here
    cases here with
    | some same => exact ⟨ls,rfl,mem_enum same lefts rights⟩

lemma reconciled
    (made : reconcileValues f path = .ok out) : ∃ other, reconcileValues g path = .ok other ∧ CongruentFields out other := by
  have here := reconciled_of_ok made
  obtain ⟨other,there⟩ : ∃ other, reconcileValues g path = .ok other := by
    refine ok_of_reconcilable (fun c found => ?_) (fun rs found none => ?_) path
    · rw [← congruent.fitsType_eq]
      exact here.constant c ((congruent.const_eq left right).trans found)
    obtain ⟨ls,atL,same⟩ := congruent.enums left right found
    refine (here.some ls atL).1 (eq_nil_iff_forall_not_mem.mpr fun v mem => ?_)
    rw [congruent.mem_keptMembers left right same,none] at mem
    cases mem
  refine ⟨other,there,fun key => ?_⟩
  have there := reconciled_of_ok there
  by_cases listed : key = "enum"
  · subst listed
    cases atR : g.get? "enum" with
    | none =>
      have absent := congruent "enum"
      rw [atR] at absent
      have atL : f.get? "enum" = none := by
        generalize f.get? "enum" = v at absent
        cases absent
        rfl
      rw [here.none atL,there.none atR]
      exact .none
    | some t =>
      obtain ⟨rs,rfl,rights⟩ := right.enum atR
      obtain ⟨ls,atL,same⟩ := congruent.enums left right atR
      obtain ⟨_,is,lefts⟩ := left.enum atL
      cases is
      rw [(here.some ls atL).2,(there.some rs atR).2]
      refine .some (congruent_enum ?_ ?_ (congruent.mem_keptMembers left right same))
      · exact fun v mem => lefts v (mem_filter.mp mem).1
      · exact fun v mem => rights v (mem_filter.mp mem).1
  · rw [here.other key listed,there.other key listed]
    exact congruent key
end
end CongruentFields
end SchemaOrder
