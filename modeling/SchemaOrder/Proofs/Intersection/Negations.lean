import SchemaOrder.Containment
import SchemaOrder.Memory
import SchemaOrder.Proofs.Equivalence
import SchemaOrder.Proofs.Intersection.Singles
import SchemaOrder.Proofs.Positions
namespace SchemaOrder
open Acceptance List Fields Json Engine Option Intersection SchemaOrder.Normal SchemaOrder.Bound Canonical
variable {trivial : Json → Prop}
namespace Engine
-- The intersection of two negations.
def Excludes (holder other : Fields) : Prop :=
  ∃ c, holder.get? "const" = some c ∧
    ((∃ d, other.get? "const" = some d ∧ c.deepEqual d = false) ∨
      ∃ ms, other.get? "enum" = some (.arr ms) ∧ c.among ms = false)

inductive Clashes : Json → Json → Prop where
  | here {left right : Fields} (excludes : Excludes left right ∨ Excludes right left) : Clashes (.obj left) (.obj right)
  | deeper {left right : Fields} {path : String} {p : Paired} (shared : p ∈ pairedPositions left right path .constants)
      (clash : Clashes p.left p.right) : Clashes (.obj left) (.obj right)
section Search
variable {left right : Fields} {a b : Json}
lemma constantAgainst_isSome (path : String) : (constantAgainst left right path).isSome ↔ Excludes left right := by
  unfold constantAgainst Excludes
  cases left.get? "const" with
  | none => simp
  | some c =>
    cases right.get? "const" with
    | none =>
      cases right.get? "enum" with
      | none => simp
      | some ms => cases ms <;> simp
    | some d =>
      cases equal : c.deepEqual d with
      | false => simp [Option.filter,equal]
      | true =>
        cases right.get? "enum" with
        | none => simp [Option.filter,equal]
        | some ms => cases ms <;> simp [Option.filter,equal]

lemma exists_shared_path (shared : p ∈ pairedPositions left right path walk)
    (path' : String) : ∃ q ∈ pairedPositions left right path' walk, p.Same q := by
  have same := pairedPositions_path left right path path' walk
  generalize pairedPositions left right path walk = ps at same shared
  generalize pairedPositions left right path' walk = qs at same
  induction same with
  | nil => cases shared
  | cons first _ ih =>
    rcases mem_cons.mp shared with rfl | later
    · exact ⟨_,.head _,first⟩
    obtain ⟨q,inside,alike⟩ := ih later
    exact ⟨q,.tail _ inside,alike⟩

lemma constantConflict_isSome {depth : Nat} (enough : a.depth ≤ depth) (path : String) :
    (constantConflict depth a b path).isSome ↔ Clashes a b := by
  induction depth generalizing a b path with
  | zero =>
    refine ⟨nofun,fun clash => ?_⟩
    cases clash <;> cases enough
  | succ depth ih =>
    cases a with
    | obj l =>
      cases b with
      | obj r =>
        rw [constantConflict,isSome_or,isSome_or,Bool.or_eq_true,Bool.or_eq_true,constantAgainst_isSome,
          constantAgainst_isSome,findSome?_isSome_iff]
        have below : ∀ {p}, p ∈ pairedPositions l r path .constants → ∀ path',
            ((constantConflict depth p.left p.right path').isSome ↔ Clashes p.left p.right) := fun shared path' =>
          ih (Nat.le_of_lt_succ (lt_of_lt_of_le (Paired.depth_left shared) enough)) path'
        constructor
        · rintro (excludes | excludes | ⟨p,shared,found⟩)
          · exact .here (.inl excludes)
          · exact .here (.inr excludes)
          · exact .deeper shared ((below shared _).mp found)
        intro clash
        cases clash with
        | here excludes =>
          rcases excludes with excludes | excludes
          · exact .inl excludes
          · exact .inr (.inl excludes)
        | deeper shared clash =>
          obtain ⟨q,inside,same⟩ := exists_shared_path shared path
          rw [same.left,same.right] at clash
          exact .inr (.inr ⟨q,inside,(below inside _).mpr clash⟩)
      | _ => exact ⟨nofun,nofun⟩
    | _ => exact ⟨nofun,nofun⟩

instance (a b : Json) : Decidable (Clashes a b) :=
  decidable_of_iff _ (constantConflict_isSome (le_refl a.depth) "")

-- Negations have nothing to compare but what they negate.
lemma clashes_negations : Clashes (.single "not" a) (.single "not" b) ↔ Clashes a b := by
  have shared : ∀ path, pairedPositions [("not",a)] [("not",b)] path .constants =
      [⟨.single "not",a,b,joinPath path "not"⟩] := fun _ => rfl
  constructor
  · intro clash
    cases clash with
    | here excludes => rcases excludes with ⟨_,found,_⟩ | ⟨_,found,_⟩ <;> cases found
    | deeper inside clash =>
      rw [shared,mem_singleton] at inside
      rw [inside] at clash
      exact clash
  · exact .deeper (p := ⟨.single "not",a,b,joinPath "" "not"⟩) (by exact mem_singleton.mpr rfl)
end Search
end Engine
namespace Canonical
section Trivial
variable {ts : Texts} {fs : Fields} {key : String} {s v : Json}
lemma fold_eq_nil (empty : fold fs = []) : fs = [] := by
  have dropped {side soft strict} {fs} (other : soft ≠ strict)
      (empty : dropImplied side soft strict fs = []) : fs = [] := by
    unfold dropImplied at empty
    -- Of two bounds one stays.
    have stays : ∀ {name kept} {x}, name ≠ kept → value? fs kept = some x → fs.erase name ≠ [] := by
      intro name kept x ne found none
      unfold value? at found
      rw [← get?_erase_other ne,none] at found
      cases found
    split at empty
    · next soft strict =>
      split at empty
      · exact absurd empty (stays other.symm soft)
      · exact absurd empty (stays other strict)
    · exact empty
  exact dropped (by decide) (dropped (by decide) empty)

lemma closeObject_eq_nil (empty : closeObject fs = []) : fs = [] := by
  rcases closeObject_cases fs with same | ⟨declared,extra,_,_,⟨closed,_⟩ | ⟨closed,_⟩⟩
  · rw [← same,empty]
  · rw [← get?_erase_other (show "properties" ≠ _ by decide),← closed,empty] at extra
    cases extra
  · rw [← get?_put_other (show "properties" ≠ _ by decide),← closed,empty] at extra
    cases extra

lemma dropped_of_keywords (empty : keywords fs = []) : ∀ field ∈ fs, formKeyword field.1 field.2 = none := by
  induction fs with
  | nil => exact nofun
  | cons field rest ih =>
    rw [keywords_cons] at empty
    split at empty
    · cases empty
    · next dropped => exact forall_mem_cons.mpr ⟨dropped,ih empty⟩

inductive Idle (trivial : Json → Prop) (key : String) (s : Json) : Prop where
  | inert (inert : isInert key s)
  | unasked (name : key = "required") (nobody : s.listedStrings = [])
  | trivial (name : key ∈ ["additionalProperties","additionalItems","propertyNames","items"]) (trivial : trivial s)
  | empty (shape : Keyword.shape key ∈ [.schemaMap,.dependencies]) (empty : s.fields?.getD [] = [])

lemma trivial_of_unless (dropped : unlessTrivial s = none) : s = .emptyObj := by
  unfold unlessTrivial at dropped
  split at dropped
  · next trivial => exact isEmptyObj_iff.mp trivial
  · cases dropped

lemma idle_of_dropped (dropped : formKeyword key s = none) : Idle (form · = .emptyObj) key s := by
  have treats := treats key s
  unfold formKeyword at dropped
  generalize treatment key s = treatment at treats dropped
  have noEntries {members} (dropped : unlessEmpty (entries members) = none) : members = [] := by
    cases members with
    | nil => rfl
    | cons entry rest =>
      obtain ⟨name,t⟩ := entry
      cases t <;> cases dropped
  cases treats with
  | drop inert => exact .inert inert
  | nameSet name =>
    refine .unasked name ?_
    dsimp only at dropped
    split at dropped
    · next none =>
      refine eq_nil_iff_forall_not_mem.mpr fun listed member => ?_
      rw [← mem_sortNames,none] at member
      cases member
    · cases dropped
  | optionalForm name =>
    refine .trivial ?_ (trivial_of_unless dropped)
    simp only [mem_cons,not_mem_nil,or_false] at name ⊢
    rcases name with name | name | name <;> simp [name]
  | items name =>
    subst name
    cases s with
    | arr tuple => cases dropped
    | _ => exact .trivial (by decide) (trivial_of_unless dropped)
  | formSet => cases s <;> cases dropped
  | entries shape | dependencies shape =>
    refine .empty (by rw [shape]; decide) ?_
    cases s with
    | obj members => exact noEntries dropped
    | _ => rfl
  | _ => cases dropped

lemma Idle.mono {narrow wide : Json → Prop} (idle : Idle narrow key s) (implied : narrow s → wide s) : Idle wide key s := by
  cases idle with
  | inert inert => exact .inert inert
  | unasked name nobody => exact .unasked name nobody
  | trivial name trivial => exact .trivial name (implied trivial)
  | empty shape empty => exact .empty shape empty

-- Normalizing sub-schemas keeps a keyword idle or not.
lemma Idle.of_map {f : Json → Json} (idle : Idle trivial key (mapKeyword f key s))
    (single : trivial (.arr (s.itemsOrNone.map f)) → False) : Idle (fun t => trivial (f t)) key s := by
  cases idle with
  | inert inert => exact .inert (isInert_map f key s ▸ inert)
  | unasked name nobody => subst name; exact .unasked rfl nobody
  | trivial name trivial =>
    refine .trivial name ?_
    fin_cases name
    · exact trivial
    · exact trivial
    · exact trivial
    cases s with
    | arr tuple => exact (single trivial).elim
    | _ => exact trivial
  | empty shape empty =>
    refine .empty shape ?_
    simp only [mem_cons,not_mem_nil,or_false] at shape
    cases s with
    | obj es =>
      unfold mapKeyword at empty
      rcases shape with shape | shape <;> rw [shape] at empty <;> exact map_eq_nil_iff.mp empty
    | _ => rfl

lemma Idle.holds (idle : Idle (fun t => ∀ x, t.accepts ts x) key s) : keywordHolds ts (accepts ts) key s v := by
  cases idle with
  | inert inert => exact inert_holds inert
  | unasked name nobody =>
    subst name
    change (v.fields?.all fun ms => s.listedStrings.all ms.has)
    rw [nobody]
    cases v <;> rfl
  | trivial name trivial =>
    fin_cases name
    · rfl
    · rfl
    · cases v with
      | obj ms => exact all_eq_true.mpr fun mem _ => trivial _
      | _ => rfl
    · rfl
  | empty shape empty =>
    simp only [mem_cons,not_mem_nil,or_false] at shape
    rcases shape with shape | shape
    · have name := Keyword.shape_schemaMap shape
      fin_cases name <;> rfl
    obtain rfl := Keyword.shape_dependencies shape
    change (v.fields?.all fun ms => (s.fields?.getD []).all fun entry =>
      !ms.has entry.1 || dependencyHolds (accepts ts) ms entry.2)
    rw [empty]
    cases v <;> rfl

lemma Idle.trivially (idle : Idle trivial key s)
    (name : key ∈ ["additionalProperties","additionalItems","propertyNames","items"]) : trivial s := by
  simp only [mem_cons,not_mem_nil,or_false] at name
  cases idle with
  | trivial _ trivial => exact trivial
  | inert inert => rcases name with rfl | rfl | rfl | rfl <;> cases inert
  | unasked required => rcases name with rfl | rfl | rfl | rfl <;> exact absurd required (by decide)
  | empty shape => rcases name with rfl | rfl | rfl | rfl <;> exact absurd shape (by decide)

lemma Idle.entries (idle : Idle trivial key s) (name : key ∈ ["properties","patternProperties"]) :
    s.fields?.getD [] = [] := by
  simp only [mem_cons,not_mem_nil,or_false] at name
  cases idle with
  | empty _ empty => exact empty
  | inert inert => rcases name with rfl | rfl <;> cases inert
  | unasked required => rcases name with rfl | rfl <;> exact absurd required (by decide)
  | trivial schema => rcases name with rfl | rfl <;> exact absurd schema (by decide)

lemma Idle.unconditional : ¬ Idle trivial "if" s := by
  intro idle
  cases idle with
  | inert inert => cases inert
  | unasked required => exact absurd required (by decide)
  | trivial schema => exact absurd schema (by decide)
  | empty shape => exact absurd shape (by decide)

lemma accepts_of_idle (idle : ∀ field ∈ fs, Idle (fun t => ∀ x, t.accepts ts x) field.1 field.2) (v : Json) :
    (obj fs).accepts ts v := by
  have found : ∀ {key s}, fs.get? key = some s → Idle (fun t => ∀ x, t.accepts ts x) key s :=
    fun found => idle _ (mem_of_get? found)
  have es {key} (name : key ∈ ["properties","patternProperties"]) : ((fs.get? key).bind fields?).getD [] = [] := by
    cases atKey : fs.get? key with
    | none => rfl
    | some s => exact (found atKey).entries name
  have members : membersHold ts (accepts ts) fs v := by
    refine membersHold_iff.mpr fun _ _ name x _ rule inside => ?_
    have none : ((declared fs).get? name).toList ++ matching ts fs name = [] := by
      unfold declared matching
      rw [es (by decide),es (by decide)]
      rfl
    unfold memberRules at inside
    rw [none] at inside
    exact (found (mem_toList.mp inside)).trivially (by decide) x
  have items : itemsHold (accepts ts) fs v := by
    refine itemsHold_iff.mpr fun _ _ i x _ rule governs => ?_
    unfold itemRule? at governs
    cases atItems : fs.get? "items" with
    | none => rw [atItems] at governs; cases governs
    | some s =>
      have acc := (found atItems).trivially (by decide)
      rw [atItems,entryRule?_some] at governs
      · cases governs
        exact acc x
      cases s with
      | arr tuple =>
        have absurd := acc .null
        cases absurd
      | _ => rfl
  have condition : conditionHolds (accepts ts) fs v := by
    unfold conditionHolds
    cases atIf : fs.get? "if" with
    | none => rfl
    | some s => exact (Idle.unconditional (found atIf)).elim
  have keywords : (fs.all fun field => keywordHolds ts (accepts ts) field.1 field.2 v) :=
    all_eq_true.mpr fun field mem => (idle field mem).holds
  rw [accepts_eq]
  change (_ && _ && _ && _)
  rw [keywords,members,items,condition]
  rfl

lemma settle_of_constless (absent : (settle fs).get? "const" = none) : settle fs = fs := by
  rw [const_settle] at absent
  have collapsed : collapseEnum fs = fs := by
    unfold collapseEnum at absent ⊢
    split
    · next none one =>
      rw [none,one] at absent
      rw [get?_put_self] at absent
      cases absent
    · rfl
  have several := several_collapseEnum absent
  rw [collapsed] at absent several
  refine settle_of_settled ⟨fun _ => several,fun c _ given => ?_,fun c given => ?_⟩
  · rw [absent] at given
    cases given
  rw [absent] at given
  cases given

lemma accepts_of_form_normalize (trivial : form s.normalize = .emptyObj) : ∀ v, s.accepts ts v := by
  induction s using byDepth with
  | step s ih =>
    cases s with
    | obj fs =>
      rw [Schemas.normalize_obj] at trivial
      have dropped := dropped_of_keywords (fold_eq_nil (closeObject_eq_nil (obj.inj trivial)))
      have constless : (settle (mapFields normalize fs)).get? "const" = none := by
        cases found : (settle (mapFields normalize fs)).get? "const" with
        | none => rfl
        | some c => cases dropped _ (mem_of_get? found)
      rw [settle_of_constless constless] at dropped
      refine accepts_of_idle fun field mem => ?_
      have idle := idle_of_dropped (dropped _ (mem_map_of_mem mem))
      exact (idle.of_map nofun).mono (ih field.2 (depth_field mem))
    | bool b => cases b with
      | true => exact accepts_bool ts true
      | false => cases trivial
    | _ => cases trivial
end Trivial
end Canonical
namespace Intersection
section Negations
variable {m : Type → Type} [Monad m] {a b : Json}
def either (a b : Json) : Json :=
  if a.deepEqual b then a else .single "anyOf" (.arr [a,b])

lemma keyword_negations (recur : Step m) (path : String) : keyword recur "not" a b path = pure (either a b,[]) := by
  unfold keyword either
  cases a.deepEqual b <;> rfl
variable [LawfulMonad m]
lemma merge_negations (lookup : Lookup m) :
    merge lookup (.single "not" a) (.single "not" b) = pure (.ok (.single "not" (either a b))) :=
  merge_single (by decide) lookup [] fun recur => keyword_negations recur ""
end Negations
end Intersection
namespace Engine
open Intersection (either)
section Negations
variable {m : Type → Type} [Monad m] [LawfulMonad m] {a b : Json}
lemma depth_negation (a : Json) : (single "not" a).depth = a.depth + 1 := by
  change max a.depth 0 + 1 = _
  rw [max_zero]

-- The searches for formats and for closed objects find nothing to look at.
lemma intersect_negations (e : Engine m) : e.intersect (.single "not" a) (.single "not" b) =
    match constantConflict (a.depth + 1) (.single "not" a) (.single "not" b) "" with
    | some c => pure (.error c)
    | none => e.primitive (.single "not" a) (.single "not" b) := by
  have formats : formatConflict (a.depth + 1) (.single "not" a) (.single "not" b) "" = none := rfl
  have closed : e.closedConflict (a.depth + 1) (.single "not" a) (.single "not" b) "" = pure none := by
    change (pure none >>= fun found : Option Conflict => _) = _
    rw [pure_bind]
    change (pure none >>= fun found : Option Conflict => _) = _
    rw [pure_bind]
    rfl
  unfold intersect
  rw [depth_negation,formats,closed]
  cases constantConflict (a.depth + 1) (.single "not" a) (.single "not" b) "" with
  | some c => rfl
  | none =>
    rw [pure_bind]
end Negations
lemma form_of_unsatisfiable (empty : isUnsatisfiable (.single "not" a)) : form a = .emptyObj := by
  have same : single "not" (form a) = .single "not" .emptyObj := equivalent_iff.mp empty
  exact (Prod.mk.inj (cons.inj (obj.inj same)).1).2

lemma satisfiable_negation {ts : Texts} {n₁ n₂ v : Json} (outside : n₁.accepts ts v = false) :
    isUnsatisfiable (.single "not" (either n₁.normalize n₂.normalize)) = false := by
  refine Bool.eq_false_iff.mpr fun empty => ?_
  have trivial := form_of_unsatisfiable empty
  unfold either at trivial
  split at trivial
  · rw [accepts_of_form_normalize trivial v] at outside
    cases outside
  · cases trivial

lemma normalize_either {n₁ n₂ : Json} (left : n₁.Orderly) (right : n₂.Orderly) :
    (single "not" (either n₁.normalize n₂.normalize)).normalize = .single "not" (either n₁.normalize n₂.normalize) := by
  change single "not" (either n₁.normalize n₂.normalize).normalize = _
  unfold either
  split
  · rw [normalize_normalize left]
  change single "not" (.single "anyOf" (.arr [n₁.normalize.normalize,n₂.normalize.normalize])) = _
  rw [normalize_normalize left,normalize_normalize right]
end Engine
-- Two negations intersect in the negated union, unless constants clash in what they negate. That some value is outside
-- the first schema is all it takes.
theorem intersection_of_negations (settings : Settings) (memory : Memory) (texts : Texts) (n₁ n₂ v : Json)
    (orderly : n₁.Orderly ∧ n₂.Orderly) (outside : n₁.accepts texts v = false) :
    let engine : Engine (StateM Memory) := Memory.engine settings
    (engine.intersection? (.single "not" n₁) (.single "not" n₂)).run memory =
      (if Engine.Clashes n₁.normalize n₂.normalize then none
        else some (.single "not" (Intersection.either n₁.normalize n₂.normalize)),memory) := by
  intro engine
  have negated : ∀ n : Json, (Json.single "not" n).normalize = .single "not" n.normalize := fun _ => rfl
  have searched := Engine.constantConflict_isSome (b := .single "not" n₂.normalize)
    (Nat.le_of_eq (Engine.depth_negation n₁.normalize)) ""
  rw [Engine.clashes_negations] at searched
  unfold Engine.intersection? Engine.intersect?
  rw [negated,negated,Engine.intersect_negations]
  split
  · next c clash =>
    rw [clash] at searched
    rw [if_pos (searched.mp rfl)]
    rfl
  · next clear =>
    rw [clear] at searched
    rw [if_neg fun clash => (nomatch searched.mpr clash)]
    change ((Intersection.merge Memory.matcher _ _ >>= _) >>= _ : StateM Memory (Option Json)).run memory = _
    rw [Intersection.merge_negations,pure_bind]
    change (Option.filter (!Engine.isUnsatisfiable ·)
      (some (Json.single "not" (Intersection.either n₁.normalize n₂.normalize)).normalize),memory) = _
    rw [Engine.normalize_either orderly.1 orderly.2,Option.filter_some,Engine.satisfiable_negation outside]
    rfl

def sizedBox : Json :=
  .obj [("properties",.single "kind" (.single "const" (.digit 1))),("required",.strings ["kind","size"])]

def namedBox : Json :=
  .obj [("properties",.single "kind" (.single "enum" (.arr [.digit 2,.digit 1]))),("required",.strings ["kind","name"])]

theorem intersection_of_negations_boxes : let texts : Texts := ⟨fun _ _ => true,fun _ _ => true⟩
    let box := Json.single "kind" (.digit 1)
    sizedBox.accepts texts box = false ∧ namedBox.accepts texts box = false ∧
      ∀ (settings : Settings) (memory : Memory),
        let engine : Engine (StateM Memory) := Memory.engine settings
        (engine.intersection? (.single "not" sizedBox) (.single "not" namedBox)).run memory =
          (some (.single "not" (.single "anyOf" (.arr [sizedBox.normalize,namedBox.normalize]))),memory) := by
  intro texts box
  have unsized : sizedBox.accepts texts box = false := by decide +kernel
  have unnamed : namedBox.accepts texts box = false := by decide +kernel
  refine ⟨unsized,unnamed,fun settings memory => ?_⟩
  have clear : ¬ Engine.Clashes sizedBox.normalize namedBox.normalize := by decide +kernel
  have apart : Intersection.either sizedBox.normalize namedBox.normalize =
      .single "anyOf" (.arr [sizedBox.normalize,namedBox.normalize]) := if_neg (by decide +kernel)
  have found := intersection_of_negations settings memory texts sizedBox namedBox box ⟨by decide,by decide⟩ unsized
  rw [if_neg clear,apart] at found
  exact found

theorem negated_constants_do_not_intersect : let texts : Texts := ⟨fun _ _ => true,fun _ _ => true⟩
    let one := Json.single "const" (.digit 1)
    let two := Json.single "const" (.digit 2)
    let engine : Engine (StateM Memory) := Memory.engine {}
    one.accepts texts (.digit 3) = false ∧ two.accepts texts (.digit 3) = false ∧
      ((engine.intersection? (.single "not" one) (.single "not" two)).run {}).1 = none := by
  decide +kernel
end SchemaOrder
