import SchemaOrder.Proofs.Comparison
-- Every rewriting leaves what it has made alone, and no later one makes room for an earlier one.
namespace SchemaOrder
open List Fields Json SchemaOrder.Bound
-- The integers, among them those that only a double holds, and all numbers that no count lies below.
def Num.isIntegerOrNonpositive (n : Num) : Bool :=
  n.isInteger || decide (n.toFloat ≤ 0.0)
namespace Canonical
section Sorting
variable {α : Type} {key : α → String} {a : α} {l : List α}
lemma sortBy_sorted (sorted : l.Pairwise fun b c => key b < key c) : sortBy key l = l := by
  induction l with
  | nil => rfl
  | cons a rest ih =>
    obtain ⟨least,tail⟩ := pairwise_cons.mp sorted
    rw [sortBy,ih tail]
    cases rest with
    | nil => rfl
    | cons b rest =>
      have above : ¬ key b < key a := fun below => lt_irrefl _ (lt_trans below (least b mem_cons_self))
      rw [insertBy,if_neg above]

lemma dropRepeats_sorted (sorted : (a :: l).Pairwise fun b c => key b < key c) : dropRepeats key (key a) l = l := by
  induction l generalizing a with
  | nil => rfl
  | cons b rest ih =>
    obtain ⟨least,tail⟩ := pairwise_cons.mp sorted
    have apart : key b ≠ key a := fun same => lt_irrefl _ (same ▸ least b mem_cons_self)
    rw [dropRepeats,if_neg apart,ih tail]

lemma dedup_sorted (sorted : l.Pairwise fun b c => key b < key c) : dedup key l = l := by
  cases l with
  | nil => rfl
  | cons a rest => rw [dedup,dropRepeats_sorted sorted]
end Sorting
lemma sortNames_sortNames (ns : List String) : sortNames (sortNames ns) = sortNames ns :=
  sortNames_congr fun _ => mem_sortNames

lemma sortSet_sortSet (ms : List Json) : sortSet (sortSet ms) = sortSet ms := by
  have sorted : ((sortSet ms).map fun v => (v.text,v)).Pairwise fun p q => p.1 < q.1 :=
    pairwise_map.mpr (sorted_sortSet ms)
  rw [sortSet,sortBy_sorted sorted,dedup_sorted sorted,map_map]
  exact map_id' _

lemma sortSet_fixed {f : Json → Json} {l : List Json} (fixed : ∀ v ∈ l, f (f v) = f v) :
    sortSet ((sortSet (l.map f)).map f) = sortSet (l.map f) := by
  have same : (sortSet (l.map f)).map f = sortSet (l.map f) := map_same fun v mem => by
    obtain ⟨w,inside,rfl⟩ := mem_map.mp (mem_sortSet.mp mem)
    exact fixed w inside
  rw [same,sortSet_sortSet]

lemma number_number (n : Num) : number (number n) = number n := by
  have kinds : (∃ w, number n = .whole w) ∨ number n = n := by
    cases n with
    | whole w => exact .inr rfl
    | double x =>
      unfold number
      dsimp only
      split
      · split
        · next made =>
          obtain ⟨w,_,rfl⟩ := Option.map_eq_some_iff.mp made
          exact .inl ⟨w,rfl⟩
        · exact .inr rfl
      · exact .inr rfl
  rcases kinds with ⟨w,whole⟩ | same
  · rw [whole]
    rfl
  · rw [same,same]

lemma value_value (v : Json) : value (value v) = value v := by
  induction v using byDepth with
  | step v ih =>
    cases v with
    | num n => exact congrArg num (number_number n)
    | arr xs =>
      rw [value,valueItems_eq,value,valueItems_eq,map_map]
      exact congrArg arr (map_congr_left fun v mem => ih v (depth_item mem))
    | obj fs =>
      rw [value,valueFields_eq,value,valueFields_eq,map_map]
      exact congrArg obj (map_congr_left fun field mem => Prod.ext rfl (ih field.2 (depth_field mem)))
    | _ => rfl
section Keywords
variable {key : String} {s t : Json}
def sensitive : List String :=
  ["uniqueItems","minLength","minItems","minProperties"]

lemma inert_other (other : key ∉ sensitive) (s t : Json) : isInert key s = isInert key t := by
  simp only [sensitive,mem_cons,not_mem_nil,or_false,not_or] at other
  unfold isInert
  split
  · exact absurd rfl other.1
  · exact absurd rfl other.2.1
  · exact absurd rfl other.2.2.1
  · exact absurd rfl other.2.2.2
  · rfl

lemma inert_value (ord : s.isOrderly Num.isIntegerOrNonpositive) (active : isInert key s = false) :
    isInert key (value s) = false := by
  -- a count that has an effect is an integer, and integers are not rounded
  have count : isInert "minLength" s = false → isInert "minLength" (value s) = false := by
    intro pos
    cases s with
    | num n =>
      have integer : n.isInteger := by
        rcases Bool.or_eq_true _ _ ▸ ord with integer | least
        · exact integer
        · exact absurd (pos.symm.trans least) (by decide)
      change decide ((number n).toFloat ≤ 0.0) = false
      rw [Num.canonical_integer integer]
      exact pos
    | _ => exact pos
  by_cases special : key ∈ sensitive
  · fin_cases special
    · cases s <;> exact active
    all_goals exact count active
  · exact (inert_other special _ s).trans active

lemma treatment_eq (active : isInert key s = isInert key t) : treatment key s = treatment key t := by
  unfold treatment
  rw [active]

-- Apart from numbers and booleans, the name of a keyword says how it is treated.
lemma treatment_stable (kept : treatment key s ≠ .drop) (nested : treatment key s ≠ .value) :
    treatment key t = treatment key s := by
  by_cases special : key ∈ sensitive
  · refine absurd ?_ nested
    unfold treatment at kept ⊢
    split
    · next inert =>
      rw [if_pos inert] at kept
      exact absurd rfl kept
    · fin_cases special <;> rfl
  · exact treatment_eq (inert_other special t s)

lemma form_single (single : s.isArr = false) : (form s).isArr = false := by
  cases s with
  | arr => cases single
  | obj fs => rfl
  | bool b => cases b <;> rfl
  | _ => rfl

lemma unlessTrivial_same (kept : unlessTrivial s = some t) : unlessTrivial t = some t := by
  rw [← eq_of_unlessTrivial kept] at kept
  exact kept

lemma entries_map (members : Fields) : entries members = mapEntries formEntry members := by
  induction members with
  | nil => rfl
  | cons entry rest ih =>
    obtain ⟨name,s⟩ := entry
    change _ = (name,formEntry s) :: mapEntries formEntry rest
    rw [← ih]
    cases s <;> rfl

lemma formEntry_single (single : s.isArr = false) : formEntry s = form s := by
  cases s with
  | arr => cases single
  | _ => rfl

lemma formEntry_fixed (fixed : form (form s) = form s) : formEntry (formEntry s) = formEntry s := by
  cases single : s.isArr with
  | false => rw [formEntry_single single,formEntry_single (form_single single),fixed]
  | true =>
    cases s with
    | arr list =>
      change arr (sortSet (valueItems (sortSet (valueItems list)))) = _
      rw [valueItems_eq,valueItems_eq,sortSet_fixed fun v _ => value_value v,← valueItems_eq]
      rfl
    | _ => cases single

lemma formKeyword_fixed (orderly : s.isOrderly Num.isIntegerOrNonpositive)
    (each : ∀ u : Json, u.depth ≤ s.depth → u.isOrderly Num.isIntegerOrNonpositive → form (form u) = form u)
    (kept : formKeyword key s = some t) : formKeyword key t = some t := by
  have stable : treatment key t = treatment key s := by
    by_cases dropped : treatment key s = .drop
    · unfold formKeyword at kept
      rw [dropped] at kept
      cases kept
    by_cases plain : treatment key s = .value
    · have active : isInert key s = false := by
        rw [Bool.eq_false_iff]
        intro inert
        exact dropped (if_pos inert)
      unfold formKeyword at kept
      rw [plain] at kept
      cases kept
      exact treatment_eq ((inert_value orderly active).trans active.symm)
    · exact treatment_stable dropped plain
  have own := each s (le_rfl) orderly
  have items : ∀ list, s = .arr list → ∀ v ∈ list, form (form v) = form v := by
    rintro list rfl v member
    exact each v (le_of_lt (depth_item member)) (orderly_item orderly member)
  unfold formKeyword at kept ⊢
  rw [stable]
  generalize treatment key s = treatment at kept
  cases treatment with
  | drop => cases kept
  | typeSet =>
    cases kept
    change some (strings (sortNames (strings _).listedStrings)) = _
    rw [Schemas.listedStrings_strings,sortNames_sortNames]
  | nameSet =>
    cases names : sortNames s.listedStrings with
    | nil =>
      rw [names] at kept
      cases kept
    | cons first rest =>
      rw [names] at kept
      cases kept
      rw [Schemas.listedStrings_strings,← names,sortNames_sortNames,names]
  | valueSet =>
    cases kept
    change some (arr (sortSet (valueItems (sortSet (valueItems s.itemsOrNone))))) = _
    rw [valueItems_eq,valueItems_eq,sortSet_fixed fun v _ => value_value v]
  | optionalForm =>
    have made := eq_of_unlessTrivial kept
    rw [made,own,← made]
    exact unlessTrivial_same kept
  | items =>
    cases single : s.isArr with
    | true =>
      cases s with
      | arr tuple =>
        cases kept
        dsimp only
        rw [forms_eq,forms_eq,map_map]
        exact congrArg (fun l => some (arr l)) (map_congr_left (items tuple rfl))
      | _ => cases single
    | false =>
      have trivially : unlessTrivial (form s) = some t := by
        cases s with
        | arr => cases single
        | _ => exact kept
      have made := eq_of_unlessTrivial trivially
      have notArr : t.isArr = false := made ▸ form_single single
      have again : unlessTrivial (form t) = some t := by
        rw [made,own,← made]
        exact unlessTrivial_same trivially
      cases t with
      | arr => cases notArr
      | _ => exact again
  | form =>
    cases kept
    exact congrArg some own
  | formSet =>
    cases s with
    | arr members =>
      cases kept
      dsimp only
      rw [forms_eq,forms_eq,sortSet_fixed (items members rfl)]
    | _ =>
      cases kept
      rfl
  | entries =>
    cases s with
    | obj members =>
      have made := eq_of_unlessEmpty kept
      have same : entries (entries members) = entries members := by
        rw [entries_map,entries_map]
        unfold mapEntries
        rw [map_map]
        refine map_congr_left fun entry member => Prod.ext rfl (formEntry_fixed ?_)
        exact each entry.2 (le_of_lt (depth_field member)) ((orderly_obj.mp orderly).2 entry member)
      subst made
      dsimp only at kept ⊢
      rw [same]
      exact kept
    | _ => cases kept
  | value =>
    cases kept
    exact congrArg some (value_value s)
end Keywords
def Stable (fs : Fields) : Prop :=
  ∀ field ∈ fs, formKeyword field.1 field.2 = some field.2
section Objects
variable {fs : Fields}
lemma keywords_stable (stable : Stable fs) : keywords fs = fs := by
  rw [keywords_treated]
  induction fs with
  | nil => rfl
  | cons field rest ih =>
    rw [filterMap_cons,stable field mem_cons_self,ih fun later mem => stable later (.tail _ mem)]
    rfl

lemma stable_keywords (ord : (obj fs).isOrderly Num.isIntegerOrNonpositive)
    (each : ∀ u : Json, u.depth < (obj fs).depth → u.isOrderly Num.isIntegerOrNonpositive → form (form u) = form u) :
    Stable (keywords fs) := by
  intro field mem
  rw [keywords_treated] at mem
  obtain ⟨old,inside,made⟩ := mem_filterMap.mp mem
  obtain ⟨t,kept,rfl⟩ := Option.map_eq_some_iff.mp made
  exact formKeyword_fixed ((orderly_obj.mp ord).2 old inside)
    (fun u shallow => each u (lt_of_le_of_lt shallow (depth_field inside))) kept

lemma sorted_keywords (sorted : fs.Sorted) : Sorted (keywords fs) := by
  rw [keywords_treated]
  exact sorted_treated formKeyword sorted

lemma value?_dropImplied (sorted : fs.Sorted) : value? (dropImplied side soft strict fs) soft = none ∨
    value? (dropImplied side soft strict fs) strict = none := by
  have gone key : value? (fs.erase key) key = none := by
    unfold value?
    rw [get?_erase_self sorted]
    rfl
  unfold dropImplied
  cases atSoft : value? fs soft with
  | none => exact .inl atSoft
  | some x =>
    cases atStrict : value? fs strict with
    | none => exact .inr atStrict
    | some y =>
      dsimp only
      split
      · exact .inr (gone strict)
      · exact .inl (gone soft)

lemma dropImplied_same (single : value? fs soft = none ∨ value? fs strict = none) :
    dropImplied side soft strict fs = fs := by
  unfold dropImplied
  rcases single with absent | absent <;> rw [absent]
  cases value? fs soft <;> rfl

lemma fold_closed (sorted : fs.Sorted) : fold (closeObject (fold fs)) = closeObject (fold fs) := by
  have kept key (other : key ≠ "properties") : value? (closeObject (fold fs)) key = value? (fold fs) key := by
    unfold value?
    rw [get?_closeObject other]
  have lower : value? (fold fs) "minimum" = none ∨ value? (fold fs) "exclusiveMinimum" = none := by
    unfold fold value?
    rw [get?_dropImplied (show "maximum" ≠ _ by decide) (by decide),
      get?_dropImplied (show "maximum" ≠ "exclusiveMinimum" by decide) (by decide)]
    exact value?_dropImplied sorted
  have upper : value? (fold fs) "maximum" = none ∨ value? (fold fs) "exclusiveMaximum" = none :=
    value?_dropImplied (sorted_dropImplied sorted)
  rw [← kept _ (by decide),← kept _ (by decide)] at lower upper
  rw [fold,dropImplied_same lower,dropImplied_same upper]

-- Closing an object leaves properties that are allowed, or none.
lemma closeObject_closeObject (sorted : fs.Sorted) : closeObject (closeObject fs) = closeObject fs := by
  rcases closeObject_cases fs with same | ⟨declared,_,_,_,⟨closed,_⟩ | ⟨closed,some⟩⟩
  · rw [same,same]
  · rw [closed]
    rcases closeObject_cases (fs.erase "properties") with same | ⟨_,_,_,found,_⟩
    · exact same
    rw [get?_erase_self sorted] at found
    cases found
  rw [closed]
  have twice : allowedProperties (allowedProperties declared) = allowedProperties declared := by
    unfold allowedProperties
    rw [filter_filter]
    simp only [Bool.and_self]
  have atProperties : (fs.put "properties" (.obj (allowedProperties declared))).get? "properties" =
      .some (.obj (allowedProperties declared)) := get?_put_self _ _ _
  rcases closeObject_cases (fs.put "properties" (.obj (allowedProperties declared))) with
    same | ⟨again,_,_,found,⟨_,none⟩ | ⟨closedAgain,_⟩⟩
  · exact same
  · cases atProperties.symm.trans found
    exact absurd (twice.symm.trans none) some
  · cases atProperties.symm.trans found
    rw [closedAgain,twice,put_same (sorted_put sorted) atProperties]

lemma stable_closeObject (stable : Stable fields) : Stable (closeObject fields) := by
  rcases closeObject_cases fields with same | ⟨declared,_,_,found,⟨closed,_⟩ | ⟨closed,some⟩⟩
  · rwa [same]
  · rw [closed]
    exact fun field member => stable field (mem_erase member)
  rw [closed]
  intro field member
  rcases mem_put member with rfl | old
  · have own := stable _ (mem_of_get? found)
    have fixed : mapEntries formEntry declared = declared.map id :=
      (entries_map declared).symm.trans ((obj.inj (eq_of_unlessEmpty own)).symm.trans (map_id declared).symm)
    have same : entries (allowedProperties declared) = allowedProperties declared := by
      rw [entries_map]
      exact map_same fun entry inside => map_inj_left.mp fixed entry (mem_filter.mp inside).1
    change unlessEmpty (entries (allowedProperties declared)) = _
    rw [same,unlessEmpty,if_neg (by simpa using some)]
  · exact stable field old

-- The keywords of a form are treated already, its bounds are folded and it is closed.
theorem form_form {s : Json} (orderly : s.isOrderly Num.isIntegerOrNonpositive) : form (form s) = form s := by
  induction s using Json.byDepth with
  | step s ih =>
    cases s with
    | bool b => cases b <;> rfl
    | num n => exact congrArg Json.num (number_number n)
    | arr items => exact value_value (.arr items)
    | obj fields =>
      have sorted := sorted_keywords (Json.orderly_obj.mp orderly).1
      have stable : Stable (closeObject (Bound.fold (keywords fields))) :=
        stable_closeObject fun field member => stable_keywords orderly ih field (mem_fold member)
      rw [form_obj,form_obj,keywords_stable stable,fold_closed sorted,closeObject_closeObject (Bound.sorted_fold sorted)]
    | _ => rfl
end Objects
def untidyBox : Json :=
  .obj [("additionalProperties",.bool false),("enum",.arr [.digit 2,.digit 1,.digit 2]),("exclusiveMinimum",.digit 1),
    ("minLength",.num (.double (-0.0))),("minimum",.digit 2),("properties",.single "lid" (.bool false)),("required",.str "lid")]

theorem form_form_untidyBox :
    form untidyBox = .obj [("additionalProperties",nothing),("enum",.arr [.digit 1,.digit 2]),("minimum",.digit 2)] ∧
      form (form untidyBox) = form untidyBox :=
  ⟨by rfl,form_form (by decide +kernel)⟩
end Canonical
end SchemaOrder
