import SchemaOrder.Proofs.CanonicalForm
namespace SchemaOrder
open Acceptance Schemas List Fields Json Vocabulary Replacement SchemaOrder.Bound Canonical Keyword
variable {vocab : Vocabulary}
-- The canonical form keeps the accepted values, and equivalent schemas accept the same ones.
def Vocabulary.inclusive (vocab : Vocabulary) : Vocabulary :=
  { vocab with keywords := vocab.keywords.filter (· != "oneOf") }

lemma Vocabulary.has_inclusive_oneOf (vocab : Vocabulary) : vocab.inclusive.has "oneOf" = false := by
  have outside : (vocab.keywords.filter (· != "oneOf")).contains "oneOf" = false := by simp
  unfold has inclusive
  rw [outside]
  rfl

lemma Vocabulary.has_inclusive {key : String} (other : key ≠ "oneOf") : vocab.inclusive.has key = vocab.has key := by
  have kept : (vocab.keywords.filter (· != "oneOf")).contains key = vocab.keywords.contains key := by
    simp [other]
  unfold has inclusive
  rw [kept]

lemma Vocabulary.allows_inclusive {key : String} (other : key ≠ "oneOf") (s : Json) :
    vocab.inclusive.allows key s = vocab.allows key s := by
  unfold allows
  rw [has_inclusive other]
  rfl

lemma Vocabulary.Canonical.inclusive (canonical : vocab.Canonical) : vocab.inclusive.Canonical where
  not := (has_inclusive (by decide)).trans canonical.not
  describes := canonical.describes
  ungrouped := (has_inclusive (by decide)).trans canonical.ungrouped

-- Comparison looks at texts, and values are told apart by theirs.
lemma compare_eq_iff : compareSchemas a b = .eq ↔ form a = form b := by
  unfold compareSchemas compareText
  constructor
  · intro equal
    split at equal
    · cases equal
    split at equal
    · next same => exact text_injective same
    · cases equal
  · intro same
    rw [same,if_neg (lt_irrefl _),if_pos rfl]

lemma equivalent_iff : equivalent a b ↔ form a = form b := beq_iff_eq.trans compare_eq_iff
namespace Canonical
section Closing
variable {ts : Texts} {vocab : Vocabulary} {good : Json → Bool} {fs closed : Fields}
lemma isNothing_iff : isNothing s ↔ s = nothing := by
  unfold isNothing nothing
  split
  · exact iff_of_true rfl rfl
  · next other => exact iff_of_false (by decide) fun same => other same

lemma accepts_nothing (x : Json) : nothing.accepts ts x = false := by
  rw [Bool.eq_false_iff]
  intro acc
  have holds := (accepts_single (show "not" ∉ grouped by decide)).mp acc
  change (!emptyObj.accepts ts x) at holds
  rw [accepts_emptyObj] at holds
  cases holds

def allowedProperties (declared : Fields) : Fields :=
  declared.filter fun prop => !isNothing prop.2

lemma closeObject_cases (fs : Fields) : closeObject fs = fs ∨
    (∃ declared : Fields, fs.get? "additionalProperties" = some nothing ∧ fs.get? "patternProperties" = none ∧
      fs.get? "properties" = some (.obj declared) ∧
      ((closeObject fs = fs.erase "properties" ∧ allowedProperties declared = []) ∨
        (closeObject fs = fs.put "properties" (.obj (allowedProperties declared)) ∧ allowedProperties declared ≠ []))) := by
  unfold closeObject
  split
  · next extra declared atExtra noPatterns atProperties =>
    split
    · next nothing =>
      rw [isNothing_iff.mp nothing] at atExtra
      refine .inr ⟨declared,atExtra,noPatterns,atProperties,?_⟩
      split
      · next none => exact .inl ⟨rfl,none⟩
      · next kept => exact .inr ⟨rfl,kept⟩
    · exact .inl rfl
  · exact .inl rfl

lemma get?_closeObject (other : key ≠ "properties") (fs : Fields) : (closeObject fs).get? key = fs.get? key := by
  rcases closeObject_cases fs with same | ⟨_,_,_,_,⟨closed,_⟩ | ⟨closed,_⟩⟩
  · rw [same]
  · rw [closed,get?_erase_other (Ne.symm other)]
  · rw [closed,get?_put_other (Ne.symm other)]

structure Closes (fs closed : Fields) : Prop where
  sorted : closed.Sorted
  same : ∀ key, key ≠ "properties" → closed.get? key = fs.get? key
  extra : fs.get? "additionalProperties" = some nothing
  plain : fs.get? "patternProperties" = none
  declares : declared closed = allowedProperties (declared fs)

lemma closes_closeObject (sorted : fs.Sorted) : closeObject fs = fs ∨ Closes fs (closeObject fs) := by
  rcases closeObject_cases fs with same | ⟨props,extra,plain,atProperties,closed⟩
  · exact .inl same
  right
  have declares : declared fs = props := by
    unfold declared
    rw [atProperties]
    rfl
  rw [← declares] at closed
  rcases closed with ⟨closed,none⟩ | ⟨closed,_⟩
  · rw [closed]
    refine ⟨sorted_erase sorted,fun key other => get?_erase_other other.symm,extra,plain,?_⟩
    rw [none]
    unfold declared
    rw [get?_erase_self sorted]
    rfl
  · rw [closed]
    refine ⟨sorted_put sorted,fun key other => get?_put_other other.symm,extra,plain,?_⟩
    change ((((fs.put _ _).get? "properties").bind fields?).getD []) = _
    rw [get?_put_self]
    rfl

lemma formed_allowedProperties {declared : Fields} (formed : keywordFormed good "properties" (.obj declared)) :
    keywordFormed good "properties" (.obj (allowedProperties declared)) := by
  obtain ⟨es,isMap,sorted,schemas⟩ := (formed_map rfl).mp formed
  cases isMap
  refine (formed_map rfl).mpr ⟨_,rfl,sorted_filter _ sorted,fun entry mem => ?_⟩
  exact schemas entry (mem_filter.mp mem).1

lemma formed_closeObject (formed : Formed vocab fs) : Formed vocab (closeObject fs) := by
  rcases closeObject_cases fs with same | ⟨declared,_,_,atProperties,⟨closed,_⟩ | ⟨closed,_⟩⟩
  · rwa [same]
  · rw [closed]
    exact formed.erase (by decide)
  rw [closed]
  have known := has_of_allows (formed.allowed _ _ atProperties)
  exact formed.put (by decide) (allows_plain known (by decide) _)
    (formed_allowedProperties (formed.formed _ _ atProperties))

lemma placed_closeObject (placed : Placed good fs) : Placed good (closeObject fs) := by
  rcases closeObject_cases fs with same | ⟨declared,_,_,atProperties,⟨closed,_⟩ | ⟨closed,_⟩⟩
  · rwa [same]
  · rw [closed]
    exact placed.erase _
  rw [closed]
  exact placed.put (orderly_filter (orderly_get? placed.orderly atProperties) _)
    (places_of_formed (formed_allowedProperties (placed.formed (by decide) atProperties)))

-- A forbidden property is governed by the additional properties instead, which forbid it too.
lemma memberRules_closes (placed : Placed good fs) (closes : Closes fs closed) (name : String) (x : Json) :
    (memberRules ts closed name).all (·.accepts ts x) = (memberRules ts fs name).all (·.accepts ts x) := by
  rw [all_memberRules ((closes.same _ (by decide)).trans closes.plain),all_memberRules closes.plain]
  unfold memberRule?
  rw [closes.same _ (by decide),closes.extra,closes.declares]
  unfold allowedProperties
  rw [get?_filter_value placed.declared.1 fun s => !isNothing s]
  cases (declared fs).get? name with
  | none => rfl
  | some s =>
    rw [Option.filter_some]
    split
    · rfl
    next forbidden =>
    have isNothing : isNothing s := by simpa using forbidden
    rw [isNothing_iff.mp isNothing]
    rfl

lemma accepts_closeObject (placed : Placed good fs) (v : Json) :
    (obj (closeObject fs)).accepts ts v = (obj fs).accepts ts v := by
  rcases closes_closeObject placed.sorted with same | closes
  · rw [same]
  have conditional key (cond : key ∈ conditional) : (closeObject fs).get? key = fs.get? key := by
    refine closes.same key ?_
    rintro rfl
    exact absurd cond (by decide)
  have xs i : itemRule? (closeObject fs) i = itemRule? fs i := by
    unfold itemRule?
    rw [closes.same _ (by decide),closes.same _ (by decide)]
  have keyword {now later : Fields} (same : ∀ key, key ≠ "properties" → later.get? key = now.get? key)
      (obeys : Obeys ts now v) key s (found : later.get? key = some s) :
      keywordHolds ts (accepts ts) key s v := by
    by_cases props : key = "properties"
    · subst props
      rfl
    · exact obeys.keyword key s ((same key props).symm.trans found)
  rw [Bool.eq_iff_iff,accepts_obj closes.sorted,accepts_obj placed.sorted]
  refine ⟨fun obeys => ?_,fun obeys => ?_⟩
  · exact obeys.by_rules (fun key cond => (conditional key cond).symm)
      (keyword (fun key other => (closes.same key other).symm) obeys)
      (fun _ _ name x _ => (memberRules_closes placed closes name x).symm) fun _ _ i x _ => by rw [xs]
  · exact obeys.by_rules conditional (keyword closes.same obeys)
      (fun _ _ name x _ => memberRules_closes placed closes name x) fun _ _ i x _ => by rw [xs]
end Closing
section Forms
variable {proper : Json → Prop} {ts : Texts} {vocab : Vocabulary} {good : Json → Bool} {fs : Fields}
  {s a b : Json}

lemma form_obj_tidy (family : Family good) (placed : Placed good fs) :
    form (.obj fs) = .obj (closeObject (fold (tidy (mapFields form fs)))) := by
  rw [form_obj,keywords_eq family placed]

lemma isSchema_form (canonical : vocab.Canonical) (schema : s.isSchema vocab) : (form s).isSchema vocab := by
  induction s using byDepth with
  | step s ih =>
    rcases isSchema_cases schema with ⟨b,rfl⟩ | ⟨fs,rfl,formed⟩
    · cases b with
      | true => exact isSchema_obj.mpr formed_nil
      | false =>
        exact isSchema_single (allows_plain canonical.not (by decide) _) (isSchema_obj.mpr formed_nil) (by decide)
    · rw [form_obj_tidy (family_isSchema vocab) formed.placed]
      refine isSchema_obj.mpr (formed_closeObject (formed_fold (formed_tidy ?_)))
      exact formed_mapFields formed (fun t good shallow => ih t shallow good) (.inl canonical.describes)

lemma placed_fold (placed : Placed good fs) : Placed good (fold fs) := by
  refine ⟨orderly_fold placed.orderly,fun key s found => ?_⟩
  cases bounded : limit? key with
  | none =>
    rw [get?_fold bounded] at found
    exact placed.places key s found
  | some limit =>
    refine places_leaf ?_
    rcases limit_shape bounded with shape | shape <;> rw [shape] <;> decide

lemma alikeOn_form (hereditary : Hereditary proper) (ordered : ∀ v, proper v → v.Ordered) (family : Family good)
    (closed : ∀ s, good s → good (form s))
    (inclusive : ∀ fs : Fields, good (.obj fs) → fs.get? "oneOf" = none) (schema : good s) :
    AlikeOn proper ts (form s) s := by
  induction s using byDepth with
  | step s ih =>
    intro v looked
    rcases family.cases s schema with ⟨b,rfl⟩ | ⟨fs,rfl,placed⟩
    · cases b with
      | true => exact accepts_emptyObj v
      | false => exact accepts_nothing v
    have inner : Placed good (mapFields form fs) := placed_mapFields family placed fun t good _ => closed t good
    have keeps : Keeps proper ts good form (obj fs).depth :=
      ⟨fun t good shallow => ih t shallow good,fun t good _ => form_isArr family good⟩
    have without : (mapFields form fs).get? "oneOf" = none := by
      rw [get?_mapFields,inclusive fs schema]
      rfl
    have tidied := placed_tidy family inner
    calc (form (.obj fs)).accepts ts v
        = (obj (closeObject (fold (tidy (mapFields form fs))))).accepts ts v := by
          rw [form_obj_tidy family placed]
      _ = (obj (fold (tidy (mapFields form fs)))).accepts ts v := accepts_closeObject (placed_fold tidied) v
      _ = (obj (tidy (mapFields form fs))).accepts ts v :=
          Bool.eq_iff_iff.mpr (accepts_fold_orderly tidied.orderly (ordered v looked))
      _ = (obj (mapFields form fs)).accepts ts v := accepts_tidy family inner without v
      _ = (obj fs).accepts ts v := alike_map hereditary family placed keeps v looked

lemma alike_form (canonical : vocab.Canonical) (inclusive : vocab.has "oneOf" = false)
    (schema : s.isSchema vocab) : Alike ts (form s) s :=
  alikeOn_form hereditary_exact (fun _ => ordered_exact) (family_isSchema vocab)
    (fun _ => isSchema_form canonical) (fun _ good => (isSchema_obj.mp good).absent inclusive) schema
end Forms
section Reflection
variable {ts : Texts} {narrow wide vocab : Vocabulary} {fs : Fields} {key : String} {a b s : Json}
-- Only sub-schemas depend on the vocabulary.
lemma formed_leaf (leaf : shape key ∈ [.lowerBound,.upperBound,.note,.scalar])
    (formed : keywordFormed (isSchema wide) key s) : keywordFormed (isSchema narrow) key s := by
  simp only [mem_cons,not_mem_nil,or_false] at leaf
  unfold keywordFormed at formed ⊢
  rcases leaf with shape | shape | shape | shape <;> rw [shape] at formed ⊢ <;> exact formed

lemma unform_keyword (good : keywordFormed (isSchema wide) key s)
    (mapped : keywordFormed (isSchema narrow) key (mapKeyword form key s))
    (ih : ∀ t, t.depth ≤ s.depth → t.isSchema wide → (form t).isSchema narrow → t.isSchema narrow) :
    keywordFormed (isSchema narrow) key s := by
  have listed : ∀ {ms}, s = .arr ms → (∀ t ∈ ms, t.isSchema wide) →
      (∀ t ∈ ms.map form, t.isSchema narrow) → ∀ t ∈ ms, t.isSchema narrow := by
    rintro ms rfl schemas forms t mem
    exact ih t (le_of_lt (depth_item mem)) (schemas t mem) (forms _ (mem_map_of_mem mem))
  cases shape : shape key with
  | subSchema =>
    rw [formed_subSchema shape] at good mapped ⊢
    simp only [mapKeyword,shape] at mapped
    exact ih s (le_rfl) good mapped
  | items =>
    rcases (formed_items shape).mp good with single | ⟨tuple,rfl,schemas⟩
    · have isForm : mapKeyword form key s = form s := by
        rcases isSchema_cases single with ⟨b,rfl⟩ | ⟨own,rfl,_⟩ <;> simp only [mapKeyword,shape]
      rw [isForm] at mapped
      refine (formed_items shape).mpr (.inl (ih s (le_rfl) single ?_))
      rcases (formed_items shape).mp mapped with formGood | ⟨tuple,isTuple,_⟩
      · exact formGood
      have notArr := form_isArr (family_isSchema wide) single
      rw [isTuple] at notArr
      cases notArr
    · simp only [mapKeyword,shape] at mapped
      rcases (formed_items shape).mp mapped with absurd | ⟨forms,same,formsGood⟩
      · cases absurd
      cases same
      exact (formed_items shape).mpr (.inr ⟨tuple,rfl,listed rfl schemas formsGood⟩)
  | schemaList =>
    obtain ⟨ms,rfl,schemas⟩ := (formed_list shape).mp good
    simp only [mapKeyword,shape] at mapped
    obtain ⟨forms,same,formsGood⟩ := (formed_list shape).mp mapped
    cases same
    exact (formed_list shape).mpr ⟨ms,rfl,listed rfl schemas formsGood⟩
  | schemaMap =>
    obtain ⟨es,rfl,sorted,schemas⟩ := (formed_map shape).mp good
    simp only [mapKeyword,shape] at mapped
    obtain ⟨forms,same,_,formsGood⟩ := (formed_map shape).mp mapped
    cases same
    refine (formed_map shape).mpr ⟨es,rfl,sorted,fun entry mem => ?_⟩
    exact ih entry.2 (le_of_lt (depth_field mem)) (schemas entry mem)
      (formsGood (entry.1,form entry.2) (mem_map_of_mem mem))
  | dependencies =>
    obtain ⟨es,rfl,sorted,schemas⟩ := (formed_dependencies shape).mp good
    simp only [mapKeyword,shape] at mapped
    obtain ⟨forms,same,_,formsGood⟩ := (formed_dependencies shape).mp mapped
    cases same
    refine (formed_dependencies shape).mpr ⟨es,rfl,sorted,fun entry mem => ?_⟩
    refine (schemas entry mem).imp_right fun schema => ?_
    have notArr := isArr_of_isSchema schema
    have formGood := formsGood _ (mem_map_of_mem mem)
    dsimp only at formGood
    rw [notArr,if_neg (by decide)] at formGood
    refine ih entry.2 (le_of_lt (depth_field mem)) schema (formGood.resolve_left fun ns => ?_)
    obtain ⟨list,isList⟩ := isNames_iff.mp ns
    have formNotArr := form_isArr (family_isSchema wide) schema
    rw [isList] at formNotArr
    cases formNotArr
  | lowerBound | upperBound | note | scalar => exact formed_leaf (by simp [shape]) good

lemma leaf_of_inert (inert : isInert key s) : shape key ∈ [.lowerBound,.upperBound,.note,.scalar] := by
  unfold isInert at inert
  split at inert
  · decide
  · decide
  · decide
  · decide
  · simp [beq_iff_eq.mp inert]

-- What tidying drops without trace holds no sub-schema but a trivial one.
lemma untidy_keyword (good : keywordFormed (isSchema wide) key s)
    (kept : ∀ t, tidyKeyword key s = some t → keywordFormed (isSchema narrow) key t) :
    keywordFormed (isSchema narrow) key s := by
  have optional : tidyKeyword key s = unlessTrivial s → (keywordFormed (isSchema narrow) key .emptyObj) →
      keywordFormed (isSchema narrow) key s := by
    intro tidied empty
    unfold unlessTrivial at tidied
    split at tidied
    · next isEmpty => rwa [isEmptyObj_iff.mp isEmpty]
    · exact kept s tidied
  have emptyGood : emptyObj.isSchema narrow := isSchema_obj.mpr formed_nil
  unfold tidyKeyword at kept optional
  have treats := treats key s
  generalize treatment key s = treatment at treats kept optional
  cases treats with
  | drop inert => exact formed_leaf (leaf_of_inert inert) good
  | typeSet name | nameSet name | valueSet name => subst name; exact formed_leaf (by decide) good
  | optionalForm name =>
    refine optional rfl ?_
    fin_cases name <;> exact emptyGood
  | items name =>
    subst name
    cases s with
    | arr tuple => exact kept _ rfl
    | _ => exact optional rfl ((formed_items rfl).mpr (.inl emptyGood))
  | form shape => exact kept s rfl
  | formSet shape =>
    obtain ⟨ms,rfl,schemas⟩ := (formed_list shape).mp good
    obtain ⟨sorted,same,sortedGood⟩ := (formed_list shape).mp (kept _ rfl)
    cases same
    exact (formed_list shape).mpr ⟨ms,rfl,fun t mem => sortedGood t (mem_sortSet.mpr mem)⟩
  | entries shape =>
    obtain ⟨es,rfl,sorted,schemas⟩ := (formed_map shape).mp good
    dsimp only at kept
    rw [map_sortEntry_schemas (family_isSchema wide) schemas] at kept
    cases es with
    | nil => exact (formed_map shape).mpr ⟨[],rfl,sorted,nofun⟩
    | cons entry rest => exact kept _ rfl
  | dependencies shape =>
    obtain ⟨es,rfl,sorted,schemas⟩ := (formed_dependencies shape).mp good
    refine (formed_dependencies shape).mpr ⟨es,rfl,sorted,fun entry mem => (schemas entry mem).imp_right ?_⟩
    intro schema
    have single := isArr_of_isSchema schema
    have held : unlessEmpty (es.map sortEntry) = some (.obj (es.map sortEntry)) := by
      cases es with
      | nil => cases mem
      | cons => rfl
    obtain ⟨tidied,same,_,tidiedGood⟩ := (formed_dependencies shape).mp (kept _ held)
    cases same
    have entryGood := tidiedGood _ (mem_map_of_mem mem)
    rw [sortEntry_single single] at entryGood
    refine entryGood.resolve_left fun ns => ?_
    obtain ⟨list,isList⟩ := isNames_iff.mp ns
    rw [isList] at single
    cases single
  | value shape => exact kept s rfl

-- Closing an object drops properties that accept nothing, which needs no more than `not`.
lemma unclose (negates : narrow.has "not") (formed : Formed wide fs)
    (reduced : Formed narrow (closeObject fs)) (found : fs.get? key = some s) :
    keywordFormed (isSchema narrow) key s := by
  rcases closes_closeObject formed.sorted with same | closes
  · rw [same] at reduced
    exact reduced.formed key s found
  by_cases other : key = "properties"
  · subst other
    obtain ⟨es,rfl,sorted,_⟩ := (formed_map rfl).mp (formed.formed _ _ found)
    have declares : declared fs = es := by
      unfold declared
      rw [found]
      rfl
    refine (formed_map rfl).mpr ⟨es,rfl,sorted,fun entry mem => ?_⟩
    cases forbidden : isNothing entry.2 with
    | true =>
      rw [isNothing_iff.mp forbidden]
      exact isSchema_single (allows_plain negates (by decide) _) (isSchema_obj.mpr formed_nil) (by decide)
    | false =>
      refine reduced.declared.2 entry.1 entry.2 ?_
      rw [closes.declares,declares]
      refine get?_of_mem (sorted_filter _ sorted) (mem_filter.mpr ⟨mem,?_⟩)
      rw [forbidden]
      rfl
  · exact reduced.formed key s ((closes.same key other).trans found)

lemma get?_closed (formed : Formed wide fs) (other : key ≠ "properties") : (closeObject fs).get? key = fs.get? key := by
  rcases closes_closeObject formed.sorted with same | closes
  · rw [same]
  · exact closes.same key other

lemma isSchema_of_form (canonical : vocab.Canonical) (schema : s.isSchema vocab)
    (reduced : (form s).isSchema vocab.inclusive) : s.isSchema vocab.inclusive := by
  induction s using byDepth with
  | step s ih =>
    rcases isSchema_cases schema with ⟨b,rfl⟩ | ⟨fs,rfl,formed⟩
    · exact isSchema_bool b
    have inner : Formed vocab (mapFields form fs) :=
      formed_mapFields formed (fun t good _ => isSchema_form canonical good) (.inl canonical.describes)
    have folded := formed_fold (formed_tidy inner)
    rw [form_obj_tidy (family_isSchema vocab) formed.placed,isSchema_obj] at reduced
    have atInner {key t} (found : fs.get? key = some t) :
        (mapFields form fs).get? key = some (mapKeyword form key t) := by
      rw [get?_mapFields,found]
      rfl
    -- the steps that made the form are undone from the last to the first: closing and folding,
    have tidied key t (found : (tidy (mapFields form fs)).get? key = some t) :
        keywordFormed (isSchema vocab.inclusive) key t := by
      cases bounded : limit? key with
      | some limit =>
        refine formed_leaf ?_ ((formed_tidy inner).formed key t found)
        rcases limit_shape bounded with shape | shape <;> rw [shape] <;> decide
      | none => exact unclose canonical.inclusive.not folded reduced ((get?_fold bounded _).trans found)
    -- tidying,
    have mapped key t (found : fs.get? key = some t) :
        keywordFormed (isSchema vocab.inclusive) key (mapKeyword form key t) := by
      refine untidy_keyword (inner.formed key _ (atInner found)) fun u kept => tidied key u ?_
      rw [get?_tidy inner.sorted,atInner found]
      exact kept
    -- none of which drops an `oneOf`,
    have inclusive : fs.get? "oneOf" = none := by
      cases found : fs.get? "oneOf" with
      | none => rfl
      | some list =>
        have absent := reduced.absent (has_inclusive_oneOf vocab)
        rw [get?_closed folded (by decide),get?_fold rfl,get?_tidy inner.sorted,atInner found] at absent
        obtain ⟨ms,isList,_⟩ := (formed_list rfl).mp (inner.formed _ _ (atInner found))
        rw [isList] at absent
        cases absent
    refine isSchema_obj.mpr ⟨formed.sorted,fun key t found => ?_,fun key t found => ?_,formed.conditional⟩
    · refine (allows_inclusive ?_ t).trans (formed.allowed key t found)
      rintro rfl
      rw [inclusive] at found
      cases found
    -- and the forms of the sub-schemas
    · exact unform_keyword (formed.formed key t found) (mapped key t found) fun u shallow good reducedForm =>
        ih u (lt_of_le_of_lt shallow (depth_get? found)) good reducedForm

lemma alike_of_form_eq (canonical : vocab.Canonical) (left : a.isSchema vocab)
    (right : b.isSchema vocab.inclusive) (same : form a = form b) : Alike ts a b := by
  have without := has_inclusive_oneOf vocab
  have formGood : (form a).isSchema vocab.inclusive := by
    rw [same]
    exact isSchema_form canonical.inclusive right
  have lAlike : Alike ts (form a) a := alike_form canonical.inclusive without (isSchema_of_form canonical left formGood)
  rw [same] at lAlike
  exact lAlike.symm.trans (alike_form canonical.inclusive without right)
end Reflection
end Canonical
end SchemaOrder
