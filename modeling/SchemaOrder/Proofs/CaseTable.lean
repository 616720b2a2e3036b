import SchemaOrder.Proofs.Settling
namespace SchemaOrder
open Acceptance Schemas List Fields Json Replacement SchemaOrder.Normal Option
-- A schema that the table calls disjoint shares no value with the negated one, and one it calls contained lies in it.
def Schemas.stepWhere (also : Fields → Bool) (formed : Json → Bool) : Json → Bool
  | .bool _ => true
  | .obj fs =>
    decide (Sorted fs) && also fs &&
      fs.all fun field => field.2.isExact && placesFormed formed field.1 field.2
  | _ => false

-- A schema in which any keyword may stand, those without a meaning too. Numbers are whole, and its objects, also those
-- of its sub-schemas, satisfy a condition.
def Json.isSchemaWhere (also : Fields → Bool) (s : Json) : Bool :=
  recurse (stepWhere also) false s
namespace Schemas
variable {also : Fields → Bool} {fs : Fields} {s : Json}
lemma stepWhere_descends (also : Fields → Bool) : Descends (stepWhere also) := by
  intro s f g agree
  cases s with
  | obj fs =>
    change (_ && _ && _) = (_ && _ && _)
    rw [all_agree fun field mem => by rw [placesFormed_agree agree mem]]
  | _ => rfl

lemma isSchemaWhere_eq (s : Json) : s.isSchemaWhere also = stepWhere also (isSchemaWhere also) s :=
  recurse_eq (stepWhere_descends also) s

lemma isSchemaWhere_obj : (obj fs).isSchemaWhere also ↔ (obj fs).isExact ∧
    also fs ∧ ∀ key s, fs.get? key = some s → placesFormed (isSchemaWhere also) key s := by
  rw [isSchemaWhere_eq,exact_obj]
  change (_ && _ && _) ↔ _
  simp only [Bool.and_eq_true,decide_eq_true_eq,List.all_eq_true]
  constructor
  · rintro ⟨⟨sorted,holds⟩,each⟩
    exact ⟨⟨sorted,fun field mem => (each field mem).1⟩,holds,fun key s found => (each (key,s) (mem_of_get? found)).2⟩
  · rintro ⟨⟨sorted,exact⟩,holds,places⟩
    exact ⟨⟨sorted,holds⟩,fun field mem => ⟨exact field mem,places _ _ (get?_of_mem sorted mem)⟩⟩

lemma exactFamily_isSchemaWhere (also : Fields → Bool) : ExactFamily (isSchemaWhere also) := by
  refine ⟨⟨fun s schema => ?_⟩,fun s schema => ?_⟩
  · cases s with
    | bool b => exact .inl ⟨b,rfl⟩
    | obj fs =>
      obtain ⟨exact,_,places⟩ := isSchemaWhere_obj.mp schema
      exact .inr ⟨fs,rfl,orderly_of_exact exact,places⟩
    | _ => cases schema
  · cases s with
    | bool b => rfl
    | obj fs => exact (isSchemaWhere_obj.mp schema).1
    | _ => cases schema

def Stable (also : Fields → Bool) : Prop :=
  ∀ fs : Fields, fs.Sorted → also fs → also (Normal.settle (mapFields normalize fs))

lemma isSchemaWhere_normalize (stable : Stable also) (schema : s.isSchemaWhere also) : s.normalize.isSchemaWhere also := by
  have family := exactFamily_isSchemaWhere also
  induction s using byDepth with
  | step s ih =>
    rcases family.cases s schema with ⟨b,rfl⟩ | ⟨fs,rfl,placed⟩
    · exact schema
    obtain ⟨exact,holds,_⟩ := isSchemaWhere_obj.mp schema
    have inner := placed_mapFields family.toFamily placed fun t good shallow => ih t shallow good
    rw [normalize_obj]
    refine isSchemaWhere_obj.mpr ⟨?_,stable fs placed.sorted holds,fun key s found => ?_⟩
    · rw [isExact_eq] at exact ⊢
      exact normalize_obj fs ▸ orderly_normalize exact
    by_cases settled : key ∈ ["const","enum","type"]
    · fin_cases settled <;> exact places_leaf (by decide)
    rw [get?_settle settled] at found
    exact inner.places key s found

def namesFormats (formats : String → Bool) (fs : Fields) : Bool :=
  ((fs.get? "format").bind str?).all formats

def listsEnum (fs : Fields) : Bool :=
  (fs.get? "enum").all isArr

def choosesOnce (fs : Fields) : Bool :=
  listsEnum fs && !fs.has "oneOf" && (!fs.has "const" || !fs.has "enum")
end Schemas
-- An enumeration that stays was not collapsed to a constant.
lemma Normal.collapseEnum_of_kept (sorted : fs.Sorted)
    (kept : (settle fs).get? "enum" = some s) : collapseEnum fs = fs ∧ fs.get? "enum" = some s := by
  have sortedNow : (collapseEnum fs).Sorted := sorted_collapseEnum sorted
  have dropped : (dropEnum (collapseEnum fs)).get? "enum" = some s := (get?_inferType (by decide)).symm.trans kept
  have collapsed : (collapseEnum fs).get? "enum" = some s := by
    unfold dropEnum at dropped
    split at dropped
    · split at dropped
      · rw [get?_erase_self sortedNow] at dropped
        cases dropped
      · exact dropped
    · exact dropped
  unfold collapseEnum at collapsed ⊢
  split at collapsed
  · rw [get?_put_other (by decide),get?_erase_self sorted] at collapsed
    cases collapsed
  · exact ⟨rfl,collapsed⟩
namespace Schemas
lemma stable_listsEnum : Stable listsEnum := by
  intro fs sorted listed
  refine (all_eq_true _ _).mpr fun s kept => ?_
  have found := (collapseEnum_of_kept (sorted_mapFields sorted) kept).2
  rw [get?_mapFields_leaf (by decide)] at found
  exact (all_eq_true _ _).mp listed s found

lemma stable_choosesOnce : Stable choosesOnce := by
  intro fs sorted holds
  unfold choosesOnce has at holds ⊢
  simp only [Bool.and_eq_true,Bool.or_eq_true,Bool.not_eq_true',isSome_eq_false_iff,isNone_iff_eq_none] at holds ⊢
  obtain ⟨⟨listed,noOneOf⟩,once⟩ := holds
  refine ⟨⟨stable_listsEnum fs sorted listed,?_⟩,?_⟩
  · rw [get?_settle (by decide),get?_mapFields,noOneOf]
    rfl
  cases kept : (settle (mapFields normalize fs)).get? "enum" with
  | none => exact .inr rfl
  | some s =>
    obtain ⟨same,found⟩ := collapseEnum_of_kept (sorted_mapFields sorted) kept
    rw [get?_mapFields_leaf (by decide)] at found
    rw [const_settle,same,get?_mapFields_leaf (by decide)]
    exact .inl (once.resolve_right fun absent => nomatch found.symm.trans absent)

lemma negatable_isSchemaWhere {also : Fields → Bool} (stable : Stable also) (faithful : ts.Faithful) :
    Negatable ts (isSchemaWhere also) where
  toExactFamily := exactFamily_isSchemaWhere also
  normal _ := isSchemaWhere_normalize stable
  faithful _ _ _ := faithful
end Schemas
namespace Negation
variable {ts : Texts} {own other : Json → Bool} {sub negated : Fields} {v : Json}
def Contains (answer : Option Relation) : Prop :=
  ∀ r, answer = some r → r = .contained

lemma typeRelation_contained (subExact : (obj sub).isExact) (exact : v.isExact) (obeys : Obeys ts sub v)
    (contains : Contains (typeRelation? sub negated)) (found : negated.get? "type" = some t) :
    keywordHolds ts (accepts ts) "type" t v := by
  have answer := contains _ (by unfold typeRelation?; rw [found]; rfl)
  dsimp only at answer
  split at answer
  · cases answer
  next types confined =>
  split at answer
  · next within =>
    obtain ⟨name,mem,typed⟩ := hasType_confined subExact exact obeys confined
    obtain ⟨e,excluded,below⟩ := any_eq_true.mp (all_eq_true.mp within name mem)
    exact any_eq_true.mpr ⟨e,excluded,hasType_within below typed⟩
  · split at answer <;> cases answer

lemma among_excluded (subExact : (obj sub).isExact) (exact : v.isExact) (obeys : Obeys ts sub v)
    (contains : Contains (valueRelation? sub negated)) (found : excludedValues? negated = some excluded) : v.among excluded := by
  have answer := contains _ (by unfold valueRelation?; rw [found]; rfl)
  dsimp only at answer
  split at answer
  · cases answer
  next values literals =>
  split at answer
  · cases answer
  split at answer
  · next within => exact all_eq_true.mp within v (mem_literals subExact exact obeys literals)
  · cases answer

lemma formatRelation_contained (faithful : ts.Faithful) (subExact : (obj sub).isExact) (exact : v.isExact)
    (inclusions : ∀ format wider, sub.get? "format" = some (.str format) → Format.within format wider →
      ∀ text, ts.hasFormat format text → ts.hasFormat wider text)
    (obeys : Obeys ts sub v) (contains : Contains (formatRelation? sub negated))
    (found : negated.get? "format" = some s) : keywordHolds ts (accepts ts) "format" s v := by
  refine (all_eq_true _ _).mpr fun text isText => (all_eq_true _ _).mpr fun format isFormat => ?_
  obtain rfl : v = .str text := by cases v <;> cases isText; rfl
  have answer := contains _ (by unfold formatRelation?; rw [found,bind_some,isFormat]; rfl)
  dsimp only at answer
  split at answer
  · cases answer
  next types confined =>
  split at answer
  · next others =>
    obtain ⟨name,mem,typed⟩ := hasType_confined subExact exact obeys confined
    obtain rfl : "string" = name := by
      rcases typeWithin_iff.mp (hasType_iff.mp typed) with same | ⟨kind,_⟩
      · exact same
      · exact absurd (show "string" = "integer" from kind) (by decide)
    cases all_eq_true.mp others _ mem
  split at answer
  · cases answer
  split at answer
  · next values literals =>
    split at answer
    · cases answer
    split at answer
    · next acc =>
      have known := beq_iff_eq.mp (all_eq_true.mp acc _ (mem_literals subExact exact obeys literals))
      obtain ⟨test,named,holds⟩ := map_eq_some_iff.mp known
      rw [faithful format test named text,holds]
    · cases answer
  split at answer
  · next narrower atFormat =>
    split at answer
    · next within =>
      obtain ⟨written,atSub,isName⟩ := bind_eq_some_iff.mp atFormat
      obtain rfl : written = .str narrower := by cases written <;> cases isName; rfl
      exact inclusions narrower format atSub within text (obeys.keyword _ _ atSub)
    · cases answer
  · cases answer

def Includes (ts : Texts) (own other : Json → Bool) (relate : Fields → Json → Relation) : Prop :=
  ∀ sub negated, own (.obj sub) → other negated → relate sub negated = .contained →
    ∀ v, v.isExact → (obj sub).accepts ts v → negated.accepts ts v
variable {relate : Fields → Json → Relation}
-- The answer speaks about names that are asked for and about properties at once.
lemma objectRelation_covers (contains : Contains (objectRelation? relate sub negated)) :
    (∀ name ∈ listed negated "required", name ∈ listed sub "required") ∧ ∀ name rule, (name,rule) ∈ declared negated →
        ∃ fs, property? sub name = some fs ∧ relate fs rule.normalize = .contained := by
  unfold objectRelation? at contains
  dsimp only at contains
  split at contains
  · next nothing =>
    obtain ⟨noNames,noRules⟩ := Bool.and_eq_true_iff.mp nothing
    refine ⟨fun name mem => ?_,fun name rule mem => ?_⟩
    · rw [isEmpty_iff.mp noNames] at mem
      cases mem
    unfold declared at mem
    rw [isNone_iff_eq_none.mp noRules] at mem
    cases mem
  split at contains
  · cases contains _ rfl
  split at contains
  · next covered =>
    obtain ⟨ns,rules⟩ := Bool.and_eq_true_iff.mp covered
    refine ⟨fun name mem => contains_iff_mem.mp (all_eq_true.mp ns name mem),fun name rule mem => ?_⟩
    have related := all_eq_true.mp rules (name,rule) mem
    obtain ⟨fs,found,answer⟩ := (any_eq_true _ _).mp related
    exact ⟨fs,found,decide_eq_true_eq.mp answer⟩
  · cases contains _ rfl

lemma unionRelation_contained (wide : Negatable ts other) (includes : Includes ts own other relate)
    (schema : own (.obj sub)) (negatedSchema : other (.obj negated)) (exact : v.isExact)
    (acc : (obj sub).accepts ts v) (contains : Contains (unionRelation? relate sub negated))
    (found : negated.get? "anyOf" = some s) : keywordHolds ts (accepts ts) "anyOf" s v := by
  obtain ⟨alternatives,rfl,schemas⟩ := (formed_list rfl).mp ((wide.placed negatedSchema).formed (by decide) found)
  have answer := contains _ (by unfold unionRelation?; rw [found]; rfl)
  dsimp only at answer
  split at answer
  · cases answer
  split at answer
  · next chosen =>
    obtain ⟨a,mem,related⟩ := mem_map.mp (contains_iff_mem.mp chosen)
    refine any_eq_true.mpr ⟨a,mem,?_⟩
    rw [← wide.alike_normalize wide.exact (schemas a mem) v exact]
    exact includes sub a.normalize schema (wide.normal a (schemas a mem)) related v exact acc
  · split at answer <;> cases answer

lemma join_contained (joined : join described answers = .contained) : described ∧ ∀ r ∈ answers, r = .contained := by
  unfold join at joined
  split at joined
  · cases joined
  next noDisjoint =>
  split at joined
  · cases joined
  next certain =>
  simp only [Bool.or_eq_true,not_or,Bool.not_eq_true',Bool.not_eq_false] at certain
  obtain ⟨⟨described,_⟩,noUnknown⟩ := certain
  split at joined
  · next noOverlap =>
    refine ⟨described,fun r mem => ?_⟩
    cases r with
    | contained => rfl
    | disjoint => exact absurd (contains_iff_mem.mpr mem) noDisjoint
    | unknown => exact absurd (contains_iff_mem.mpr mem) noUnknown
    | overlaps =>
      have overlap : Relation.overlaps ∈ answers.filter (· = .overlaps) := mem_filter.mpr ⟨mem,rfl⟩
      rw [length_eq_zero_iff.mp noOverlap] at overlap
      cases overlap
  all_goals cases joined

lemma absent_of_described (key : String) (described : isDescribed negated) (uncovered : key ∉ coveredKeywords)
    (rule : Keyword.shape key ≠ .note) : negated.get? key = none := by
  cases found : negated.get? key with
  | none => rfl
  | some s =>
    have either := all_eq_true.mp described (key,s) (mem_of_get? found)
    rcases Bool.or_eq_true_iff.mp either with covered | note
    · exact absurd (contains_iff_mem.mp covered) uncovered
    · exact absurd (decide_eq_true_eq.mp note) rule

-- Beside properties nothing in a described schema speaks about members.
lemma declared_of_described (described : isDescribed negated)
    (governs : rule ∈ memberRules ts negated name) : (name,rule) ∈ declared negated := by
  rw [memberRules_eq (absent_of_described _ described (by decide) (by decide)),memberRule?,
    absent_of_described "additionalProperties" described (by decide) (by decide),or_none] at governs
  exact mem_of_get? (mem_toList.mp governs)

structure Covered (relate : Fields → Json → Relation) (sub negated : Fields) : Prop where
  described : isDescribed negated
  type : Contains (typeRelation? sub negated)
  value : Contains (valueRelation? sub negated)
  format : Contains (formatRelation? sub negated)
  object : Contains (objectRelation? relate sub negated)
  union : Contains (unionRelation? relate sub negated)

structure Grounds (ts : Texts) (own other : Json → Bool) : Prop where
  narrow : ExactFamily own
  wide : Negatable ts other
  faithful : ts.Faithful
  once : ∀ fs, other (.obj fs) → choosesOnce fs
  inclusions : ∀ sub : Fields, own (.obj sub) → ∀ format wider, sub.get? "format" = some (.str format) →
    Format.within format wider → ∀ text, ts.hasFormat format text → ts.hasFormat wider text

lemma obeys_of_covered (grounds : Grounds ts own other) (includes : Includes ts own other relate)
    (schema : own (.obj sub)) (negatedSchema : other (.obj negated)) (covered : Covered relate sub negated)
    (exact : v.isExact) (acc : (obj sub).accepts ts v) : Obeys ts negated v := by
  have subExact := grounds.narrow.exact _ schema
  have obeys := (accepts_obj (grounds.narrow.placed schema).sorted).mp acc
  obtain ⟨ns,rules⟩ := objectRelation_covers covered.object
  have once := grounds.once _ negatedSchema
  unfold choosesOnce has at once
  simp only [Bool.and_eq_true,Bool.or_eq_true,Bool.not_eq_true',isSome_eq_false_iff,isNone_iff_eq_none] at once
  obtain ⟨⟨listed,noOneOf⟩,once⟩ := once
  have literal : ∀ excluded, excludedValues? negated = some excluded → v.among excluded :=
    fun _ => among_excluded subExact exact obeys covered.value
  refine ⟨fun key s found => ?_,fun ms shape name x held rule governs => ?_,fun xs _ i x _ rule governs => ?_,
    fun c found => ?_⟩
  · have either := all_eq_true.mp covered.described (key,s) (mem_of_get? found)
    rcases Bool.or_eq_true_iff.mp either with tabled | note
    · have mem := contains_iff_mem.mp tabled
      fin_cases mem
      · exact typeRelation_contained subExact exact obeys covered.type found
      · have among := literal [s] (by unfold excludedValues?; rw [found])
        obtain ⟨c,one,same⟩ := any_eq_true.mp among
        exact mem_singleton.mp one ▸ same
      · have noConst := once.resolve_right fun absent => nomatch found.symm.trans absent
        have isList := (all_eq_true _ _).mp listed s found
        cases s with
        | arr ms => exact literal ms (by unfold excludedValues?; rw [noConst,found])
        | _ => cases isList
      · exact formatRelation_contained grounds.faithful subExact exact (grounds.inclusions sub schema) obeys covered.format found
      · refine (all_eq_true _ _).mpr fun ms isObj => all_eq_true.mpr fun name mem => ?_
        obtain rfl : v = .obj ms := by cases v <;> cases isObj; rfl
        exact has_required obeys (ns name (by unfold Negation.listed; rw [found]; exact mem))
      · rfl
      · exact unionRelation_contained grounds.wide includes schema negatedSchema exact acc covered.union found
      · rw [noOneOf] at found; cases found
    · exact keywordHolds_note (decide_eq_true_eq.mp note)
  · subst shape
    have declaredRule := declared_of_described covered.described governs
    obtain ⟨fs,isProperty,related⟩ := rules name rule declaredRule
    have declaredOwn := property?_declared isProperty
    have good := (grounds.wide.placed negatedSchema).declared.2 name rule
      (get?_of_mem (grounds.wide.placed negatedSchema).declared.1 declaredRule)
    have exactX : x.isExact := (exact_obj.mp exact).2 _ held
    rw [← grounds.wide.alike_normalize grounds.wide.exact good x exactX]
    refine includes fs rule.normalize ((grounds.narrow.placed schema).declared.2 name _ declaredOwn)
      (grounds.wide.normal rule good) related x exactX ?_
    exact obeys.member ms rfl name x held _ (declared_rule declaredOwn)
  · unfold itemRule? at governs
    rw [absent_of_described "items" covered.described (by decide) (by decide)] at governs
    cases governs
  · rw [absent_of_described _ covered.described (by decide) (by decide)] at found
    cases found

lemma includes_relationWithin (grounds : Grounds ts own other) (depth : Nat) :
    Includes ts own other (relationWithin depth) := by
  have boolean {b} {v} (answer : (if b then Relation.contained else .disjoint) = .contained) :
      (bool b).accepts ts v := by
    cases b with
    | true => exact accepts_bool ts true v
    | false => cases answer
  have empty : ∀ v, (obj []).accepts ts v := fun v =>
    (accepts_obj sorted_nil).mpr ⟨nofun,nofun,nofun,nofun⟩
  induction depth with
  | zero =>
    intro sub negated _ schema answer v exact _
    rcases grounds.wide.cases _ schema with ⟨b,rfl⟩ | ⟨fs,rfl,_⟩
    · exact boolean (b := b) (by cases b <;> exact answer)
    cases fs with
    | nil => exact empty v
    | cons => cases answer
  | succ depth ih =>
    intro sub negated schema negatedSchema answer v exact acc
    rcases grounds.wide.cases _ negatedSchema with ⟨b,rfl⟩ | ⟨fs,rfl,placed⟩
    · exact boolean (b := b) (by cases b <;> exact answer)
    cases fs with
    | nil => exact empty v
    | cons field rest =>
      obtain ⟨described,each⟩ := join_contained answer
      have answers : ∀ group ∈ [typeRelation? sub (field :: rest),valueRelation? sub (field :: rest),
          formatRelation? sub (field :: rest),objectRelation? (relationWithin depth) sub (field :: rest),
          unionRelation? (relationWithin depth) sub (field :: rest)], Contains group := fun group mem r found =>
        each r (mem_filterMap.mpr ⟨group,mem,found⟩)
      simp only [forall_mem_cons] at answers
      obtain ⟨type,value,format,object,union,_⟩ := answers
      exact (accepts_obj placed.sorted).mpr (obeys_of_covered grounds ih schema negatedSchema
        ⟨described,type,value,format,object,union⟩ exact acc)
end Negation
theorem relation_sound (texts : Texts) (formats : String → Bool) (sub : Fields) (negated v : Json) (faithful : texts.Faithful)
    (inclusions : ∀ pair ∈ Format.inclusions, formats pair.1 = true →
      ∀ text, texts.hasFormat pair.1 text = true → texts.hasFormat pair.2 text = true)
    (schema : (Json.obj sub).isSchemaWhere (namesFormats formats) = true) (negatedSchema : negated.isSchemaWhere listsEnum = true)
    (exact : v.isExact = true) :
    (relation sub negated = .disjoint → ¬ ((Json.obj sub).accepts texts v = true ∧ negated.accepts texts v = true)) ∧
      (relation sub negated = .contained → negated.isSchemaWhere choosesOnce = true →
        (Json.obj sub).accepts texts v = true → negated.accepts texts v = true) := by
  have narrow := exactFamily_isSchemaWhere (namesFormats formats)
  constructor
  · intro answer both
    exact Negation.separates_relationWithin narrow (negatable_isSchemaWhere stable_listsEnum faithful) _ sub negated schema
      negatedSchema answer v exact both.1 both.2
  · intro answer single accepted
    have grounds : Negation.Grounds texts (Json.isSchemaWhere (namesFormats formats)) (Json.isSchemaWhere choosesOnce) := by
      refine ⟨narrow,negatable_isSchemaWhere stable_choosesOnce faithful,faithful,
        fun fields schema => (isSchemaWhere_obj.mp schema).2.1,fun sub schema format wider found within text holds => ?_⟩
      have named := (isSchemaWhere_obj.mp schema).2.1
      unfold namesFormats at named
      rw [found] at named
      rcases Bool.or_eq_true_iff.mp within with same | listed
      · exact beq_iff_eq.mp same ▸ holds
      · exact inclusions (format,wider) (List.contains_iff_mem.mp listed) named text holds
    exact Negation.includes_relationWithin grounds _ sub negated schema single answer v exact accepted

-- A page has a path and may have a locator. The negated schema asks for wider formats of both, or for `null`.
def page : Fields :=
  [("properties",.obj [("path",.obj [("enum",.strings ["/a","/b/c"])]),("site",.obj [("format",.str "uri"),("type",.str "string")])]),
    ("required",.strings ["path"]),("type",.str "object")]

def pageOrNull : Json :=
  .obj [("anyOf",.arr [.obj [("const",.null)],.obj [("properties",.obj [("path",.obj [("format",.str "json-pointer")]),
    ("site",.obj [("format",.str "iri")])]),("required",.strings ["path"])]]),("title",.str "page")]

theorem relation_sound_page : let v := Json.obj [("path",.str "/a")]
    relation page pageOrNull = .contained ∧ pageOrNull.isSchemaWhere choosesOnce = true ∧
      (Json.obj page).accepts Texts.library v = true ∧ pageOrNull.accepts Texts.library v = true :=
  ⟨by decide +kernel,by decide +kernel,by decide +kernel,
    (relation_sound .library (· == "uri") page pageOrNull _ Texts.library_faithful Engine.uri_within_iri (by decide +kernel)
      (by decide +kernel) (by decide)).2 (by decide +kernel) (by decide +kernel) (by decide +kernel)⟩
end SchemaOrder
