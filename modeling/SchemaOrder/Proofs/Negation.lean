import SchemaOrder.Negation
import SchemaOrder.Proofs.NormalForm
namespace SchemaOrder
open List Json Option
-- Negated schemas. The table never calls a schema disjoint from a negated one while they have a value in common.
def Texts.Faithful (ts : Texts) : Prop :=
  ∀ format test, Format.test? format = some test → ∀ text, ts.hasFormat format text = test text

structure ExactFamily (good : Json → Bool) : Prop extends Family good where
  exact : ∀ s, good s → s.isExact

structure Negatable (ts : Texts) (good : Json → Bool) : Prop extends ExactFamily good where
  normal : ∀ s, good s → good s.normalize
  faithful : ∀ fs : Fields, good (.obj fs) → fs.get? "format" ≠ none → ts.Faithful

lemma ExactFamily.placed {good : Json → Bool} (family : ExactFamily good) (schema : good (.obj fs)) :
    Placed good fs := by
  rcases family.cases _ schema with ⟨b,same⟩ | ⟨_,same,placed⟩
  · cases same
  cases same
  exact placed
open Acceptance Schemas
namespace Negation
variable {ts : Texts} {own other : Json → Bool} {sub negated : Fields} {v : Json}
lemma mem_literals (subExact : (obj sub).isExact) (exact : v.isExact) (obeys : Obeys ts sub v)
    {values : List Json} (found : literals? sub = some values) : v ∈ values := by
  unfold literals? at found
  split at found
  · next constant atConst =>
    cases found
    have holds := obeys.keyword _ _ atConst
    rw [Normal.keywordHolds_const (exact_get? subExact atConst) exact] at holds
    exact mem_singleton.mpr holds.symm
  cases atEnum : sub.get? "enum" with
  | none => rw [atEnum] at found; cases found
  | some s =>
    rw [atEnum] at found
    cases s with
    | arr ms =>
      cases found
      exact (Normal.keywordHolds_enum (exact_arr.mp (exact_get? subExact atEnum)) exact).mp (obeys.keyword _ _ atEnum)
    | _ => cases found

lemma hasType_kind (v : Json) : v.hasType v.kind := hasType_iff.mpr (typeWithin_iff.mpr (.inl rfl))
section
variable (subExact : (obj sub).isExact) (exact : v.isExact) (obeys : Obeys ts sub v)
include subExact exact obeys
lemma hasType_confined (found : confinedTypes? sub = some types) : ∃ t ∈ types, v.hasType t := by
  unfold confinedTypes? at found
  split at found
  · next values literals =>
    cases found
    exact ⟨v.kind,mem_map_of_mem (mem_literals subExact exact obeys literals),hasType_kind v⟩
  cases atType : sub.get? "type" with
  | none => rw [atType] at found; cases found
  | some declared =>
    rw [atType,bind_some] at found
    split at found
    · cases found
    cases found
    exact any_eq_true.mp (obeys.keyword _ _ atType)

lemma confined_only (only : ((confinedTypes? sub).any fun types => types.all (· == name))) : v.hasType name := by
  cases found : confinedTypes? sub with
  | none => rw [found] at only; cases only
  | some types =>
    rw [found] at only
    obtain ⟨t,mem,typed⟩ := hasType_confined subExact exact obeys found
    exact beq_iff_eq.mp (all_eq_true.mp only t mem) ▸ typed

lemma typeRelation_disjoint (negatedObeys : Obeys ts negated v) : typeRelation? sub negated ≠ some .disjoint := by
  intro answer
  obtain ⟨t,found,answer⟩ := map_eq_some_iff.mp answer
  obtain ⟨e,excluded,excludedType⟩ := any_eq_true.mp (negatedObeys.keyword _ _ found)
  dsimp only at answer
  split at answer
  · cases answer
  next own confined =>
  split at answer
  · cases answer
  split at answer
  · next apart =>
    obtain ⟨t,mem,typed⟩ := hasType_confined subExact exact obeys confined
    have separate := all_eq_true.mp (all_eq_true.mp apart t mem) e excluded
    have overlap : typesOverlap t e := Bool.or_eq_true_iff.mpr (hasType_comparable typed excludedType)
    rw [overlap] at separate
    cases separate
  · cases answer

lemma valueRelation_disjoint (negatedObeys : Obeys ts negated v) : valueRelation? sub negated ≠ some .disjoint := by
  have listed excluded (found : excludedValues? negated = some excluded) : v.among excluded := by
    unfold excludedValues? at found
    split at found
    · next constant atConst =>
      cases found
      have holds := negatedObeys.keyword _ _ atConst
      exact any_eq_true.mpr ⟨constant,mem_singleton_self _,holds⟩
    · next ms _ atEnum =>
      cases found
      exact negatedObeys.keyword _ _ atEnum
    · cases found
  intro answer
  obtain ⟨excluded,found,answer⟩ := map_eq_some_iff.mp answer
  split at answer
  · cases answer
  next own literals =>
  split at answer
  · next apart =>
    have separate := all_eq_true.mp apart v (mem_literals subExact exact obeys literals)
    rw [listed excluded found] at separate
    cases separate
  · split at answer <;> cases answer
end
lemma formatRelation_disjoint (faithful : negated.get? "format" ≠ none → ts.Faithful)
    (subExact : (obj sub).isExact) (exact : v.isExact) (obeys : Obeys ts sub v)
    (negatedObeys : Obeys ts negated v) : formatRelation? sub negated ≠ some .disjoint := by
  intro answer
  obtain ⟨format,found,answer⟩ := map_eq_some_iff.mp answer
  obtain ⟨s,atFormat,isText⟩ := bind_eq_some_iff.mp found
  have faithful := faithful (by rw [atFormat]; exact some_ne_none s)
  have holds := negatedObeys.keyword _ _ atFormat
  split at answer
  · cases answer
  split at answer
  · cases answer
  split at answer
  · cases answer
  split at answer
  · next values literals =>
    split at answer
    · next refused =>
      have refusal := all_eq_true.mp refused v (mem_literals subExact exact obeys literals)
      rw [beq_iff_eq] at refusal
      cases v with
      | str text =>
        obtain ⟨test,known,fails⟩ := map_eq_some_iff.mp refusal
        change (s.str?.all fun format => ts.hasFormat format text) at holds
        rw [isText,all_some,faithful format test known text,fails] at holds
        cases holds
      | _ => cases refusal
    · split at answer <;> cases answer
  · split at answer
    · split at answer <;> cases answer
    · cases answer

lemma isFalse_iff {s : Json} : s.isFalse ↔ s = .bool false := by
  cases s with
  | bool b => cases b <;> simp [Json.isFalse]
  | _ => simp [Json.isFalse]

lemma declared_rule (found : (declared fs).get? name = some s) : s ∈ memberRules ts fs name := by
  unfold memberRules
  rw [found]
  exact .head _

-- A member that is never present has no schema it could satisfy.
lemma neverPresent_absent (obeys : Obeys ts sub (.obj ms)) (never : neverPresent sub name) : (name,x) ∉ ms := by
  intro held
  have refuses : bool false ∉ memberRules ts sub name := fun governs => by
    have acc := obeys.member ms rfl name x held _ governs
    cases acc
  have declaredAt : (((sub.get? "properties").bind fields?).bind fun ps => ps.get? name) = (declared sub).get? name := by
    unfold declared
    cases (sub.get? "properties").bind fields? <;> rfl
  unfold neverPresent at never
  rw [declaredAt] at never
  rcases Bool.or_eq_true_iff.mp never with closed | forbidden
  · simp only [Bool.and_eq_true,Bool.not_eq_true',isNone_iff_eq_none] at closed
    obtain ⟨⟨extra,noPatterns⟩,undeclared⟩ := closed
    apply refuses
    have plain : sub.get? "patternProperties" = none := by
      rw [Fields.has] at noPatterns
      exact not_isSome_iff_eq_none.mp (by rw [noPatterns]; decide)
    rw [memberRules_eq plain,memberRule?,undeclared]
    cases found : sub.get? "additionalProperties" with
    | none => rw [found] at extra; cases extra
    | some s =>
      rw [found,any_some,isFalse_iff] at extra
      exact extra ▸ .head _
  · apply refuses
    cases found : (declared sub).get? name with
    | none => rw [found] at forbidden; cases forbidden
    | some s =>
      rw [found,any_some,isFalse_iff] at forbidden
      exact forbidden ▸ declared_rule found

lemma has_required {fs ms : Fields} (obeys : Obeys ts fs (.obj ms)) {name : String}
    (mem : name ∈ listed fs "required") : ms.has name := by
  unfold listed at mem
  cases found : fs.get? "required" with
  | none => rw [found] at mem; cases mem
  | some ns =>
    rw [found] at mem
    exact all_eq_true.mp (obeys.keyword _ _ found) name mem

def Separates (ts : Texts) (own other : Json → Bool) (relate : Fields → Json → Relation) : Prop :=
  ∀ sub negated, own (.obj sub) → other negated → relate sub negated = .disjoint →
    ∀ v, v.isExact → (obj sub).accepts ts v → negated.accepts ts v → False
variable {relate : Fields → Json → Relation}
lemma property?_declared (found : property? sub name = some fs) : (declared sub).get? name = some (.obj fs) := by
  obtain ⟨s,found,isObj⟩ := bind_eq_some_iff.mp found
  obtain ⟨ps,map,at_⟩ := bind_eq_some_iff.mp found
  unfold declared
  rw [map]
  cases s with
  | obj fs => cases isObj; exact at_
  | _ => cases isObj

lemma objectRelation_disjoint (narrow : ExactFamily own) (wide : Negatable ts other) (separates : Separates ts own other relate)
    (schema : own (.obj sub)) (negatedSchema : other (.obj negated)) (exact : v.isExact)
    (obeys : Obeys ts sub v) (negatedObeys : Obeys ts negated v) : objectRelation? relate sub negated ≠ some .disjoint := by
  intro answer
  unfold objectRelation? at answer
  dsimp only at answer
  split at answer
  · cases answer
  split at answer
  · next both =>
    obtain ⟨objectsOnly,excluded⟩ := Bool.and_eq_true_iff.mp both
    have typed := confined_only (narrow.exact _ schema) exact obeys objectsOnly
    cases v with
    | obj ms =>
      have requires {fs} {name} (obeys : Obeys ts fs (.obj ms))
          (mem : name ∈ listed fs "required") : ∃ x, (name,x) ∈ ms := by
        obtain ⟨x,at_⟩ := Fields.has_iff.mp (has_required obeys mem)
        exact ⟨x,Fields.mem_of_get? at_⟩
      rcases Bool.or_eq_true_iff.mp excluded with absent | clash
      · obtain ⟨name,wanted,never⟩ := any_eq_true.mp absent
        obtain ⟨x,held⟩ := requires negatedObeys wanted
        exact neverPresent_absent obeys never held
      obtain ⟨⟨name,rule⟩,constrained,relates⟩ := any_eq_true.mp clash
      obtain ⟨needed,apart⟩ := Bool.and_eq_true_iff.mp relates
      obtain ⟨x,held⟩ := requires obeys (contains_iff_mem.mp needed)
      have exactX : x.isExact := (exact_obj.mp exact).2 _ held
      obtain ⟨negatedSorted,schemas⟩ := (wide.placed negatedSchema).declared
      have atNegated : (declared negated).get? name = some rule := Fields.get?_of_mem negatedSorted constrained
      have ruleGood := schemas name rule atNegated
      have ruleAccepts := negatedObeys.member ms rfl name x held rule (declared_rule atNegated)
      cases own : property? sub name with
      | none => rw [own] at apart; cases apart
      | some ownFields =>
        rw [own,any_some,decide_eq_true_eq] at apart
        have atSub := property?_declared own
        have ownAccepts := obeys.member ms rfl name x held _ (declared_rule atSub)
        have ownGood := ((narrow.placed schema).declared).2 name _ atSub
        refine separates ownFields rule.normalize ownGood (wide.normal rule ruleGood) apart x exactX ownAccepts ?_
        rw [wide.alike_normalize wide.exact ruleGood x exactX]
        exact ruleAccepts
    | _ => cases typed
  · split at answer <;> cases answer

lemma unionRelation_disjoint (narrow : ExactFamily own) (wide : Negatable ts other) (separates : Separates ts own other relate)
    (schema : own (.obj sub)) (negatedSchema : other (.obj negated)) (exact : v.isExact)
    (obeys : Obeys ts sub v) (negatedObeys : Obeys ts negated v) : unionRelation? relate sub negated ≠ some .disjoint := by
  intro answer
  obtain ⟨alternatives,found,answer⟩ := map_eq_some_iff.mp answer
  -- the value satisfies one of the alternatives
  have chosen : ∃ a ∈ alternatives, other a ∧ a.accepts ts v := by
    have placed := wide.placed negatedSchema
    obtain ⟨s,source,isList⟩ := bind_eq_some_iff.mp found
    cases s with
    | arr ms =>
      cases isList
      rcases or_eq_some_iff.mp source with atAny | ⟨_,atOne⟩
      · obtain ⟨_,same,schemas⟩ := (formed_list rfl).mp (placed.formed (by decide) atAny)
        cases same
        obtain ⟨a,mem,acc⟩ := any_eq_true.mp (negatedObeys.keyword _ _ atAny)
        exact ⟨a,mem,schemas a mem,acc⟩
      obtain ⟨_,same,schemas⟩ := (formed_list rfl).mp (placed.formed (by decide) atOne)
      cases same
      have one := negatedObeys.keyword _ _ atOne
      obtain ⟨a,isOnly⟩ := length_eq_one_iff.mp (beq_iff_eq.mp one)
      obtain ⟨mem,acc⟩ := mem_filter.mp (isOnly ▸ mem_singleton_self a)
      exact ⟨a,mem,schemas a mem,acc⟩
    | _ => cases isList
  obtain ⟨a,mem,good,acc⟩ := chosen
  dsimp only at answer
  split at answer
  · next apart =>
    have relation := all_eq_true.mp apart _ (mem_map_of_mem mem)
    rw [decide_eq_true_eq] at relation
    refine separates sub a.normalize schema (wide.normal a good) relation v exact
      ((accepts_obj (narrow.placed schema).sorted).mpr obeys) ?_
    rw [wide.alike_normalize wide.exact good v exact]
    exact acc
  · split at answer
    · cases answer
    · split at answer <;> cases answer

lemma join_disjoint (joined : join described answers = .disjoint) : .disjoint ∈ answers := by
  unfold join at joined
  split at joined
  · next mem => exact contains_iff_mem.mp mem
  split at joined
  · cases joined
  · split at joined <;> cases joined

lemma separates_relationWithin (narrow : ExactFamily own) (wide : Negatable ts other) (depth : Nat) :
    Separates ts own other (relationWithin depth) := by
  induction depth with
  | zero =>
    intro sub negated _ schema answer v exact _ acc
    rcases wide.cases _ schema with ⟨b,rfl⟩ | ⟨fs,rfl,_⟩
    · cases b with
      | true => cases answer
      | false => cases acc
    · cases fs <;> cases answer
  | succ depth ih =>
    intro sub negated schema negatedSchema answer v exact subAccepts acc
    rcases wide.cases _ negatedSchema with ⟨b,rfl⟩ | ⟨fs,rfl,placed⟩
    · cases b with
      | true => cases answer
      | false => cases acc
    cases fs with
    | nil => cases answer
    | cons field rest =>
      have subExact := narrow.exact _ schema
      have obeys := (accepts_obj (narrow.placed schema).sorted).mp subAccepts
      have negatedObeys := (accepts_obj placed.sorted).mp acc
      have mem := join_disjoint answer
      simp only [mem_filterMap,mem_cons,not_mem_nil,or_false] at mem
      obtain ⟨_,group,found⟩ := mem
      rcases group with rfl | rfl | rfl | rfl | rfl
      · exact typeRelation_disjoint subExact exact obeys negatedObeys found
      · exact valueRelation_disjoint subExact exact obeys negatedObeys found
      · exact formatRelation_disjoint (wide.faithful _ negatedSchema) subExact exact obeys negatedObeys found
      · exact objectRelation_disjoint narrow wide ih schema negatedSchema exact obeys negatedObeys found
      · exact unionRelation_disjoint narrow wide ih schema negatedSchema exact obeys negatedObeys found
end Negation
lemma exactFamily_isSchema (vocab : Vocabulary) : ExactFamily (isSchema vocab) :=
  ⟨family_isSchema vocab,fun _ => exact_schema⟩

lemma negatable_isSchema (literal : vocab.Literal)
    (faithful : vocab.has "format" → ts.Faithful) : Negatable ts (isSchema vocab) where
  toExactFamily := exactFamily_isSchema vocab
  normal _ := isSchema_normalize literal
  faithful fs schema named := by
    obtain ⟨s,found⟩ := ne_none_iff_exists'.mp named
    exact faithful (Vocabulary.has_of_allows ((isSchema_obj.mp schema).allowed _ _ found))

lemma relation_disjoint (literal : other.Literal) (faithful : other.has "format" → ts.Faithful)
    (formed : Formed vocab sub) (schema : negated.isSchema other) (answer : relation sub negated = .disjoint) (exact : v.isExact)
    (acc : (obj sub).accepts ts v) : negated.accepts ts v = false := by
  rw [Bool.eq_false_iff]
  exact Negation.separates_relationWithin (exactFamily_isSchema vocab) (negatable_isSchema literal faithful) _ sub negated
    (isSchema_obj.mpr formed) schema answer v exact acc
end SchemaOrder
