import SchemaOrder.Normal
import SchemaOrder.Proofs.SubSchemas
namespace SchemaOrder
open List Fields Json Vocabulary Replacement SchemaOrder.Normal Keyword
-- The normal form of a schema accepts the same values and is a schema over the same vocabulary.
structure Vocabulary.Literal (vocab : Vocabulary) : Prop where
  type : vocab.has "type"
  const : vocab.has "const"
open Acceptance Schemas
namespace Normal
variable {ts : Texts} {vocab : Vocabulary} {fs : Fields}
section Orderly
variable {nums : Num → Bool}
lemma orderly_collapseEnum (ord : (obj fs).isOrderly nums) : (obj (collapseEnum fs)).isOrderly nums := by
  unfold collapseEnum
  split
  · next only _ found =>
    exact orderly_put (orderly_erase ord) (orderly_item (orderly_get? ord found) mem_cons_self)
  · exact ord

lemma orderly_dropEnum (ord : (obj fs).isOrderly nums) : (obj (dropEnum fs)).isOrderly nums := by
  unfold dropEnum
  split
  · split
    · exact orderly_erase ord
    · exact ord
  · exact ord

lemma orderly_inferType (ord : (obj fs).isOrderly nums) : (obj (inferType fs)).isOrderly nums := by
  unfold inferType
  split
  · exact orderly_put ord rfl
  · exact ord
end Orderly
lemma keywordHolds_const (left : c.isExact) (right : v.isExact) : keywordHolds ts (accepts ts) "const" c v ↔ c = v :=
  deepEqual_iff left right

lemma keywordHolds_enum (left : ∀ m ∈ ms, m.isExact) (right : v.isExact) :
    keywordHolds ts (accepts ts) "enum" (.arr ms) v ↔ v ∈ ms :=
  among_iff right left

lemma alike_collapseEnum (exactly : (obj fs).isExact) : Alike ts (.obj (collapseEnum fs)) (.obj fs) := by
  have sorted := (exact_obj.mp exactly).1
  unfold collapseEnum
  split
  · next only noConst found =>
    intro v exact
    have erased : fs.erase "enum" |>.Sorted := sorted_erase sorted
    have free : (fs.erase "enum").get? "const" = none := (get?_erase_other (by decide)).trans noConst
    have one : only.isExact := exact_item (exact_get? exactly found) mem_cons_self
    rw [Bool.eq_iff_iff,accepts_put erased (by decide),accepts_erase sorted (show "enum" ∉ grouped by decide),
      accepts_erase erased (show "const" ∉ grouped by decide),found,free]
    simp only [reduceCtorEq,false_implies,implies_true,and_true,Option.some.injEq,forall_eq']
    rw [keywordHolds_const one exact,keywordHolds_enum (by simpa using one) exact,mem_singleton,@eq_comm _ only]
  · exact Alike.refl ts _

lemma eq_const (exactly : (obj fs).isExact) (other : key ≠ "const") (atConst : fs.get? "const" = some constant)
    (exact : v.isExact) (acc : (obj (fs.erase key)).accepts ts v) : constant = v := by
  have obeys := (accepts_obj (sorted_erase (exact_obj.mp exactly).1)).mp acc
  exact (keywordHolds_const (exact_get? exactly atConst) exact).mp
    (obeys.keyword "const" constant ((get?_erase_other other).trans atConst))

lemma alike_dropEnum (exactly : (obj fs).isExact) : Alike ts (.obj (dropEnum fs)) (.obj fs) := by
  have sorted := (exact_obj.mp exactly).1
  unfold dropEnum
  split
  · next constant ms atConst atEnum =>
    split
    · next among =>
      intro v exact
      rw [Bool.eq_iff_iff,accepts_erase sorted (show "enum" ∉ grouped by decide),atEnum]
      refine (and_iff_left_of_imp fun acc s same => ?_).symm
      cases same
      cases eq_const exactly (by decide) atConst exact acc
      exact among
    · exact Alike.refl ts _
  · exact Alike.refl ts _

lemma alike_inferType (exactly : (obj fs).isExact) : Alike ts (.obj (inferType fs)) (.obj fs) := by
  have sorted := (exact_obj.mp exactly).1
  unfold inferType
  split
  · next constant noType atConst =>
    intro v exact
    rw [Bool.eq_iff_iff,accepts_put sorted (by decide),accepts_erase sorted (show "type" ∉ grouped by decide),noType]
    simp only [reduceCtorEq,false_implies,implies_true,and_true]
    refine and_iff_left_of_imp fun acc => ?_
    cases eq_const exactly (by decide) atConst exact acc
    change ([constant.kind].any constant.hasType)
    simp [hasType_iff,typeWithin_iff]
  · exact Alike.refl ts _

lemma formed_collapseEnum (literal : vocab.Literal) (formed : Formed vocab fs) : Formed vocab (collapseEnum fs) := by
  unfold collapseEnum
  split
  · next only noConst found =>
    have one : only.isExact := Intersection.formed_enum.mp (formed.formed _ _ found) only mem_cons_self
    exact (formed.erase (by decide)).put (by decide) (allows_plain literal.const (by decide) _) one
  · exact formed

lemma formed_dropEnum (formed : Formed vocab fs) : Formed vocab (dropEnum fs) := by
  unfold dropEnum
  split
  · split
    · exact formed.erase (by decide)
    · exact formed
  · exact formed

lemma formed_inferType (literal : vocab.Literal) (formed : Formed vocab fs) : Formed vocab (inferType fs) := by
  unfold inferType
  split
  · exact formed.put (by decide) (allows_plain literal.type (by decide) _) rfl
  · exact formed

lemma exact_collapseEnum (exactly : (obj fs).isExact) : (obj (collapseEnum fs)).isExact := by
  rw [isExact_eq] at exactly ⊢
  exact orderly_collapseEnum exactly

lemma exact_dropEnum (exactly : (obj fs).isExact) : (obj (dropEnum fs)).isExact := by
  rw [isExact_eq] at exactly ⊢
  exact orderly_dropEnum exactly

lemma alike_settle (exactly : (obj fs).isExact) : Alike ts (.obj (settle fs)) (.obj fs) :=
  have collapsed := exact_collapseEnum exactly
  ((alike_inferType (exact_dropEnum collapsed)).trans (alike_dropEnum collapsed)).trans (alike_collapseEnum exactly)

lemma get?_inferType (other : "type" ≠ key) : (inferType fs).get? key = fs.get? key := by
  unfold inferType
  split
  · exact get?_put_other other
  · rfl

lemma get?_dropEnum (other : "enum" ≠ key) : (dropEnum fs).get? key = fs.get? key := by
  unfold dropEnum
  split
  · split
    · exact get?_erase_other other
    · rfl
  · rfl

-- Settling writes to these three keywords only.
lemma get?_settle (other : key ∉ ["const","enum","type"]) (fs : Fields) : (settle fs).get? key = fs.get? key := by
  simp only [mem_cons,not_mem_nil,or_false,not_or] at other
  obtain ⟨notConst,notEnum,notType⟩ := other
  have collapsed : (collapseEnum fs).get? key = fs.get? key := by
    unfold collapseEnum
    split
    · exact (get?_put_other (Ne.symm notConst)).trans (get?_erase_other (Ne.symm notEnum))
    · rfl
  exact (get?_inferType (Ne.symm notType)).trans ((get?_dropEnum (Ne.symm notEnum)).trans collapsed)

lemma formed_settle (literal : vocab.Literal) (formed : Formed vocab fs) : Formed vocab (settle fs) :=
  formed_inferType literal (formed_dropEnum (formed_collapseEnum literal formed))

structure Settled (fs : Fields) : Prop where
  several : fs.get? "const" = none → ∀ only, fs.get? "enum" ≠ some (.arr [only])
  outside : ∀ c ms, fs.get? "const" = some c → fs.get? "enum" = some (.arr ms) → c.among ms = false
  typed : ∀ c, fs.get? "const" = some c → fs.get? "type" ≠ none

lemma settle_of_settled (settled : Settled fs) : settle fs = fs := by
  have collapsed : collapseEnum fs = fs := by
    unfold collapseEnum
    split
    · next only absent found => exact absurd found (settled.several absent only)
    · rfl
  have dropped : dropEnum fs = fs := by
    unfold dropEnum
    split
    · next c ms constant found => rw [settled.outside c ms constant found,if_neg Bool.false_ne_true]
    · rfl
  have inferred : inferType fs = fs := by
    unfold inferType
    split
    · next c absent constant => exact absurd absent (settled.typed c constant)
    · rfl
  unfold settle
  rw [collapsed,dropped,inferred]

-- A collapsed enumeration leaves a constant.
lemma several_collapseEnum (absent : (collapseEnum fs).get? "const" = none) (only : Json) :
    (collapseEnum fs).get? "enum" ≠ some (.arr [only]) := by
  intro found
  unfold collapseEnum at absent found
  split at absent
  · rw [get?_put] at absent
    cases absent
  next differs =>
  split at found
  · next only isConst isEnum => exact differs only isConst isEnum
  · exact differs only absent found

lemma outside_dropEnum (sorted : fs.Sorted) (given : fs.get? "const" = some c)
    (found : (dropEnum fs).get? "enum" = some (.arr ms)) : c.among ms = false := by
  unfold dropEnum at found
  split at found
  · next c' list isConst isEnum =>
    cases given.symm.trans isConst
    split at found
    · rw [get?_erase_self sorted] at found
      cases found
    next apart =>
    cases isEnum.symm.trans found
    exact Bool.not_eq_true _ ▸ apart
  · next differs => exact absurd found (differs c ms given)

lemma typed_inferType (given : fs.get? "const" = some c) : (inferType fs).get? "type" ≠ none := by
  intro absent
  unfold inferType at absent
  split at absent
  · rw [get?_put] at absent
    cases absent
  · next differs => exact differs c absent given

lemma sorted_collapseEnum (sorted : fs.Sorted) : (collapseEnum fs).Sorted := by
  unfold collapseEnum
  split
  · exact sorted_put (sorted_erase sorted)
  · exact sorted

lemma sorted_settle (sorted : fs.Sorted) : (settle fs).Sorted := by
  have dropped : (dropEnum (collapseEnum fs)).Sorted := by
    unfold dropEnum
    split
    · split
      · exact sorted_erase (sorted_collapseEnum sorted)
      · exact sorted_collapseEnum sorted
    · exact sorted_collapseEnum sorted
  unfold settle inferType
  split
  · exact sorted_put dropped
  · exact dropped

lemma const_settle : (settle fs).get? "const" = (collapseEnum fs).get? "const" :=
  (get?_inferType (by decide)).trans (get?_dropEnum (by decide))

lemma settled_settle (sorted : fs.Sorted) : Settled (settle fs) := by
  have constant : (settle fs).get? "const" = (collapseEnum fs).get? "const" := const_settle
  have members : (settle fs).get? "enum" = (dropEnum (collapseEnum fs)).get? "enum" := get?_inferType (by decide)
  refine ⟨fun absent only found => ?_,fun c list given found => ?_,fun c given => ?_⟩
  · rw [constant] at absent
    rw [members] at found
    have kept : dropEnum (collapseEnum fs) = collapseEnum fs := by
      unfold dropEnum
      rw [absent]
    exact several_collapseEnum absent only (kept ▸ found)
  · exact outside_dropEnum (sorted_collapseEnum sorted) (constant ▸ given) (members ▸ found)
  · exact typed_inferType ((get?_dropEnum (by decide)).trans (constant ▸ given))

lemma settle_settle (sorted : fs.Sorted) : settle (settle fs) = settle fs := settle_of_settled (settled_settle sorted)

-- A constant replaces an enumeration that holds it, and brings a type.
lemma get?_settle_const (sorted : fs.Sorted) (given : fs.get? "const" = some c)
    (held : ∀ s, fs.get? "enum" = some s → ∃ members, s = .arr members ∧ c.among members) (key : String) :
    (settle fs).get? key = if key = "enum" then none
      else if key = "type" then (fs.get? "type").or (some (.str c.kind)) else fs.get? key := by
  have uncollapsed : collapseEnum fs = fs := by
    unfold collapseEnum
    rw [given]
  have dropped : (dropEnum fs).get? key = if key = "enum" then none else fs.get? key := by
    unfold dropEnum
    rw [given]
    cases found : fs.get? "enum" with
    | none =>
      change fs.get? key = _
      split
      · next is => rw [is]; exact found
      · rfl
    | some s =>
      obtain ⟨ms,rfl,inside⟩ := held s found
      dsimp only
      rw [inside,if_pos rfl,get?_erase sorted]
      simp only [eq_comm]
  have constant : (dropEnum fs).get? "const" = some c := (get?_dropEnum (by decide)).trans given
  have typed : (dropEnum fs).get? "type" = fs.get? "type" := get?_dropEnum (by decide)
  unfold settle
  rw [uncollapsed]
  by_cases isType : key = "type"
  · subst isType
    unfold inferType
    rw [typed,constant]
    cases found : fs.get? "type" with
    | none => exact get?_put_self _ _ _
    | some t => exact typed.trans found
  · rw [get?_inferType (symm isType),dropped,if_neg isType]

lemma get?_settle_single (sorted : fs.Sorted) (absent : fs.get? "const" = none)
    (single : fs.get? "enum" = some (.arr [c])) (key : String) : (settle fs).get? key = if key = "enum" then none
      else if key = "type" then (fs.get? "type").or (some (.str c.kind))
        else if key = "const" then some c else fs.get? key := by
  set fixed := (fs.erase "enum").put "const" c
  have collapsed : collapseEnum fs = fixed := by
    unfold collapseEnum
    rw [absent,single]
  have constant : fixed.get? "const" = some c := get?_put_self _ _ _
  have once : settle fs = settle fixed := by
    unfold settle
    rw [collapsed,show collapseEnum fixed = fixed by unfold collapseEnum; rw [constant]]
  have unlisted : fixed.get? "enum" = none := by
    rw [get?_put_other (by decide),get?_erase_self sorted]
  have other {name} (notEnum : "enum" ≠ name) (notConst : "const" ≠ name) : fixed.get? name = fs.get? name := by
    rw [get?_put_other notConst,get?_erase_other notEnum]
  rw [once,get?_settle_const (sorted_put (sorted_erase sorted)) constant (fun s found => ?_),
    other (by decide) (by decide)]
  · by_cases isConst : key = "const"
    · subst isConst
      rw [constant]
      rfl
    by_cases isEnum : key = "enum"
    · rw [if_pos isEnum,if_pos isEnum]
    · rw [other (symm isEnum) (symm isConst),if_neg isConst]
  · rw [unlisted] at found
    cases found

structure Fixed (c : Json) (fs settled : Fields) : Prop where
  source : fs.get? "const" = some c ∨ fs.get? "const" = none ∧ fs.get? "enum" = some (.arr [c])
  constant : settled.get? "const" = some c
  unlisted : settled.get? "enum" = none
  typed : settled.get? "type" = (fs.get? "type").or (some (.str c.kind))
  other : ∀ key, key ∉ ["const","enum","type"] → settled.get? key = fs.get? key

-- Where a constant is in the enumeration beside it, settling leaves all as it is or leaves a constant alone.
lemma settle_cases (sorted : fs.Sorted) (held : ∀ c, fs.get? "const" = some c → ∀ s, fs.get? "enum" = some s →
    ∃ ms, s = .arr ms ∧ c.among ms) :
    (settle fs = fs ∧ fs.get? "const" = none) ∨ ∃ c, Fixed c fs (settle fs) := by
  cases given : fs.get? "const" with
  | some c =>
    have reads := get?_settle_const sorted given (held c given)
    refine .inr ⟨c,.inl given,(reads "const").trans given,reads "enum",reads "type",fun key other => ?_⟩
    simp only [mem_cons,not_mem_nil,or_false,not_or] at other
    rw [reads,if_neg other.2.1,if_neg other.2.2]
  | none =>
    by_cases single : ∃ c, fs.get? "enum" = some (.arr [c])
    · obtain ⟨c,single⟩ := single
      have reads := get?_settle_single sorted given single
      refine .inr ⟨c,.inr ⟨given,single⟩,reads "const",reads "enum",reads "type",fun key other => ?_⟩
      simp only [mem_cons,not_mem_nil,or_false,not_or] at other
      rw [reads,if_neg other.2.1,if_neg other.2.2,if_neg other.1]
    refine .inl ⟨settle_of_settled ⟨fun _ only found => single ⟨only,found⟩,fun c _ found => ?_,fun c found => ?_⟩,rfl⟩
    · rw [given] at found
      cases found
    rw [given] at found
    cases found
end Normal
namespace Schemas
lemma normalizeItems_eq (xs : List Json) : normalizeItems xs = xs.map normalize := by
  induction xs with
  | nil => rfl
  | cons v rest ih => rw [normalizeItems,ih,map_cons]

lemma normalizeEntries_eq (es : Fields) : normalizeEntries es = mapEntries normalize es := by
  unfold mapEntries
  induction es with
  | nil => rfl
  | cons entry rest ih => rw [normalizeEntries,ih,map_cons]

lemma normalize_if_isArr : (fun d : Json => if d.isArr then d else d.normalize) = normalize := by
  funext d
  cases d <;> rfl

lemma normalizeKeywords_eq (fs : Fields) : normalizeKeywords fs = mapFields normalize fs := by
  induction fs with
  | nil => rfl
  | cons field rest ih =>
    obtain ⟨key,value⟩ := field
    change _ = (key,mapKeyword normalize key value) :: mapFields normalize rest
    rw [← ih]
    unfold mapKeyword
    rw [normalize_if_isArr]
    cases shape : shape key <;> cases value <;>
      simp [normalizeKeywords,shape,normalizeItems_eq,normalizeEntries_eq,Json.normalize]

lemma normalize_obj (fs : Fields) : (obj fs).normalize = .obj (settle (mapFields normalize fs)) := by
  rw [Json.normalize,normalizeKeywords_eq]

lemma field?_normalize (other : key ∉ ["const","enum","type"]) (s : Json) :
    s.normalize.field? key = (s.field? key).map (mapKeyword normalize key) := by
  cases s with
  | obj fs =>
    rw [normalize_obj]
    change (settle (mapFields normalize fs)).get? key = (get? fs key).map _
    rw [get?_settle other,get?_mapFields]
  | _ => rfl
variable {ts : Texts} {vocab : Vocabulary} {fs : Fields} {f : Json → Json} {s : Json}
lemma formed_mapFields (formed : Formed vocab fs)
    (good : ∀ t, t.isSchema vocab → t.depth < (obj fs).depth → (f t).isSchema vocab)
    (flat : vocab.describesExtra ∨ ∀ b, f (.bool b) = .bool b) : Formed vocab (mapFields f fs) where
  sorted := sorted_mapFields formed.sorted
  allowed key s found := by
    rw [get?_mapFields] at found
    obtain ⟨t,at_,rfl⟩ := Option.map_eq_some_iff.mp found
    have allowed := formed.allowed key t at_
    by_cases special : key ∈ ["additionalProperties","format"]
    · fin_cases special
      · obtain ⟨known,kind⟩ := allows_extra.mp allowed
        refine allows_extra.mpr ⟨known,?_⟩
        rcases kind with describes | isBool
        · exact .inl describes
        refine flat.imp_right fun flat => ?_
        cases t with
        | bool b => change (f (.bool b)).bool?.isSome; rw [flat]; rfl
        | _ => cases isBool
      · exact allowed
    · exact allows_plain (has_of_allows allowed) special _
  formed key s found := by
    rw [get?_mapFields] at found
    obtain ⟨t,at_,rfl⟩ := Option.map_eq_some_iff.mp found
    exact formed_mapKeyword (fun _ schema => (family_isSchema vocab).single schema) (formed.formed key t at_) fun u schema shallow =>
      good u schema (lt_of_le_of_lt shallow (depth_get? at_))
  conditional absent := by
    simp only [get?_mapFields,Option.map_eq_none_iff] at absent ⊢
    exact formed.conditional absent

lemma isSchema_normalize (literal : vocab.Literal) (schema : s.isSchema vocab) : s.normalize.isSchema vocab := by
  induction s using byDepth with
  | step s ih =>
    rcases isSchema_cases schema with ⟨b,rfl⟩ | ⟨fs,rfl,formed⟩
    · exact schema
    rw [normalize_obj]
    refine isSchema_obj.mpr (formed_settle literal ?_)
    exact formed_mapFields formed (fun t good shallow => ih t shallow good) (.inr fun _ => rfl)
end Schemas
namespace Json
variable {nums : Num → Bool} {fs : Fields} {key : String} {s : Json}
lemma orderly_mapKeyword {f : Json → Json} (ord : s.isOrderly nums)
    (each : ∀ t, t.depth ≤ s.depth → t.isOrderly nums → (f t).isOrderly nums) : (mapKeyword f key s).isOrderly nums := by
  have items : ∀ list, s = .arr list → (arr (list.map f)).isOrderly nums := by
    rintro list rfl
    refine orderly_arr.mpr fun v mem => ?_
    obtain ⟨t,inside,rfl⟩ := mem_map.mp mem
    exact each t (le_of_lt (depth_item inside)) (orderly_item ord inside)
  have entries : ∀ map g, s = .obj map → (∀ t, t.depth ≤ s.depth → t.isOrderly nums → (g t).isOrderly nums) →
      (obj (mapEntries g map)).isOrderly nums := by
    rintro map g rfl good
    obtain ⟨sorted,orderlies⟩ := orderly_obj.mp ord
    refine orderly_obj.mpr ⟨sorted_mapEntries sorted,fun entry mem => ?_⟩
    obtain ⟨own,inside,rfl⟩ := mem_map.mp mem
    exact good own.2 (le_of_lt (depth_field inside)) (orderlies own inside)
  unfold mapKeyword
  split
  · exact each _ (le_rfl) ord
  · exact items _ rfl
  · exact each _ (le_rfl) ord
  · exact items _ rfl
  · exact entries _ f rfl each
  · refine entries _ _ rfl fun t shallow good => ?_
    split
    · exact good
    · exact each t shallow good
  · exact ord

lemma orderly_settle (ord : (obj fs).isOrderly nums) : (obj (settle fs)).isOrderly nums :=
  orderly_inferType (orderly_dropEnum (orderly_collapseEnum ord))

lemma orderly_mapFields {f : Json → Json} (ord : (obj fs).isOrderly nums)
    (each : ∀ t, t.depth < (obj fs).depth → t.isOrderly nums → (f t).isOrderly nums) :
    (obj (mapFields f fs)).isOrderly nums := by
  obtain ⟨sorted,orderlies⟩ := orderly_obj.mp ord
  refine orderly_obj.mpr ⟨sorted_mapFields sorted,fun field mem => ?_⟩
  obtain ⟨own,inside,rfl⟩ := mem_map.mp mem
  exact orderly_mapKeyword (orderlies own inside) fun t shallow => each t (lt_of_le_of_lt shallow (depth_field inside))

lemma orderly_normalize (ord : s.isOrderly nums) : s.normalize.isOrderly nums := by
  induction s using byDepth with
  | step s ih =>
    cases s with
    | obj fs =>
      rw [normalize_obj]
      exact orderly_settle (orderly_mapFields ord ih)
    | _ => exact ord

lemma exact_mapFields (exactly : (obj fs).isExact) : (obj (mapFields normalize fs)).isExact := by
  rw [isExact_eq] at exactly ⊢
  exact orderly_mapFields exactly fun _ _ => orderly_normalize

lemma mapKeyword_twice (ord : v.isOrderly nums)
    (each : ∀ t : Json, t.depth ≤ v.depth → t.isOrderly nums → t.normalize.normalize = t.normalize) :
    mapKeyword normalize key (mapKeyword normalize key v) = mapKeyword normalize key v := by
  have whole := each v (le_rfl) ord
  cases v with
  | arr list =>
    have items : (list.map normalize).map normalize = list.map normalize := by
      rw [map_map]
      exact map_congr_left fun t inside => each t (le_of_lt (depth_item inside)) (orderly_item ord inside)
    cases shape : shape key <;> simp only [mapKeyword,shape,normalize,items]
  | obj map =>
    have entries : mapEntries normalize (mapEntries normalize map) = mapEntries normalize map := by
      unfold mapEntries
      rw [map_map]
      exact map_congr_left fun entry inside =>
        Prod.ext rfl (each entry.2 (le_of_lt (depth_field inside)) ((orderly_obj.mp ord).2 entry inside))
    rw [normalize_obj] at whole
    cases shape : shape key <;> simp only [mapKeyword,shape,normalize_if_isArr,entries,normalize_obj,whole]
  | _ => cases shape : shape key <;> simp only [mapKeyword,shape,normalize]

lemma normalize_normalize (ord : s.isOrderly nums) : s.normalize.normalize = s.normalize := by
  induction s using byDepth with
  | step s ih =>
    cases s with
    | obj fs =>
      obtain ⟨sorted,orderlies⟩ := orderly_obj.mp ord
      have sortedNow := (orderly_obj.mp (normalize_obj fs ▸ orderly_normalize ord)).1
      rw [normalize_obj,normalize_obj]
      have same : mapFields normalize (settle (mapFields normalize fs)) = settle (mapFields normalize fs) := by
        refine ext (sorted_mapFields sortedNow) sortedNow fun key => ?_
        by_cases settled : key ∈ ["const","enum","type"]
        · have leaf : shape key ∈ leaves := by
            fin_cases settled <;> decide
          exact get?_mapFields_leaf leaf _
        rw [get?_mapFields,get?_settle settled,get?_mapFields]
        cases found : get? fs key with
        | none => rfl
        | some v =>
          have below := depth_get? found
          exact congrArg some (mapKeyword_twice (orderly_get? ord found) fun t shallow =>
            ih t (lt_of_le_of_lt shallow below))
      rw [same,settle_settle (sorted_mapFields sorted)]
    | _ => rfl
end Json
lemma Family.alike_normalize {good : Json → Bool} (family : Family good)
    (exactly : ∀ t, good t → t.isExact) (schema : good s) : Alike ts s.normalize s := by
  induction s using byDepth with
  | step s ih =>
    rcases family.cases s schema with ⟨b,rfl⟩ | ⟨fs,rfl,placed⟩
    · exact Alike.refl ts _
    have keeps : Keeps (·.isExact) ts good normalize (obj fs).depth := by
      refine ⟨fun t good shallow => ih t shallow good,fun t good _ => ?_⟩
      rcases family.cases t good with ⟨b,rfl⟩ | ⟨fs,rfl,_⟩
      all_goals rfl
    rw [normalize_obj]
    exact (alike_settle (exact_mapFields (exactly _ schema))).trans (alike_map hereditary_exact family placed keeps)

lemma Schemas.alike_normalize (schema : s.isSchema vocab) : Alike ts s.normalize s :=
  (family_isSchema vocab).alike_normalize (fun _ => exact_schema) schema
end SchemaOrder
