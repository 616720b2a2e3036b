import SchemaOrder.Condition
import SchemaOrder.Memory
import SchemaOrder.Proofs.NormalForm
namespace SchemaOrder
open Schemas SchemaOrder.Normal List Fields Json Replacement Option Keyword
-- The normal form of a condition is decided as the condition itself, and normalizing once more changes nothing.
def literalParcel : Json :=
  .obj [("anyOf",.arr [.single "not" (.single "enum" (.arr [.digit 1])),.single "type" (.str "object")]),
    ("properties",.single "size" (.obj [("const",.digit 5),("enum",.arr [.digit 4,.digit 5])])),("required",.arr [.str "size"])]

theorem Json.normalize_idempotent (s : Json) (orderly : s.Orderly) : s.normalize.normalize = s.normalize :=
  normalize_normalize orderly

theorem Json.normalize_idempotent_literalParcel : literalParcel.Orderly ∧ literalParcel.normalize =
      .obj [("anyOf",.arr [.single "not" (.obj [("const",.digit 1),("type",.str "integer")]),.single "type" (.str "object")]),
        ("properties",.single "size" (.obj [("const",.digit 5),("type",.str "integer")])),("required",.arr [.str "size"])] ∧
    literalParcel.normalize.normalize = literalParcel.normalize := by
  have orderly : literalParcel.Orderly := by decide +kernel
  exact ⟨orderly,by rfl,Json.normalize_idempotent literalParcel orderly⟩
namespace Condition
section Nesting
variable {β : Type} {k k' : β} {fs normal : Fields} {key : String} {g : Json → Json}
lemma onList_map {tests tests' : List Json → β} (reads : normal.get? key = (fs.get? key).map g)
    (other : ∀ v, v.isArr = false → g v = v)
    (each : ∀ list, fs.get? key = some (.arr list) → ∃ image, g (.arr list) = .arr image ∧ tests image = tests' list)
    (rest : k = k') : (match normal.get? key with | some (.arr list) => tests list | _ => k) =
      match fs.get? key with | some (.arr list) => tests' list | _ => k' := by
  rw [reads]
  cases found : fs.get? key with
  | none => exact rest
  | some v =>
    cases v with
    | arr list =>
      obtain ⟨image,same,agree⟩ := each list found
      rw [map_some,same]
      exact agree
    | _ =>
      rw [map_some,other _ rfl]
      exact rest

lemma onFields_map {tests tests' : Fields → β} (reads : normal.get? key = (fs.get? key).map g)
    (other : ∀ v, v.isObj = false → g v = v)
    (each : ∀ map, fs.get? key = some (.obj map) → ∃ image, g (.obj map) = .obj image ∧ tests image = tests' map)
    (rest : k = k') : (match normal.get? key with | some (.obj map) => tests map | _ => k) =
      match fs.get? key with | some (.obj map) => tests' map | _ => k' := by
  rw [reads]
  cases found : fs.get? key with
  | none => exact rest
  | some v =>
    cases v with
    | obj map =>
      obtain ⟨image,same,agree⟩ := each map found
      rw [map_some,same]
      exact agree
    | _ =>
      rw [map_some,other _ rfl]
      exact rest
end Nesting
variable {m : Type → Type} [Monad m]
-- The tests of a condition run one after the other, and the first that fails ends them.
lemma failing_congr {x x' k k' : m Bool} (same : x = x') (rest : k = k') :
    (x >>= fun holds => if !holds then pure false else k) = x' >>= fun holds => if !holds then pure false else k' := by
  rw [same,rest]
section Lists
variable {α β : Type} {test : β → m Bool} {test' : α → m Bool} {f : α → β} {l : List α}
section
variable (same : ∀ a ∈ l, test (f a) = test' a)
include same
lemma allHold_map : allHold test (l.map f) = allHold test' l := by
  induction l with
  | nil => rfl
  | cons a rest ih =>
    rw [map_cons,allHold,allHold,same a mem_cons_self,ih fun b later => same b (.tail _ later)]

lemma someHolds_map : someHolds test (l.map f) = someHolds test' l := by
  induction l with
  | nil => rfl
  | cons a rest ih =>
    rw [map_cons,someHolds,someHolds,same a mem_cons_self,ih fun b later => same b (.tail _ later)]

lemma oneHolds_map : oneHolds test (l.map f) = oneHolds test' l := by
  induction l with
  | nil => rfl
  | cons a rest ih =>
    have later b later : test (f b) = test' b := same b (.tail _ later)
    rw [map_cons,oneHolds,oneHolds,same a mem_cons_self,someHolds_map later,ih later]
end
end Lists
section Literals
variable {fs : Fields} {v : Json}
lemma literalFits_collapseEnum (sorted : fs.Sorted) : literalFits (collapseEnum fs) v = literalFits fs v := by
  unfold collapseEnum
  split
  · next only noConst found =>
    have atConst : ((fs.erase "enum").put "const" only).get? "const" = some only := get?_put_self _ _ _
    have atEnum : ((fs.erase "enum").put "const" only).get? "enum" = none := by
      rw [get?_put_other (by decide),get?_erase_self sorted]
    have atType : ((fs.erase "enum").put "const" only).get? "type" = fs.get? "type" := by
      rw [get?_put_other (by decide),get?_erase_other (by decide)]
    simp [literalFits,atEnum,atType,noConst,found]
  · rfl
section
variable (exactly : (obj fs).isExact) (value : v.isExact)
include exactly value
lemma literalFits_dropEnum : literalFits (dropEnum fs) v = literalFits fs v := by
  unfold dropEnum
  split
  · next constant ms atConst atEnum =>
    split
    · next among =>
      have sorted := (exact_obj.mp exactly).1
      have noEnum : (fs.erase "enum").get? "enum" = none := get?_erase_self sorted
      have sameConst : (fs.erase "enum").get? "const" = some constant := (get?_erase_other (by decide)).trans atConst
      have sameType : (fs.erase "enum").get? "type" = fs.get? "type" := get?_erase_other (by decide)
      simp only [literalFits,noEnum,sameConst,sameType,atConst,atEnum]
      congr 1
      cases equal : constant.deepEqual v with
      | false => rfl
      | true =>
        rw [(deepEqual_iff (exact_get? exactly atConst) value).mp equal] at among
        exact among.symm
    · rfl
  · rfl

-- A constant brings the type of the only value that fits it.
lemma literalFits_inferType : literalFits (inferType fs) v = literalFits fs v := by
  unfold inferType
  split
  · next constant noType atConst =>
    have sameConst : (fs.put "type" (.str constant.kind)).get? "const" = some constant :=
      (get?_put_other (by decide)).trans atConst
    have sameEnum : (fs.put "type" (.str constant.kind)).get? "enum" = fs.get? "enum" := get?_put_other (by decide)
    have typed : (fs.put "type" (.str constant.kind)).get? "type" = some (.str constant.kind) := get?_put_self _ _ _
    simp only [literalFits,sameConst,sameEnum,atConst,noType]
    cases equal : constant.deepEqual v with
    | false => simp
    | true =>
      have fits : v.hasType constant.kind := by
        rw [(deepEqual_iff (exact_get? exactly atConst) value).mp equal,hasType_iff,typeWithin_iff]
        exact .inl rfl
      simp [typeNames,fits]
  · rfl

lemma literalFits_settle : literalFits (settle fs) v = literalFits fs v := by
  have collapsed := exact_collapseEnum exactly
  unfold settle
  rw [literalFits_inferType (exact_dropEnum collapsed) value,literalFits_dropEnum collapsed value,
    literalFits_collapseEnum (exact_obj.mp exactly).1]
end
end Literals
section Keywords
variable {fs : Fields} {v : Json}
lemma get?_normal (other : key ∉ ["const","enum","type"]) (fs : Fields) :
    (settle (mapFields normalize fs)).get? key = (fs.get? key).map (mapKeyword normalize key) := by
  rw [get?_settle other,get?_mapFields]

lemma get?_normal_leaf (other : key ∉ ["const","enum","type"]) (leaf : shape key ∈ leaves)
    (fs : Fields) : (settle (mapFields normalize fs)).get? key = fs.get? key := by
  rw [get?_settle other,get?_mapFields_leaf leaf]

lemma has_normal (other : key ∉ ["const","enum","type"]) (fs : Fields) :
    has (settle (mapFields normalize fs)) key = fs.has key := by
  unfold has
  rw [get?_normal other,isSome_map]

lemma literalFits_normal (exactly : (obj fs).isExact) (value : v.isExact) :
    literalFits (settle (mapFields normalize fs)) v = literalFits fs v := by
  rw [literalFits_settle (exact_mapFields exactly) value]
  simp only [literalFits,get?_mapFields_leaf (show shape "const" ∈ _ by decide),
    get?_mapFields_leaf (show shape "enum" ∈ _ by decide),get?_mapFields_leaf (show shape "type" ∈ _ by decide)]

lemma within_normal (other : key ∉ ["const","enum","type"]) (leaf : shape key ∈ leaves)
    (fs : Fields) (holds : Float → Bool) :
    within (settle (mapFields normalize fs)) key holds = within fs key holds := by
  unfold within bound?
  rw [get?_normal_leaf other leaf]

lemma numberFits_normal (fs : Fields) (v : Json) : numberFits (settle (mapFields normalize fs)) v = numberFits fs v := by
  unfold numberFits
  simp only [within_normal (show "minimum" ∉ _ by decide) (by decide),within_normal (show "maximum" ∉ _ by decide) (by decide),
    within_normal (show "exclusiveMinimum" ∉ _ by decide) (by decide),within_normal (show "multipleOf" ∉ _ by decide) (by decide),
    within_normal (show "exclusiveMaximum" ∉ _ by decide) (by decide)]

lemma arrayFits_normal (fs : Fields) (v : Json) : arrayFits (settle (mapFields normalize fs)) v = arrayFits fs v := by
  unfold arrayFits
  simp only [within_normal (show "minItems" ∉ _ by decide) (by decide),within_normal (show "maxItems" ∉ _ by decide) (by decide),
    get?_normal_leaf (show "uniqueItems" ∉ _ by decide) (by decide)]

lemma stringFits_normal (e : Engine m) (fs : Fields) (v : Json) :
    stringFits e (settle (mapFields normalize fs)) v = stringFits e fs v := by
  unfold stringFits
  simp only [within_normal (show "minLength" ∉ _ by decide) (by decide),within_normal (show "maxLength" ∉ _ by decide) (by decide),
    get?_normal_leaf (show "pattern" ∉ _ by decide) (by decide),get?_normal_leaf (show "format" ∉ _ by decide) (by decide)]
end Keywords
structure Inside (fs : Fields) (t : Json) : Prop where
  exactly : t.isExact
  shallow : t.depth < (obj fs).depth
  normal : t.normalize.depth < (obj (settle (mapFields normalize fs))).depth
section Fields
variable {fs : Fields} {t : Json}
section
variable (exactly : (obj fs).isExact)
include exactly
lemma inside_list (shape : shape key = .schemaList) (other : key ∉ ["const","enum","type"])
    (found : fs.get? key = some (.arr list)) (mem : t ∈ list) : Inside fs t := by
  have image : (settle (mapFields normalize fs)).get? key = some (.arr (list.map normalize)) := by
    rw [get?_normal other,found]
    simp only [map_some,mapKeyword,shape]
  refine ⟨exact_item (exact_get? exactly found) mem,?_,?_⟩
  · exact lt_trans (depth_item mem) (depth_get? found)
  · exact lt_trans (depth_item (mem_map_of_mem mem)) (depth_get? image)

lemma inside_properties {map : Fields} {entry : String × Json}
    (found : fs.get? "properties" = some (.obj map)) (mem : entry ∈ map) : Inside fs entry.2 := by
  have image : (settle (mapFields normalize fs)).get? "properties" = some (.obj (mapEntries normalize map)) := by
    rw [get?_normal (by decide),found]
    rfl
  have mapped : (entry.1,entry.2.normalize) ∈ mapEntries normalize map := mem_map_of_mem mem
  refine ⟨(exact_obj.mp (exact_get? exactly found)).2 entry mem,?_,?_⟩
  · exact lt_trans (depth_field mem) (depth_get? found)
  · exact lt_trans (depth_field mapped) (depth_get? image)

lemma inside_not (found : fs.get? "not" = some t) : Inside fs t := by
  have image : (settle (mapFields normalize fs)).get? "not" = some t.normalize := by
    rw [get?_normal (by decide),found]
    rfl
  exact ⟨exact_get? exactly found,depth_get? found,depth_get? image⟩

lemma fieldsHold_normal {nested nested' : Json → m Bool} {fits fits' : Json → Json → m Bool} {data : Json}
    (value : data.isExact)
    (nestedSame : ∀ t, Inside fs t → nested t.normalize = nested' t)
    (fitsSame : ∀ t v, Inside fs t → v.isExact → fits t.normalize v = fits' t v) :
    fieldsHold nested fits (settle (mapFields normalize fs)) data = fieldsHold nested' fits' fs data := by
  have lists {key list} (name : key ∈ ["allOf","anyOf","oneOf"]) (found : fs.get? key = some (.arr list)) t
      (mem : t ∈ list) : nested t.normalize = nested' t := by
    have shape : shape key = .schemaList ∧ key ∉ ["const","enum","type"] := by
      fin_cases name <;> decide
    exact nestedSame t (inside_list exactly shape.1 shape.2 found mem)
  have ms name v (found : (data.fields?.getD []).get? name = some v) : v.isExact := by
    cases data with
    | obj own => exact exact_get? value found
    | _ => cases found
  have single {key} (shape : shape key = .schemaList) v (notArr : v.isArr = false) : mapKeyword normalize key v = v := by
    cases v with
    | arr => cases notArr
    | _ => simp only [mapKeyword,shape]
  have scalar {key} (shape : shape key ∈ [.schemaMap,.subSchema]) v (notObj : v.isObj = false) :
      mapKeyword normalize key v = v := by
    simp only [mem_cons,not_mem_nil,or_false] at shape
    cases v with
    | obj => cases notObj
    | _ => rcases shape with shape | shape <;> simp only [mapKeyword,shape,Json.normalize]
  refine onFields_map (get?_normal (show "properties" ∉ _ by decide) fs) (scalar (by decide))
    (fun map found => ⟨_,rfl,failing_congr (allHold_map fun entry mem => ?prop) ?required⟩) ?required
  case prop =>
    dsimp only
    cases given : (data.fields?.getD []).get? entry.1 with
    | none => rfl
    | some v => exact fitsSame entry.2 v (inside_properties exactly found mem) (ms entry.1 v given)
  refine onList_map ((get?_normal_leaf (show "required" ∉ _ by decide) (by decide) fs).trans map_id'.symm)
    (fun _ _ => rfl) (fun ns _ => ⟨ns,rfl,congrArg (ite _ (pure false)) ?allOf⟩) ?allOf
  refine onList_map (get?_normal (show "allOf" ∉ _ by decide) fs) (single rfl)
    (fun list found => ⟨_,rfl,failing_congr (allHold_map (lists (by decide) found)) ?anyOf⟩) ?anyOf
  refine onList_map (get?_normal (show "anyOf" ∉ _ by decide) fs) (single rfl)
    (fun list found => ⟨_,rfl,failing_congr (someHolds_map (lists (by decide) found)) ?oneOf⟩) ?oneOf
  refine onList_map (get?_normal (show "oneOf" ∉ _ by decide) fs) (single rfl)
    (fun list found => ⟨_,rfl,failing_congr (oneHolds_map (lists (by decide) found)) ?negated⟩) ?negated
  refine onFields_map (get?_normal (show "not" ∉ _ by decide) fs) (scalar (by decide))
    (fun map found => ⟨_,normalize_obj map,?_⟩) rfl
  rw [← normalize_obj,nestedSame _ (inside_not exactly found)]
end
end Fields
lemma within_normalize (e : Engine m) (exactly : s.isExact) (value : v.isExact)
    (enough : s.normalize.depth ≤ n) (also : s.depth ≤ k) :
    holdsWithin e n s.normalize v = holdsWithin e k s v ∧ fitsWithin e n s.normalize v = fitsWithin e k s v := by
  induction s using byDepth generalizing v n k with
  | step s ih =>
    cases s with
    | obj fs =>
      rw [normalize_obj] at enough ⊢
      obtain ⟨n,rfl⟩ : ∃ n', n = n' + 1 := Nat.exists_eq_succ_of_ne_zero (ne_of_gt (lt_of_lt_of_le (Nat.succ_pos _) enough))
      obtain ⟨k,rfl⟩ : ∃ k', k = k' + 1 := Nat.exists_eq_succ_of_ne_zero (ne_of_gt (lt_of_lt_of_le (Nat.succ_pos _) also))
      have below t w (inside : Inside fs t) exact :
          holdsWithin e n t.normalize w = holdsWithin e k t w ∧ fitsWithin e n t.normalize w = fitsWithin e k t w :=
        ih t inside.shallow inside.exactly exact
          (Nat.le_of_lt_succ (lt_of_lt_of_le inside.normal enough)) (Nat.le_of_lt_succ (lt_of_lt_of_le inside.shallow also))
      have kept : fieldsHold (fun c => holdsWithin e n c v) (fitsWithin e n) (settle (mapFields normalize fs)) v =
          fieldsHold (fun c => holdsWithin e k c v) (fitsWithin e k) fs v :=
        fieldsHold_normal exactly value (fun t inside => (below t v inside value).1)
          fun t w inside exact => (below t w inside exact).2
      refine ⟨kept,?_⟩
      unfold fitsWithin
      rw [kept,literalFits_normal exactly value,numberFits_normal,stringFits_normal,arrayFits_normal,
        has_normal (by decide),has_normal (by decide)]
    | _ => cases n <;> cases k <;> exact ⟨rfl,rfl⟩
end Condition
theorem Engine.holds_fits_normalize {m : Type → Type} [Monad m] (e : Engine m) (s v : Json) (exactly : s.isExact)
    (value : v.isExact) : e.holds s.normalize v = e.holds s v ∧ e.fits s.normalize v = e.fits s v :=
  Condition.within_normalize e exactly value (Nat.le_refl _) (Nat.le_refl _)

theorem Engine.holds_fits_normalize_literalParcel :
    literalParcel.isExact = true ∧ (Json.single "size" (.digit 5)).isExact = true ∧
      (((Memory.engine {} : Engine (StateM Memory)).holds literalParcel (.single "size" (.digit 5))).run {}).1 = true ∧
      (Memory.engine {} : Engine (StateM Memory)).holds literalParcel.normalize (.single "size" (.digit 5)) =
        (Memory.engine {} : Engine (StateM Memory)).holds literalParcel (.single "size" (.digit 5)) := by
  have exactly : literalParcel.isExact = true := by decide +kernel
  exact ⟨exactly,by decide +kernel,by rfl,(Engine.holds_fits_normalize _ literalParcel _ exactly (by decide +kernel)).1⟩
end SchemaOrder
