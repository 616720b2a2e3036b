import SchemaOrder.Proofs.Intersection.Rules
namespace SchemaOrder
open Acceptance Schemas List Fields Json Option Keyword
-- A schema sees its sub-schemas only through the values they accept, so replacing them by equals changes nothing.
def Alike (ts : Texts) (a b : Json) : Prop :=
  ∀ v, v.isExact → a.accepts ts v = b.accepts ts v
namespace Alike
variable {ts : Texts} {a b c : Json}
lemma refl (ts : Texts) (a : Json) : Alike ts a a := fun _ _ => rfl

lemma symm (alike : Alike ts a b) : Alike ts b a := fun v exact => (alike v exact).symm

lemma trans (first : Alike ts a b) (second : Alike ts b c) : Alike ts a c :=
  fun v exact => (first v exact).trans (second v exact)
end Alike
-- Both schemas accept the same of the values that are looked at.
def AlikeOn (proper : Json → Prop) (ts : Texts) (a b : Json) : Prop :=
  ∀ v, proper v → a.accepts ts v = b.accepts ts v

-- With a value its parts are looked at, and texts are, which may be names of members.
structure Hereditary (proper : Json → Prop) : Prop where
  text : ∀ s, proper (.str s)
  item : ∀ {xs v}, proper (.arr xs) → v ∈ xs → proper v
  member : ∀ {fs : Fields} {field}, proper (.obj fs) → field ∈ fs → proper field.2

lemma hereditary_exact : Hereditary fun v => v.isExact :=
  ⟨fun _ => rfl,exact_item,fun exact mem => (exact_obj.mp exact).2 _ mem⟩

def mapEntries (f : Json → Json) (es : Fields) : Fields :=
  es.map fun entry => (entry.1,f entry.2)

def mapKeyword (f : Json → Json) (key : String) (s : Json) : Json :=
  match shape key, s with
  | .subSchema, s => f s
  | .items, .arr tuple => .arr (tuple.map f)
  | .items, single => f single
  | .schemaList, .arr ms => .arr (ms.map f)
  | .schemaMap, .obj es => .obj (mapEntries f es)
  | .dependencies, .obj es => .obj (mapEntries (fun d => if d.isArr then d else f d) es)
  | _, s => s

def mapFields (f : Json → Json) (fs : Fields) : Fields :=
  fs.map fun field => (field.1,mapKeyword f field.1 field.2)
namespace Replacement
section Reading
variable {f : Json → Json} {fs : Fields} {key : String}
lemma get?_map (g : String → Json → Json) (fs : Fields) (key : String) :
    get? (fs.map fun field => (field.1,g field.1 field.2)) key = (fs.get? key).map (g key) := by
  induction fs with
  | nil => rfl
  | cons field rest ih =>
    rw [map_cons,get?_cons,get?_cons]
    split
    · next same => subst same; rfl
    · exact ih

lemma sorted_map (g : String → Json → Json) (sorted : fs.Sorted) :
    Sorted (fs.map fun field => (field.1,g field.1 field.2)) :=
  Pairwise.map _ (fun _ _ below => below) sorted

lemma get?_mapFields (f : Json → Json) (fs : Fields) (key : String) :
    (mapFields f fs).get? key = (fs.get? key).map (mapKeyword f key) :=
  get?_map (mapKeyword f) fs key

lemma get?_mapEntries (f : Json → Json) (fs : Fields) (key : String) :
    (mapEntries f fs).get? key = (fs.get? key).map f :=
  get?_map (fun _ => f) fs key

lemma sorted_mapFields (sorted : fs.Sorted) : (mapFields f fs).Sorted := sorted_map _ sorted

lemma sorted_mapEntries (sorted : fs.Sorted) : (mapEntries f fs).Sorted := sorted_map (fun _ => f) sorted
end Reading
structure Keeps (proper : Json → Prop) (ts : Texts) (good : Json → Bool) (f : Json → Json) (depth : Nat) : Prop where
  alike : ∀ t, good t → t.depth < depth → AlikeOn proper ts (f t) t
  single : ∀ t, good t → t.depth < depth → (f t).isArr = false
variable {proper : Json → Prop} {ts : Texts} {good : Json → Bool} {f : Json → Json} {depth : Nat} {fs : Fields}
  {key : String} {s v : Json}

-- A dependency keeps its meaning whether it lists names or is a schema.
lemma dependencyHolds_map (family : Family good) (keeps : Keeps proper ts good f depth)
    (listed : isNames d ∨ good d) (shallow : d.depth < depth) (inside : proper (.obj ms)) :
    dependencyHolds (accepts ts) ms (if d.isArr then d else f d) = dependencyHolds (accepts ts) ms d := by
  rcases listed with ns | schema
  · obtain ⟨list,rfl⟩ := isNames_iff.mp ns
    rfl
  have notArr : d.isArr = false := family.single schema
  rw [if_neg (by rw [notArr]; decide)]
  have read e (single : e.isArr = false) : dependencyHolds (accepts ts) ms e = e.accepts ts (.obj ms) := by
    cases e with
    | arr xs => cases single
    | _ => rfl
  rw [read _ (keeps.single d schema shallow),read d notArr,keeps.alike d schema shallow _ inside]

lemma keywordHolds_map (hereditary : Hereditary proper) (family : Family good) (places : placesFormed good key s)
    (keeps : Keeps proper ts good f depth) (shallow : s.depth < depth) (looked : proper v) :
    keywordHolds ts (accepts ts) key (mapKeyword f key s) v = keywordHolds ts (accepts ts) key s v := by
  have listed : ∀ {ms}, s = .arr ms → (∀ t ∈ ms, good t) → ∀ t ∈ ms, (f t).accepts ts v = t.accepts ts v := by
    rintro ms rfl schemas t mem
    exact keeps.alike t (schemas t mem) (lt_trans (depth_item mem) shallow) v looked
  unfold keywordHolds
  split
  · rfl
  · rfl
  · rfl
  · rfl
  · rfl
  · -- contains
    have alike := keeps.alike s (formed_of_places places (by decide)) shallow
    refine option_agree fun xs found => any_agree fun item mem => alike item ?_
    cases v with
    | arr es => cases found; exact hereditary.item looked mem
    | _ => cases found
  · -- propertyNames
    have alike := keeps.alike s (formed_of_places places (by decide)) shallow
    exact option_agree fun ms _ => all_agree fun mem _ => alike _ (hereditary.text _)
  · -- dependencies
    obtain ⟨es,rfl,_,each⟩ := (formed_dependencies rfl).mp (formed_of_places places (by decide))
    refine option_agree fun ms found => ?_
    have mapped : (mapKeyword f "dependencies" (.obj es)).fields?.getD [] =
        es.map fun entry => (entry.1,if entry.2.isArr then entry.2 else f entry.2) := rfl
    rw [mapped,List.all_map]
    refine all_agree fun entry mem => ?_
    have inner : entry.2.depth < depth := lt_trans (depth_field mem) shallow
    cases v with
    | obj own => cases found; simp only [Function.comp,dependencyHolds_map family keeps (each entry mem) inner looked]
    | _ => cases found
  · -- not
    exact congrArg not (keeps.alike s (formed_of_places places (by decide)) shallow v looked)
  · -- anyOf
    obtain ⟨ms,rfl,schemas⟩ := (formed_list rfl).mp (formed_of_places places (by decide))
    change (ms.map f).any _ = ms.any _
    rw [List.any_map]
    exact any_agree (listed rfl schemas)
  · -- oneOf
    obtain ⟨ms,rfl,schemas⟩ := (formed_list rfl).mp (formed_of_places places (by decide))
    change (((ms.map f).filter _).length == 1) = ((ms.filter _).length == 1)
    rw [List.filter_map,length_map]
    exact congrArg (fun l => (length l == 1)) (filter_congr (listed rfl schemas))
  · -- allOf
    obtain ⟨ms,rfl,schemas⟩ := (formed_list rfl).mp (formed_of_places places (by decide))
    change (ms.map f).all _ = ms.all _
    rw [List.all_map]
    exact all_agree (listed rfl schemas)
  · rfl
  · rfl
  · rfl
  · -- bounds hold no sub-schemas
    cases found : limit? key with
    | none => rfl
    | some limit =>
      have same : mapKeyword f key s = s := by
        unfold limit? at found
        split at found <;> first | rfl | cases found
      rw [same]

lemma formed_mapKeyword (single : ∀ t, good t → t.isArr = false) (formed : keywordFormed good key s)
    (each : ∀ t, good t → t.depth ≤ s.depth → good (f t)) : keywordFormed good key (mapKeyword f key s) := by
  have listed : ∀ {ms}, s = .arr ms → (∀ t ∈ ms, good t) → ∀ t ∈ ms.map f, good t := by
    rintro ms rfl schemas t mem
    obtain ⟨u,inside,rfl⟩ := mem_map.mp mem
    exact each u (schemas u inside) (le_of_lt (depth_item inside))
  cases shape : shape key with
  | subSchema =>
    rw [formed_subSchema shape] at formed ⊢
    simp only [mapKeyword,shape]
    exact each s formed (le_rfl)
  | items =>
    rcases (formed_items shape).mp formed with schema | ⟨tuple,rfl,schemas⟩
    · refine (formed_items shape).mpr (.inl ?_)
      have own := single s schema
      have mapped : mapKeyword f key s = f s := by
        cases s with
        | arr xs => cases own
        | _ => simp only [mapKeyword,shape]
      rw [mapped]
      exact each s schema (le_rfl)
    · refine (formed_items shape).mpr (.inr ⟨tuple.map f,?_,listed rfl schemas⟩)
      simp only [mapKeyword,shape]
  | schemaList =>
    obtain ⟨ms,rfl,schemas⟩ := (formed_list shape).mp formed
    refine (formed_list shape).mpr ⟨ms.map f,?_,listed rfl schemas⟩
    simp only [mapKeyword,shape]
  | schemaMap =>
    obtain ⟨es,rfl,sorted,schemas⟩ := (formed_map shape).mp formed
    refine (formed_map shape).mpr ⟨mapEntries f es,by simp only [mapKeyword,shape],
      sorted_mapEntries sorted,fun entry mem => ?_⟩
    obtain ⟨old,inside,rfl⟩ := mem_map.mp mem
    exact each old.2 (schemas old inside) (le_of_lt (depth_field inside))
  | dependencies =>
    obtain ⟨es,rfl,sorted,schemas⟩ := (formed_dependencies shape).mp formed
    refine (formed_dependencies shape).mpr ⟨mapEntries (fun d => if d.isArr then d else f d) es,
      by simp only [mapKeyword,shape],sorted_mapEntries sorted,fun entry mem => ?_⟩
    obtain ⟨old,inside,rfl⟩ := mem_map.mp mem
    dsimp only
    split
    · exact schemas old inside
    next notArr =>
    refine (schemas old inside).imp (fun ns => ?_) fun schema =>
      each old.2 schema (le_of_lt (depth_field inside))
    obtain ⟨list,same⟩ := isNames_iff.mp ns
    rw [same] at notArr
    exact absurd rfl notArr
  | lowerBound | upperBound | note | scalar =>
    have same : mapKeyword f key s = s := by simp only [mapKeyword,shape]
    rw [same]
    exact formed

lemma mapKeyword_leaf (leaf : shape key ∈ leaves) : mapKeyword f key s = s := by
  simp only [leaves,mem_cons,not_mem_nil,or_false] at leaf
  rcases leaf with shape | shape | shape | shape <;> simp only [mapKeyword,shape]

lemma get?_mapFields_leaf (leaf : shape key ∈ leaves) (fs : Fields) : (mapFields f fs).get? key = fs.get? key := by
  rw [get?_mapFields]
  cases fs.get? key with
  | none => rfl
  | some s => exact congrArg some (mapKeyword_leaf leaf)

lemma placed_mapFields (family : Family good) (placed : Placed good fs)
    (each : ∀ t, good t → t.depth < (obj fs).depth → good (f t)) : Placed good (mapFields f fs) := by
  have under key s (found : fs.get? key = some s) :
      (mapKeyword f key s).isOrderly Num.isInteger ∧ placesFormed good key (mapKeyword f key s) := by
    by_cases leaf : shape key ∈ leaves
    · rw [mapKeyword_leaf leaf]
      exact ⟨orderly_get? placed.orderly found,places_leaf leaf⟩
    have formed : keywordFormed good key (mapKeyword f key s) :=
      formed_mapKeyword (fun _ => family.single) (placed.formed leaf found) fun t schema shallow =>
        each t schema (lt_of_le_of_lt shallow (depth_get? found))
    exact ⟨orderly_keyword (fun _ => Num.integer_of_whole) (fun _ _ => family.orderly) formed,places_of_formed formed⟩
  have sorted : (mapFields f fs).Sorted := sorted_mapFields placed.sorted
  refine ⟨orderly_obj.mpr ⟨sorted,fun field mem => ?_⟩,fun key s found => ?_⟩
  · obtain ⟨own,inside,rfl⟩ := mem_map.mp mem
    exact (under own.1 own.2 (get?_of_mem placed.sorted inside)).1
  rw [get?_mapFields] at found
  obtain ⟨t,at_,rfl⟩ := map_eq_some_iff.mp found
  exact (under key t at_).2

lemma map_declared : declared (mapFields f fs) = mapEntries f (declared fs) := by
  unfold declared
  rw [get?_mapFields]
  cases fs.get? "properties" with
  | none => rfl
  | some map => cases map <;> rfl

lemma map_matching (name : String) : matching ts (mapFields f fs) name = (matching ts fs name).map f := by
  have patterns : (((mapFields f fs).get? "patternProperties").bind fields?).getD [] =
      mapEntries f (((fs.get? "patternProperties").bind fields?).getD []) := by
    rw [get?_mapFields]
    cases fs.get? "patternProperties" with
    | none => rfl
    | some map => cases map <;> rfl
  unfold matching
  rw [patterns]
  unfold mapEntries
  rw [List.filter_map,List.map_map,List.map_map]
  rfl

lemma map_memberRules (name : String) : memberRules ts (mapFields f fs) name = (memberRules ts fs name).map f := by
  have own : (((declared (mapFields f fs)).get? name).toList ++ matching ts (mapFields f fs) name) =
      (((declared fs).get? name).toList ++ matching ts fs name).map f := by
    rw [map_declared,get?_mapEntries,map_matching]
    cases (declared fs).get? name <;> rfl
  unfold memberRules
  rw [own,get?_mapFields]
  cases ((declared fs).get? name).toList ++ matching ts fs name with
  | nil => cases fs.get? "additionalProperties" <;> rfl
  | cons rule rest => rfl

lemma map_itemRule? (family : Family good) (placed : Placed good fs)
    (keeps : Keeps proper ts good f (obj fs).depth) (i : Nat) :
    itemRule? (mapFields f fs) i = (itemRule? fs i).map f := by
  unfold itemRule?
  rw [get?_mapFields,get?_mapFields]
  have more : (fs.get? "additionalItems").map (mapKeyword f "additionalItems") =
      (fs.get? "additionalItems").map f := by cases fs.get? "additionalItems" <;> rfl
  rw [more]
  cases found : fs.get? "items" with
  | none => rfl
  | some s =>
    rcases (formed_items rfl).mp (placed.formed (by decide) found) with single | ⟨tuple,rfl,_⟩
    · have notArr := keeps.single s single (depth_get? found)
      have own : s.isArr = false := family.single single
      have mapped : mapKeyword f "items" s = f s := by
        cases s with
        | arr xs => cases own
        | _ => rfl
      rw [map_some,mapped,entryRule?_some notArr,entryRule?_some own]
      rfl
    · change (tuple.map f)[i]?.or _ = (tuple[i]?.or _).map f
      rw [getElem?_map,map_or]

lemma schema_memberRules (placed : Placed good fs) (governs : rule ∈ memberRules ts fs name) : good rule := by
  have under key (shape : shape key = .schemaMap) entry (mem : entry ∈ ((fs.get? key).bind fields?).getD []) :
      good entry.2 := by
    cases found : fs.get? key with
    | none => rw [found] at mem; cases mem
    | some map =>
      obtain ⟨es,rfl,_,schemas⟩ := (formed_map shape).mp (placed.formed (by rw [shape]; decide) found)
      rw [found] at mem
      exact schemas entry mem
  unfold memberRules at governs
  split at governs
  · exact placed.formed (by decide) (mem_toList.mp governs)
  rcases mem_append.mp governs with named | matched
  · exact under "properties" rfl (name,rule) (mem_of_get? (mem_toList.mp named))
  obtain ⟨entry,kept,rfl⟩ := mem_map.mp matched
  exact under "patternProperties" rfl entry (mem_filter.mp kept).1

lemma schema_itemRule? (family : Family good) (placed : Placed good fs)
    (governs : itemRule? fs i = some rule) : good rule := by
  unfold itemRule? at governs
  cases found : fs.get? "items" with
  | none => rw [found] at governs; cases governs
  | some s =>
    rw [found] at governs
    rcases (formed_items rfl).mp (placed.formed (by decide) found) with single | ⟨tuple,rfl,schemas⟩
    · have own := family.single single
      cases s with
      | arr xs => cases own
      | _ => cases governs; exact single
    · rcases or_eq_some_iff.mp governs with entry | ⟨_,more⟩
      · exact schemas rule (mem_of_getElem? entry)
      · exact placed.formed (by decide) more

lemma obeys_map (hereditary : Hereditary proper) (family : Family good) (placed : Placed good fs)
    (keeps : Keeps proper ts good f (obj fs).depth) (looked : proper v) :
    Obeys ts (mapFields f fs) v ↔ Obeys ts fs v := by
  have keyword : ∀ key s, fs.get? key = some s → keywordHolds ts (accepts ts) key (mapKeyword f key s) v =
        keywordHolds ts (accepts ts) key s v := fun key s found =>
    keywordHolds_map hereditary family (placed.places key s found) keeps (depth_get? found) looked
  have condition : ∀ c, fs.get? "if" = some c → (f c).accepts ts v = c.accepts ts v := fun c found =>
    keeps.alike c (placed.formed (by decide) found) (depth_get? found) v looked
  have selected (b : Bool) branch (found : fs.get? (if b then "then" else "else") = some branch) :
      mapKeyword f (if b then "then" else "else") branch = f branch ∧ (f branch).accepts ts v =
      branch.accepts ts v := by
    cases b with
    | true | false => exact ⟨rfl,keeps.alike branch (placed.formed (by decide) found) (depth_get? found) v looked⟩
  constructor
  · intro obeys
    refine ⟨fun key s found => ?_,fun ms shape name x held rule governs => ?_,
      fun xs shape i x held rule governs => ?_,fun c found branch at_ => ?_⟩
    · rw [← keyword key s found]
      exact obeys.keyword key _ (by rw [get?_mapFields,found]; rfl)
    · have lookedX : proper x := by subst shape; exact hereditary.member looked held
      rw [← keeps.alike rule (schema_memberRules placed governs) (depth_memberRules governs) x lookedX]
      exact obeys.member ms shape name x held _ (by rw [map_memberRules]; exact mem_map_of_mem governs)
    · have lookedX : proper x := by subst shape; exact hereditary.item looked (mem_of_getElem? held)
      rw [← keeps.alike rule (schema_itemRule? family placed governs) (depth_itemRule? governs) x lookedX]
      exact obeys.item xs shape i x held _ (by rw [map_itemRule? family placed keeps,governs]; rfl)
    · obtain ⟨mapped,same⟩ := selected _ branch at_
      rw [← same,← mapped]
      refine obeys.condition (f c) (by rw [get?_mapFields,found]; rfl) _ ?_
      rw [condition c found,get?_mapFields,at_]
      rfl
  intro obeys
  refine ⟨fun key s found => ?_,fun ms shape name x held rule governs => ?_,
    fun xs shape i x held rule governs => ?_,fun c found branch at_ => ?_⟩
  · rw [get?_mapFields] at found
    obtain ⟨t,at_,rfl⟩ := map_eq_some_iff.mp found
    rw [keyword key t at_]
    exact obeys.keyword key t at_
  · have lookedX : proper x := by subst shape; exact hereditary.member looked held
    rw [map_memberRules] at governs
    obtain ⟨t,at_,rfl⟩ := mem_map.mp governs
    rw [keeps.alike t (schema_memberRules placed at_) (depth_memberRules at_) x lookedX]
    exact obeys.member ms shape name x held t at_
  · have lookedX : proper x := by subst shape; exact hereditary.item looked (mem_of_getElem? held)
    rw [map_itemRule? family placed keeps] at governs
    obtain ⟨t,at_,rfl⟩ := map_eq_some_iff.mp governs
    rw [keeps.alike t (schema_itemRule? family placed at_) (depth_itemRule? at_) x lookedX]
    exact obeys.item xs shape i x held t at_
  · rw [get?_mapFields] at found
    obtain ⟨t,tFound,rfl⟩ := map_eq_some_iff.mp found
    change (mapFields f fs).get? (if (f t).accepts ts v then "then" else "else") = some branch at at_
    rw [condition t tFound,get?_mapFields] at at_
    obtain ⟨u,uFound,rfl⟩ := map_eq_some_iff.mp at_
    obtain ⟨mapped,same⟩ := selected _ u uFound
    rw [mapped,same]
    exact obeys.condition t tFound u uFound

lemma alike_map (hereditary : Hereditary proper) (family : Family good) (placed : Placed good fs)
    (keeps : Keeps proper ts good f (obj fs).depth) :
    AlikeOn proper ts (.obj (mapFields f fs)) (.obj fs) := by
  intro v looked
  rw [Bool.eq_iff_iff,accepts_obj (sorted_mapFields placed.sorted),accepts_obj placed.sorted]
  exact obeys_map hereditary family placed keeps looked
end Replacement
end SchemaOrder
