import SchemaOrder.Intersection
import SchemaOrder.Proofs.Schemas
namespace SchemaOrder
open Doubles Fields Json Keyword List
variable {v : Json}
-- The tighter of two bounds, common types, and the keywords that can be changed without touching a group.
def Below (ts : Texts) (m s : Json) : Prop :=
  ∀ v, v.isExact → m.accepts ts v → s.accepts ts v

lemma Below.refl (ts : Texts) (s : Json) : Below ts s s := fun _ _ acc => acc

lemma Below.trans (first : Below ts a b) (second : Below ts b c) : Below ts a c :=
  fun v exact acc => second v exact (first v exact acc)

lemma below_false (ts : Texts) (s : Json) : Below ts (.bool false) s := by
  intro v _ acc
  cases acc

lemma below_true (ts : Texts) (s : Json) : Below ts s (.bool true) := fun v _ _ => Acceptance.accepts_bool ts true v

-- A value that is a number stands in the order of doubles.
def Json.Ordered (v : Json) : Prop :=
  ∀ n, v = .num n → IsNumber n.toFloat

lemma Json.ordered_exact (exact : v.isExact) : v.Ordered := by
  rintro (n | x) rfl
  · exact ofInt_number n.val
  · cases exact

lemma Quantity.of?_number {quantity : Quantity} {x : Float} (ordered : v.Ordered)
    (found : quantity.of? v = some x) : IsNumber x := by
  cases quantity <;> cases v <;> cases found
  case value.num n => exact ordered n rfl
  all_goals exact ofNat_number _
namespace Limit
variable {limit : Limit} {b c x : Float} {v : Json}
lemma admits_of_tighter (bNumber : IsNumber b) (cNumber : IsNumber c) (xNumber : IsNumber x)
    (tight : Bound.tighter limit.side c b) (admitted : limit.admits c x) : limit.admits b x := by
  obtain ⟨_,_ | _,_ | _⟩ := limit <;>
    simp only [admits,Bound.tighter,decide_eq_true_eq,lt_iff,le_iff,bNumber,cNumber,xNumber] at * <;> order

lemma admits_of_not_tighter (bNumber : IsNumber b) (cNumber : IsNumber c)
    (xNumber : IsNumber x) (loose : Bound.tighter limit.side c b = false) (admitted : limit.admits b x) : limit.admits c x := by
  obtain ⟨_,_ | _,_ | _⟩ := limit <;>
    simp only [admits,Bound.tighter,decide_eq_true_eq,decide_eq_false_iff_not,lt_iff,le_iff,bNumber,
      cNumber,xNumber] at * <;> order

lemma holds_num : limit.holds (.num n) v ↔ ∀ x, limit.quantity.of? v = some x → limit.admits n.toFloat x := by
  simp only [holds,float?,Option.all_some,Option.all_eq_true]

lemma holds_whole : limit.holds (.num (.whole n)) v ↔ ∀ x, limit.quantity.of? v = some x → limit.admits (Float.ofInt n.val) x :=
  holds_num

-- The bound that is kept restricts at least as much as the other.
lemma holds_bound (exact : v.isExact) (m n : Whole) :
    limit.holds (Intersection.bound limit.side (.num (.whole m)) (.num (.whole n))) v ↔
      limit.holds (.num (.whole m)) v ∧ limit.holds (.num (.whole n)) v := by
  have nums := fun x (found : limit.quantity.of? v = some x) => Quantity.of?_number (ordered_exact exact) found
  unfold Intersection.bound
  simp only [float?,Num.toFloat]
  split
  · next tight =>
    refine ⟨fun right => ⟨?_,right⟩,And.right⟩
    rw [holds_whole] at right ⊢
    exact fun x found => admits_of_tighter (ofInt_number _) (ofInt_number _) (nums x found) tight (right x found)
  next loose =>
  refine ⟨fun left => ⟨left,?_⟩,And.left⟩
  rw [holds_whole] at left ⊢
  exact fun x found => admits_of_not_tighter (ofInt_number _) (ofInt_number _) (nums x found)
    (Bool.eq_false_iff.mpr loose) (left x found)
end Limit
namespace Keyword
variable {key : String}
lemma limit_lower (shape : shape key = .lowerBound) : ∃ limit, limit? key = some limit ∧ limit.side = .lower := by
  unfold Keyword.shape at shape
  split at shape <;> first | exact ⟨_,rfl,rfl⟩ | cases shape

lemma limit_upper (shape : shape key = .upperBound) : ∃ limit, limit? key = some limit ∧ limit.side = .upper := by
  unfold Keyword.shape at shape
  split at shape <;> first | exact ⟨_,rfl,rfl⟩ | cases shape

lemma limit_shape (found : limit? key = some limit) : shape key = .lowerBound ∨ shape key = .upperBound := by
  unfold limit? at found
  split at found <;> first | exact .inl rfl | exact .inr rfl | cases found

lemma shape_subSchema (shape : shape key = .subSchema) :
    key ∈ ["additionalProperties","additionalItems","contains","propertyNames","not","if","then","else"] := by
  unfold Keyword.shape at shape
  split at shape <;> first | decide | cases shape

lemma shape_schemaList (shape : shape key = .schemaList) : key ∈ ["allOf","anyOf","oneOf"] := by
  unfold Keyword.shape at shape
  split at shape <;> first | decide | cases shape

lemma shape_schemaMap (shape : shape key = .schemaMap) : key ∈ ["properties","patternProperties","definitions"] := by
  unfold Keyword.shape at shape
  split at shape <;> first | decide | cases shape

lemma shape_items (shape : shape key = .items) : key = "items" := by
  unfold Keyword.shape at shape
  split at shape <;> first | rfl | cases shape

lemma shape_dependencies (shape : shape key = .dependencies) : key = "dependencies" := by
  unfold Keyword.shape at shape
  split at shape <;> first | rfl | cases shape
end Keyword
lemma typeWithin_iff {inner outer : String} :
    typeWithin inner outer ↔ inner = outer ∨ inner = "integer" ∧ outer = "number" := by
  simp only [typeWithin,Bool.or_eq_true,Bool.and_eq_true,beq_iff_eq]

lemma Json.hasType_iff {name : String} : v.hasType name ↔ typeWithin v.kind name := by
  rw [typeWithin_iff]
  constructor
  · intro typed
    unfold hasType at typed
    split at typed
    · next n => cases integral : n.isIntegral <;> simp [kind]
    · exact .inl (if_pos typed)
    all_goals first | exact .inl rfl | cases typed
  rintro (rfl | ⟨kind,rfl⟩)
  · cases v with
    | num n => cases integral : n.isIntegral <;> simp [kind,hasType,integral]
    | _ => rfl
  cases v with
  | num n => rfl
  | _ => simp [Json.kind] at kind

lemma Json.hasType_within {inner outer : String} (within : typeWithin inner outer)
    (typed : v.hasType inner) : v.hasType outer := by
  rcases typeWithin_iff.mp within with rfl | ⟨rfl,rfl⟩
  · exact typed
  · cases v <;> first | rfl | cases typed

-- Two types of one value are comparable.
lemma Json.hasType_comparable {a b : String} (left : v.hasType a) (right : v.hasType b) :
    typeWithin a b ∨ typeWithin b a := by
  rw [hasType_iff,typeWithin_iff] at left right
  rcases left with rfl | ⟨_,rfl⟩
  · exact .inl (typeWithin_iff.mpr right)
  rcases right with rfl | ⟨_,rfl⟩
  · exact .inr (typeWithin_iff.mpr (.inr ⟨by assumption,rfl⟩))
  · exact .inl (typeWithin_iff.mpr (.inl rfl))
namespace Intersection
variable {v : Json} {a b t : String}
lemma commonType?_sound (common : commonType? a b = some t) (typed : v.hasType t) : v.hasType a ∧ v.hasType b := by
  unfold commonType? at common
  split at common
  · next within => cases common; exact ⟨typed,hasType_within within typed⟩
  split at common
  · next within => cases common; exact ⟨hasType_within within typed,typed⟩
  · cases common

lemma commonType?_complete (left : v.hasType a) (right : v.hasType b) : ∃ t, commonType? a b = some t ∧ v.hasType t := by
  unfold commonType?
  split
  · exact ⟨a,rfl,left⟩
  next apart =>
  rw [if_pos ((hasType_comparable left right).resolve_left apart)]
  exact ⟨b,rfl,right⟩

lemma mem_collect {α : Type} (f : α → Option String) (l : List α) (found : List String) :
    t ∈ l.foldl (fun found x => match f x with
      | some t => if found.contains t then found else found ++ [t]
      | none => found) found ↔ t ∈ found ∨ ∃ x ∈ l, f x = some t := by
  induction l generalizing found with
  | nil => simp
  | cons x rest ih =>
    rw [foldl_cons,ih,exists_mem_cons_iff,← or_assoc]
    refine or_congr_left ?_
    cases f x with
    | none => simp
    | some u =>
      dsimp only
      split
      · next held =>
        refine ⟨.inl,?_⟩
        rintro (old | same)
        · exact old
        · cases same; exact contains_iff_mem.mp held
      · simp [eq_comm]

lemma mem_commonTypes (left right : List String) :
    t ∈ commonTypes left right ↔ ∃ a ∈ left, ∃ b ∈ right, commonType? a b = some t := by
  have each : ∀ (l found : List String),
      t ∈ l.foldl (fun found l => right.foldl (fun found r => match commonType? l r with
        | some t => if found.contains t then found else found ++ [t]
        | none => found) found) found ↔ t ∈ found ∨ ∃ a ∈ l, ∃ b ∈ right, commonType? a b = some t := by
    intro l
    induction l with
    | nil => simp
    | cons a rest ih =>
      intro found
      rw [foldl_cons,ih,mem_collect,exists_mem_cons_iff,or_assoc]
  exact (each left []).trans (or_iff_right not_mem_nil)

lemma typeNames_types (made : types left right path = .ok common) :
    typeNames common = commonTypes (typeNames left) (typeNames right) := by
  unfold types at made
  split at made
  · cases made
  · next only => cases made; exact only.symm
  · cases made; exact Schemas.listedStrings_strings _
end Intersection
namespace Acceptance
variable {ts : Texts} {acc : Json → Json → Bool} {fs other : Fields} {key name : String} {s v : Json}
def grouped : List String :=
  ["properties","patternProperties","additionalProperties","items","additionalItems","if","then","else"]

lemma unconditional (plain : key ∉ grouped) : key ∉ conditional := by
  intro mem
  fin_cases mem <;> exact plain (by decide)

lemma keywordHolds_grouped (mem : key ∈ grouped) : keywordHolds ts acc key s v := by
  fin_cases mem <;> rfl

lemma keywordHolds_limit (found : limit? key = some limit) : keywordHolds ts acc key s v = limit.holds s v := by
  unfold limit? at found
  split at found <;> cases found <;> rfl

lemma keywordHolds_note (shape : shape key = .note) : keywordHolds ts acc key s v := by
  unfold Keyword.shape at shape
  split at shape <;> first | rfl | cases shape

def memberRule? (fs : Fields) (name : String) : Option Json :=
  ((declared fs).get? name).or (fs.get? "additionalProperties")

lemma memberRules_eq (plain : fs.get? "patternProperties" = none) :
    memberRules ts fs name = (memberRule? fs name).toList := by
  unfold memberRules matching memberRule?
  rw [plain]
  cases (declared fs).get? name <;> rfl

lemma all_memberRules (plain : fs.get? "patternProperties" = none) (p : Json → Bool) :
    (memberRules ts fs name).all p = (memberRule? fs name).all p := by
  rw [memberRules_eq plain]
  cases memberRule? fs name with
  | none => rfl
  | some rule => exact Bool.and_true _

lemma Obeys.memberRule (obeys : Obeys ts fs (.obj ms))
    (plain : fs.get? "patternProperties" = none) (held : (name,x) ∈ ms)
    (governs : memberRule? fs name = some rule) : rule.accepts ts x := by
  refine obeys.member ms rfl name x held rule ?_
  rw [memberRules_eq plain,governs]
  exact mem_singleton_self rule

-- Only the groups look at more than one keyword.
lemma Obeys.regroup (obeys : Obeys ts fs v) (same : ∀ key ∈ grouped, other.get? key = fs.get? key)
    (keyword : ∀ key s, other.get? key = some s → keywordHolds ts (accepts ts) key s v) : Obeys ts other v where
  keyword := keyword
  member := by
    have rules name : memberRules ts other name = memberRules ts fs name := by
      unfold memberRules matching declared
      rw [same "properties" (by decide),same "patternProperties" (by decide),same "additionalProperties" (by decide)]
    intro ms shape name x held rule governs
    exact obeys.member ms shape name x held rule (rules name ▸ governs)
  item := by
    have rules i : itemRule? other i = itemRule? fs i := by
      unfold itemRule?
      rw [same "items" (by decide),same "additionalItems" (by decide)]
    intro xs shape i x held rule governs
    exact obeys.item xs shape i x held rule (rules i ▸ governs)
  condition := by
    intro c found branch
    rw [same "if" (by decide)] at found
    have selected : other.get? (if c.accepts ts v then "then" else "else") =
        fs.get? (if c.accepts ts v then "then" else "else") := by
      split
      · exact same "then" (by decide)
      · exact same "else" (by decide)
    rw [selected]
    exact obeys.condition c found branch

-- The groups judge a value part by part.
lemma Obeys.by_rules (obeys : Obeys ts fs v)
    (conditional : ∀ key ∈ conditional, other.get? key = fs.get? key)
    (keyword : ∀ key s, other.get? key = some s → keywordHolds ts (accepts ts) key s v)
    (mem : ∀ ms, v = .obj ms → ∀ name x, (name,x) ∈ ms →
      (memberRules ts other name).all (·.accepts ts x) = (memberRules ts fs name).all (·.accepts ts x))
    (item : ∀ xs, v = .arr xs → ∀ i x, xs[i]? = some x →
      (itemRule? other i).all (·.accepts ts x) = (itemRule? fs i).all (·.accepts ts x)) :
    Obeys ts other v where
  keyword := keyword
  member ms shape name x held rule governs := by
    have holds : (memberRules ts fs name).all (·.accepts ts x) :=
      all_eq_true.mpr fun own at_ => obeys.member ms shape name x held own at_
    exact all_eq_true.mp ((mem ms shape name x held).trans holds) rule governs
  item xs shape i x held rule governs := by
    have holds : (itemRule? fs i).all (·.accepts ts x) :=
      (Option.all_eq_true _ _).mpr fun own at_ => obeys.item xs shape i x held own at_
    exact (Option.all_eq_true _ _).mp ((item xs shape i x held).trans holds) rule governs
  condition c found branch selected := by
    have bs : ∀ b : Bool, other.get? (if b then "then" else "else") = fs.get? (if b then "then" else "else") := by
      rintro (_ | _)
      · exact conditional "else" (by decide)
      · exact conditional "then" (by decide)
    rw [conditional "if" (by decide)] at found
    exact obeys.condition c found branch ((bs _).symm.trans selected)

lemma Obeys.by_parts (obeys : Obeys ts fs v) (plain : fs.get? "patternProperties" = none)
    (otherPlain : other.get? "patternProperties" = none)
    (conditional : ∀ key ∈ conditional, other.get? key = fs.get? key)
    (keyword : ∀ key s, other.get? key = some s → keywordHolds ts (accepts ts) key s v)
    (mem : ∀ ms, v = .obj ms → ∀ name x, (name,x) ∈ ms →
      (memberRule? other name).all (·.accepts ts x) = (memberRule? fs name).all (·.accepts ts x))
    (item : ∀ xs, v = .arr xs → ∀ i x, xs[i]? = some x →
      (itemRule? other i).all (·.accepts ts x) = (itemRule? fs i).all (·.accepts ts x)) :
    Obeys ts other v := by
  refine obeys.by_rules conditional keyword (fun ms shape name x held => ?_) item
  rw [all_memberRules otherPlain,all_memberRules plain]
  exact mem ms shape name x held

lemma obeys_nil : Obeys ts [] v where
  keyword _ _ found := nomatch found
  member _ _ _ _ _ _ governs := nomatch governs
  item _ _ _ _ _ _ governs := nomatch governs
  condition _ found := nomatch found

@[simp] lemma accepts_emptyObj (v : Json) : emptyObj.accepts ts v := (accepts_obj sorted_nil).mpr obeys_nil

lemma accepts_single (plain : key ∉ grouped) : (single key s).accepts ts v ↔ keywordHolds ts (accepts ts) key s v := by
  have found : get? [(key,s)] key = some s := if_pos rfl
  have missing : ∀ {k}, k ≠ key → get? [(key,s)] k = none := fun {k} ne => if_neg (symm ne)
  constructor
  · intro acc
    exact ((accepts_obj (sorted_single key s)).mp acc).keyword key s found
  intro holds
  refine (accepts_obj (sorted_single key s)).mpr (obeys_nil.regroup ?_ ?_)
  · intro k mem
    exact missing fun same => plain (same ▸ mem)
  intro k t held
  by_cases same : k = key
  · subst same
    rw [found] at held
    cases held
    exact holds
  · rw [missing same] at held
    cases held

-- A keyword outside the groups can be judged apart from the rest.
lemma accepts_erase (sorted : fs.Sorted) (plain : key ∉ grouped) :
    (obj fs).accepts ts v ↔ (obj (fs.erase key)).accepts ts v ∧
      ∀ s, fs.get? key = some s → keywordHolds ts (accepts ts) key s v := by
  have same : ∀ k ∈ grouped, (fs.erase key).get? k = fs.get? k := fun k mem =>
    get?_erase_other fun eq => plain (eq ▸ mem)
  rw [accepts_obj sorted,accepts_obj (sorted_erase sorted)]
  constructor
  · intro obeys
    refine ⟨obeys.regroup same fun k s found => ?_,fun s found => obeys.keyword key s found⟩
    rw [get?_erase sorted] at found
    split at found
    · cases found
    · exact obeys.keyword k s found
  · rintro ⟨rest,holds⟩
    refine rest.regroup (fun k mem => (same k mem).symm) fun k s found => ?_
    by_cases here : key = k
    · subst here; exact holds s found
    · exact rest.keyword k s ((get?_erase_other here).trans found)

lemma accepts_put (sorted : fs.Sorted) (plain : key ∉ grouped) :
    (obj (fs.put key s)).accepts ts v ↔ (obj (fs.erase key)).accepts ts v ∧ keywordHolds ts (accepts ts) key s v := by
  have putSorted : (fs.put key s).Sorted := sorted_put sorted
  have alike k : (fs.put key s |>.erase key).get? k = (fs.erase key).get? k := by
    rw [get?_erase putSorted,get?_erase sorted]
    split
    · rfl
    · next ne => exact get?_put_other ne
  rw [accepts_erase putSorted plain,accepts_obj (sorted_erase putSorted),accepts_obj (sorted_erase sorted)]
  refine and_congr ⟨fun obeys => ?_,fun obeys => ?_⟩ ?_
  · exact obeys.regroup (fun k _ => (alike k).symm) fun k t at_ => obeys.keyword k t ((alike k).trans at_)
  · exact obeys.regroup (fun k _ => alike k) fun k t at_ => obeys.keyword k t ((alike k).symm.trans at_)
  · simp
end Acceptance
end SchemaOrder
