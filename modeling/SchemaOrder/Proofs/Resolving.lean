import SchemaOrder.Proofs.Evaluation
import SchemaOrder.Proofs.Folding
import SchemaOrder.Memory
namespace SchemaOrder
open Acceptance List Fields Json Doubles Condition Option Resolution Keyword
-- Resolution keeps what the data is worth.
def Num.isFinite : Num → Bool
  | .whole _ => true
  | .double x => x.isFinite

abbrev Json.Finite (v : Json) : Prop := v.isOrderly Num.isFinite

lemma Num.finite_number {n : Num} (finite : n.isFinite) : IsNumber n.toFloat := by
  cases n with
  | whole n => exact ofInt_number n.val
  | double x =>
    intro isNaN
    change x.toModel.unpack.isFinite at finite
    rw [show x.toModel.unpack = _ from isNaN] at finite
    cases finite
namespace Resolution
section Basic
variable {ts : Texts} {fs other : Fields} {key : String} {v : Json}
structure Basic (ts : Texts) (fs : Fields) (v : Json) : Prop where
  keyword : ∀ key s, fs.get? key = some s → keywordHolds ts (accepts ts) key s v
  member : ∀ ms, v = .obj ms → ∀ name x, (name,x) ∈ ms →
    ∀ rule ∈ memberRules ts fs name, rule.accepts ts x
  item : ∀ xs, v = .arr xs → ∀ i x, xs[i]? = some x →
    ∀ rule, itemRule? fs i = some rule → rule.accepts ts x

def Decides (ts : Texts) (fs : Fields) (v : Json) : Prop :=
  ∀ c, fs.get? "if" = some c → ∀ branch,
    fs.get? (Branch.ofCondition (c.accepts ts v)).keyword = some branch → branch.accepts ts v

lemma accepts_iff (sorted : fs.Sorted) : (obj fs).accepts ts v ↔ Basic ts fs v ∧ Decides ts fs v := by
  have keywords b : (Branch.ofCondition b).keyword = if b then "then" else "else" := by
    cases b <;> rfl
  rw [accepts_obj sorted]
  constructor
  · rintro ⟨keyword,mem,item,condition⟩
    exact ⟨⟨keyword,mem,item⟩,fun c found branch taken => condition c found branch (keywords _ ▸ taken)⟩
  rintro ⟨⟨keyword,mem,item⟩,decides⟩
  exact ⟨keyword,mem,item,fun c found branch taken => decides c found branch (keywords _ ▸ taken)⟩

-- Some keywords change that have no group, and hold still.
lemma Basic.change {changed : List String} (basic : Basic ts fs v)
    (same : ∀ key, key ∉ changed → other.get? key = fs.get? key)
    (single : ∀ key ∈ ["properties","patternProperties","additionalProperties","items","additionalItems"], key ∉ changed)
    (holds : ∀ key ∈ changed, ∀ s, other.get? key = some s → keywordHolds ts (accepts ts) key s v) :
    Basic ts other v where
  keyword key s found := by
    by_cases isChanged : key ∈ changed
    · exact holds key isChanged s found
    · exact basic.keyword key s (same key isChanged ▸ found)
  member := by
    have rules name : memberRules ts other name = memberRules ts fs name := by
      unfold memberRules matching declared
      rw [same _ (single "properties" (by decide)),same _ (single "patternProperties" (by decide)),
        same _ (single "additionalProperties" (by decide))]
    intro ms shape name x held rule governs
    exact basic.member ms shape name x held rule (rules name ▸ governs)
  item := by
    have rules i : itemRule? other i = itemRule? fs i := by
      unfold itemRule?
      rw [same _ (single "items" (by decide)),same _ (single "additionalItems" (by decide))]
    intro xs shape i x held rule governs
    exact basic.item xs shape i x held rule (rules i ▸ governs)

def HoldsAt (ts : Texts) (fs : Fields) (key : String) (v : Json) : Prop :=
  ∀ s, fs.get? key = some s → keywordHolds ts (accepts ts) key s v

-- One keyword changes, and something beside the schema with it.
lemma basic_exchange (plain : key ∉ grouped) (same : ∀ k, k ≠ key → other.get? k = fs.get? k) {before after : Prop}
    (exchange : HoldsAt ts other key v ∧ after ↔ HoldsAt ts fs key v ∧ before) :
    Basic ts other v ∧ after ↔ Basic ts fs v ∧ before := by
  have single : ∀ k ∈ ["properties","patternProperties","additionalProperties","items","additionalItems"], k ∉ [key] := by
    have isGrouped : ∀ k ∈ ["properties","patternProperties","additionalProperties","items","additionalItems"],
        k ∈ grouped := by
      decide
    intro k listed isKey
    exact plain (mem_singleton.mp isKey ▸ isGrouped k listed)
  have others : ∀ k, k ∉ [key] → other.get? k = fs.get? k := fun k notKey =>
    same k fun isKey => notKey (mem_singleton.mpr isKey)
  refine ⟨fun ⟨basic,beside⟩ => ?_,fun ⟨basic,beside⟩ => ?_⟩
  · obtain ⟨holds,rest⟩ := exchange.mp ⟨basic.keyword key,beside⟩
    exact ⟨basic.change (fun k notKey => (others k notKey).symm) single fun k isKey => mem_singleton.mp isKey ▸ holds,rest⟩
  obtain ⟨holds,rest⟩ := exchange.mpr ⟨basic.keyword key,beside⟩
  exact ⟨basic.change others single fun k isKey => mem_singleton.mp isKey ▸ holds,rest⟩

lemma basic_without : Basic ts (fs.without conditional) v ↔ Basic ts fs v := by
  have same key (other : key ∉ conditional) : (fs.without conditional).get? key = fs.get? key := by
    rw [get?_without,if_neg fun listed => other (contains_iff_mem.mp listed)]
  have single : ∀ k ∈ ["properties","patternProperties","additionalProperties","items","additionalItems"],
      k ∉ conditional := by
    decide
  have isGrouped : ∀ k ∈ conditional, k ∈ grouped := by decide
  exact ⟨fun basic => basic.change (fun key other => (same key other).symm) single fun key conditional s _ =>
      keywordHolds_grouped (isGrouped key conditional),
    fun basic => basic.change same single fun key conditional s _ => keywordHolds_grouped (isGrouped key conditional)⟩

lemma accepts_without (sorted : fs.Sorted) : (obj (fs.without conditional)).accepts ts v ↔ Basic ts fs v := by
  have withoutSorted : (fs.without conditional).Sorted := sorted_filter _ sorted
  rw [accepts_iff withoutSorted,basic_without]
  refine and_iff_left fun c found => ?_
  rw [get?_without] at found
  cases found
end Basic
section Branches
variable {σ : Type} {inv : σ → Prop} {ts : Texts} {acc : Json → Json → Bool} {fs : Fields} {key : String}
  {existing incoming v : Json}

def branchKeywords : List String := ["required","minProperties","maxProperties"]

def isPlainBranch : Json → Bool
  | .obj fs => fs.all fun field =>
      branchKeywords.contains field.1 && (field.1 == "required" || field.2.float?.isSome)
  | _ => false

lemma keywordHolds_others (listed : key ∈ branchKeywords) (other : v.isObj = false) (s : Json) :
    keywordHolds ts acc key s v := by
  fin_cases listed <;> cases v <;> first | rfl | cases other

lemma accepts_plain (sorted : fs.Sorted) (plain : isPlainBranch (.obj fs)) (v : Json) :
    (obj fs).accepts ts v = fs.all fun field => keywordHolds ts (accepts ts) field.1 field.2 v := by
  have listed : ∀ field ∈ fs, field.1 ∈ branchKeywords := fun field mem =>
    contains_iff_mem.mp (Bool.and_eq_true_iff.mp (all_eq_true.mp plain field mem)).1
  have members : membersHold ts (accepts ts) fs v := by
    have rules name : memberRules ts fs name = [] := by
      unfold memberRules matching declared
      rw [get?_unlisted listed (by decide),get?_unlisted listed (by decide),get?_unlisted listed (by decide)]
      rfl
    rw [membersHold_iff]
    intro _ _ name _ _ rule governs
    rw [rules] at governs
    cases governs
  rw [accepts_listed sorted listed (by decide) (by decide),members,Bool.and_true]
  exact (all_keywords sorted listed fun key s => keywordHolds ts (accepts ts) key s v).symm

lemma accepts_plain_others {branch : Json} (ord : branch.isOrderly nums) (plain : isPlainBranch branch)
    (other : v.isObj = false) : branch.accepts ts v := by
  cases branch with
  | obj fs =>
    rw [accepts_plain (orderly_obj.mp ord).1 plain,List.all_eq_true]
    intro field mem
    exact keywordHolds_others (contains_iff_mem.mp (Bool.and_eq_true_iff.mp (all_eq_true.mp plain field mem)).1) other _
  | _ => cases plain

lemma strings_equal (same : equalItems xs ys) : xs.filterMap str? = ys.filterMap str? := by
  induction xs generalizing ys with
  | nil => cases ys with
    | nil => rfl
    | cons => cases same
  | cons x xs ih => cases ys with
    | nil => cases same
    | cons y ys =>
      rw [equalItems,Bool.and_eq_true] at same
      have first : x.str? = y.str? := by
        cases x with
        | str a => cases y with
          | str b => rw [eq_of_beq same.1]
          | _ => cases same.1
        | _ => cases y <;> first | rfl | cases same.1
      rw [filterMap_cons,filterMap_cons,first,ih same.2]

lemma holds_equal_required (same : existing.deepEqual incoming) :
    keywordHolds ts acc "required" existing v = keywordHolds ts acc "required" incoming v := by
  have names : existing.listedStrings = incoming.listedStrings := by
    cases existing with
    | arr xs => cases incoming with
      | arr ys => exact strings_equal same
      | _ => cases same
    | _ => cases incoming <;> first | rfl | cases same
  change v.fields?.all _ = v.fields?.all _
  rw [names]

lemma holds_required (existing incoming v : Json) :
    keywordHolds ts acc "required" (.arr (unionStrings existing.itemsOrNone incoming.itemsOrNone)) v ↔
      keywordHolds ts acc "required" existing v ∧ keywordHolds ts acc "required" incoming v := by
  obtain ⟨ns,is,mem⟩ := Intersection.unionStrings_eq existing.itemsOrNone incoming.itemsOrNone
  rw [is]
  change v.fields?.all _ ↔ v.fields?.all _ ∧ v.fields?.all _
  cases v with
  | obj ms =>
    simp only [fields?,all_some,List.all_eq_true,Schemas.listedStrings_strings,mem]
    exact ⟨fun all => ⟨fun name inside => all name (.inl inside),fun name inside => all name (.inr inside)⟩,
      fun both name inside => inside.elim (both.1 name) (both.2 name)⟩
  | _ => exact ⟨fun _ => ⟨rfl,rfl⟩,fun _ => rfl⟩

lemma count_number {limit : Limit} (counts : limit.quantity = .members) (x : Float) (found : limit.quantity.of? v = some x) :
    IsNumber x := by
  rw [counts] at found
  cases v <;> cases found
  exact ofNat_number _

-- A bound on the number of members: both bounds and the number stand in the order of doubles.
lemma holds_tighter (limit : Limit) (counts : limit.quantity = .members)
    (existingFinite : existing.Finite) (incomingFinite : incoming.Finite)
    (given : incoming.float?.isSome) : limit.holds (tighterBound limit.side existing incoming) v ↔
      limit.holds existing v ∧ limit.holds incoming v := by
  have nums : ∀ x, limit.quantity.of? v = some x → IsNumber x := count_number counts
  cases incoming with
  | num n => cases existing with
    | num m =>
      have mNumber := Num.finite_number (n := m) existingFinite
      have nNumber := Num.finite_number (n := n) incomingFinite
      unfold tighterBound
      simp only [float?]
      split
      · next tight =>
        refine ⟨fun left => ⟨left,?_⟩,And.left⟩
        rw [Limit.holds_num] at left ⊢
        exact fun x found => Limit.admits_of_tighter nNumber mNumber (nums x found) tight (left x found)
      next loose =>
      refine ⟨fun right => ⟨?_,right⟩,And.right⟩
      rw [Limit.holds_num] at right ⊢
      exact fun x found => Limit.admits_of_not_tighter nNumber mNumber (nums x found) (Bool.eq_false_iff.mpr loose)
        (right x found)
    | _ =>
      refine ⟨fun right => ⟨?_,right⟩,And.right⟩
      exact (all_eq_true _ _).mpr fun _ _ => rfl
  | _ => cases given

lemma position_of_equal {m n : Num} (left : m.isFinite) (right : n.isFinite) (same : m.equal n) :
    position m.toFloat = position n.toFloat := by
  have lNumber := Num.finite_number left
  have rNumber := Num.finite_number right
  cases m with
  | whole a => cases n with
    | whole b => exact congrArg (fun i => position (Float.ofInt i)) (eq_of_beq same)
    | double y => exact position_of_beq lNumber rNumber same
  | double x => cases n <;> exact position_of_beq lNumber rNumber same

lemma holds_equal_bound (limit : Limit) (counts : limit.quantity = .members)
    (existingFinite : existing.Finite) (incomingFinite : incoming.Finite)
    (given : incoming.float?.isSome) (same : existing.deepEqual incoming) : limit.holds existing v = limit.holds incoming v := by
  cases incoming with
  | num n => cases existing with
    | num m =>
      have place := position_of_equal (m := m) (n := n) existingFinite incomingFinite same
      have mNumber := Num.finite_number (n := m) existingFinite
      have nNumber := Num.finite_number (n := n) incomingFinite
      have loose side : Bound.tighter side m.toFloat n.toFloat = false ∧ Bound.tighter side n.toFloat m.toFloat =
          false := by
        cases side <;> simp [Bound.tighter,lt_iff,mNumber,nNumber,place]
      have nums : ∀ x, limit.quantity.of? v = some x → IsNumber x := count_number counts
      rw [Bool.eq_iff_iff,Limit.holds_num,Limit.holds_num]
      refine forall_congr' fun x => forall_congr' fun found => ⟨?_,?_⟩
      · exact Limit.admits_of_not_tighter mNumber nNumber (nums x found) (loose _).2
      · exact Limit.admits_of_not_tighter nNumber mNumber (nums x found) (loose _).1
    | _ => cases same
  | _ => cases given

lemma holds_equal (listed : key ∈ branchKeywords) (existingFinite : existing.Finite)
    (incomingFinite : incoming.Finite) (given : key = "required" ∨ incoming.float?.isSome)
    (same : existing.deepEqual incoming) : keywordHolds ts acc key existing v = keywordHolds ts acc key incoming v := by
  fin_cases listed
  · exact holds_equal_required same
  · exact holds_equal_bound ⟨.members,.lower,false⟩ rfl existingFinite incomingFinite (given.resolve_left (by decide)) same
  · exact holds_equal_bound ⟨.members,.upper,false⟩ rfl existingFinite incomingFinite (given.resolve_left (by decide)) same

-- What is joined holds exactly if both hold.
lemma holds_joined (ts : Texts) (acc : Json → Json → Bool) (listed : key ∈ branchKeywords)
    (existingFinite : existing.Finite) (incomingFinite : incoming.Finite)
    (given : key = "required" ∨ incoming.float?.isSome) (e : Engine (StateM σ)) :
    Ensures inv (mergeValues e key existing incoming) fun merged => merged.Finite ∧ ∀ v,
      (keywordHolds ts acc key merged v ↔ keywordHolds ts acc key existing v ∧ keywordHolds ts acc key incoming v) := by
  have bounded side : (tighterBound side existing incoming).Finite := by
    unfold tighterBound
    split
    · split
      · exact existingFinite
      · exact incomingFinite
    · exact incomingFinite
  fin_cases listed
  · refine .pure ⟨?_,holds_required existing incoming⟩
    refine orderly_arr.mpr fun s mem => ?_
    obtain ⟨name,_,rfl⟩ := mem_map.mp mem
    rfl
  · refine .pure ⟨bounded _,fun v => ?_⟩
    exact holds_tighter ⟨.members,.lower,false⟩ rfl existingFinite incomingFinite (given.resolve_left (by decide))
  · refine .pure ⟨bounded _,fun v => ?_⟩
    exact holds_tighter ⟨.members,.upper,false⟩ rfl existingFinite incomingFinite (given.resolve_left (by decide))

structure Folded (ts : Texts) (fs : Fields) (bs : Json → Prop) (folded : Fields) : Prop where
  orderly : (obj folded).Finite
  same : ∀ key, key ∉ branchKeywords → folded.get? key = fs.get? key
  basic : ∀ v, Basic ts folded v ↔ Basic ts fs v ∧ bs v

lemma mergeBranch_folded (ts : Texts) {branch : Json} (ord : (obj fs).Finite)
    (branchOrderly : branch.Finite) (plain : isPlainBranch branch) (e : Engine (StateM σ)) :
    Ensures inv (mergeBranch e fs branch) (Folded ts fs fun v => branch.accepts ts v) := by
  cases branch with
  | obj parts =>
    have sorted := (orderly_obj.mp branchOrderly).1
    have asked {key r} (found : get? parts key = some r) : key ∈ branchKeywords ∧ (key = "required" ∨ r.float?.isSome) := by
      have both := Bool.and_eq_true_iff.mp (all_eq_true.mp plain (key,r) (mem_of_get? found))
      exact ⟨contains_iff_mem.mp both.1,(Bool.or_eq_true_iff.mp both.2).imp_left eq_of_beq⟩
    refine .mono (ensures_mergeBranch _ sorted (orderly_obj.mp ord).1 fun key l r left right => holds_joined ts
      (accepts ts) (asked right).1 (orderly_get? ord left) (orderly_get? branchOrderly right) (asked right).2 e)
      fun made ⟨madeSorted,stems⟩ => ?_
    have same key (unlisted : key ∉ branchKeywords) : made.get? key = fs.get? key := by
      have stem := stems key
      cases found : get? parts key with
      | none =>
        rw [show get? (branchFields (.obj parts)) key = none from found] at stem
        generalize fs.get? key = l, made.get? key = m at stem
        cases stem <;> rfl
      | some r => exact absurd (asked found).1 unlisted
    have held key v : HoldsAt ts made key v ↔ HoldsAt ts fs key v ∧ HoldsAt ts parts key v := by
      have stem : Intersection.Stems _ _ (get? parts key) _ := stems key
      unfold HoldsAt
      generalize atL : fs.get? key = l at stem
      generalize atR : get? parts key = r at stem
      generalize made.get? key = m at stem
      cases stem with
      | neither | left | right => simp
      | both l r m meets =>
        simp only [some.injEq,forall_eq']
        rcases meets with ⟨equal,rfl⟩ | ⟨_,joined⟩
        · rw [← holds_equal (asked atR).1 (orderly_get? ord atL) (orderly_get? branchOrderly atR) (asked atR).2
            equal,and_self]
        · exact joined v
    have acc v : (obj parts).accepts ts v ↔ ∀ key, HoldsAt ts parts key v := by
      rw [accepts_plain sorted plain,List.all_eq_true]
      exact ⟨fun all key s found => all _ (mem_of_get? found),fun all field mem => all _ _ (get?_of_mem sorted mem)⟩
    have single : ∀ key ∈ ["properties","patternProperties","additionalProperties","items","additionalItems"],
        key ∉ branchKeywords := by decide
    refine ⟨orderly_obj.mpr ⟨madeSorted,fun field mem => ?_⟩,same,fun v => ?_⟩
    · rcases (get?_of_mem madeSorted mem ▸ stems field.1).sources with left | right | ⟨l,r,left,right,⟨_,is⟩ | meets⟩
      · exact orderly_get? ord left
      · exact orderly_get? branchOrderly right
      · exact is ▸ orderly_get? ord left
      · exact meets.1
    rw [acc]
    refine ⟨fun basic => ⟨basic.change (fun key other => (same key other).symm) single fun key _ => ?_,fun key => ?_⟩,
      fun ⟨basic,branch⟩ => basic.change same single fun key _ => (held key v).mpr ⟨basic.keyword key,branch key⟩⟩
    · exact ((held key v).mp (basic.keyword key)).1
    · exact ((held key v).mp (basic.keyword key)).2
  | _ => cases plain

lemma mergeBranches_folded (ts : Texts) {bs : List Json} (ord : (obj fs).Finite)
    (plain : ∀ branch ∈ bs, branch.Finite ∧ isPlainBranch branch) (e : Engine (StateM σ)) :
    Ensures inv (bs.foldlM (mergeBranch e) fs) (Folded ts fs fun v => ∀ branch ∈ bs, branch.accepts ts v) := by
  induction bs generalizing fs with
  | nil => exact .pure ⟨ord,fun _ _ => rfl,fun v => (and_iff_left nofun).symm⟩
  | cons branch bs ih =>
    obtain ⟨branchOrderly,branchPlain⟩ := plain branch mem_cons_self
    refine .bind (mergeBranch_folded ts ord branchOrderly branchPlain e) fun out first => ?_
    refine .mono (ih first.orderly fun b later => plain b (.tail _ later)) fun out' rest => ?_
    refine ⟨rest.orderly,fun key other => (rest.same key other).trans (first.same key other),fun v => ?_⟩
    rw [rest.basic,first.basic,forall_mem_cons,and_assoc]
end Branches
def isPlainConditional (fs : Fields) : Bool :=
  (fs.get? "if").all fun condition => isCondition false condition &&
    ["then","else"].all fun key => (fs.get? key).all isPlainBranch

def Seen (data v : Json) : Prop := v.isObj = false ∨ v = data
section Passes
variable {σ : Type} {ts : Texts} {fs : Fields} {data : Json} (e : Engine (StateM σ))
lemma plain_branch (plain : isPlainConditional fs) {condition : Json} (given : fs.get? "if" = some condition)
    {branch : Branch} {chosen : Json} (found : fs.get? branch.keyword = some chosen) : isPlainBranch chosen := by
  unfold isPlainConditional at plain
  rw [given] at plain
  have bs := all_eq_true.mp (Bool.and_eq_true_iff.mp plain).2 branch.keyword (by cases branch <;> decide)
  rw [found] at bs
  exact bs

lemma decideBranch_decides (ts : Texts) (ord : (obj fs).Finite)
    (dataOrderly : data.Finite) (plain : isPlainConditional fs)
    (given : fs.get? "if" = some condition) (discriminant : Fields) :
    Always (decideBranch e condition data discriminant) fun decided => ∀ v, Seen data v →
      (Decides ts fs v ↔ ∀ chosen ∈ fs.get? decided.1.keyword, chosen.accepts ts v) := by
  have others : ∀ v, v.isObj = false → ∀ branch : Branch, ∀ chosen ∈ fs.get? branch.keyword,chosen.accepts ts v :=
    fun v other branch chosen found =>
      accepts_plain_others (orderly_get? ord found) (plain_branch plain given found) other
  have decides v : Decides ts fs v ↔ ∀ chosen ∈ fs.get?
      (Branch.ofCondition (condition.accepts ts v)).keyword, chosen.accepts ts v := by
    unfold Decides
    rw [given]
    exact ⟨fun all => all condition rfl,fun all c is => some.inj is ▸ all⟩
  have isCondition : isCondition false condition := by
    unfold isPlainConditional at plain
    rw [given] at plain
    exact (Bool.and_eq_true_iff.mp plain).1
  cases data with
  | obj ms =>
    have silent : false → ReadsAll ts (fun _ => True) e := fun asked => (Bool.false_ne_true asked).elim
    refine .bind (holds_answers silent isCondition (orderly_get? ord given) dataOrderly)
      fun holds is => .pure fun v seen => ?_
    subst is
    rcases seen with other | rfl
    · exact ⟨fun _ => others v other _,fun _ => (decides v).mpr (others v other _)⟩
    · exact decides _
  | _ =>
    refine .bind (ensures_any _) fun holds _ => .pure fun v seen => ?_
    have other : v.isObj = false := by
      rcases seen with other | rfl
      · exact other
      · rfl
    exact ⟨fun _ => others v other _,fun _ => (decides v).mpr (others v other _)⟩

structure Sorts (ts : Texts) (data : Json) (all rest : List Json) (s : Entries) : Prop where
  kept : ∀ entry ∈ s.kept, entry.Finite
  taken : ∀ branch ∈ s.taken, branch.Finite ∧ isPlainBranch branch
  worth : ∀ v, Seen data v → ((∀ entry ∈ all, entry.accepts ts v) ↔
    (∀ entry ∈ s.kept, entry.accepts ts v) ∧ (∀ branch ∈ s.taken, branch.accepts ts v) ∧
      ∀ entry ∈ rest, entry.accepts ts v)

def isPlainEntry : Json → Bool
  | .obj fs => isPlainConditional fs
  | _ => true

lemma resolveEntry_sorts {all rest : List Json} {entry : Json} {s : Entries} (dataOrderly : data.Finite)
    (sorts : Sorts ts data all (entry :: rest) s) (ord : entry.Finite) (plain : isPlainEntry entry) :
    Always (resolveEntry e data s entry) (Sorts ts data all rest) := by
  have keep : Sorts ts data all rest { s with kept := s.kept ++ [entry] } := by
    refine ⟨fun t mem => ?_,sorts.taken,fun v seen => ?_⟩
    · rcases mem_append.mp mem with old | new
      · exact sorts.kept t old
      · rwa [mem_singleton.mp new]
    · rw [sorts.worth v seen,forall_mem_cons,forall_mem_append,forall_mem_singleton,and_assoc]
      exact and_congr_right fun _ => and_left_comm
  cases entry with
  | obj fs =>
    unfold resolveEntry
    dsimp only [field?]
    cases given : get? fs "if" with
    | none => exact .pure keep
    | some condition =>
      refine .bind (decideBranch_decides e ts ord dataOrderly plain given s.discriminant) fun decided worth => ?_
      have sorted := (orderly_obj.mp ord).1
      -- What is left of the entry may be nothing, which accepts everything.
      have residue (p : Json → Prop) (empty : p .emptyObj) :
          ((∀ t ∈ if (without fs conditional).isEmpty then s.kept else s.kept ++
          [.obj (without fs conditional)], p t) ↔ (∀ t ∈ s.kept, p t) ∧ p (.obj (without fs conditional))) := by
        split
        · next none => rw [isEmpty_iff.mp none]; exact (and_iff_left empty).symm
        · rw [forall_mem_append,forall_mem_singleton]
      refine .pure ⟨?_,?_,fun v seen => ?_⟩
      · exact (residue (fun t => t.Finite) rfl).mpr ⟨sorts.kept,orderly_filter ord _⟩
      · rw [forall_mem_append]
        refine ⟨sorts.taken,fun chosen found => ?_⟩
        have at_ := mem_toList.mp found
        exact ⟨orderly_get? ord at_,plain_branch plain given at_⟩
      · rw [sorts.worth v seen,residue (fun t => t.accepts ts v) (accepts_emptyObj v),forall_mem_cons,
          forall_mem_append,accepts_without sorted,accepts_iff sorted,worth v seen]
        simp only [mem_toList]
        tauto
  | _ => exact .pure keep

structure Sifted (ts : Texts) (data : Json) (fs sifted : Fields) : Prop where
  orderly : (obj sifted).Finite
  same : ∀ key ∈ grouped, sifted.get? key = fs.get? key
  basic : ∀ v, Seen data v → (Basic ts sifted v ↔ Basic ts fs v)

lemma replaceAllOf (ts : Texts) (ord : (obj fs).Finite) {kept : List Json} (keptOrderly : ∀ entry ∈ kept, entry.Finite) :
    let schema := if kept.isEmpty then fs.erase "allOf" else fs.put "allOf" (.arr kept)
    (obj schema).Finite ∧ (∀ key, key ≠ "allOf" → schema.get? key = fs.get? key) ∧
      ∀ v, HoldsAt ts schema "allOf" v ↔ ∀ entry ∈ kept, entry.accepts ts v := by
  intro schema
  unfold schema HoldsAt
  split
  · next none =>
    rw [isEmpty_iff.mp none]
    refine ⟨orderly_erase ord,fun key other => get?_erase_other other.symm,fun v => ?_⟩
    rw [get?_erase_self (orderly_obj.mp ord).1]
    exact ⟨nofun,nofun⟩
  · refine ⟨orderly_put ord (orderly_arr.mpr keptOrderly),fun key other => get?_put_other other.symm,
    fun v => ?_⟩
    rw [get?_put_self]
    exact ⟨fun holds => all_eq_true.mp (holds _ rfl),fun all t is => some.inj is ▸ all_eq_true.mpr all⟩

lemma resolveAllOf_sifted (ts : Texts) (ord : (obj fs).Finite) (dataOrderly : data.Finite)
    (plain : ∀ es, fs.get? "allOf" = some (.arr es) → ∀ entry ∈ es, isPlainEntry entry) (discriminant : Fields) :
    Always (resolveAllOf e data ⟨fs,discriminant⟩) fun s => Sifted ts data fs s.schema := by
  have unchanged : Sifted ts data fs fs := ⟨ord,fun _ _ => rfl,fun _ _ => Iff.rfl⟩
  unfold resolveAllOf
  split
  · next es given =>
    have entriesOrderly := orderly_arr.mp (orderly_get? ord given)
    -- All entries count before the first step, none are to come after the last.
    refine .bind (.foldlM (motive := fun rest s => (∀ entry ∈ rest, entry ∈ es) ∧ Sorts ts data es rest s)
      ?_ es _ ?_) fun s ⟨_,sorts⟩ => ?_
    · rintro entry rest s ⟨inside,sorts⟩
      have mem := inside entry mem_cons_self
      refine .mono (resolveEntry_sorts e dataOrderly sorts (entriesOrderly entry mem) (plain es given entry mem))
        fun s' next => ⟨fun later isLater => inside later (.tail _ isLater),next⟩
    · refine ⟨fun _ mem => mem,nofun,nofun,fun v _ => ?_⟩
      exact ⟨fun all => ⟨nofun,nofun,all⟩,fun ⟨_,_,all⟩ => all⟩
    obtain ⟨schemaOrderly,same,holds⟩ := replaceAllOf ts ord sorts.kept
    refine .bind (mergeBranches_folded ts schemaOrderly sorts.taken e) fun out folded => .pure ?_
    refine ⟨folded.orderly,fun key isGrouped => ?_,fun v seen => ?_⟩
    · have plainKeys : ∀ k ∈ grouped, k ∉ branchKeywords ∧ k ≠ "allOf" := by decide
      exact (folded.same key (plainKeys key isGrouped).1).trans (same key (plainKeys key isGrouped).2)
    rw [folded.basic]
    refine (basic_exchange (by decide) same ?_).trans (and_iff_left trivial)
    have all : HoldsAt ts fs "allOf" v ↔ ∀ entry ∈ es, entry.accepts ts v := by
      unfold HoldsAt
      rw [given]
      exact ⟨fun holds => all_eq_true.mp (holds _ rfl),fun all t is => some.inj is ▸ all_eq_true.mpr all⟩
    rw [holds,all,sorts.worth v seen,and_iff_left trivial]
    exact and_congr_right fun _ => (and_iff_left nofun).symm
  · exact .pure unchanged

lemma resolveOwn_accepts (ts : Texts) {s : State} (ord : (obj s.schema).Finite)
    (dataOrderly : data.Finite) (plain : isPlainConditional s.schema) :
    Always (resolveOwn e data s) fun result => (obj result.2.schema).Finite ∧
      declared result.2.schema = declared s.schema ∧ ∀ v, Seen data v →
        ((obj result.2.schema).accepts ts v ↔ (obj s.schema).accepts ts v) := by
  unfold resolveOwn
  split
  · exact .pure ⟨ord,rfl,fun _ _ => Iff.rfl⟩
  next condition given =>
  refine .bind (decideBranch_decides e ts ord dataOrderly plain given s.discriminant) fun decided worth => ?_
  obtain ⟨branch,discriminant⟩ := decided
  have finish out (folded : Folded ts s.schema (fun v =>
      ∀ chosen ∈ s.schema.get? branch.keyword, chosen.accepts ts v) out) : (obj (out.without conditional)).Finite ∧
      declared (out.without conditional) = declared s.schema ∧ ∀ v, Seen data v →
      ((obj (out.without conditional)).accepts ts v ↔ (obj s.schema).accepts ts v) := by
    refine ⟨orderly_filter folded.orderly _,?_,fun v seen => ?_⟩
    · unfold declared
      rw [get?_without,if_neg (by decide),folded.same "properties" (by decide)]
    rw [accepts_without (orderly_obj.mp folded.orderly).1,folded.basic,accepts_iff (orderly_obj.mp ord).1,worth v seen]
  dsimp only
  cases found : s.schema.get? branch.keyword with
  | none =>
    refine .pure (finish s.schema ⟨ord,fun _ _ => rfl,fun v => ?_⟩)
    rw [found]
    exact (and_iff_left nofun).symm
  | some chosen =>
    refine .bind (mergeBranch_folded ts ord (orderly_get? ord found) (plain_branch plain given found) e)
      fun out folded => .pure (finish out ⟨folded.orderly,folded.same,fun v => ?_⟩)
    rw [folded.basic,found]
    exact and_congr_right fun _ => ⟨fun holds t is => some.inj is ▸ holds,fun all => all chosen rfl⟩

def Alike (ts : Texts) (data : Json) (prop resolved : String × Json) : Prop :=
  resolved.1 = prop.1 ∧ ∀ v, Seen (nestedData data prop.1) v → resolved.2.accepts ts v = prop.2.accepts ts v

lemma get?_alike {props resolved : Fields} (alike : Forall₂ (Alike ts data) props resolved) {name : String}
    {v : Json} (seen : Seen (nestedData data name) v) :
    (resolved.get? name).map (·.accepts ts v) = (props.get? name).map (·.accepts ts v) := by
  induction alike with
  | nil => rfl
  | cons head _ ih =>
    obtain ⟨sameName,worth⟩ := head
    rw [get?_cons,get?_cons,sameName]
    split
    · next named => exact congrArg some (worth v (named ▸ seen))
    · exact ih

lemma all_memberRules_alike (same : ∀ key, key ≠ "properties" → other.get? key = fs.get? key)
    (alike : ((declared other).get? name).map (·.accepts ts v) = ((declared fs).get? name).map (·.accepts ts v)) :
    (memberRules ts other name).all (·.accepts ts v) = (memberRules ts fs name).all (·.accepts ts v) := by
  unfold memberRules matching
  rw [same "patternProperties" (by decide),same "additionalProperties" (by decide)]
  cases old : (declared fs).get? name with
  | none =>
    rw [old] at alike
    rw [map_eq_none_iff.mp alike]
  | some p =>
    rw [old] at alike
    obtain ⟨q,new,worth⟩ := map_eq_some_iff.mp alike
    rw [new]
    exact congrArg (· && _) worth

-- What stands under a property of the data is the data for it, or else no object.
lemma seen_below {ms : Fields} (sorted : ms.Sorted) {name : String} {x : Json} (held : (name,x) ∈ ms) :
    Seen (nestedData (.obj ms) name) x := by
  unfold nestedData
  rw [field?,(get?_iff_mem sorted).mpr held]
  cases x with
  | obj => exact .inr rfl
  | _ => exact .inl rfl

lemma obeys_alike (obeys : Obeys ts fs v) (same : ∀ key, key ≠ "properties" → other.get? key = fs.get? key)
    (governed : ∀ ms, v = .obj ms → ∀ name x, (name,x) ∈ ms →
      (memberRules ts other name).all (·.accepts ts x) = (memberRules ts fs name).all (·.accepts ts x)) :
    Obeys ts other v := by
  have conditional : ∀ key ∈ conditional, key ≠ "properties" := by decide
  have xs i : itemRule? other i = itemRule? fs i := by
    unfold itemRule?
    rw [same "items" (by decide),same "additionalItems" (by decide)]
  refine obeys.by_rules (fun key isConditional => same key (conditional key isConditional)) (fun key s found => ?_) governed
    fun _ _ i x _ => by rw [xs]
  by_cases isProperties : key = "properties"
  · exact keywordHolds_grouped (isProperties ▸ by decide)
  · exact obeys.keyword key s (same key isProperties ▸ found)

lemma orderly_nestedData (ord : data.Finite) (name : String) : (nestedData data name).Finite := by
  unfold nestedData
  split
  · next fs found => cases data with
    | obj ms => exact orderly_get? ord found
    | _ => cases found
  · rfl

lemma accepts_alike {props resolved : Fields} (ord : (obj fs).Finite)
    (dataOrderly : data.Finite) (given : fs.get? "properties" = some (.obj props))
    (alike : Forall₂ (Alike ts data) props resolved) {v : Json} (seen : Seen data v) :
    (obj (fs.put "properties" (.obj resolved))).accepts ts v ↔ (obj fs).accepts ts v := by
  have sorted := (orderly_obj.mp ord).1
  have same key (other : key ≠ "properties") : (fs.put "properties" (.obj resolved)).get? key = fs.get? key :=
    get?_put_other other.symm
  have governed : ∀ ms, v = .obj ms → ∀ name x, (name,x) ∈ ms →
      (memberRules ts (fs.put "properties" (.obj resolved)) name).all (·.accepts ts x) =
        (memberRules ts fs name).all (·.accepts ts x) := by
    rintro ms rfl name x held
    obtain rfl : obj ms = data := seen.resolve_left nofun
    refine all_memberRules_alike same ?_
    have below := get?_alike alike (seen_below (orderly_obj.mp dataOrderly).1 held)
    unfold declared
    rw [get?_put_self,given]
    exact below
  rw [accepts_obj (sorted_put sorted),accepts_obj sorted]
  refine ⟨fun obeys => obeys_alike obeys (fun key other => (same key other).symm) ?_,
    fun obeys => obeys_alike obeys same governed⟩
  exact fun ms shape name x held => (governed ms shape name x held).symm

lemma resolveProperties_accepts (ts : Texts) {resolve : Json → Json → StateM σ Resolution}
    (ord : (obj s.schema).Finite) (dataOrderly : data.Finite)
    (each : ∀ prop ∈ declared s.schema, ∀ below : Json, below.Finite →
      Always (resolve prop.2 below) fun r => ∀ v, Seen below v → r.resolved.accepts ts v = prop.2.accepts ts v) :
    Always (resolveProperties resolve data s) fun s' => ∀ v, Seen data v →
      ((obj s'.schema).accepts ts v ↔ (obj s.schema).accepts ts v) := by
  unfold resolveProperties
  split
  · next properties given =>
    have declares : declared s.schema = properties := by
      unfold declared
      rw [given]
      rfl
    split
    · refine .bind (.foldlM (motive := fun rest r => ∃ done, properties = done ++ rest ∧
        Forall₂ (Alike ts data) done r.schema) ?_ properties _ ⟨[],rfl,.nil⟩) fun r made =>
          .pure fun v seen => ?_
      · rintro ⟨name,schema⟩ rest r ⟨done,all,alike⟩
        have mem : (name,schema) ∈ declared s.schema := by
          rw [declares,all]
          exact mem_append_right _ mem_cons_self
        have more resolved (one : Alike ts data (name,schema) (name,resolved)) :
            ∃ done, properties = done ++ rest ∧ Forall₂ (Alike ts data) done (r.schema ++ [(name,resolved)]) := by
          exact ⟨done ++ [(name,schema)],by rw [all,append_assoc]; rfl,rel_append alike (.cons one .nil)⟩
        dsimp only
        split
        · refine .bind (each (name,schema) mem _ (orderly_nestedData dataOrderly name)) fun nested worth => ?_
          exact .pure (more nested.resolved ⟨rfl,worth⟩)
        · exact .pure (more schema ⟨rfl,fun _ _ => rfl⟩)
      · obtain ⟨done,all,alike⟩ := made
        rw [append_nil] at all
        exact accepts_alike ord dataOrderly given (all ▸ alike) seen
    · exact .pure fun _ _ => Iff.rfl
  · exact .pure fun _ _ => Iff.rfl

def plainStep (nested : Json → Bool) : Json → Bool
  | .obj fs => isPlainConditional fs && ((get? fs "allOf").all fun s => s.itemsOrNone.all isPlainEntry) &&
      (declared fs).all fun prop => nested prop.2
  | _ => true

def hasPlainConditionals : Json → Bool := recurse plainStep true

lemma plain_descends : Descends plainStep := by
  intro s f g agree
  cases s with
  | obj fs =>
    have nested : ((declared fs).all fun prop => f prop.2) = (declared fs).all fun prop => g prop.2 :=
      all_agree fun prop mem => agree prop.2 (depth_declared mem)
    change (_ && _) = (_ && _)
    rw [nested]
  | _ => rfl

lemma decides_congr (same : ∀ key ∈ grouped, other.get? key = fs.get? key) (v : Json) :
    Decides ts other v ↔ Decides ts fs v := by
  have bs : ∀ branch : Branch, other.get? branch.keyword = fs.get? branch.keyword := fun branch =>
    same _ (by cases branch <;> decide)
  unfold Decides
  rw [same "if" (by decide)]
  simp only [bs]

lemma resolveWithin_accepts (ts : Texts) {s : Json} {depth : Nat} (ord : s.Finite)
    (dataOrderly : data.Finite) (plain : hasPlainConditionals s) (enough : s.depth < depth) :
    Always (resolveWithin e depth s data) fun r => ∀ v, Seen data v → r.resolved.accepts ts v = s.accepts ts v := by
  induction depth generalizing s data with
  | zero => exact absurd enough (Nat.not_lt_zero _)
  | succ depth ih => cases s with
    | obj fs =>
      unfold hasPlainConditionals at plain
      rw [recurse_eq plain_descends] at plain
      obtain ⟨⟨own,es⟩,nested⟩ : (_ ∧ _) ∧ _ := (Bool.and_eq_true_iff.mp plain).imp_left Bool.and_eq_true_iff.mp
      refine .bind (resolveAllOf_sifted e ts ord dataOrderly (fun list given => ?_) []) fun sifted first => ?_
      · rw [given] at es
        exact all_eq_true.mp es
      have sameConditional : isPlainConditional sifted.schema := by
        unfold isPlainConditional
        simp only [first.same "if" (by decide),all_cons,first.same "then" (by decide),first.same "else" (by decide)]
        exact own
      refine .bind (resolveOwn_accepts e ts first.orderly dataOrderly sameConditional) fun result second => ?_
      obtain ⟨branch,s'⟩ := result
      obtain ⟨ownOrderly,declares,second⟩ := second
      have sameDeclared : declared s'.schema = declared fs := by
        rw [declares]
        unfold declared
        rw [first.same "properties" (by decide)]
      refine .bind (resolveProperties_accepts ts ownOrderly dataOrderly fun prop mem below belowOrderly => ?_)
        fun s'' third => .pure fun v seen => ?_
      · rw [sameDeclared] at mem
        have shallow := depth_declared mem
        exact ih ((orderly_obj.mp (orderly_declared ord)).2 prop mem) belowOrderly
          (all_eq_true.mp nested prop mem) (by omega)
      · rw [Bool.eq_iff_iff,third v seen,second v seen,accepts_iff (orderly_obj.mp first.orderly).1,first.basic v seen,
          decides_congr first.same,accepts_iff (orderly_obj.mp ord).1]
    | _ => exact .pure fun _ _ => rfl
end Passes
end Resolution
theorem accepts_resolved (settings : Settings) (memory : Memory) (texts : Texts) (s d : Json)
    (orderly : s.isOrderly Num.isFinite = true) (dataOrderly : d.isOrderly Num.isFinite = true)
    (plain : Resolution.hasPlainConditionals s = true) :
    (((Memory.engine settings : Engine (StateM Memory)).resolve s d).run memory).1.resolved.accepts texts d = s.accepts texts d :=
  (Resolution.resolveWithin_accepts _ texts orderly dataOrderly plain (Nat.lt_succ_self _) memory trivial).2 d (.inr rfl)

def orderSchema : Json :=
  .obj [("allOf",.arr [.obj [("else",.single "required" (.arr [.str "shop"])),
      ("if",.obj [("properties",.single "by" (.single "enum" (.arr [.str "mail"]))),("required",.arr [.str "by"])]),
      ("then",.single "required" (.arr [.str "to"]))]]),
    ("if",.single "not" (.single "required" (.arr [.str "price"]))),("maxProperties",.digit 5),
    ("properties",.single "to" (.obj [("if",.bool true),("then",.single "required" (.arr [.str "street"]))])),
    ("required",.arr [.str "by"]),("then",.single "maxProperties" (.digit 3))]

def mailOrder : Json := .obj [("by",.str "mail"),("to",.single "street" (.str "s"))]

theorem accepts_resolved_order : Resolution.hasPlainConditionals orderSchema = true ∧
    (((Memory.engine {} : Engine (StateM Memory)).resolve orderSchema mailOrder).run {}).1.resolved =
      .obj [("maxProperties",.digit 3),("properties",.single "to" (.single "required" (.arr [.str "street"]))),
        ("required",.arr [.str "by",.str "to"])] ∧
    ∀ texts, (((Memory.engine {} : Engine (StateM Memory)).resolve orderSchema mailOrder).run {}).1.resolved.accepts texts
      mailOrder = orderSchema.accepts texts mailOrder := by
  have plain : Resolution.hasPlainConditionals orderSchema = true := by decide +kernel
  refine ⟨plain,rfl,fun texts => ?_⟩
  exact accepts_resolved {} {} texts orderSchema mailOrder (by decide +kernel) (by decide +kernel) plain
end SchemaOrder
