import SchemaOrder.Bound
import SchemaOrder.Proofs.Values
namespace SchemaOrder
open List Json Option
namespace Json
variable {α : Type} {step : (Json → α) → Json → α} {stop : α}
-- Acceptance of a value by a schema, by the rules of Draft-07 without references.
def descend (step : (Json → α) → Json → α) (stop : α) : Nat → Json → α
  | 0, _ => stop
  | n + 1, v => step (descend step stop n) v

def recurse (step : (Json → α) → Json → α) (stop : α) (v : Json) : α :=
  descend step stop (v.depth + 1) v

def Descends (step : (Json → α) → Json → α) : Prop :=
  ∀ v f g, (∀ w, w.depth < v.depth → f w = g w) → step f v = step g v

lemma descend_enough (descends : Descends step) (enough : v.depth < n) : descend step stop n v = recurse step stop v := by
  induction v using byDepth generalizing n with
  | step v ih =>
    obtain ⟨n,rfl⟩ : ∃ k, n = k + 1 := ⟨n - 1,by omega⟩
    refine descends v _ _ fun w shallower => ?_
    rw [ih w shallower (lt_of_lt_of_le shallower (Nat.le_of_lt_succ enough)),ih w shallower shallower]

lemma recurse_eq (descends : Descends step) (v : Json) : recurse step stop v = step (recurse step stop) v :=
  descends v _ _ fun _ shallower => descend_enough descends shallower
end Json
inductive Quantity where
  | value
  | length
  | items
  | members
deriving DecidableEq

structure Limit where
  quantity : Quantity
  side : Side
  strict : Bool

def Quantity.of? : Quantity → Json → Option Float
  | .value, .num n => some n.toFloat
  | .length, .str s => some s.length.toFloat
  | .items, .arr es => some es.length.toFloat
  | .members, .obj fs => some fs.length.toFloat
  | _, _ => none

def Limit.admits (limit : Limit) (bound x : Float) : Bool :=
  match limit.side, limit.strict with
  | .lower, false => bound ≤ x
  | .lower, true => bound < x
  | .upper, false => x ≤ bound
  | .upper, true => x < bound

def Limit.holds (limit : Limit) (bound v : Json) : Bool :=
  (limit.quantity.of? v).all fun x => bound.float?.all fun b => limit.admits b x

def Keyword.limit? (key : String) : Option Limit :=
  match key with
  | "minimum" => some ⟨.value,.lower,false⟩
  | "exclusiveMinimum" => some ⟨.value,.lower,true⟩
  | "maximum" => some ⟨.value,.upper,false⟩
  | "exclusiveMaximum" => some ⟨.value,.upper,true⟩
  | "minLength" => some ⟨.length,.lower,false⟩
  | "maxLength" => some ⟨.length,.upper,false⟩
  | "minItems" => some ⟨.items,.lower,false⟩
  | "maxItems" => some ⟨.items,.upper,false⟩
  | "minProperties" => some ⟨.members,.lower,false⟩
  | "maxProperties" => some ⟨.members,.upper,false⟩
  | _ => none

structure Texts where
  hasMatch (pat text : String) : Bool
  hasFormat (format text : String) : Bool
namespace Acceptance
def distinct : List Json → Bool
  | [] => true
  | v :: rest => !v.among rest && distinct rest

def dependencyHolds (acc : Json → Json → Bool) (ms : Fields) : Json → Bool
  | .arr ns => (ns.filterMap str?).all ms.has
  | schema => acc schema (.obj ms)

def keywordHolds (texts : Texts) (acc : Json → Json → Bool) (key : String) (s v : Json) : Bool :=
  match key with
  | "type" => (typeNames s).any v.hasType
  | "const" => s.deepEqual v
  | "enum" => v.among s.itemsOrNone
  | "required" => v.fields?.all fun members => s.listedStrings.all members.has
  | "uniqueItems" => v.items?.all fun items => !s.isTrue || distinct items
  | "contains" => v.items?.all fun items => items.any (acc s)
  | "propertyNames" => v.fields?.all fun members => members.all fun member => acc s (.str member.1)
  | "dependencies" =>
    v.fields?.all fun members => (s.fields?.getD []).all fun entry =>
      !members.has entry.1 || dependencyHolds acc members entry.2
  | "not" => !acc s v
  | "anyOf" => s.itemsOrNone.any fun branch => acc branch v
  | "oneOf" => (s.itemsOrNone.filter fun branch => acc branch v).length == 1
  | "allOf" => s.itemsOrNone.all fun entry => acc entry v
  | "pattern" => v.str?.all fun text => s.str?.all fun pat => texts.hasMatch pat text
  | "format" => v.str?.all fun text => s.str?.all fun format => texts.hasFormat format text
  | "multipleOf" => v.float?.all fun x => s.float?.all fun divisor => isMultipleOf x divisor
  | _ => (Keyword.limit? key).all fun limit => limit.holds s v

def declared (fs : Fields) : Fields :=
  ((fs.get? "properties").bind fields?).getD []

lemma declared_source (mem : prop ∈ declared fs) : ∃ s, fs.get? "properties" = some s ∧ prop ∈ s.fields?.getD [] := by
  unfold declared at mem
  cases found : fs.get? "properties" with
  | none => rw [found] at mem; cases mem
  | some s => exact ⟨s,rfl,by rwa [found] at mem⟩

lemma orderly_declared (ord : (obj fs).isOrderly nums) : (obj (declared fs)).isOrderly nums := by
  unfold declared
  cases found : Fields.get? fs "properties" with
  | none => rfl
  | some s => exact orderly_fields? (orderly_get? ord found)

def matching (ts : Texts) (fs : Fields) (name : String) : List Json :=
  ((((fs.get? "patternProperties").bind fields?).getD []).filter fun entry =>
    ts.hasMatch entry.1 name).map Prod.snd

def memberRules (ts : Texts) (fs : Fields) (name : String) : List Json :=
  match ((declared fs).get? name).toList ++ matching ts fs name with
  | [] => (fs.get? "additionalProperties").toList
  | rules => rules

def entryRule? (xs more : Option Json) (i : Nat) : Option Json :=
  match xs with
  | some (.arr tuple) => tuple[i]?.or more
  | single => single

def itemRule? (fs : Fields) (i : Nat) : Option Json :=
  entryRule? (fs.get? "items") (fs.get? "additionalItems") i

def membersHold (ts : Texts) (acc : Json → Json → Bool) (fs : Fields) (v : Json) : Bool :=
  v.fields?.all fun ms => ms.all fun mem =>
    (memberRules ts fs mem.1).all fun rule => acc rule mem.2

def itemsHold (acc : Json → Json → Bool) (fs : Fields) (v : Json) : Bool :=
  v.items?.all fun xs => xs.zipIdx.all fun entry =>
    (itemRule? fs entry.2).all fun rule => acc rule entry.1

def conditionHolds (acc : Json → Json → Bool) (fs : Fields) (v : Json) : Bool :=
  (fs.get? "if").all fun cond =>
    (fs.get? (if acc cond v then "then" else "else")).all fun branch => acc branch v

def step (ts : Texts) (acc : Json → Json → Bool) (schema v : Json) : Bool :=
  match schema with
  | .bool b => b
  | .obj fs =>
    (fs.all fun field => keywordHolds ts acc field.1 field.2 v) &&
      membersHold ts acc fs v && itemsHold acc fs v && conditionHolds acc fs v
  | _ => false
end Acceptance
def Json.accepts (ts : Texts) (schema v : Json) : Bool :=
  recurse (Acceptance.step ts) (fun _ => false) schema v
namespace Acceptance
section Agreement
variable {ts : Texts} {f g : Json → Json → Bool} {s : Json} {fs : Fields}
lemma all_agree {α : Type} {p q : α → Bool} {l : List α} (agree : ∀ a ∈ l, p a = q a) : l.all p = l.all q := by
  induction l with
  | nil => rfl
  | cons a rest ih =>
    rw [all_cons,all_cons,agree a mem_cons_self,ih fun b later => agree b (.tail _ later)]

lemma any_agree {α : Type} {p q : α → Bool} {l : List α} (agree : ∀ a ∈ l, p a = q a) : l.any p = l.any q := by
  rw [any_eq_not_all_not,any_eq_not_all_not,all_agree fun a mem => by rw [agree a mem]]

lemma option_agree {α : Type} {p q : α → Bool} {o : Option α} (agree : ∀ a ∈ o, p a = q a) : o.all p = o.all q := by
  cases o with
  | none => rfl
  | some a => exact agree a rfl

lemma depth_itemsOrNone (mem : t ∈ s.itemsOrNone) : t.depth < s.depth := by
  cases s with
  | arr xs => exact depth_item mem
  | _ => cases mem

lemma depth_entries (mem : entry ∈ s.fields?.getD []) : entry.2.depth < s.depth := by
  cases s with
  | obj fs => exact depth_field mem
  | _ => cases mem

lemma dependencyHolds_agree (agree : f s = g s) (ms : Fields) : dependencyHolds f ms s = dependencyHolds g ms s := by
  cases s with
  | arr => rfl
  | _ => exact congrFun agree _

lemma keywordHolds_agree (agree : ∀ t, t.depth ≤ s.depth → f t = g t) (key : String) (v : Json) :
    keywordHolds ts f key s v = keywordHolds ts g key s v := by
  have here : f s = g s := agree s (le_rfl)
  have inside : ∀ t ∈ s.itemsOrNone, f t v = g t v := fun t mem =>
    congrFun (agree t (le_of_lt (depth_itemsOrNone mem))) v
  unfold keywordHolds
  split
  · rfl
  · rfl
  · rfl
  · rfl
  · rfl
  · rw [here]
  · rw [here]
  · refine option_agree fun ms _ => all_agree fun entry mem => ?_
    rw [dependencyHolds_agree (agree entry.2 (le_of_lt (depth_entries mem)))]
  · rw [here]
  · exact any_agree inside
  · rw [filter_congr inside]
  · exact all_agree inside
  all_goals rfl

lemma depth_memberRules (mem : rule ∈ memberRules ts fs name) : rule.depth < (obj fs).depth := by
  have under key entry (found : entry ∈ ((fs.get? key).bind fields?).getD []) : entry.2.depth < (obj fs).depth := by
    cases at_ : fs.get? key with
    | none => rw [at_] at found; cases found
    | some map =>
      rw [at_] at found
      exact lt_trans (depth_entries found) (depth_get? at_)
  unfold memberRules at mem
  split at mem
  · exact depth_get? (mem_toList.mp mem)
  rcases mem_append.mp mem with named | matched
  · exact under "properties" (name,rule) (Fields.mem_of_get? (mem_toList.mp named))
  obtain ⟨entry,kept,rfl⟩ := mem_map.mp matched
  exact under "patternProperties" entry (mem_filter.mp kept).1

lemma depth_itemRule? (found : itemRule? fs i = some rule) : rule.depth < (obj fs).depth := by
  unfold itemRule? entryRule? at found
  split at found
  · next tuple at_ =>
    rcases or_eq_some_iff.mp found with entry | ⟨_,more⟩
    · exact lt_trans (depth_item (mem_of_getElem? entry)) (depth_get? at_)
    · exact depth_get? more
  · exact depth_get? found

lemma entryRule?_some (single : s.isArr = false) (more : Option Json) (i : Nat) :
    entryRule? (some s) more i = some s := by
  cases s with
  | arr tuple => cases single
  | _ => rfl

lemma step_descends (ts : Texts) : Descends (step ts) := by
  intro schema f g agree
  funext v
  cases schema with
  | obj fs =>
    have keywords field (mem : field ∈ fs) : keywordHolds ts f field.1 field.2 v =
        keywordHolds ts g field.1 field.2 v := keywordHolds_agree
        (fun t shallow => agree t (lt_of_le_of_lt shallow (depth_field mem))) field.1 v
    have members : membersHold ts f fs v = membersHold ts g fs v :=
      option_agree fun ms _ => all_agree fun mem _ => all_agree fun rule governs =>
        congrFun (agree rule (depth_memberRules governs)) _
    have items : itemsHold f fs v = itemsHold g fs v :=
      option_agree fun xs _ => all_agree fun entry _ => option_agree fun rule governs =>
        congrFun (agree rule (depth_itemRule? governs)) _
    have condition : conditionHolds f fs v = conditionHolds g fs v := by
      refine option_agree fun cond found => ?_
      rw [congrFun (agree cond (depth_get? found)) v]
      exact option_agree fun branch found => congrFun (agree branch (depth_get? found)) v
    change (_ && _ && _ && _) = (_ && _ && _ && _)
    rw [all_agree keywords,members,items,condition]
  | _ => rfl
end Agreement
variable {ts : Texts} {fs : Fields} {schema v : Json} {key : String}
lemma accepts_eq (ts : Texts) (schema v : Json) : schema.accepts ts v = step ts (accepts ts) schema v :=
  congrFun (recurse_eq (step_descends ts) schema) v

@[simp] lemma accepts_bool (ts : Texts) (b : Bool) (v : Json) : (bool b).accepts ts v = b := accepts_eq ts _ v

structure Obeys (ts : Texts) (fs : Fields) (v : Json) : Prop where
  keyword : ∀ key s, fs.get? key = some s → keywordHolds ts (accepts ts) key s v
  member : ∀ ms, v = .obj ms → ∀ name x, (name,x) ∈ ms →
    ∀ rule ∈ memberRules ts fs name, rule.accepts ts x
  item : ∀ xs, v = .arr xs → ∀ i x, xs[i]? = some x →
    ∀ rule, itemRule? fs i = some rule → rule.accepts ts x
  condition : ∀ c, fs.get? "if" = some c →
    ∀ branch, fs.get? (if c.accepts ts v then "then" else "else") = some branch → branch.accepts ts v

lemma membersHold_iff : membersHold ts (accepts ts) fs v ↔ ∀ ms, v = .obj ms → ∀ name x, (name,x) ∈ ms →
      ∀ rule ∈ memberRules ts fs name, rule.accepts ts x := by
  unfold membersHold
  cases v with
  | obj ms => simp [fields?]
  | _ => simp [fields?]

lemma itemsHold_iff : itemsHold (accepts ts) fs v ↔ ∀ xs, v = .arr xs → ∀ i x, xs[i]? = some x →
    ∀ rule, itemRule? fs i = some rule → rule.accepts ts x := by
  unfold itemsHold
  cases v with
  | arr xs =>
    simp only [items?,all_some,List.all_eq_true,Option.all_eq_true,arr.injEq,Prod.forall,
      mk_mem_zipIdx_iff_getElem?,forall_eq']
    exact ⟨fun holds i x => holds x i,fun holds x i => holds i x⟩
  | _ => simp [items?]

lemma accepts_obj (sorted : fs.Sorted) : (obj fs).accepts ts v ↔ Obeys ts fs v := by
  have keywords : (fs.all fun field => keywordHolds ts (accepts ts) field.1 field.2 v) ↔
      ∀ key s, fs.get? key = some s → keywordHolds ts (accepts ts) key s v := by
    simp only [List.all_eq_true,Prod.forall,Fields.get?_iff_mem sorted]
  have conditional : conditionHolds (accepts ts) fs v ↔ ∀ c, fs.get? "if" = some c →
      ∀ branch, fs.get? (if c.accepts ts v then "then" else "else") = some branch → branch.accepts ts v := by
    simp only [conditionHolds,Option.all_eq_true]
  rw [accepts_eq]
  change (_ && _ && _ && _) ↔ _
  rw [Bool.and_eq_true,Bool.and_eq_true,Bool.and_eq_true,keywords,membersHold_iff,itemsHold_iff,conditional]
  exact ⟨fun ⟨⟨⟨a,b⟩,c⟩,d⟩ => ⟨a,b,c,d⟩,fun ⟨a,b,c,d⟩ => ⟨⟨⟨a,b⟩,c⟩,d⟩⟩
end Acceptance
end SchemaOrder
