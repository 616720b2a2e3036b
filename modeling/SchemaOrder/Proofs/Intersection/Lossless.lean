import SchemaOrder.Proofs.Intersection.Merge
import SchemaOrder.Proofs.NormalForm
namespace SchemaOrder
open List Fields Json SchemaOrder.Normal Option Attempt Intersection SchemaOrder.Bound Keyword
variable {fs : Fields}
-- Where one side speaks about types, constants, bounds and required members only, two schemas with a value in common
-- merge, and keep that value.
def Vocabulary.plain : Vocabulary where
  keywords := ["type","const","enum","uniqueItems","required"]

def Fields.Plain (fs : Fields) : Prop :=
  ∀ key s, fs.get? key = some s → Vocabulary.plain.has key

lemma Fields.Plain.absent {key : String} (plain : fs.Plain)
    (unknown : Vocabulary.plain.has key = false) : fs.get? key = none := by
  cases found : fs.get? key with
  | none => rfl
  | some s =>
    rw [plain key s found] at unknown
    cases unknown

lemma Fields.Plain.flat (plain : fs.Plain) : (obj fs).field? "allOf" = none := plain.absent (by decide)
namespace Intersection
open Acceptance Schemas
variable {ts : Texts} {vocab : Vocabulary} {σ : Type} {inv : σ → Prop}
  {lookup : Lookup (StateM σ)} {left right : Fields} {v : Json}

lemma types_common (onLeft : keywordHolds ts (accepts ts) "type" l v)
    (onRight : keywordHolds ts (accepts ts) "type" r v) (path : String) : ∃ m, types l r path = .ok m := by
  obtain ⟨a,inLeft,left⟩ := any_eq_true.mp onLeft
  obtain ⟨b,inRight,right⟩ := any_eq_true.mp onRight
  obtain ⟨t,common,_⟩ := commonType?_complete left right
  have mem : t ∈ commonTypes (typeNames l) (typeNames r) := (mem_commonTypes _ _).mpr ⟨a,inLeft,b,inRight,common⟩
  unfold types
  split
  · next none => rw [none] at mem; cases mem
  all_goals exact ⟨_,rfl⟩

lemma enums_common (exact : v.isExact) (inLeft : v ∈ ls) (inRight : v ∈ rs) (path : String) :
    ∃ m, enums (.arr ls) (.arr rs) path = .ok m := by
  have kept : v ∈ ls.filter fun l => rs.any fun r => l.deepEqual r :=
    mem_filter.mpr ⟨inLeft,any_eq_true.mpr ⟨v,inRight,(deepEqual_iff exact exact).mpr rfl⟩⟩
  unfold enums
  dsimp only
  split
  · next none => rw [none] at kept; cases kept
  · exact ⟨_,rfl⟩

lemma plain_shape (known : Vocabulary.plain.has key) :
    shape key ∈ [Shape.note,.lowerBound,.upperBound] ∨ key ∈ Vocabulary.plain.keywords :=
  (Bool.or_eq_true_iff.mp known).symm.imp contains_iff_mem.mp contains_iff_mem.mp

-- Two plain keywords that hold for a value combine to one that holds for it.
lemma returns_keyword (known : Vocabulary.plain.has key) (left : keywordFormed (isSchema vocab) key l)
    (right : keywordFormed (isSchema vocab) key r) (exact : v.isExact)
    (onLeft : keywordHolds ts (accepts ts) key l v)
    (onRight : keywordHolds ts (accepts ts) key r v) (path : String) :
    Returns inv (keyword recur key l r path) fun made => keywordHolds ts (accepts ts) key made.1 v ∧ made.2 = [] := by
  have exacts : ∀ {s}, keywordFormed (isSchema vocab) key s → s.isExact :=
    fun formed => exact_keyword (fun _ _ => exact_schema) formed
  unfold keyword
  split
  · exact .pure ⟨onLeft,rfl⟩
  next ne =>
  split
  · obtain ⟨m,made⟩ := types_common onLeft onRight path
    exact .bind (.ofOk made ((holds_types made v).mpr ⟨onLeft,onRight⟩)) fun _ holds =>
      .pure ⟨holds,rfl⟩
  · rw [keywordHolds_const (exacts left) exact] at onLeft
    rw [keywordHolds_const (exacts right) exact] at onRight
    exact absurd ((deepEqual_iff (exacts left) (exacts right)).mpr (onLeft.trans onRight.symm)) ne
  · cases l with
    | arr ls =>
      cases r with
      | arr rs =>
        rw [keywordHolds_enum (formed_enum.mp left) exact] at onLeft
        rw [keywordHolds_enum (formed_enum.mp right) exact] at onRight
        obtain ⟨m,made⟩ := enums_common exact onLeft onRight path
        obtain ⟨common,rfl,ms⟩ := mem_enums (formed_enum.mp left) (formed_enum.mp right) made
        refine .bind (.ofOk made ?_) fun _ holds => .pure ⟨holds,rfl⟩
        exact (keywordHolds_enum (fun w mem => formed_enum.mp left w ((ms w).mp mem).1) exact).mpr
          ((ms v).mpr ⟨onLeft,onRight⟩)
      | _ => cases right
    | _ => cases left
  · exact .pure ⟨(holds_union left right v).mpr ⟨onLeft,onRight⟩,rfl⟩
  · exact .pure ⟨(holds_unique left right v).mpr ⟨onLeft,onRight⟩,rfl⟩
  iterate 4 exact absurd known (by decide)
  · have bounded {limit} (found : limit? key = some limit) (shape : shape key = .lowerBound ∨ shape key = .upperBound) :
        keywordHolds ts (accepts ts) key (bound limit.side l r) v := by
      obtain ⟨m,rfl⟩ := (formed_bound shape).mp left
      obtain ⟨n,rfl⟩ := (formed_bound shape).mp right
      rw [keywordHolds_limit found] at onLeft onRight ⊢
      exact (Limit.holds_bound exact m n).mpr ⟨onLeft,onRight⟩
    rcases plain_shape known with shape | mem
    · simp only [mem_cons,not_mem_nil,or_false] at shape
      rcases shape with shape | shape | shape
      · rw [shape]
        exact .pure ⟨onLeft,rfl⟩
      · obtain ⟨limit,found,side⟩ := limit_lower shape
        have holds := bounded found (.inl shape)
        rw [shape]
        rw [side] at holds
        exact .pure ⟨holds,rfl⟩
      · obtain ⟨limit,found,side⟩ := limit_upper shape
        have holds := bounded found (.inr shape)
        rw [shape]
        rw [side] at holds
        exact .pure ⟨holds,rfl⟩
    · fin_cases mem <;> contradiction

-- Where the left side declares nothing the properties of the right one stay.
lemma returns_properties (rFormed : Formed vocab right) (plain : left.Plain) (path : String) :
    Returns inv (properties lookup recur left right path) fun made => (right.get? "properties" = none → made = none) ∧
        ∀ name, ((made.bind fields?).getD []).get? name = (declared right).get? name := by
  have none : left.get? "properties" = none := plain.absent (by decide)
  have unconstrained name : constraints lookup left name = pure [] := by
    rw [constraints_plain (plain.absent (by decide)),plain.absent (by decide)]
    rfl
  unfold properties declared
  dsimp only
  rw [none]
  cases found : (right.get? "properties").bind fields? with
  | none => exact .pure ⟨fun _ => rfl,fun _ => rfl⟩
  | some es =>
    have held : right.get? "properties" = Option.none → False := by
      intro absent
      rw [absent] at found
      cases found
    have sorted : Sorted es := by
      have own := rFormed.declared.1
      unfold declared at own
      rwa [found] at own
    dsimp only [bind_none,getD_none]
    rw [foldlM_nil,pure_bind]
    refine .bind (.foldlM (motive := fun rest out => Sorted rest ∧
      ∀ name, (get? rest name).or (get? out name) = get? es name) ?_ es []
      ⟨sorted,fun name => or_none⟩) fun out ⟨_,facts⟩ =>
        .pure ⟨fun absent => (held absent).elim,facts⟩
    rintro ⟨name,s⟩ rest out ⟨restSorted,facts⟩
    have kept : Returns inv (settleProperty (required left ++ required right) name
        (constrainUndeclared lookup recur s left name (joinPath (joinPath path "properties") name))) fun m => m = s := by
      unfold settleProperty constrainUndeclared
      rw [unconstrained]
      exact .orElse (.pure rfl) False.elim
    refine .bind kept fun m same => .pure ⟨Pairwise.of_cons restSorted,fun other => ?_⟩
    rw [← facts other,get?_cons,get?_put,same]
    split
    · next here =>
      subst here
      rw [get?_tail restSorted]
      rfl
    · rfl

lemma returns_items (plain : left.Plain) (path : String) : Returns inv (items recur left right path) fun made =>
    made = (right.get? "items",right.get? "additionalItems") := by
  unfold items
  rw [show left.get? "items" = none from plain.absent (by decide),
    show left.get? "additionalItems" = none from plain.absent (by decide)]
  cases right.get? "items" with
  | some single => exact .pure rfl
  | none =>
    cases right.get? "additionalItems" <;> exact .pure rfl

-- The value itself is among the members of `enum` that stay.
lemma reconcileValues_keeps (formed : Formed vocab fs) (exact : v.isExact)
    (acc : (obj fs).accepts ts v) (path : String) :
    ∃ out, reconcileValues fs path = .ok out ∧ (obj out).accepts ts v ∧
      ∀ key, key ≠ "enum" → out.get? key = fs.get? key := by
  have obeys := (accepts_obj formed.sorted).mp acc
  have fits : fitsType fs v := by
    unfold fitsType
    split
    · rfl
    · next declared found => exact obeys.keyword _ _ found
  have constant : ∀ c, fs.get? "const" = some c → c = v := fun c found =>
    (keywordHolds_const (exact_formed formed found) exact).mp (obeys.keyword _ _ found)
  have typed : (fs.get? "const").filter (fun c => !fitsType fs c) = none := by
    cases found : fs.get? "const" with
    | none => rfl
    | some c => rw [constant c found,filter_some,fits]; rfl
  unfold reconcileValues
  dsimp only
  rw [typed]
  dsimp only
  split
  · next ms found =>
    have exacts := formed_enum.mp (formed.formed _ _ found)
    have mem := (keywordHolds_enum exacts exact).mp (obeys.keyword _ _ found)
    have kept : v ∈ ms.filter fun w => fitsType fs w && (fs.get? "const").all fun c => w.deepEqual c := by
      refine mem_filter.mpr ⟨mem,Bool.and_eq_true_iff.mpr ⟨fits,(all_eq_true _ _).mpr fun c at_ => ?_⟩⟩
      rw [constant c at_]
      exact (deepEqual_iff exact exact).mpr rfl
    rw [if_neg fun empty => by rw [isEmpty_iff.mp empty] at kept; cases kept]
    split
    · exact ⟨fs,rfl,acc,fun _ _ => rfl⟩
    refine ⟨_,rfl,?_,fun key other => get?_put_other (symm other)⟩
    refine (accepts_put formed.sorted (by decide)).mpr ⟨((accepts_erase formed.sorted (by decide)).mp acc).1,?_⟩
    exact (keywordHolds_enum (fun w inside => exacts w (mem_filter.mp inside).1) exact).mpr kept
  · exact ⟨fs,rfl,acc,fun _ _ => rfl⟩

structure Limits (p : Pair) (quantity : Quantity) (kind : String) (openBelow openAbove : Bool) : Prop where
  lower : limit? p.lower = some ⟨quantity,.lower,openBelow⟩
  upper : limit? p.upper = some ⟨quantity,.upper,openAbove⟩
  strict : p.strict = (openBelow || openAbove)
  applies : appliesTo? p.lower = some kind
  measured : ∀ v : Json, v.hasType kind → ∃ x, quantity.of? v = some x

lemma limits_pairs (mem : p ∈ pairs) : ∃ quantity kind openBelow openAbove, Limits p quantity kind openBelow openAbove := by
  fin_cases mem <;> refine ⟨_,_,_,_,rfl,rfl,rfl,rfl,fun v typed => ?_⟩ <;> cases v <;>
    first | exact ⟨_,rfl⟩ | cases typed

lemma hasType_typeConfined {kind : String} (obeys : Obeys ts fs v)
    (confined : typeConfined fs kind) : v.hasType kind := by
  unfold typeConfined at confined
  split at confined
  · cases confined
  next declared found =>
  obtain ⟨name,mem,typed⟩ := any_eq_true.mp (obeys.keyword _ _ found)
  exact hasType_within (all_eq_true.mp (Bool.and_eq_true_iff.mp confined).2 name mem) typed

lemma value?_whole (formed : Formed vocab fs) (bound : limit? key = some limit) (found : value? fs key = some x) :
    ∃ n : Whole, fs.get? key = some (.num (.whole n)) ∧ x = Float.ofInt n.val := by
  obtain ⟨s,at_,isNumber⟩ := bind_eq_some_iff.mp found
  obtain ⟨n,rfl⟩ := formed.whole bound at_
  exact ⟨n,at_,(some.inj isNumber).symm⟩

-- Bounds that leave no room have no value between them.
lemma not_empties (formed : Formed vocab fs) (exact : v.isExact) (obeys : Obeys ts fs v)
    (mem : p ∈ pairs) : p.empties fs = false := by
  obtain ⟨quantity,kind,openBelow,openAbove,limits⟩ := limits_pairs mem
  unfold Pair.empties
  rw [limits.applies]
  cases atLower : value? fs p.lower with
  | none => rfl
  | some low =>
    cases atUpper : value? fs p.upper with
    | none => rfl
    | some high =>
      obtain ⟨m,lowFound,rfl⟩ := value?_whole formed limits.lower atLower
      obtain ⟨n,highFound,rfl⟩ := value?_whole formed limits.upper atUpper
      refine Bool.eq_false_iff.mpr fun empties => ?_
      obtain ⟨apart,confined⟩ := Bool.and_eq_true_iff.mp empties
      obtain ⟨x,measured⟩ := limits.measured v (hasType_typeConfined obeys confined)
      have xNumber := Quantity.of?_number (ordered_exact exact) measured
      have above := obeys.keyword _ _ lowFound
      have below := obeys.keyword _ _ highFound
      rw [keywordHolds_limit limits.lower,Limit.holds_whole] at above
      rw [keywordHolds_limit limits.upper,Limit.holds_whole] at below
      have overLow := above x measured
      have underHigh := below x measured
      rw [limits.strict] at apart
      cases openBelow <;> cases openAbove <;>
        simp only [Limit.admits,Bool.or_true,Bool.or_false,Bool.false_eq_true,if_true,if_false,decide_eq_true_eq,
          Doubles.lt_iff,Doubles.le_iff,Doubles.ofInt_number,xNumber] at overLow underHigh apart <;> order

lemma checkBounds_ok (formed : Formed vocab fs) (exact : v.isExact)
    (acc : (obj fs).accepts ts v) (path : String) : checkBounds fs path = .ok () := by
  have obeys := (accepts_obj formed.sorted).mp acc
  unfold checkBounds
  split
  · next p found =>
    have empties := find?_some found
    rw [not_empties formed exact obeys (mem_of_find?_eq_some found)] at empties
    cases empties
  · rfl

lemma limit?_plain (unknown : Vocabulary.plain.has key = false) : limit? key = none := by
  unfold limit?
  split <;> first | rfl | exact absurd unknown (by decide)

structure Inherits (b m : Json) : Prop where
  lists : ∀ key ∈ ["allOf","anyOf"], m.field? key = b.field? key
  plain : ∀ key s, m.field? key = some s → Vocabulary.plain.has key ∨ (b.field? key).isSome

def KeptRule (ts : Texts) (vocab : Vocabulary) (v : Json) : Rule := fun key l r m extra =>
  Combines ts vocab key l r m extra ∧ keywordHolds ts (accepts ts) key m v ∧ extra = []
section Assembled
variable {extra : String → List Json}
lemma get?_assembled_plain (rSorted : right.Sorted) (plain : left.Plain)
    (drawn : Gathered (KeptRule ts vocab v) false left right [] shared extra) (unknown : Vocabulary.plain.has key = false)
    (other : key ≠ "properties") :
    (assembled false left right shared made (right.get? "items") (right.get? "additionalItems")).get? key = right.get? key := by
  cases aside : setAside false key with
  | false =>
    have absent := plain.absent unknown
    rw [get?_assembled rSorted aside,has,absent,if_neg (by decide),drawn.other key (.inl absent),get?_nil,or_none]
  | true =>
    have special := (setAside_iff.mp aside).resolve_right fun clashing => absurd clashing.1 (by decide)
    fin_cases special
    · exact absurd rfl other
    · exact drawn.get?_items rSorted
    · exact drawn.get?_further rSorted

-- The groups come from the right side, since the left one has none.
lemma obeys_assembled (closed : vocab.Closed) (rFormed : Formed vocab right) (plain : left.Plain)
    (drawn : Gathered (KeptRule ts vocab v) false left right [] shared extra)
    (formed : Formed vocab (assembled false left right shared made (right.get? "items") (right.get? "additionalItems")))
    (onLeft : Obeys ts left v) (onRight : Obeys ts right v)
    (declares : ∀ name, ((made.bind fields?).getD []).get? name = (declared right).get? name) :
    Obeys ts (assembled false left right shared made (right.get? "items") (right.get? "additionalItems")) v := by
  have sorted := rFormed.sorted
  refine onRight.by_parts (rFormed.ungrouped closed) (formed.ungrouped closed) (fun key cond => ?_)
    (fun key s found => ?_) (fun ms _ name x _ => ?_) fun xs _ i x _ => ?_
  · fin_cases cond <;> exact get?_assembled_plain sorted plain drawn (by decide) (by decide)
  · by_cases mem : key ∈ grouped
    · exact keywordHolds_grouped mem
    rcases drawn.sources sorted (inPlace_of_ungrouped mem) found with atL | atR | ⟨_,_,_,_,kept⟩
    · exact onLeft.keyword key s atL
    · exact onRight.keyword key s atR
    · exact kept.2.1
  · unfold memberRule?
    rw [get?_assembled_plain sorted plain drawn (by decide) (by decide),drawn.declared_assembled sorted,declares name]
  · unfold itemRule?
    rw [drawn.get?_items sorted,drawn.get?_further sorted]
end Assembled
lemma returns_objects (closed : vocab.Closed) (meeting : Meeting ts vocab inv recur)
    (lFormed : Formed vocab left) (rFormed : Formed vocab right) (plain : left.Plain)
    (exact : v.isExact) (onLeft : (obj left).accepts ts v) (onRight : (obj right).accepts ts v) (path : String) :
    Returns inv (objects lookup recur left right path) fun made =>
      (obj made).accepts ts v ∧ Inherits (.obj right) (.obj made) := by
  have lObeys := (accepts_obj lFormed.sorted).mp onLeft
  have rObeys := (accepts_obj rFormed.sorted).mp onRight
  have noClash : conditionalsClash left right = false := by
    unfold conditionalsClash has
    rw [show left.get? "if" = none from plain.absent (by decide)]
    rfl
  have partners key l r (atL : left.get? key = some l) (atR : right.get? key = some r)
      (inPlace : setAside false key = false) : Returns inv (keyword recur key l r path) fun made =>
      KeptRule ts vocab v key l r made.1 made.2 := by
    refine .mono (.and (returns_keyword (plain key l atL) (lFormed.formed _ _ atL) (rFormed.formed _ _ atR)
      exact (lObeys.keyword _ _ atL) (rObeys.keyword _ _ atR) path) (yields_partners closed meeting lFormed
        rFormed atL atR (noClash ▸ inPlace) path)) fun made ⟨kept,combined⟩ => ⟨combined,kept⟩
  unfold objects
  rw [noClash]
  refine .bind (runs_sharedKeywords (KeptRule ts vocab v) lFormed.sorted path partners []) ?_
  rintro ⟨shared,residual⟩ ⟨extra,spent,drawn⟩
  have nothing : residual = [] := spent.trans (drawn.spareless fun _ _ _ _ _ kept => kept.2.2)
  subst nothing
  refine .bind ((returns_properties rFormed plain path).and
    (yields_properties closed meeting lFormed rFormed path)) fun properties ⟨⟨undeclared,declares⟩,made⟩ => ?_
  refine .bind ((returns_items plain path).and (yields_items meeting lFormed rFormed path)) ?_
  rintro ⟨_,_⟩ ⟨⟨⟩,es⟩
  have formed : Formed vocab (assembled false left right shared properties (right.get? "items")
      (right.get? "additionalItems")) :=
    formed_assembled lFormed rFormed closed (drawn.mono fun _ _ _ _ _ kept => kept.1) nofun
      (fun s is => PropertiesMade.formed (is ▸ made)) es.items es.further
  have obeys := obeys_assembled closed rFormed plain drawn formed lObeys rObeys declares
  obtain ⟨out,reconciled,kept,same⟩ := reconcileValues_keeps formed exact ((accepts_obj formed.sorted).mpr obeys) path
  obtain ⟨outFormed,_⟩ := reconcileValues_narrows ts formed reconciled
  have folded := (accepts_fold outFormed exact).mpr kept
  have checked : Returns inv (.ofExcept (checkBounds (fold out) path)) fun _ => True :=
    .ofOk (checkBounds_ok (formed_fold outFormed) exact folded path) trivial
  -- outside the plain keywords only `properties` was written anew
  have inherited key (unknown : Vocabulary.plain.has key = false) (other : key ≠ "properties") :
      (fold out).get? key = right.get? key := by
    refine ((get?_fold (limit?_plain unknown) out).trans (same key ?_)).trans
      (get?_assembled_plain rFormed.sorted plain drawn unknown other)
    rintro rfl
    cases unknown
  refine .bind (.ofOk reconciled (Eq.refl out)) ?_
  rintro _ rfl
  refine .bind checked fun _ _ => .pure ⟨folded,fun key listed => ?_,fun key s found => ?_⟩
  · fin_cases listed <;> exact inherited _ (by decide) (by decide)
  change (fold out).get? key = some s at found
  cases unknown : Vocabulary.plain.has key with
  | true => exact .inl rfl
  | false =>
    refine .inr ?_
    change (right.get? key).isSome = true
    by_cases other : key = "properties"
    · subst other
      rw [get?_fold (limit?_plain unknown),same _ (by decide),drawn.get?_properties rFormed.sorted] at found
      rw [isSome_iff_ne_none]
      intro absent
      rw [undeclared absent] at found
      cases found
    · rw [← inherited key unknown other,found]
      rfl

lemma returns_step (closed : vocab.Closed) (meeting : Meeting ts vocab inv recur)
    (lFormed : Formed vocab left) (plain : left.Plain) {b : Json} (schema : b.isSchema vocab)
    (flat : b.field? "allOf" = none) (exact : v.isExact) (onLeft : (obj left).accepts ts v)
    (onRight : b.accepts ts v) (path : String) : Returns inv (step lookup recur (.obj left) b path) fun made =>
      made.accepts ts v ∧ Inherits b made := by
  unfold step
  rw [foldAllOf_flat plain.flat,foldAllOf_flat flat,pure_bind,pure_bind]
  rcases isSchema_cases schema with ⟨x,rfl⟩ | ⟨right,rfl,rFormed⟩
  · cases x with
    | false => cases onRight
    | true =>
      refine .pure ⟨onLeft,fun key listed => ?_,fun key s found => .inl (plain key s found)⟩
      fin_cases listed <;> exact plain.absent (by decide)
  · refine .bind (returns_objects closed meeting lFormed rFormed plain exact onLeft onRight path) ?_
    exact fun out facts => .pure facts

lemma ensures_merge_plain (closed : vocab.Closed) (lFormed : Formed vocab left) (plain : left.Plain)
    (schema : b.isSchema vocab) (flat : b.field? "allOf" = none) (exact : v.isExact)
    (onLeft : (obj left).accepts ts v) (onRight : b.accepts ts v) :
    Ensures inv (merge lookup (.obj left) b) fun result => ∃ m, result = .ok m ∧ m.accepts ts v ∧ Inherits b m := by
  obtain ⟨n,enough⟩ := budget_succ (.obj left) b
  unfold merge
  rw [enough]
  refine .bind (returns_step closed (meeting_mergeWithin ts closed n) lFormed plain schema flat exact onLeft
    onRight "") fun result admitted => ?_
  match result, admitted with
  | some (.ok m), facts => exact .pure ⟨m,rfl,facts⟩
end Intersection
namespace Engine
open Acceptance Schemas
variable {ts : Texts} {vocab : Vocabulary} {σ : Type} {inv : σ → Prop} {e : Engine (StateM σ)}
  {left right : Fields} {b v : Json}

lemma constantAgainst_common (lFormed : Formed vocab left) (rFormed : Formed vocab right)
    (exact : v.isExact) (onLeft : Obeys ts left v) (onRight : Obeys ts right v) (path : String) :
    constantAgainst left right path = none := by
  have constant : ∀ {fs}, Formed vocab fs → Obeys ts fs v →
      ∀ c, fs.get? "const" = some c → c = v := fun formed obeys c found =>
    (keywordHolds_const (exact_formed formed found) exact).mp (obeys.keyword _ _ found)
  unfold constantAgainst
  split
  · rfl
  next c atL =>
  obtain rfl := constant lFormed onLeft c atL
  have equal : (right.get? "const").filter (fun w => !c.deepEqual w) = none := by
    cases atR : right.get? "const" with
    | none => rfl
    | some w =>
      rw [constant rFormed onRight w atR,filter_some,(deepEqual_iff exact exact).mpr rfl]
      rfl
  rw [equal]
  dsimp only
  split
  · next ms atEnum => exact if_pos (onRight.keyword _ _ atEnum)
  · rfl

lemma pairedPositions_plain (plain : left.Plain) (right : Fields) (path : String) (walk : Walk) :
    pairedPositions left right path walk = [] := by
  have unknown : ∀ key ∈ walk.keywords, Vocabulary.plain.has key = false := by cases walk <;> decide
  refine flatMap_eq_nil_iff.mpr fun key visited => ?_
  rw [plain.absent (unknown key visited)]

lemma constantConflict_plain (lFormed : Formed vocab left) (plain : left.Plain)
    (schema : b.isSchema vocab) (exact : v.isExact) (onLeft : (obj left).accepts ts v)
    (onRight : b.accepts ts v) (depth : Nat) (path : String) : constantConflict depth (.obj left) b path = none := by
  rcases isSchema_cases schema with ⟨x,rfl⟩ | ⟨right,rfl,rFormed⟩
  · cases depth <;> rfl
  cases depth with
  | zero => rfl
  | succ depth =>
    have lObeys := (accepts_obj lFormed.sorted).mp onLeft
    have rObeys := (accepts_obj rFormed.sorted).mp onRight
    rw [constantConflict,constantAgainst_common lFormed rFormed exact lObeys rObeys,
      constantAgainst_common rFormed lFormed exact rObeys lObeys,pairedPositions_plain plain]
    rfl

lemma formatConflict_plain (plain : left.Plain) (b : Json) (depth : Nat) (path : String) :
    formatConflict depth (.obj left) b path = none := by
  cases depth with
  | zero => rfl
  | succ depth =>
    cases b with
    | obj right =>
      rw [formatConflict,pairedPositions_plain plain,formatAgainst,
        show left.get? "format" = none from plain.absent (by decide)]
      rfl
    | _ => rfl

lemma closedConflict_plain (e : Engine (StateM σ)) (plain : left.Plain) (b : Json) (depth : Nat) (path : String) :
    e.closedConflict depth (.obj left) b path = pure none := by
  have undeclared : declared? left = none := by
    unfold declared?
    rw [show left.get? "properties" = none from plain.absent (by decide)]
    rfl
  cases depth with
  | zero => rfl
  | succ depth =>
    cases b with
    | obj right =>
      have fromLeft : e.closedAgainst left right path = pure none := by
        unfold closedAgainst
        rw [show left.get? "additionalProperties" = none from plain.absent (by decide)]
      have fromRight : e.closedAgainst right left path = pure none := by
        unfold closedAgainst
        rw [undeclared]
        split
        · contradiction
        · rfl
      rw [closedConflict,fromLeft,fromRight,undeclared]
      rfl
    | _ => rfl

abbrev Merges (e : Engine (StateM σ)) : Prop := e.primitive = merge e.matcher

lemma ensures_intersect_plain (merges : e.Merges) (closed : vocab.Closed)
    (lFormed : Formed vocab left) (plain : left.Plain) (schema : b.isSchema vocab)
    (flat : b.field? "allOf" = none) (exact : v.isExact) (onLeft : (obj left).accepts ts v)
    (onRight : b.accepts ts v) : Ensures inv (e.intersect (.obj left) b) fun result =>
      ∃ m, result = .ok m ∧ m.accepts ts v ∧ Inherits b m := by
  unfold intersect
  rw [constantConflict_plain lFormed plain schema exact onLeft onRight,formatConflict_plain plain,
    closedConflict_plain e plain,merges]
  exact ensures_merge_plain closed lFormed plain schema flat exact onLeft onRight
end Engine
end SchemaOrder
