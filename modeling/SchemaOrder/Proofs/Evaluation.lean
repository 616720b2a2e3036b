import SchemaOrder.Condition
import SchemaOrder.Proofs.Acceptance
import SchemaOrder.Proofs.Doubles
import SchemaOrder.Proofs.Runs
namespace SchemaOrder
open Acceptance Fields Json Option Bool
variable {fs : Fields} {keys : List String}
-- Conditions on data, as acceptance.
lemma Num.equal_comm (m n : Num) : m.equal n = n.equal m := by
  cases m with
  | whole a => cases n with
    | whole b => exact beq_comm
    | double y => exact Doubles.beq_comm _ _
  | double x => cases n <;> exact Doubles.beq_comm _ _
namespace Json
variable {nums : Num → Bool}
lemma equalItems_comm (each : ∀ x ∈ xs, ∀ y ∈ ys, x.deepEqual y = y.deepEqual x) : equalItems xs ys = equalItems ys xs := by
  induction xs generalizing ys with
  | nil => cases ys <;> rfl
  | cons x xs ih => cases ys with
    | nil => rfl
    | cons y ys =>
      rw [equalItems,equalItems,each x List.mem_cons_self y List.mem_cons_self,
        ih fun a inXs b inYs => each a (List.mem_cons_of_mem _ inXs) b (List.mem_cons_of_mem _ inYs)]

lemma deepEqual_comm {v w : Json} (left : v.isOrderly nums) (right : w.isOrderly nums) : v.deepEqual w = w.deepEqual v := by
  induction v using byDepth generalizing w with
  | step v ih =>
    cases v with
    | null => cases w <;> rfl
    | bool a => cases w with
      | bool b => exact beq_comm
      | _ => rfl
    | num m => cases w with
      | num n => exact Num.equal_comm m n
      | _ => rfl
    | str s => cases w with
      | str t => exact beq_comm
      | _ => rfl
    | arr xs => cases w with
      | arr ys =>
        refine equalItems_comm fun x inXs y inYs => ?_
        exact ih x (depth_item inXs) (orderly_item left inXs) (orderly_item right inYs)
      | _ => rfl
    | obj xs => cases w with
      | obj ys =>
        obtain ⟨xsSorted,xsOrderly⟩ := orderly_obj.mp left
        obtain ⟨ysSorted,ysOrderly⟩ := orderly_obj.mp right
        rw [Bool.eq_iff_iff,deepEqual_obj_iff xsSorted ysSorted,deepEqual_obj_iff ysSorted xsSorted]
        refine forall_congr' fun key => ?_
        cases own : get? xs key with
        | none =>
          cases get? ys key with
          | none => exact Iff.rfl
          | some y => exact ⟨nofun,nofun⟩
        | some x =>
          cases other : get? ys key with
          | none => exact ⟨nofun,nofun⟩
          | some y =>
            have inXs := mem_of_get? own
            have inYs := mem_of_get? other
            rw [agree_some,agree_some,ih x (depth_field inXs) (xsOrderly _ inXs) (ysOrderly _ inYs)]
      | _ => rfl
end Json
namespace Fields
lemma all_keywords (sorted : fs.Sorted) (listed : ∀ field ∈ fs, field.1 ∈ keys) (test : String → Json → Bool) :
    (fs.all fun field => test field.1 field.2) = keys.all fun key => (fs.get? key).all (test key) := by
  rw [Bool.eq_iff_iff,List.all_eq_true,List.all_eq_true]
  refine ⟨fun all key _ => (all_eq_true _ _).mpr fun s found => ?_,fun all field mem => ?_⟩
  · exact all (key,s) (mem_of_get? found)
  · exact (all_eq_true _ _).mp (all field.1 (listed field mem)) field.2 ((get?_iff_mem sorted).mpr mem)

lemma get?_unlisted (listed : ∀ field ∈ fs, field.1 ∈ keys) {key : String}
    (other : key ∉ keys) : fs.get? key = none := by
  cases found : fs.get? key with
  | none => rfl
  | some s => exact absurd (listed _ (mem_of_get? found)) other
end Fields
namespace Acceptance
variable {ts : Texts} {fs ms : Fields}
-- Without patterns and additional properties only the declared properties govern.
lemma membersHold_declared (patterns : fs.get? "patternProperties" = none)
    (extra : fs.get? "additionalProperties" = none) (declaredSorted : (declared fs).Sorted) (sorted : ms.Sorted)
    (acc : Json → Json → Bool) : membersHold ts acc fs (.obj ms) =
      (declared fs).all fun prop => (ms.get? prop.1).all (acc prop.2) := by
  have rules name : memberRules ts fs name = ((declared fs).get? name).toList := by
    unfold memberRules matching
    rw [patterns,extra]
    cases (declared fs).get? name <;> rfl
  change (ms.all fun mem => (memberRules ts fs mem.1).all fun rule => acc rule mem.2) = _
  rw [Bool.eq_iff_iff,List.all_eq_true,List.all_eq_true]
  refine ⟨fun all prop mem => (all_eq_true _ _).mpr fun v found => ?_,fun all mem inside => ?_⟩
  · have governed := List.all_eq_true.mp (all (prop.1,v) (mem_of_get? found)) prop.2
    rw [rules] at governed
    exact governed (mem_toList.mpr ((get?_iff_mem declaredSorted).mpr mem))
  rw [rules,List.all_eq_true]
  intro rule governs
  have found := (get?_iff_mem sorted).mpr inside
  exact (all_eq_true _ _).mp (all (mem.1,rule) (mem_of_get? (mem_toList.mp governs))) _ found
end Acceptance
namespace Condition
variable {σ : Type} {inv : σ → Prop}
def Answers (inv : σ → Prop) (x : StateM σ Bool) (b : Bool) : Prop := Ensures inv x (· = b)
namespace Answers
variable {b rest : Bool}
lemma pure (b : Bool) : Answers inv (pure b) b := Ensures.pure rfl

lemma bind {next : Bool → StateM σ Bool} (first : Answers inv x b) (second : Answers inv (next b) goal) :
    Answers inv (x >>= next) goal :=
  Ensures.bind first fun _ is => is ▸ second

lemma guarded (b : Bool) (next : Answers inv k rest) : Answers inv (if (!b) then Pure.pure false else k) (b && rest) := by
  cases b with
  | false => exact pure false
  | true => exact next

lemma stage (first : Answers inv x b) (next : Answers inv k rest) :
    Answers inv (x >>= fun b => if (!b) then Pure.pure false else k) (b && rest) :=
  bind first (guarded b next)

-- A keyword counts if its value is a list.
lemma onList {tests : List Json → StateM σ Bool} {f : List Json → Bool} (found : Option Json) :
    (∀ es, found = some (.arr es) → Answers inv (tests es) (f es && rest)) → Answers inv k rest →
    Answers inv (match found with | some (.arr es) => tests es | _ => k) ((found.bind items?).all f && rest) := by
  intro each next
  cases found with
  | none => exact next
  | some v => cases v with
    | arr es => exact each es rfl
    | _ => exact next

lemma onFields {tests : Fields → StateM σ Bool} {f : Fields → Bool} (found : Option Json) :
    (∀ es, found = some (.obj es) → Answers inv (tests es) (f es && rest)) → Answers inv k rest →
    Answers inv (match found with | some (.obj es) => tests es | _ => k) ((found.bind fields?).all f && rest) := by
  intro each next
  cases found with
  | none => exact next
  | some v => cases v with
    | obj es => exact each es rfl
    | _ => exact next
variable {α : Type} {test : α → StateM σ Bool} {f : α → Bool}
lemma allHold (each : ∀ a ∈ l, Answers inv (test a) (f a)) : Answers inv (allHold test l) (l.all f) := by
  induction l with
  | nil => exact pure true
  | cons a l ih =>
    refine bind (each a List.mem_cons_self) ?_
    rw [List.all_cons]
    cases f a with
    | true => exact ih fun b later => each b (List.mem_cons_of_mem _ later)
    | false => exact pure false

lemma someHolds (each : ∀ a ∈ l, Answers inv (test a) (f a)) : Answers inv (someHolds test l) (l.any f) := by
  induction l with
  | nil => exact pure false
  | cons a l ih =>
    refine bind (each a List.mem_cons_self) ?_
    rw [List.any_cons]
    cases f a with
    | true => exact pure true
    | false => exact ih fun b later => each b (List.mem_cons_of_mem _ later)

lemma oneHolds (each : ∀ a ∈ l, Answers inv (test a) (f a)) :
    Answers inv (oneHolds test l) ((l.filter f).length == 1) := by
  induction l with
  | nil => exact pure false
  | cons a l ih =>
    have later b later : Answers inv (test b) (f b) := each b (List.mem_cons_of_mem _ later)
    refine bind (each a List.mem_cons_self) ?_
    cases hit : f a with
    | true =>
      refine bind (someHolds later) ?_
      have counts : (((a :: l).filter f).length == 1) = !l.any f := by
        rw [List.filter_cons,hit]
        cases some : l.any f with
        | true =>
          obtain ⟨b,mem,holds⟩ := List.any_eq_true.mp some
          have pos := List.length_pos_of_mem (List.mem_filter.mpr ⟨mem,holds⟩)
          simp [ne_of_gt pos]
        | false =>
          have empty : l.filter f = [] := List.filter_eq_nil_iff.mpr fun b mem holds =>
            absurd (List.any_eq_true.mpr ⟨b,mem,holds⟩) (by rw [some]; decide)
          rw [empty]
          rfl
      rw [counts]
      exact pure _
    | false =>
      rw [List.filter_cons,hit]
      exact ih later
end Answers
section Values
variable {ts : Texts} {acc : Json → Json → Bool} {fs : Fields} {v : Json}
def groupHolds (ts : Texts) (acc : Json → Json → Bool) (fs : Fields) (v : Json) (keys : List String) : Bool :=
  keys.all fun key => (fs.get? key).all fun s => keywordHolds ts acc key s v

def readsKeyword (key : String) (s : Json) : Bool :=
  match key with
  | "type" => !(typeNames s).isEmpty
  | "enum" => s.isArr
  | _ => true

def literalKeywords : List String := ["const","enum","type"]

def numberKeywords : List String := ["minimum","maximum","exclusiveMinimum","exclusiveMaximum","multipleOf"]

def textKeywords : List String := ["minLength","maxLength","pattern","format"]

def listKeywords : List String := ["minItems","maxItems","uniqueItems"]

def valueKeywords : List String :=
  literalKeywords ++ numberKeywords ++ textKeywords ++ listKeywords ++ ["properties","required"]

lemma literalFits_eq (ts : Texts) (acc : Json → Json → Bool)
    (reads : ∀ key s, fs.get? key = some s → readsKeyword key s) :
    literalFits fs v = groupHolds ts acc fs v literalKeywords := by
  have atEnum : ∀ s, fs.get? "enum" = some s → s.isArr := reads "enum"
  have atType s (found : fs.get? "type" = some s) : (typeNames s).isEmpty = false := by
    have named := reads "type" s found
    exact not_eq_true' _ ▸ named
  change (_ && _ && _) = ((fs.get? "const").all (fun s => s.deepEqual v) &&
    ((fs.get? "enum").all (fun s => v.among s.itemsOrNone) &&
      ((fs.get? "type").all (fun s => (typeNames s).any v.hasType) && true)))
  rw [Bool.and_true,Bool.and_assoc]
  congr 1
  · cases fs.get? "const" <;> rfl
  congr 1
  · cases found : fs.get? "enum" with
    | none => rfl
    | some s => cases s with
      | arr ms => rfl
      | _ => cases atEnum _ found
  cases found : fs.get? "type" with
  | none => rfl
  | some s =>
    dsimp only [all_some]
    rw [atType s found,Bool.false_or]

lemma within_eq (fs : Fields) (keyword : String) (holds : Float → Bool) :
    within fs keyword holds = (fs.get? keyword).all fun s => s.float?.all holds := by
  unfold within bound?
  cases fs.get? keyword with
  | none => rfl
  | some s => cases s <;> rfl

-- Keywords about values of another kind.
lemma groupHolds_of (each : ∀ key ∈ keys, ∀ s, keywordHolds ts acc key s v) : groupHolds ts acc fs v keys :=
  List.all_eq_true.mpr fun key mem => (all_eq_true _ _).mpr fun s _ => each key mem s

lemma numberFits_eq (ts : Texts) (acc : Json → Json → Bool) :
    numberFits fs v = groupHolds ts acc fs v numberKeywords := by
  cases v with
  | num n =>
    change (_ && _ && _ && _ && _) = (_ && (_ && (_ && (_ && (_ && true)))))
    rw [within_eq,within_eq,within_eq,within_eq,within_eq,Bool.and_true,Bool.and_assoc,Bool.and_assoc,Bool.and_assoc]
    rfl
  | _ =>
    refine (groupHolds_of ?_).symm
    simp only [numberKeywords,List.forall_mem_cons]
    exact ⟨fun _ => rfl,fun _ => rfl,fun _ => rfl,fun _ => rfl,fun _ => rfl,nofun⟩

lemma isUnique_eq {items : List Json} (orderly : ∀ item ∈ items, item.isOrderly nums) : isUnique items = distinct items := by
  induction items with
  | nil => rfl
  | cons a items ih =>
    have first : (items.all fun w => !a.deepEqual w) = !a.among items := by
      unfold among
      rw [List.not_any_eq_all_not]
      refine all_agree fun w later => ?_
      rw [deepEqual_comm (orderly a List.mem_cons_self) (orderly w (List.mem_cons_of_mem _ later))]
    rw [isUnique,distinct,first,ih fun w later => orderly w (List.mem_cons_of_mem _ later)]

lemma arrayFits_eq (ord : v.isOrderly nums) : arrayFits fs v = groupHolds ts acc fs v listKeywords := by
  cases v with
  | arr xs =>
    change (_ && _ && _) = (_ && (_ && (_ && true)))
    rw [within_eq,within_eq,isUnique_eq (orderly_arr.mp ord),Bool.and_true,Bool.and_assoc]
    dsimp only
    cases fs.get? "uniqueItems" <;> rfl
  | _ =>
    refine (groupHolds_of ?_).symm
    simp only [listKeywords,List.forall_mem_cons]
    exact ⟨fun _ => rfl,fun _ => rfl,fun _ => rfl,nofun⟩

def ReadsTexts (ts : Texts) (inv : σ → Prop) (e : Engine (StateM σ)) (fs : Fields) : Prop :=
  (∀ pat, fs.get? "pattern" = some (.str pat) →
      Ensures inv (e.matcher pat) fun found => ∀ text, found.all (· text) = ts.hasMatch pat text) ∧
    ∀ format, fs.get? "format" = some (.str format) →
      ∀ text, (Format.accepts? (.str text) format != some false) = ts.hasFormat format text

lemma formatFits_eq (reads : ReadsTexts ts inv e fs) (text : String) : (match (fs.get? "format").bind str? with
      | some format => Format.accepts? (.str text) format != some false
      | none => true) = (fs.get? "format").all fun s => s.str?.all fun format => ts.hasFormat format text := by
  cases found : fs.get? "format" with
  | none => rfl
  | some s => cases s with
    | str format => exact reads.2 format found text
    | _ => rfl

lemma stringFits_answers (reads : ReadsTexts ts inv e fs) :
    Answers inv (stringFits e fs v) (groupHolds ts acc fs v textKeywords) := by
  cases v with
  | str text =>
    -- What is left to say, once the pattern is looked up.
    have rest : ∀ patternFits formatFits,
        patternFits = (fs.get? "pattern").all (fun s => s.str?.all fun pat => ts.hasMatch pat text) →
        formatFits = (fs.get? "format").all (fun s => s.str?.all fun format => ts.hasFormat format text) →
        Answers inv (pure patternFits >>= fun patternFits =>
          pure (within fs "minLength" (fun m => m ≤ text.length.toFloat) &&
          within fs "maxLength" (fun m => text.length.toFloat ≤ m) && patternFits && formatFits))
          (groupHolds ts acc fs (.str text) textKeywords) := by
      rintro _ _ rfl rfl
      change Answers inv _ (_ && (_ && (_ && (_ && true))))
      rw [within_eq,within_eq,Bool.and_true,← Bool.and_assoc,← Bool.and_assoc]
      exact Answers.pure _
    unfold stringFits
    cases found : fs.get? "pattern" with
    | none => exact rest true _ (by rw [found]; rfl) (formatFits_eq reads text)
    | some s => cases s with
      | str pat =>
        refine Ensures.bind (reads.1 pat found) fun matcher isMatch => ?_
        have same : matcher.all (· text) =
            (fs.get? "pattern").all (fun s => s.str?.all fun p => ts.hasMatch p text) := by
          rw [found]
          exact isMatch text
        cases matcher with
        | none | some isMatch => exact rest _ _ same (formatFits_eq reads text)
      | _ => exact rest true _ (by rw [found]; rfl) (formatFits_eq reads text)
  | _ =>
    refine Eq.mpr (congrArg (Answers inv _) (groupHolds_of ?_)) (Answers.pure true)
    simp only [textKeywords,List.forall_mem_cons]
    exact ⟨fun _ => rfl,fun _ => rfl,fun _ => rfl,fun _ => rfl,fun _ absurd => by cases absurd⟩
end Values
def membersFit (nested : Json → Bool) (fits : Json → Json → Bool) (cond ms : Fields) : Bool :=
  ((cond.get? "properties").bind fields?).all
      (fun props => props.all fun prop => (ms.get? prop.1).all (fits prop.2)) &&
    (((cond.get? "required").bind items?).all (fun ns => (ns.filterMap str?).all ms.has) &&
      (((cond.get? "allOf").bind items?).all (fun es => es.all nested) &&
        (((cond.get? "anyOf").bind items?).all (fun es => es.any nested) &&
          (((cond.get? "oneOf").bind items?).all (fun es => (es.filter nested).length == 1) &&
            (((cond.get? "not").bind fields?).all (fun negated => !nested (.obj negated)) && true)))))

lemma fieldsHold_answers {nested : Json → StateM σ Bool} {fits : Json → Json → StateM σ Bool} {good : Json → Bool}
    {goodValue : Json → Json → Bool} {cond ms : Fields}
    (props : ∀ declared, cond.get? "properties" = some (.obj declared) → ∀ prop ∈ declared,
      ∀ v, ms.get? prop.1 = some v → Answers inv (fits prop.2 v) (goodValue prop.2 v))
    (lists : ∀ key ∈ ["allOf","anyOf","oneOf"], ∀ es, cond.get? key = some (.arr es) →
      ∀ entry ∈ es, Answers inv (nested entry) (good entry))
    (negation : ∀ negated, cond.get? "not" = some (.obj negated) →
      Answers inv (nested (.obj negated)) (good (.obj negated))) :
    Answers inv (fieldsHold nested fits cond (.obj ms)) (membersFit good goodValue cond ms) := by
  refine .onFields _ (fun declared given => .stage (.allHold fun entry mem => ?prop) ?required) ?required
  case prop =>
    dsimp only [fields?,getD_some]
    cases found : ms.get? entry.1 with
    | none => exact .pure true
    | some v => exact props declared given entry mem v found
  refine .onList _ (fun ns _ => .guarded _ ?allOf) ?allOf
  refine .onList _ (fun es given => .stage (.allHold (lists "allOf" (by decide) es given)) ?anyOf) ?anyOf
  refine .onList _ (fun es given => .stage (.someHolds (lists "anyOf" (by decide) es given)) ?oneOf) ?oneOf
  refine .onList _ (fun es given => .stage (.oneHolds (lists "oneOf" (by decide) es given)) ?negated) ?negated
  refine .onFields _ (fun negated given => .bind (negation negated given) ?_) (.pure true)
  cases good (.obj negated) with
  | true => exact .pure false
  | false => exact .pure true

def fittingStep (textual : Bool) (nested : Json → Bool) : Json → Bool
  | .bool _ => true
  | .obj fs => fs.all fun field =>
      valueKeywords.contains field.1 && readsKeyword field.1 field.2 && (textual || !(["pattern","format"].contains field.1)) &&
        (field.1 != "properties" || (field.2.fields?.getD []).all fun prop => nested prop.2)
  | _ => false

def isFitting (textual : Bool) : Json → Bool := recurse (fittingStep textual) false

lemma fitting_descends (textual : Bool) : Descends (fittingStep textual) := by
  intro s f g agree
  cases s with
  | obj fs =>
    refine all_agree fun field mem => ?_
    have nested : ((field.2.fields?.getD []).all fun prop => f prop.2) =
        (field.2.fields?.getD []).all fun prop => g prop.2 :=
      all_agree fun prop inside => agree prop.2 (lt_trans (depth_entries inside) (depth_field mem))
    rw [nested]
  | _ => rfl

structure Fitting (textual : Bool) (fs : Fields) : Prop where
  listed : ∀ field ∈ fs, field.1 ∈ valueKeywords
  reads : ∀ key s, fs.get? key = some s → readsKeyword key s
  plain : textual = false → fs.get? "pattern" = none ∧ fs.get? "format" = none
  nested : ∀ prop ∈ declared fs, isFitting textual prop.2

lemma fitting_obj {textual : Bool} (fitting : isFitting textual (.obj fs)) : Fitting textual fs := by
  unfold isFitting at fitting
  rw [recurse_eq (fitting_descends textual)] at fitting
  have each field (mem : field ∈ fs) : (field.1 ∈ valueKeywords ∧ readsKeyword field.1 field.2 ∧
      (textual ∨ field.1 ∉ ["pattern","format"])) ∧ (field.1 = "properties" →
      ∀ prop ∈ field.2.fields?.getD [], isFitting textual prop.2) := by
    have read := List.all_eq_true.mp fitting field mem
    simp only [and_eq_true,or_eq_true,List.contains_iff_mem,not_eq_true',bne_iff_ne,List.all_eq_true,
      ← not_eq_true] at read
    obtain ⟨⟨⟨listed,reads⟩,plain⟩,nested⟩ := read
    exact ⟨⟨listed,reads,plain⟩,fun isProperties => nested.resolve_left (absurd isProperties)⟩
  refine ⟨fun field mem => (each field mem).1.1,fun key s found => (each _ (mem_of_get? found)).1.2.1,?_,?_⟩
  · rintro rfl
    have absent key (listed : key ∈ ["pattern","format"]) : fs.get? key = none := by
      cases found : fs.get? key with
      | none => rfl
      | some s => exact absurd listed ((each _ (mem_of_get? found)).1.2.2.resolve_left false_ne_true)
    exact ⟨absent "pattern" (by decide),absent "format" (by decide)⟩
  intro prop mem
  obtain ⟨s,found,inside⟩ := declared_source mem
  exact (each _ (mem_of_get? found)).2 rfl prop inside

def ReadsAll (ts : Texts) (inv : σ → Prop) (e : Engine (StateM σ)) : Prop :=
  (∀ pat, Ensures inv (e.matcher pat) fun found => ∀ text, found.all (· text) = ts.hasMatch pat text) ∧
    ∀ format text, (Format.accepts? (.str text) format != some false) = ts.hasFormat format text
section Evaluates
variable {ts : Texts} {e : Engine (StateM σ)} {textual : Bool} {nums : Num → Bool} {fs ms : Fields} {s v : Json}
  {depth : Nat}

lemma Fitting.readsTexts (fitting : Fitting textual fs) (reads : textual → ReadsAll ts inv e) :
    ReadsTexts ts inv e fs := by
  cases textual with
  | true => exact ⟨fun pat _ => (reads rfl).1 pat,fun format _ => (reads rfl).2 format⟩
  | false =>
    obtain ⟨pat,format⟩ := fitting.plain rfl
    unfold ReadsTexts
    rw [pat,format]
    exact ⟨nofun,nofun⟩

lemma accepts_listed (sorted : fs.Sorted) (listed : ∀ field ∈ fs, field.1 ∈ keys)
    (single : "items" ∉ keys) (settled : "if" ∉ keys) (v : Json) : (obj fs).accepts ts v =
      (groupHolds ts (accepts ts) fs v keys && membersHold ts (accepts ts) fs v) := by
  have items : itemsHold (accepts ts) fs v := by
    have rule i : itemRule? fs i = none := by
      unfold itemRule?
      rw [get?_unlisted listed single]
      rfl
    refine (all_eq_true _ _).mpr fun xs _ => List.all_eq_true.mpr fun entry _ => ?_
    rw [rule]
    rfl
  have condition : conditionHolds (accepts ts) fs v := by
    unfold conditionHolds
    rw [get?_unlisted listed settled]
    rfl
  rw [accepts_eq]
  change (_ && _ && _ && _) = _
  rw [items,condition,Bool.and_true,Bool.and_true]
  exact congrArg (· && _) (all_keywords sorted listed fun key s => keywordHolds ts (accepts ts) key s v)

-- What the schema of a property asks for, group by group.
lemma accepts_fitting (fitting : Fitting textual fs) (sorted : fs.Sorted) (v : Json) :
    (obj fs).accepts ts v = (literalFits fs v && numberFits fs v && (groupHolds ts (accepts ts) fs v textKeywords &&
        (groupHolds ts (accepts ts) fs v listKeywords &&
        (groupHolds ts (accepts ts) fs v ["properties","required"] && membersHold ts (accepts ts) fs v)))) := by
  rw [accepts_listed sorted fitting.listed (by decide) (by decide),literalFits_eq ts (accepts ts) fitting.reads,
    numberFits_eq ts (accepts ts)]
  unfold valueKeywords groupHolds
  simp only [List.all_append,Bool.and_assoc]

lemma properties_eq (fs : Fields) (test : String × Json → Bool) :
    ((fs.get? "properties").bind fields?).all (fun props => props.all test) = (declared fs).all test := by
  unfold declared
  cases fs.get? "properties" with
  | none => rfl
  | some s => cases s <;> rfl

lemma required_eq (ts : Texts) (fs ms : Fields) :
    ((fs.get? "required").bind items?).all (fun ns => (ns.filterMap str?).all ms.has) =
      (fs.get? "required").all fun s => keywordHolds ts (accepts ts) "required" s (.obj ms) := by
  cases fs.get? "required" with
  | none => rfl
  | some s => cases s <;> rfl

lemma depth_declared (mem : prop ∈ declared fs) : prop.2.depth < (obj fs).depth := by
  obtain ⟨s,found,inside⟩ := declared_source mem
  exact lt_trans (depth_entries inside) (depth_get? found)

lemma properties_free : (fs.get? "properties").all fun s => keywordHolds ts (accepts ts) "properties" s (.obj ms) := by
  cases fs.get? "properties" <;> rfl

-- The members that the schema of a property asks for, and the schemas it has for them.
lemma membersFit_fitting (fitting : Fitting textual fs) (ord : (obj fs).isOrderly nums)
    (sorted : ms.Sorted) (good : Json → Bool) : membersFit good (accepts ts) fs ms =
      (groupHolds ts (accepts ts) fs (.obj ms) ["properties","required"] &&
        membersHold ts (accepts ts) fs (.obj ms)) := by
  have absent key (other : key ∉ valueKeywords) := get?_unlisted fitting.listed other
  rw [membersHold_declared (absent _ (by decide)) (absent _ (by decide))
    (orderly_obj.mp (orderly_declared ord)).1 sorted]
  unfold membersFit
  rw [properties_eq,required_eq ts,absent "allOf" (by decide),absent "anyOf" (by decide),
    absent "oneOf" (by decide),absent "not" (by decide)]
  change (_ && (_ && true)) = ((_ && (_ && true)) && _)
  dsimp only
  rw [properties_free,Bool.true_and,Bool.and_comm]

-- Members are looked at only if the value is an object and the schema speaks about them.
lemma nestedFit_answers (nested : Json → StateM σ Bool) {fits : Json → Json → StateM σ Bool}
    (fitting : Fitting textual fs) (ord : (obj fs).isOrderly nums) (valueOrderly : v.isOrderly nums)
    (each : ∀ prop ∈ declared fs, ∀ w : Json, w.isOrderly nums → Answers inv (fits prop.2 w) (prop.2.accepts ts w)) :
    Answers inv (if (v.isObj && (has fs "properties" || has fs "required")) then
        fieldsHold nested fits fs v else pure true) (groupHolds ts (accepts ts) fs v ["properties","required"] &&
        membersHold ts (accepts ts) fs v) := by
  have absent key (other : key ∉ valueKeywords) := get?_unlisted fitting.listed other
  cases v with
  | obj ms =>
    rw [← membersFit_fitting fitting ord (orderly_obj.mp valueOrderly).1 fun _ => true]
    split
    · have lists : ∀ key ∈ ["allOf","anyOf","oneOf"], key ∉ valueKeywords := by decide
      refine fieldsHold_answers (fun props given prop mem w found => ?_) (fun key isList es given => ?_)
        fun negated given => ?_
      · have declares : declared fs = props := by
          unfold declared
          rw [given]
          rfl
        exact each prop (declares ▸ mem) w (orderly_get? valueOrderly found)
      · rw [absent key (lists key isList)] at given
        cases given
      · rw [absent "not" (by decide)] at given
        cases given
    · next silent =>
      rw [not_eq_true,isObj,Bool.true_and,or_eq_false_iff,has,has,isSome_eq_false_iff,
        isSome_eq_false_iff,isNone_iff_eq_none,isNone_iff_eq_none] at silent
      unfold membersFit
      rw [silent.1,silent.2,absent "allOf" (by decide),absent "anyOf" (by decide),absent "oneOf" (by decide),
        absent "not" (by decide)]
      exact .pure true
  | _ =>
    refine Eq.mpr (congrArg (Answers inv _) ?_) (.pure true)
    rw [groupHolds_of (by simp only [List.forall_mem_cons]; exact ⟨fun _ => rfl,fun _ => rfl,nofun⟩)]
    rfl

lemma fitsWithin_answers (reads : textual → ReadsAll ts inv e) (fitting : isFitting textual s)
    (ord : s.isOrderly nums) (valueOrderly : v.isOrderly nums) (enough : s.depth ≤ depth) :
    Answers inv (fitsWithin e depth s v) (s.accepts ts v) := by
  induction depth generalizing s v with
  | zero => cases s with
    | bool b => exact .pure b
    | obj fs => cases enough
    | _ => cases fitting
  | succ depth ih => cases s with
    | bool b => exact .pure b
    | obj fs =>
      have parts := fitting_obj fitting
      have each prop (mem : prop ∈ declared fs) w (wOrderly : w.isOrderly nums) :
          Answers inv (fitsWithin e depth prop.2 w) (prop.2.accepts ts w) := by
        have shallow : prop.2.depth < (obj fs).depth := depth_declared mem
        exact ih (parts.nested prop mem) ((orderly_obj.mp (orderly_declared ord)).2 prop mem) wOrderly (by omega)
      have rest nestedFit : Answers inv (if (!(literalFits fs v && numberFits fs v)) then Pure.pure
          false else stringFits e fs v >>= fun fits =>
          if (!fits) then pure false else pure (arrayFits fs v && nestedFit))
          (literalFits fs v && numberFits fs v &&
          (groupHolds ts (accepts ts) fs v textKeywords &&
          (groupHolds ts (accepts ts) fs v listKeywords && nestedFit))) := by
        rw [← arrayFits_eq valueOrderly]
        exact .guarded _ (.stage (stringFits_answers (parts.readsTexts reads)) (.pure _))
      have nested := nestedFit_answers (fun c => holdsWithin e depth c v) parts ord valueOrderly each
      rw [accepts_fitting parts (orderly_obj.mp ord).1]
      unfold fitsWithin
      dsimp only
      split
      · next looks =>
        rw [if_pos looks] at nested
        exact .bind nested (rest _)
      next looks =>
      rw [if_neg looks] at nested
      exact .bind nested (rest _)
    | _ => cases fitting

def conditionKeywords : List String := ["properties","required","allOf","anyOf","oneOf","not"]

def conditionStep (textual : Bool) (nested : Json → Bool) : Json → Bool
  | .bool _ => true
  | .obj fs => fs.all fun field =>
      match field.1 with
      | "properties" => (field.2.fields?.getD []).all fun prop => isFitting textual prop.2
      | "required" => true
      | "allOf" => field.2.itemsOrNone.all nested
      | "anyOf" | "oneOf" => field.2.isArr && field.2.itemsOrNone.all nested
      | "not" => field.2.isObj && nested field.2
      | _ => false
  | _ => false

def isCondition (textual : Bool) : Json → Bool := recurse (conditionStep textual) false

lemma condition_descends (textual : Bool) : Descends (conditionStep textual) := by
  intro s f g agree
  cases s with
  | obj fs =>
    refine all_agree fun field mem => ?_
    have here : f field.2 = g field.2 := agree _ (depth_field mem)
    have inside : field.2.itemsOrNone.all f = field.2.itemsOrNone.all g := all_agree fun entry listed =>
      agree entry (lt_trans (depth_itemsOrNone listed) (depth_field mem))
    rw [here,inside]
  | _ => rfl

structure ReadInFull (textual : Bool) (fs : Fields) : Prop where
  listed : ∀ field ∈ fs, field.1 ∈ conditionKeywords
  properties : ∀ prop ∈ declared fs, isFitting textual prop.2
  entries : ∀ key ∈ ["allOf","anyOf","oneOf"], ∀ es, fs.get? key = some (.arr es) →
    ∀ entry ∈ es, isCondition textual entry
  alternatives : ∀ key ∈ ["anyOf","oneOf"], ∀ s, fs.get? key = some s → s.isArr
  negated : ∀ s, fs.get? "not" = some s → s.isObj ∧ isCondition textual s

lemma condition_obj (cond : isCondition textual (.obj fs)) : ReadInFull textual fs := by
  unfold isCondition at cond
  rw [recurse_eq (condition_descends textual)] at cond
  have each : ∀ key s, fs.get? key = some s → _ := fun key s found =>
    List.all_eq_true.mp cond (key,s) (mem_of_get? found)
  refine ⟨fun field mem => ?_,fun prop mem => ?_,fun key isList es found entry inside => ?_,?_,?_⟩
  · have read := List.all_eq_true.mp cond field mem
    split at read
    all_goals first | next same => rw [same]; decide | cases read
  · obtain ⟨s,found,inside⟩ := declared_source mem
    exact List.all_eq_true.mp (each _ _ found) prop inside
  · fin_cases isList
    all_goals exact List.all_eq_true.mp (each _ _ found) entry inside
  · intro key isList s found
    fin_cases isList
    all_goals exact (and_eq_true_iff.mp (each _ _ found)).1
  · intro s found
    exact and_eq_true_iff.mp (each _ _ found)

lemma accepts_condition (read : ReadInFull textual fs) (ord : (obj fs).isOrderly nums)
    (sorted : ms.Sorted) : (obj fs).accepts ts (.obj ms) =
      membersFit (fun c => c.accepts ts (.obj ms)) (accepts ts) fs ms := by
  have absent key (other : key ∉ conditionKeywords) := get?_unlisted read.listed other
  -- keyword by keyword, what evaluation reads is what acceptance asks, also of a value in the wrong shape
  have allOf : ((fs.get? "allOf").bind items?).all (fun es => es.all fun c =>
      c.accepts ts (.obj ms)) =
      (fs.get? "allOf").all fun s => keywordHolds ts (accepts ts) "allOf" s (.obj ms) := by
    cases fs.get? "allOf" with
    | none => rfl
    | some s => cases s <;> rfl
  have anyOf : ((fs.get? "anyOf").bind items?).all (fun es => es.any fun c =>
      c.accepts ts (.obj ms)) =
      (fs.get? "anyOf").all fun s => keywordHolds ts (accepts ts) "anyOf" s (.obj ms) := by
    cases found : fs.get? "anyOf" with
    | none => rfl
    | some s => cases s with
      | arr => rfl
      | _ => cases read.alternatives "anyOf" (by decide) _ found
  have oneOf : ((fs.get? "oneOf").bind items?).all (fun es => (es.filter fun c => c.accepts ts (.obj ms)).length == 1) =
        (fs.get? "oneOf").all fun s => keywordHolds ts (accepts ts) "oneOf" s (.obj ms) := by
    cases found : fs.get? "oneOf" with
    | none => rfl
    | some s => cases s with
      | arr => rfl
      | _ => cases read.alternatives "oneOf" (by decide) _ found
  have negated : ((fs.get? "not").bind fields?).all (fun fs => !(obj fs).accepts ts (.obj ms)) =
      (fs.get? "not").all fun s => keywordHolds ts (accepts ts) "not" s (.obj ms) := by
    cases found : fs.get? "not" with
    | none => rfl
    | some s => cases s with
      | obj => rfl
      | _ => cases (read.negated _ found).1
  rw [accepts_listed (orderly_obj.mp ord).1 read.listed (by decide) (by decide),
    membersHold_declared (absent _ (by decide)) (absent _ (by decide)) (orderly_obj.mp (orderly_declared ord)).1 sorted]
  unfold membersFit
  rw [properties_eq,required_eq ts,allOf,anyOf,oneOf,negated]
  change ((_ && (_ && (_ && (_ && (_ && (_ && true)))))) && _) = _
  dsimp only
  rw [properties_free,Bool.true_and,Bool.and_comm]

lemma holdsWithin_answers (reads : textual → ReadsAll ts inv e) (cond : isCondition textual s)
    (ord : s.isOrderly nums) (dataOrderly : (obj ms).isOrderly nums) (enough : s.depth ≤ depth) :
    Answers inv (holdsWithin e depth s (.obj ms)) (s.accepts ts (.obj ms)) := by
  induction depth generalizing s with
  | zero => cases s with
    | bool b => exact .pure b
    | obj fs => cases enough
    | _ => cases cond
  | succ depth ih => cases s with
    | bool b => exact .pure b
    | obj fs =>
      have read := condition_obj cond
      rw [accepts_condition read ord (orderly_obj.mp dataOrderly).1]
      refine fieldsHold_answers (fun props given prop mem v found => ?_) (fun key isList es given entry inside => ?_)
        fun negated given => ?_
      · have declares : declared fs = props := by
          unfold declared
          rw [given]
          rfl
        have inside : prop ∈ declared fs := declares ▸ mem
        have shallow := depth_declared inside
        exact fitsWithin_answers reads (read.properties prop inside)
          ((orderly_obj.mp (orderly_declared ord)).2 prop inside) (orderly_get? dataOrderly found) (by omega)
      · have shallow := lt_trans (depth_item inside) (depth_get? given)
        exact ih (read.entries key isList es given entry inside)
          (orderly_item (orderly_get? ord given) inside) (by omega)
      · have shallow := depth_get? given
        exact ih (read.negated _ given).2 (orderly_get? ord given) (by omega)
    | _ => cases cond

lemma holds_answers (reads : textual → ReadsAll ts inv e) (cond : isCondition textual s)
    (ord : s.isOrderly nums) (dataOrderly : (obj ms).isOrderly nums) :
    Answers inv (e.holds s (.obj ms)) (s.accepts ts (.obj ms)) :=
  holdsWithin_answers reads cond ord dataOrderly (le_rfl)
end Evaluates
end Condition
end SchemaOrder
