import SchemaOrder.Proofs.Intersection.Lossless
-- Schemas for typed objects and scalars merge to the values that both accept, and conflict only where there is none.
namespace SchemaOrder
open List Fields Vocabulary Attempt Json SchemaOrder.Bound Schemas
-- Scalars, unions and objects whose further members are all allowed or all forbidden.
def Vocabulary.typed : Vocabulary where
  keywords := ["type","const","enum","uniqueItems","required","properties","additionalProperties","not","anyOf","allOf"]
  describesExtra := false
namespace Fields
-- Does a schema speak about single members of an object?
def namesMembers (fs : Fields) : Bool :=
  fs.has "properties" || fs.has "required"

-- Does a schema accept objects only?
def onlyObjects (fs : Fields) : Bool :=
  (fs.get? "type").any fun t => (typeNames t).all (· == "object")
end Fields
-- Well-formed, and with `properties` and `required` beside the type `object` only.
def Json.isTypedSchema (s : Json) : Bool :=
  s.isSchemaWith .typed fun fs => !fs.namesMembers || fs.onlyObjects

-- The keywords with sub-schemas.
def structural : List String := ["properties","additionalProperties","not","anyOf","allOf"]

structure Typed (fs : Fields) : Prop where
  formed : Formed .typed fs
  inside : ∀ key ∈ structural, ∀ s, fs.get? key = some s → keywordFormed isTypedSchema key s
  objects : fs.namesMembers → fs.onlyObjects
namespace Schemas
variable {fs out : Fields} {key : String} {s : Json}
@[simp] lemma isTypedSchema_bool (b : Bool) : (bool b).isTypedSchema := isSchemaWith_bool b

lemma isSchema_of_typed (typed : s.isTypedSchema) : s.isSchema .typed := isSchema_of_with typed

lemma known_typed (known : typed.has key) : plain.has key ∨ key ∈ structural := by
  rcases Bool.or_eq_true_iff.mp known with listed | shape
  · have mem := contains_iff_mem.mp listed
    fin_cases mem <;> decide
  left
  exact Bool.or_eq_true_iff.mpr (.inr shape)

-- Without sub-schemas it does not matter which ones are well-formed.
lemma formed_plain (plain : plain.has key) (f g : Json → Bool) : keywordFormed f key s = keywordFormed g key s := by
  rcases Intersection.plain_shape plain with shape | mem
  · simp only [mem_cons,not_mem_nil,or_false] at shape
    unfold keywordFormed
    rcases shape with shape | shape | shape <;> rw [shape]
  · fin_cases mem <;> rfl

lemma isTypedSchema_obj : (obj fs).isTypedSchema ↔ Typed fs := by
  have members : (!namesMembers fs || onlyObjects fs) ↔ (namesMembers fs → onlyObjects fs) := by
    cases namesMembers fs <;> simp
  constructor
  · intro typed
    obtain ⟨stepped,objects⟩ := isSchemaWith_obj.mp typed
    obtain ⟨_,_,inside,_⟩ := (step_obj _).mp stepped
    exact ⟨isSchema_obj.mp (isSchema_of_typed typed),fun key _ s found => inside key s found,members.mp objects⟩
  intro typed
  refine isSchemaWith_obj.mpr ⟨(step_obj _).mpr ⟨typed.formed.sorted,typed.formed.allowed,?_,
    typed.formed.conditional⟩,members.mpr typed.objects⟩
  intro key s found
  rcases known_typed (has_of_allows (typed.formed.allowed _ _ found)) with plain | mem
  · exact (formed_plain plain _ (isSchema .typed)).trans (typed.formed.formed key s found)
  · exact typed.inside key mem s found

lemma isTypedSchema_cases (typed : s.isTypedSchema) : (∃ b, s = .bool b) ∨ ∃ fs : Fields, s = .obj fs ∧ Typed fs := by
  rcases isSchema_cases (isSchema_of_typed typed) with boolean | ⟨fs,rfl,_⟩
  · exact .inl boolean
  · exact .inr ⟨fs,rfl,isTypedSchema_obj.mp typed⟩
end Schemas
lemma Typed.keyword (typed : Typed fs) (found : fs.get? key = some s) : keywordFormed isTypedSchema key s := by
  have schema : (obj fs).isTypedSchema := isTypedSchema_obj.mpr typed
  obtain ⟨_,_,formed,_⟩ := (step_obj _).mp (isSchemaWith_obj.mp schema).1
  exact formed key s found
namespace Intersection
open Acceptance Schemas
variable {ts : Texts} {σ : Type} {inv : σ → Prop} {recur : Step (StateM σ)}
  {lookup : Lookup (StateM σ)} {left right out : Fields} {key : String} {l r m v : Json} {path : String}

-- No value is accepted by both.
def Exclusive (ts : Texts) (a b : Json) : Prop :=
  ∀ v, v.isExact → a.accepts ts v → b.accepts ts v → False

-- What both accept is accepted.
def Keeps (ts : Texts) (a b m : Json) : Prop :=
  ∀ v, v.isExact → a.accepts ts v → b.accepts ts v → m.accepts ts v

-- When a merge of two schemas may stop. Booleans always merge.
structure Refused (ts : Texts) (a b : Json) : Prop where
  exclusive : Exclusive ts a b
  described : a.bool?.isSome → b.bool?.isSome → False

structure Kept (ts : Texts) (a b m : Json) : Prop where
  typed : m.isTypedSchema
  keeps : Keeps ts a b m
  flat : a.bool?.isSome → b.bool?.isSome → m.bool?.isSome

-- The recursive step loses nothing.
def Keeping (ts : Texts) (inv : σ → Prop) (recur : Step (StateM σ)) : Prop :=
  ∀ a b path, a.isTypedSchema → b.isTypedSchema →
    Settles inv (Refused ts a b) (recur a b path) (Kept ts a b)

lemma formed_enums {f : Json → Bool} (left : keywordFormed f "enum" l) (made : enums l r path = .ok m) :
    keywordFormed f "enum" m := by
  unfold enums at made
  split at made
  · split at made <;> cases made
    apply formed_enum.mpr
    intro v mem
    exact formed_enum.mp left v (mem_filter.mp mem).1
  · cases made
    exact left

-- A plain keyword stays well-formed and leaves nothing over.
lemma yields_keywordPlain {f : Json → Bool} (known : plain.has key)
    (left : keywordFormed f key l) (right : keywordFormed f key r) (path : String) :
    Yields inv (keyword recur key l r path) fun made =>
      keywordFormed f key made.1 ∧ made.2 = [] ∧ (key = "type" → TypeRule l r made.1) := by
  unfold keyword
  split
  · next same => exact .pure ⟨left,rfl,fun _ => .inl ⟨same,rfl⟩⟩
  split
  · refine .bind (.ofAny fun m made => made) fun m made => .pure ?_
    exact ⟨formed_types made,rfl,fun _ => .inr ⟨path,made⟩⟩
  · exact .conflict trivial
  · refine .bind (.ofAny fun m made => made) fun m made => .pure ?_
    exact ⟨formed_enums left made,rfl,(absurd · (by decide))⟩
  · obtain ⟨ns,made,_⟩ := unionStrings_eq l.itemsOrNone r.itemsOrNone
    exact .pure ⟨isNames_iff.mpr ⟨ns,made⟩,rfl,(absurd · (by decide))⟩
  · exact .pure ⟨rfl,rfl,(absurd · (by decide))⟩
  iterate 4 exact absurd known (by decide)
  next notType _ _ _ _ _ _ _ _ =>
  have tighter side : keywordFormed f key (bound side l r) := by
    unfold bound
    split
    · split
      · exact right
      · exact left
    · exact left
  rcases plain_shape known with shape | mem
  · simp only [mem_cons,not_mem_nil,or_false] at shape
    rcases shape with shape | shape | shape <;> rw [shape]
    · exact .pure ⟨left,rfl,fun same => absurd same notType⟩
    all_goals exact .pure ⟨tighter _,rfl,fun same => absurd same notType⟩
  · fin_cases mem <;> contradiction

-- What a keyword of both sides becomes: a value accepted under both is accepted under it.
structure Retains (ts : Texts) (key : String) (l r m : Json) (extra : List Json) : Prop where
  allowed : typed.allows key m
  formed : keywordFormed isTypedSchema key m
  extras : ∀ e ∈ extra, e.isTypedSchema
  keeps : ∀ v, v.isExact → keywordHolds ts (accepts ts) key l v →
    keywordHolds ts (accepts ts) key r v →
    keywordHolds ts (accepts ts) key m v ∧ ∀ e ∈ extra, e.accepts ts v
  further : key = "additionalProperties" → Keeps ts l r m
  type : key = "type" → TypeRule l r m

lemma retains_alone (known : typed.has key) (single : key ∉ ["additionalProperties","format","type"])
    (formed : keywordFormed isTypedSchema key m) (keeps : ∀ v, v.isExact → keywordHolds ts (accepts ts) key l v →
      keywordHolds ts (accepts ts) key r v → keywordHolds ts (accepts ts) key m v) :
    Retains ts key l r m [] where
  allowed := by
    refine allows_plain known (fun mem => single ?_) m
    simp only [mem_cons,not_mem_nil,or_false] at mem ⊢
    rcases mem with same | same <;> simp [same]
  formed := formed
  extras _ mem := nomatch mem
  keeps v exact onLeft onRight := ⟨keeps v exact onLeft onRight,nofun⟩
  further same := absurd (by rw [same]; decide) single
  type same := absurd (by rw [same]; decide) single

lemma isTypedSchema_single (known : typed.has key) (mem : key ∈ ["anyOf","not"])
    (formed : keywordFormed isTypedSchema key m) : (single key m).isTypedSchema := by
  have only other t (found : get? [(key,m)] other = some t) : key = other ∧ m = t := by
    rw [get?_cons] at found
    split at found
    · next same => cases found; exact ⟨same,rfl⟩
    · cases found
  have apart : key ∉ ["additionalProperties","format","then","else","properties","required"] := by
    fin_cases mem <;> decide
  simp only [mem_cons,not_or] at apart
  refine isTypedSchema_obj.mpr ⟨isSchema_obj.mp (isSchema_single ?_ ?_ ⟨apart.2.2.1,apart.2.2.2.1⟩),?_,fun named => ?_⟩
  · exact allows_plain known (by simp [apart]) m
  · exact formed_of_with formed
  · intro other _ t found
    obtain ⟨rfl,rfl⟩ := only other t found
    exact formed
  · simp [namesMembers,Fields.has,get?_cons,apart] at named

lemma settles_keyword (keeping : Keeping ts inv recur) (lAllowed : typed.allows key l)
    (rAllowed : typed.allows key r) (left : keywordFormed isTypedSchema key l)
    (right : keywordFormed isTypedSchema key r) (declares : key ≠ "properties") (path : String) :
    Settles inv (∀ v, ¬ (v.isExact ∧ keywordHolds ts (accepts ts) key l v ∧
      keywordHolds ts (accepts ts) key r v)) (keyword recur key l r path) fun made =>
        Retains ts key l r made.1 made.2 := by
  have known := has_of_allows lAllowed
  have lFormed : keywordFormed (isSchema .typed) key l := formed_of_with left
  have rFormed : keywordFormed (isSchema .typed) key r := formed_of_with right
  rcases known_typed known with plain | mem
  · -- plain keywords have common values or conflict
    refine (settles_of_returns (yields_keywordPlain plain left right path) fun v common =>
      returns_keyword plain lFormed rFormed common.1 common.2.1 common.2.2 path).mono ?_
    rintro ⟨m,extra⟩ ⟨⟨formed,rfl,type⟩,keeps⟩
    have single : key ∉ ["additionalProperties","format"] := by
      simp only [mem_cons,not_mem_nil,or_false]
      rintro (rfl | rfl) <;> cases plain
    refine ⟨allows_plain known single m,formed,nofun,?_,fun same => ?_,type⟩
    · intro v exact onLeft onRight
      exact ⟨(keeps v ⟨exact,onLeft,onRight⟩).1,nofun⟩
    · exact absurd (by rw [same]; decide) single
  unfold keyword
  split
  · next same =>
    refine .pure ⟨lAllowed,left,nofun,?_,?_,fun _ => .inl ⟨same,rfl⟩⟩
    · intro v _ onLeft _
      exact ⟨onLeft,nofun⟩
    intro _ v _ onLeft _
    exact onLeft
  fin_cases mem
  · exact absurd rfl declares
  · -- further members are allowed or forbidden, and booleans merge
    obtain ⟨_,lFlat⟩ := allows_extra.mp lAllowed
    obtain ⟨_,rFlat⟩ := allows_extra.mp rAllowed
    have lBool := lFlat.resolve_left (by decide)
    have rBool := rFlat.resolve_left (by decide)
    refine .bind ((keeping l r _ left right).imp fun refused =>
      (refused.described lBool rBool).elim) fun m kept => .pure ?_
    refine ⟨allows_extra.mpr ⟨known,.inr (kept.flat lBool rBool)⟩,kept.typed,nofun,?_,fun _ => kept.keeps,
      (absurd · (by decide))⟩
    intro v _ _ _
    exact ⟨rfl,nofun⟩
  · have bs : keywordFormed isTypedSchema "anyOf" (.arr [l,r]) := by
      apply (formed_list rfl).mpr
      refine ⟨_,rfl,?_⟩
      have lTyped : l.isTypedSchema := left
      have rTyped : r.isTypedSchema := right
      simp [lTyped,rTyped]
    apply Runs.pure
    refine retains_alone known (by decide) (isTypedSchema_single (by decide) (by decide) bs) ?_
    intro v _ onLeft onRight
    change (!l.accepts ts v) at onLeft
    change (!r.accepts ts v) at onRight
    change (!(single "anyOf" (.arr [l,r])).accepts ts v)
    rw [Bool.not_eq_true',Bool.eq_false_iff,ne_eq,accepts_single (by decide)]
    change ¬ ([l,r].any fun branch => branch.accepts ts v)
    simp only [Bool.not_eq_true'] at onLeft onRight
    simp [onLeft,onRight]
  · apply Runs.pure
    refine ⟨lAllowed,left,fun e inside => ?_,fun v _ onLeft onRight => ⟨onLeft,fun e inside => ?_⟩,
      (absurd · (by decide)),(absurd · (by decide))⟩
    · rw [mem_singleton.mp inside]
      exact isTypedSchema_single (by decide) (by decide) right
    · rw [mem_singleton.mp inside]
      exact (accepts_single (by decide)).mpr onRight
  · obtain ⟨ls,rfl,lefts⟩ := (formed_list rfl).mp left
    obtain ⟨rs,rfl,rights⟩ := (formed_list rfl).mp right
    have ms := mem_appendNew ls rs fun v inside => (mem_append.mp inside).elim
      (fun at_ => exact_schema (isSchema_of_typed (lefts v at_))) fun at_ => exact_schema (isSchema_of_typed (rights v at_))
    apply Runs.pure
    refine retains_alone known (by decide) ((formed_list rfl).mpr ⟨_,rfl,fun v inside => ?_⟩) ?_
    · exact ((ms v).mp inside).elim (lefts v) (rights v)
    intro v _ onLeft onRight
    apply all_eq_true.mpr
    intro e inside
    rcases (ms e).mp inside with fromLeft | fromRight
    · exact all_eq_true.mp onLeft e fromLeft
    · exact all_eq_true.mp onRight e fromRight

-- What a property of one side becomes beside the rule of the other side for its name.
structure Suits (ts : Texts) (other : Fields) (name : String) (own m : Json) : Prop where
  typed : m.isTypedSchema
  keeps : ∀ x, x.isExact → own.accepts ts x →
    (∀ t, memberRule? other name = some t → t.accepts ts x) → m.accepts ts x

-- No member satisfies both the property and that rule.
def Clashes (ts : Texts) (other : Fields) (name : String) (own : Json) : Prop :=
  ∀ x, x.isExact → own.accepts ts x →
    (∀ t, memberRule? other name = some t → t.accepts ts x) → False
section Members
variable {fs other : Fields} {name : String} {own : Json}
lemma typed_declared (typed : Typed fs) (found : (declared fs).get? name = some own) : own.isTypedSchema := by
  unfold declared at found
  cases at_ : fs.get? "properties" with
  | none => rw [at_] at found; cases found
  | some map =>
    obtain ⟨es,rfl,_,good⟩ := (formed_map rfl).mp (typed.inside "properties" (by decide) map at_)
    rw [at_] at found
    exact good (name,own) (mem_of_get? found)

lemma settles_meet (keeping : Keeping ts inv recur) (ownTyped : own.isTypedSchema)
    (typed : t.isTypedSchema) (governs : memberRule? other name = some t) (path : String) :
    Settles inv (Clashes ts other name own) (recur own t path) (Suits ts other name own) := by
  refine ((keeping own t path ownTyped typed).imp fun refused => ?_).mono fun m kept => ⟨kept.typed,?_⟩
  · intro x exact acc rule
    exact refused.exclusive x exact acc (rule t governs)
  intro x exact acc rule
  exact kept.keeps x exact acc (rule t governs)

lemma settles_undeclared (keeping : Keeping ts inv recur) (typed : Typed other) (ownTyped : own.isTypedSchema)
    (missing : (declared other).get? name = none) (path : String) :
    Settles inv (Clashes ts other name own) (constrainUndeclared lookup recur own other name path)
      (Suits ts other name own) := by
  have governs := memberRule?_undeclared missing
  unfold constrainUndeclared
  rw [constraints_plain (typed.formed.absent (by decide))]
  refine .bind (.ask (.pure (Eq.refl _))) fun governing is => ?_
  subst is
  cases found : other.get? "additionalProperties" with
  | none => exact .pure ⟨ownTyped,fun _ _ acc _ => acc⟩
  | some t =>
    have good : t.isTypedSchema := typed.inside "additionalProperties" (by decide) t found
    exact .bind (settles_meet keeping ownTyped good (governs.trans found) path) fun m suits =>
      .pure suits

lemma settles_settleProperty {refuses : Prop}
    (settles : Settles inv (Clashes ts other name own) x (Suits ts other name own))
    (needed : Clashes ts other name own → name ∈ wanted → refuses) :
    Settles inv refuses (settleProperty wanted name x) (Suits ts other name own) := by
  refine runs_settleProperty settles (fun clash => ?_) needed
  exact ⟨isTypedSchema_bool false,fun x exact acc rule => (clash x exact acc rule).elim⟩

lemma obj_of_onlyObjects (objects : fs.onlyObjects) (obeys : Obeys ts fs v) : ∃ ms, v = .obj ms := by
  unfold onlyObjects at objects
  cases found : fs.get? "type" with
  | none => rw [found] at objects; cases objects
  | some t =>
    rw [found] at objects
    obtain ⟨kind,listed,typed⟩ := any_eq_true.mp (obeys.keyword _ _ found)
    rw [beq_iff_eq.mp (all_eq_true.mp objects kind listed)] at typed
    cases v <;> first | exact ⟨_,rfl⟩ | cases typed

lemma has_required {ms : Fields} (obeys : Obeys ts fs (.obj ms)) (asked : name ∈ required fs) : ms.has name := by
  unfold required at asked
  split at asked
  · next ns found => exact all_eq_true.mp (obeys.keyword _ _ found) name asked
  · cases asked

-- An object must have a member that somebody asks for, and a clash leaves none.
lemma clash_excludes (typed : Typed fs) (plain : other.get? "patternProperties" = none)
    (found : (declared fs).get? name = some own) (clash : Clashes ts other name own)
    (asked : name ∈ required fs ∨ name ∈ required other) (exact : v.isExact) (onOwn : Obeys ts fs v)
    (onOther : Obeys ts other v) : False := by
  have declares : fs.namesMembers := by
    unfold namesMembers Fields.has
    unfold declared at found
    cases at_ : fs.get? "properties" with
    | none => rw [at_] at found; cases found
    | some map => rfl
  obtain ⟨ms,rfl⟩ := obj_of_onlyObjects (typed.objects declares) onOwn
  have held : has ms name := asked.elim (has_required onOwn) (has_required onOther)
  obtain ⟨x,at_⟩ := has_iff.mp held
  have mem := mem_of_get? at_
  apply clash x ((exact_obj.mp exact).2 _ mem)
  · exact onOwn.memberRule (typed.formed.absent (by decide)) mem (memberRule?_declared found)
  intro t governs
  exact onOther.memberRule plain mem governs
end Members
-- The properties of an intersection.
structure Declares (ts : Texts) (left right out : Fields) : Prop where
  sorted : out.Sorted
  typed : ∀ name m, out.get? name = some m → m.isTypedSchema
  named : left.has "properties" ∨ right.has "properties"
  undeclared : ∀ name, out.get? name = none ↔ (declared left).get? name = none ∧ (declared right).get? name = none
  keeps : ∀ name m, out.get? name = some m → ∀ x, x.isExact →
    (∀ s, memberRule? left name = some s → s.accepts ts x) →
    (∀ s, memberRule? right name = some s → s.accepts ts x) → m.accepts ts x

lemma declares_of_suits (made : Declarations (Suits ts right) (Suits ts left) left right out) :
    Declares ts left right out := by
  have each name m (found : out.get? name = some m) : (∃ own, (declared left).get? name = some own ∧
      Suits ts right name own m) ∨ ∃ own, (declared right).get? name = some own ∧ Suits ts left name own m := by
    cases atL : (declared left).get? name with
    | some own =>
      obtain ⟨m',at_,suits⟩ := made.onLeft name own atL
      rw [found] at at_
      cases at_
      exact .inl ⟨own,rfl,suits⟩
    | none =>
      cases atR : (declared right).get? name with
      | some own =>
        obtain ⟨m',at_,suits⟩ := made.onRight name own atL atR
        rw [found] at at_
        cases at_
        exact .inr ⟨own,rfl,suits⟩
      | none => rw [made.neither name atL atR] at found; cases found
  refine ⟨made.sorted,fun name m found => ?_,made.named,made.undeclared,?_⟩
  · rcases each name m found with ⟨_,_,suits⟩ | ⟨_,_,suits⟩ <;> exact suits.typed
  intro name m found x exact lRule rRule
  rcases each name m found with ⟨own,at_,suits⟩ | ⟨own,at_,suits⟩
  · exact suits.keeps x exact (lRule own (memberRule?_declared at_)) rRule
  · exact suits.keeps x exact (rRule own (memberRule?_declared at_)) lRule

lemma settles_properties (keeping : Keeping ts inv recur) (lTyped : Typed left) (rTyped : Typed right) (path : String) :
    Settles inv (Exclusive ts (.obj left) (.obj right)) (properties lookup recur left right path) fun made =>
      (made = none ∧ left.get? "properties" = none ∧ right.get? "properties" = none) ∨
        ∃ out, made = some (.obj out) ∧ Declares ts left right out := by
  have lSorted := lTyped.formed.declared.1
  have rSorted := rTyped.formed.declared.1
  -- an object must have a member that somebody asks for, so a clash there leaves no common value
  have excludesLeft : ∀ {name own}, (declared left).get? name = some own → Clashes ts right name own →
      name ∈ required left ++ required right → Exclusive ts (.obj left) (.obj right) := by
    intro name own found clash asked v exact onLeft onRight
    exact clash_excludes lTyped (rTyped.formed.absent (by decide)) found clash (mem_append.mp asked) exact
      ((accepts_obj lTyped.formed.sorted).mp onLeft) ((accepts_obj rTyped.formed.sorted).mp onRight)
  have excludesRight : ∀ {name own}, (declared right).get? name = some own → Clashes ts left name own →
      name ∈ required left ++ required right → Exclusive ts (.obj left) (.obj right) := by
    intro name own found clash asked v exact onLeft onRight
    exact clash_excludes rTyped (lTyped.formed.absent (by decide)) found clash (mem_append.mp asked).symm exact
      ((accepts_obj rTyped.formed.sorted).mp onRight) ((accepts_obj lTyped.formed.sorted).mp onLeft)
  refine (runs_declarations (Suits ts right) (Suits ts left) lSorted rSorted path
    (fun name l r atL atR => settles_settleProperty ?_ (excludesLeft atL))
    (fun name l atL missing => settles_settleProperty ?_ (excludesLeft atL))
    (fun name r missing atR => settles_settleProperty ?_ (excludesRight atR))).mono ?_
  · exact settles_meet keeping (typed_declared lTyped atL) (typed_declared rTyped atR) (memberRule?_declared atR) _
  · exact settles_undeclared keeping rTyped (typed_declared lTyped atL) missing _
  · exact settles_undeclared keeping lTyped (typed_declared rTyped atR) missing _
  · rintro made (⟨rfl,noLeft,noRight⟩ | ⟨out,rfl,declarations⟩)
    · exact .inl ⟨rfl,declared_none lTyped.formed noLeft,declared_none rTyped.formed noRight⟩
    · exact .inr ⟨out,rfl,declares_of_suits declarations⟩

lemma typed_of_same (typed : Typed fs) (formed : Formed .typed out)
    (same : ∀ key ∈ "type" :: "required" :: structural, out.get? key = fs.get? key) : Typed out := by
  refine ⟨formed,fun key mem s found => ?_,fun named => ?_⟩
  · rw [same key (mem_cons_of_mem _ (.tail _ mem))] at found
    exact typed.inside key mem s found
  unfold namesMembers Fields.has at named
  rw [same "properties" (by decide),same "required" (by decide)] at named
  unfold onlyObjects
  rw [same "type" (by decide)]
  exact typed.objects named

-- The entries left over go to `allOf`.
lemma typed_addResidual (typed : Typed out) {residual : List Json} (schemas : ∀ e ∈ residual, e.isTypedSchema) :
    Typed (addResidual out residual) ∧ ∀ v, (obj out).accepts ts v →
      (∀ e ∈ residual, e.accepts ts v) → (obj (addResidual out residual)).accepts ts v := by
  unfold addResidual
  split
  · exact ⟨typed,fun v acc _ => acc⟩
  have own : ∃ es, ((out.get? "allOf").bind items?).getD [] = es ∧
      (∀ e ∈ es, e.isTypedSchema) ∧ ∀ e ∈ es, ∃ s, out.get? "allOf" = some s ∧ e ∈ s.itemsOrNone := by
    cases found : out.get? "allOf" with
    | none => exact ⟨[],rfl,nofun,nofun⟩
    | some s =>
      obtain ⟨es,rfl,goods⟩ := (formed_list rfl).mp (typed.inside "allOf" (by decide) s found)
      exact ⟨es,rfl,goods,fun e mem => ⟨_,rfl,mem⟩⟩
  obtain ⟨es,is,goods,listed⟩ := own
  rw [is]
  have ms := mem_appendNew es residual fun v mem => (mem_append.mp mem).elim
    (fun at_ => exact_schema (isSchema_of_typed (goods v at_))) fun at_ => exact_schema (isSchema_of_typed (schemas v at_))
  have good : keywordFormed isTypedSchema "allOf" (.arr (appendNew es residual)) :=
    (formed_list rfl).mpr ⟨_,rfl,fun e mem => ((ms e).mp mem).elim (goods e) (schemas e)⟩
  have kept key other : (out.put "allOf" (.arr (appendNew es residual))).get? key =
      out.get? key := get?_put_other (Ne.symm other)
  refine ⟨⟨?_,fun key mem s found => ?_,fun named => ?_⟩,fun v acc accepts => ?_⟩
  · exact typed.formed.put (by decide) (allows_plain (by decide) (by decide) _) (formed_of_with good)
  · by_cases isAllOf : key = "allOf"
    · subst isAllOf
      rw [get?_put_self] at found
      cases found
      exact good
    · exact typed.inside key mem s ((kept key isAllOf).symm.trans found)
  · unfold namesMembers Fields.has at named
    rw [kept "properties" (by decide),kept "required" (by decide)] at named
    unfold onlyObjects
    rw [kept "type" (by decide)]
    exact typed.objects named
  · have obeys := (accepts_obj typed.formed.sorted).mp acc
    apply (accepts_put typed.formed.sorted (by decide)).mpr
    refine ⟨((accepts_erase typed.formed.sorted (by decide)).mp acc).1,all_eq_true.mpr fun e mem => ?_⟩
    rcases (ms e).mp mem with old | new
    · obtain ⟨s,found,inside⟩ := listed e old
      exact all_eq_true.mp (obeys.keyword _ _ found) e inside
    · exact accepts e new

lemma commonType?_object (common : commonType? a b = some t) (object : a = "object" ∨ b = "object") : t = "object" := by
  unfold commonType? at common
  split at common
  · next within =>
    cases common
    rcases typeWithin_iff.mp within with rfl | ⟨rfl,rfl⟩
    · exact object.elim id id
    · simp at object
  split at common
  · next within =>
    cases common
    rcases typeWithin_iff.mp within with rfl | ⟨rfl,rfl⟩
    · exact object.elim id id
    · simp at object
  · cases common

-- One side that accepts objects only is enough.
lemma onlyObjects_met (lExact : l.isExact) (rExact : r.isExact) (met : TypeRule l r m)
    (objects : (typeNames l).all (· == "object") ∨ (typeNames r).all (· == "object")) : (typeNames m).all (· == "object") := by
  rcases met with ⟨same,rfl⟩ | ⟨path,made⟩
  · rw [(deepEqual_iff lExact rExact).mp same] at objects ⊢
    exact objects.elim id id
  rw [typeNames_types made]
  apply all_eq_true.mpr
  intro t mem
  obtain ⟨a,inLeft,b,inRight,common⟩ := (mem_commonTypes _ _).mp mem
  apply beq_iff_eq.mpr
  apply commonType?_object common
  exact objects.imp (fun all => beq_iff_eq.mp (all_eq_true.mp all a inLeft))
    fun all => beq_iff_eq.mp (all_eq_true.mp all b inRight)

-- The properties of an intersection, if it has any.
def Described (ts : Texts) (left right : Fields) (props : Option Json) : Prop :=
  (props = none ∧ left.get? "properties" = none ∧ right.get? "properties" = none) ∨
    ∃ out, props = some (.obj out) ∧ Declares ts left right out
section Assembled
variable {shared : Fields} {extra : String → List Json} {props : Option Json}
section
variable (lTyped : Typed left) (rTyped : Typed right) (drawn : Gathered (Retains ts) false left right [] shared extra)
include lTyped rTyped drawn
lemma keyword_assembled (described : Described ts left right props)
    (found : (assembled false left right shared props none none).get? key = some m) :
    typed.allows key m ∧ keywordFormed isTypedSchema key m := by
  have rSorted := rTyped.formed.sorted
  cases aside : setAside false key with
  | true =>
    rw [drawn.get?_unlisted rSorted aside] at found
    split at found
    · next same =>
      subst same
      rcases described with ⟨rfl,_⟩ | ⟨declares,rfl,facts⟩
      · cases found
      cases found
      refine ⟨allows_plain (by decide) (by decide) _,(formed_map rfl).mpr ⟨declares,rfl,facts.sorted,fun entry mem => ?_⟩⟩
      exact facts.typed entry.1 entry.2 (get?_of_mem facts.sorted mem)
    · cases found
  | false =>
    rcases drawn.sources rSorted aside found with atL | atR | ⟨_,_,_,_,retains⟩
    · exact ⟨lTyped.formed.allowed _ _ atL,lTyped.keyword atL⟩
    · exact ⟨rTyped.formed.allowed _ _ atR,rTyped.keyword atR⟩
    · exact ⟨retains.allowed,retains.formed⟩

lemma onlyObjects_assembled (objects : left.onlyObjects ∨ right.onlyObjects) :
    (assembled false left right shared props none none).onlyObjects := by
  have stems := drawn.stems rTyped.formed.sorted (by decide : setAside false "type" = false) props none none
  unfold onlyObjects at objects ⊢
  generalize atL : left.get? "type" = a at stems objects
  generalize atR : right.get? "type" = b at stems objects
  generalize (assembled false left right shared props none none).get? "type" = c at stems ⊢
  cases stems with
  | neither => exact objects.elim id id
  | left l => exact objects.elim id nofun
  | right r => exact objects.elim nofun id
  | both l r m retains =>
    exact onlyObjects_met (exact_formed lTyped.formed atL) (exact_formed rTyped.formed atR) (retains.type rfl) objects

lemma typed_assembled (described : Described ts left right props) :
    Typed (assembled false left right shared props none none) := by
  have rSorted := rTyped.formed.sorted
  set out := assembled false left right shared props none none
  have each {key} {m} (found : out.get? key = some m) := keyword_assembled lTyped rTyped drawn described found
  have absent key (unknown : typed.has key = false) : out.get? key = none := by
    cases found : out.get? key with
    | none => rfl
    | some s => rw [has_of_allows (each found).1] at unknown; cases unknown
  refine ⟨⟨drawn.sorted_assembled,fun key s found => (each found).1,fun key s found => ?_,fun _ => ?_⟩,
    fun key _ s found => (each found).2,fun named => ?_⟩
  · exact formed_of_with (each found).2
  · exact ⟨absent "then" (by decide),absent "else" (by decide)⟩
  -- whoever names members accepts objects only
  refine onlyObjects_assembled lTyped rTyped drawn ?_
  have from_ : left.namesMembers ∨ right.namesMembers := by
    unfold namesMembers at named ⊢
    simp only [Bool.or_eq_true] at named ⊢
    rcases named with hasProperties | hasRequired
    · unfold Fields.has at hasProperties
      rw [drawn.get?_unlisted rSorted (by decide)] at hasProperties
      rcases described with ⟨rfl,_⟩ | ⟨_,_,facts⟩
      · cases hasProperties
      · exact facts.named.imp .inl .inl
    have stems := drawn.stems rSorted (by decide : setAside false "required" = false) props none none
    unfold Fields.has at hasRequired ⊢
    generalize left.get? "required" = a at stems ⊢
    generalize right.get? "required" = b at stems ⊢
    generalize out.get? "required" = c at stems hasRequired
    cases stems with
    | neither => cases hasRequired
    | left => exact .inl (.inr rfl)
    | right => exact .inr (.inr rfl)
    | both => exact .inl (.inr rfl)
  exact from_.imp lTyped.objects rTyped.objects

-- Every rule of the intersection holds for a value of both sides.
lemma obeys_common (described : Described ts left right props)
    (exact : v.isExact) (onLeft : Obeys ts left v) (onRight : Obeys ts right v) :
    Obeys ts (assembled false left right shared props none none) v := by
  have rSorted := rTyped.formed.sorted
  have made := (typed_assembled lTyped rTyped drawn described).formed
  constructor
  · intro key s found
    cases aside : setAside false key with
    | true =>
      apply keywordHolds_grouped
      rcases setAside_iff.mp aside with special | ⟨absurd,_⟩
      · fin_cases special <;> decide
      · cases absurd
    | false =>
      rcases drawn.sources rSorted aside found with atL | atR | ⟨l,r,atL,atR,retains⟩
      · exact onLeft.keyword key s atL
      · exact onRight.keyword key s atR
      · exact (retains.keeps v exact (onLeft.keyword key l atL) (onRight.keyword key r atR)).1
  · rintro ms rfl name x held rule governs
    have exactX : x.isExact := (exact_obj.mp exact).2 _ held
    have lRule : ∀ s, memberRule? left name = some s → s.accepts ts x := fun s =>
      onLeft.memberRule (lTyped.formed.absent (by decide)) held
    have rRule : ∀ s, memberRule? right name = some s → s.accepts ts x := fun s =>
      onRight.memberRule (rTyped.formed.absent (by decide)) held
    rw [memberRules_eq (made.absent (by decide)),Option.mem_toList] at governs
    -- a name that neither side declares is governed by what both say about further members
    have further : (declared left).get? name = none → (declared right).get? name = none →
        (assembled false left right shared props none none).get? "additionalProperties" = some rule →
        rule.accepts ts x := by
      intro noLeft noRight found
      have stems := drawn.stems rSorted (by decide : setAside false "additionalProperties" = false) props none none
      rw [memberRule?_undeclared noLeft] at lRule
      rw [memberRule?_undeclared noRight] at rRule
      rw [found] at stems
      generalize left.get? "additionalProperties" = a at stems lRule
      generalize right.get? "additionalProperties" = b at stems rRule
      cases stems with
      | left => exact lRule rule rfl
      | right => exact rRule rule rfl
      | both l r m retains => exact retains.further rfl x exactX (lRule l rfl) (rRule r rfl)
    unfold memberRule? at governs
    rw [drawn.declared_assembled rSorted] at governs
    rcases described with ⟨rfl,noLeft,noRight⟩ | ⟨out,rfl,declares⟩
    · apply further
      · unfold declared; rw [noLeft]; rfl
      · unfold declared; rw [noRight]; rfl
      · exact governs
    cases at_ : get? out name with
    | some m =>
      change (get? out name).or _ = some rule at governs
      rw [at_] at governs
      cases governs
      exact declares.keeps name _ at_ x exactX lRule rRule
    | none =>
      change (get? out name).or _ = some rule at governs
      rw [at_] at governs
      obtain ⟨noLeft,noRight⟩ := (declares.undeclared name).mp at_
      exact further noLeft noRight governs
  · intro xs _ i x _ rule governs
    unfold itemRule? at governs
    rw [made.absent (by decide : typed.has "items" = false)] at governs
    cases governs
  · intro c found
    rw [made.absent (by decide : typed.has "if" = false)] at found
    cases found
end
lemma extra_common (drawn : Gathered (Retains ts) false left right [] shared extra) (exact : v.isExact)
    (onLeft : Obeys ts left v) (onRight : Obeys ts right v) (mem : e ∈ extra key) : e.accepts ts v := by
  obtain ⟨l,r,m,atL,atR,inPlace,retains⟩ := drawn.ruled (ne_nil_of_mem mem)
  exact (retains.keeps v exact (onLeft.keyword key l atL) (onRight.keyword key r atR)).2 e mem

lemma extra_typed (drawn : Gathered (Retains ts) false left right [] shared extra)
    (mem : e ∈ extra key) : e.isTypedSchema := by
  obtain ⟨l,r,m,atL,atR,inPlace,retains⟩ := drawn.ruled (ne_nil_of_mem mem)
  exact retains.extras e mem
end Assembled
-- A common value survives the last checks, so they stop only where there is none.
lemma settles_checked {common : Json → Prop} (typed : Typed fs)
    (keeps : ∀ v, v.isExact → common v → (obj fs).accepts ts v) (path : String) :
    Settles inv (∀ v, v.isExact → common v → False) (do
      let out ← Attempt.ofExcept (reconcileValues fs path)
      Attempt.ofExcept (checkBounds (fold out) path)
      return fold out) fun made =>
        Typed made ∧ ∀ v, v.isExact → common v → (obj made).accepts ts v := by
  refine .bind (.ofExcept (fun out made => made) fun c failed v exact shared => ?_) fun out reconciled => ?_
  · obtain ⟨_,made,_⟩ := reconcileValues_keeps typed.formed exact (keeps v exact shared) path
    rw [failed] at made
    cases made
  have outFormed := (reconcileValues_narrows ts typed.formed reconciled).1
  have folded := formed_fold outFormed
  have survives v (exact : v.isExact) (shared : common v) : (obj (fold out)).accepts ts v := by
    obtain ⟨_,made,acc,_⟩ := reconcileValues_keeps typed.formed exact (keeps v exact shared) path
    rw [reconciled] at made
    cases made
    exact (accepts_fold outFormed exact).mpr acc
  refine .bind (.ofExcept (fun _ _ => trivial) fun c failed v exact shared => ?_)
    fun _ (_ : True) => .pure ⟨typed_of_same typed folded fun key mem => ?_,survives⟩
  · rw [checkBounds_ok folded exact (survives v exact shared) path] at failed
    cases failed
  have untouched : Keyword.limit? key = none ∧ key ≠ "enum" := by
    fin_cases mem <;> exact ⟨rfl,by decide⟩
  exact (get?_fold untouched.1 out).trans (get?_reconcileValues reconciled untouched.2)

lemma settles_objects (keeping : Keeping texts inv recur) (lTyped : Typed left) (rTyped : Typed right) (path : String) :
    Settles inv (Exclusive texts (.obj left) (.obj right)) (objects lookup recur left right path) fun made =>
      Typed made ∧ Keeps texts (.obj left) (.obj right) (.obj made) := by
  have obeysLeft : ∀ {v}, (obj left).accepts texts v → Obeys texts left v := (accepts_obj lTyped.formed.sorted).mp
  have obeysRight : ∀ {v}, (obj right).accepts texts v → Obeys texts right v := (accepts_obj rTyped.formed.sorted).mp
  have noClash : conditionalsClash left right = false := by
    unfold conditionalsClash Fields.has
    rw [lTyped.formed.absent (by decide : typed.has "if" = false)]
    rfl
  have noItems : items recur left right path = pure (none,none) := by
    have unknown : ∀ {fields}, Typed fields → fields.get? "items" = none ∧ fields.get? "additionalItems" = none :=
      fun typed => ⟨typed.formed.absent (by decide),typed.formed.absent (by decide)⟩
    unfold items
    rw [(unknown lTyped).1,(unknown lTyped).2,(unknown rTyped).1,(unknown rTyped).2]
    rfl
  unfold objects
  rw [noClash,noItems]
  refine .bind (runs_sharedKeywords (Retains texts) lTyped.formed.sorted path
    (fun key l r atLeft atRight inPlace => (settles_keyword keeping (lTyped.formed.allowed _ _ atLeft)
      (rTyped.formed.allowed _ _ atRight) (lTyped.keyword atLeft) (rTyped.keyword atRight) ?_ path).imp ?_) []) ?_
  · rintro rfl
    cases inPlace
  · intro none v exact onLeft onRight
    exact none v ⟨exact,(obeysLeft onLeft).keyword _ _ atLeft,(obeysRight onRight).keyword _ _ atRight⟩
  rintro ⟨shared,residual⟩ ⟨extra,spent,drawn⟩
  dsimp only at spent drawn
  refine .bind (settles_properties keeping lTyped rTyped path) fun props described => ?_
  have assembledTyped := typed_assembled lTyped rTyped drawn described
  have spare e (member : e ∈ residual) : ∃ key, e ∈ extra key := by
    rw [spent] at member
    obtain ⟨field,_,inside⟩ := mem_flatMap.mp member
    exact ⟨field.1,inside⟩
  obtain ⟨typed,residualKeeps⟩ := typed_addResidual assembledTyped fun e member =>
    (spare e member).elim fun key inside => extra_typed drawn inside
  have keeps v (exact : v.isExact) (common : (obj left).accepts texts v ∧ (obj right).accepts texts v) :
      (obj (addResidual (assembled false left right shared props none none) residual)).accepts texts v := by
    apply residualKeeps v
    · exact (accepts_obj assembledTyped.formed.sorted).mpr
        (obeys_common lTyped rTyped drawn described exact (obeysLeft common.1) (obeysRight common.2))
    intro e member
    obtain ⟨key,inside⟩ := spare e member
    exact extra_common drawn exact (obeysLeft common.1) (obeysRight common.2) inside
  refine ((settles_checked typed keeps path).imp fun none v exact onLeft onRight => ?_).mono fun made facts => ⟨facts.1,?_⟩
  · exact none v exact ⟨onLeft,onRight⟩
  intro v exact onLeft onRight
  exact facts.2 v exact ⟨onLeft,onRight⟩

lemma settles_foldAllOf (keeping : Keeping ts inv recur) (typed : a.isTypedSchema) (path : String) :
    Settles inv (a.bool? = none ∧ ∀ v, v.isExact → a.accepts ts v → False) (foldAllOf recur a path)
      fun m => m.isTypedSchema ∧ (∀ v, v.isExact → a.accepts ts v → m.accepts ts v) ∧ (a.bool?.isSome → m = a) := by
  rcases isTypedSchema_cases typed with ⟨b,rfl⟩ | ⟨fs,rfl,own⟩
  · exact .pure ⟨typed,fun _ _ acc => acc,fun _ => rfl⟩
  cases found : fs.get? "allOf" with
  | none =>
    unfold foldAllOf
    dsimp only
    rw [found]
    exact .pure ⟨typed,fun _ _ acc => acc,nofun⟩
  | some s =>
    obtain ⟨es,rfl,goods⟩ := (formed_list rfl).mp (own.inside "allOf" (by decide) s found)
    have entry v acc : ∀ e ∈ es, e.accepts ts v :=
      all_eq_true.mp (((accepts_obj own.formed.sorted).mp acc).keyword _ _ found)
    have restTyped : (obj (fs.erase "allOf")).isTypedSchema := by
      refine isTypedSchema_obj.mpr ⟨own.formed.erase (by decide),fun key mem s at_ => ?_,fun named => ?_⟩
      · rw [get?_erase own.formed.sorted] at at_
        split at at_
        · cases at_
        · exact own.inside key mem s at_
      unfold namesMembers Fields.has at named
      rw [get?_erase_other (by decide),get?_erase_other (by decide)] at named
      unfold onlyObjects
      rw [get?_erase_other (by decide)]
      exact own.objects named
    unfold foldAllOf
    dsimp only
    rw [found]
    -- what the whole schema accepts is accepted by what its entries have been merged to so far
    refine .mono (.foldlM (motive := fun rest m => m.isTypedSchema ∧ (∀ e ∈ rest, e ∈ es) ∧
      ∀ v, v.isExact → (obj fs).accepts ts v → m.accepts ts v) ?_ es _ ?_) ?_
    · rintro e rest m ⟨mTyped,within,keeps⟩
      have inside := within e mem_cons_self
      refine ((keeping m e path mTyped (goods e inside)).imp fun refused => ⟨rfl,fun v exact acc => ?_⟩).mono
        fun n kept => ⟨kept.typed,fun other later => within other (.tail _ later),fun v exact acc => ?_⟩
      · exact kept.keeps v exact (keeps v exact acc) (entry v acc e inside)
      · exact refused.exclusive v exact (keeps v exact acc) (entry v acc e inside)
    · exact ⟨restTyped,fun _ mem => mem,fun v exact acc =>
        ((accepts_erase own.formed.sorted (by decide)).mp acc).1⟩
    · rintro m ⟨mTyped,_,keeps⟩
      exact ⟨mTyped,keeps,nofun⟩

lemma keeping_step (keeping : Keeping ts inv recur) : Keeping ts inv (step lookup recur) := by
  intro a b path aTyped bTyped
  refine .bind ((settles_foldAllOf keeping aTyped path).imp fun refused => ⟨?_,?_⟩) ?_
  · exact fun v exact onLeft _ => refused.2 v exact onLeft
  · intro flat _
    rw [refused.1] at flat
    cases flat
  rintro a' ⟨aTyped',aKeeps,aFlat⟩
  refine .bind ((settles_foldAllOf keeping bTyped path).imp fun refused => ⟨?_,?_⟩) ?_
  · exact fun v exact _ onRight => refused.2 v exact onRight
  · intro _ flat
    rw [refused.1] at flat
    cases flat
  rintro b' ⟨bTyped',bKeeps,bFlat⟩
  have lift {m} (typed : m.isTypedSchema) (keeps : Keeps ts a' b' m)
      (flat : a'.bool?.isSome → b'.bool?.isSome → m.bool?.isSome) : Kept ts a b m := by
    refine ⟨typed,fun v exact onLeft onRight => keeps v exact (aKeeps v exact onLeft) (bKeeps v exact onRight),?_⟩
    intro aBool bBool
    exact flat (by rw [aFlat aBool]; exact aBool) (by rw [bFlat bBool]; exact bBool)
  rcases isTypedSchema_cases aTyped' with ⟨x,rfl⟩ | ⟨left,rfl,lTyped⟩
  · cases x with
    | false => exact .pure (lift (isTypedSchema_bool _) (fun v _ onLeft _ => onLeft) fun _ _ => rfl)
    | true =>
      rcases isTypedSchema_cases bTyped' with ⟨y,rfl⟩ | ⟨right,rfl,rTyped⟩
      · cases y <;> exact .pure (lift (isTypedSchema_bool _) (fun v _ _ onRight => onRight) fun _ _ => rfl)
      · exact .pure (lift bTyped' (fun v _ _ onRight => onRight) nofun)
  rcases isTypedSchema_cases bTyped' with ⟨y,rfl⟩ | ⟨right,rfl,rTyped⟩
  · cases y with
    | false => exact .pure (lift (isTypedSchema_bool _) (fun v _ _ onRight => onRight) fun _ _ => rfl)
    | true => exact .pure (lift aTyped' (fun v _ onLeft _ => onLeft) nofun)
  refine .bind ((settles_objects keeping lTyped rTyped path).imp fun exclusive => ⟨?_,?_⟩) ?_
  · exact fun v exact onLeft onRight => exclusive v exact (aKeeps v exact onLeft) (bKeeps v exact onRight)
  · intro aBool _
    have same := aFlat aBool
    rw [← same] at aBool
    cases aBool
  · rintro out ⟨typed,keeps⟩
    exact .pure (lift (isTypedSchema_obj.mpr typed) keeps nofun)

lemma keeping_mergeWithin (ts : Texts) (fuel : Nat) : Keeping ts inv (mergeWithin lookup fuel) := by
  induction fuel with
  | zero => exact fun _ _ _ _ _ => .outOfFuel trivial
  | succ fuel ih => exact keeping_step ih

lemma ensures_merge_typed (ts : Texts) (aTyped : a.isTypedSchema) (bTyped : b.isTypedSchema) :
    Ensures inv (merge lookup a b) fun result =>
      (∀ m, result = .ok m → Keeps ts a b m) ∧ ∀ c, result = .error c → Exclusive ts a b := by
  refine .mono (ensures_merge_of_runs (.mono (keeping_mergeWithin ts (budget a b) a b "" aTyped bTyped)
    fun m kept => kept.keeps) fun _ v _ onLeft onRight => ?_) fun result facts => ⟨facts.1,fun c failed => ?_⟩
  · exact (accepts_allOf a b v).mpr ⟨onLeft,onRight⟩
  · exact (facts.2 c failed).exclusive

lemma typed_mergeable (typed : m.isTypedSchema) : m.isSchema .mergeable := by
  refine isSchema_mono (fun key s allowed => ?_) (isSchema_of_typed typed)
  have known : mergeable.has key := by
    refine Bool.or_eq_true_iff.mpr ((Bool.or_eq_true_iff.mp (has_of_allows allowed)).imp_left fun listed => ?_)
    have within : ∀ key ∈ Vocabulary.typed.keywords, key ∈ mergeable.keywords := by decide
    exact contains_iff_mem.mpr (within key (contains_iff_mem.mp listed))
  unfold allows
  rw [known]
  simp [mergeable]

theorem merge_exact (texts : Texts) (memory : Memory) (a b : Json) (left : a.isTypedSchema = true)
    (right : b.isTypedSchema = true) :
    (∀ m, ((merge Memory.matcher a b : StateM Memory _).run memory).1 = .ok m → ∀ v, v.isExact = true →
      (m.accepts texts v = true ↔ a.accepts texts v = true ∧ b.accepts texts v = true)) ∧
    ∀ c, ((merge Memory.matcher a b : StateM Memory _).run memory).1 = .error c → ∀ v, v.isExact = true →
      ¬ (a.accepts texts v = true ∧ b.accepts texts v = true) := by
  have complete : Ensures (fun _ => True) (merge Memory.matcher a b : StateM Memory _) _ :=
    ensures_merge_typed texts left right
  have sound : Ensures (fun _ => True) (merge Memory.matcher a b : StateM Memory _) _ :=
    ensures_merge texts Vocabulary.mergeable_closed (typed_mergeable left) (typed_mergeable right)
  obtain ⟨keeps,excludes⟩ := (complete memory trivial).2
  have below := (sound memory trivial).2
  constructor
  · intro m made v exact
    obtain ⟨_,onLeft,onRight⟩ := below m made
    exact ⟨fun accepted => ⟨onLeft v exact accepted,onRight v exact accepted⟩,
      fun common => keeps m made v exact common.1 common.2⟩
  · intro c failed v exact common
    exact excludes c failed v exact common.1 common.2

-- A name of text, and an age that is asked for.
def person : Json :=
  .obj [("properties",.obj [("age",.obj [("minimum",.digit 3)]),("name",.obj [("type",.str "string")])]),
    ("required",.strings ["age"]),("type",.str "object")]

-- The name clashes with it and nobody asks for it.
def numbered : Json :=
  .obj [("additionalProperties",.bool false),
    ("properties",.obj [("age",.bool true),("name",.obj [("type",.str "number")])]),("type",.str "object")]

def numberedPerson : Json :=
  .obj [("additionalProperties",.bool false),
    ("properties",.obj [("age",.obj [("minimum",.digit 3)]),("name",.bool false)]),("required",.strings ["age"]),
    ("type",.str "object")]

theorem merge_exact_numberedPerson : person.isTypedSchema = true ∧ numbered.isTypedSchema = true ∧
    ((merge Memory.matcher person numbered : StateM Memory _).run {}).1 = .ok numberedPerson ∧
      ∀ texts v, v.isExact = true → (numberedPerson.accepts texts v = true ↔
        person.accepts texts v = true ∧ numbered.accepts texts v = true) :=
  ⟨rfl,rfl,rfl,fun texts => (merge_exact texts {} person numbered rfl rfl).1 numberedPerson rfl⟩
end Intersection
end SchemaOrder
