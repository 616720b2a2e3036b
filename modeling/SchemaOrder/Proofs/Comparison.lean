import SchemaOrder.Proofs.Equivalence
namespace SchemaOrder
open Acceptance Schemas List Fields Canonical Json
-- Schemas that compare as equal accept the same values, whatever keywords stand in them.
def stepWithout (excluded : List String) (formed : Json → Bool) : Json → Bool
  | .bool _ => true
  | .obj fs =>
    decide (Sorted fs) && fs.all fun field =>
      !excluded.contains field.1 && field.2.isOrderly Num.isInteger && placesFormed formed field.1 field.2
  | _ => false

-- A schema in which, at any depth, no excluded keyword stands. All others may, those without a meaning too. Its
-- numbers are integers.
def Json.isSchemaWithout (excluded : List String) (s : Json) : Bool :=
  recurse (stepWithout excluded) false s
namespace Schemas
variable {excluded : List String} {fs : Fields} {s : Json}
lemma stepWithout_descends (excluded : List String) : Descends (stepWithout excluded) := by
  intro s f g agree
  cases s with
  | obj fs =>
    change (_ && _) = (_ && _)
    rw [all_agree fun field mem => by rw [placesFormed_agree agree mem]]
  | _ => rfl

lemma isSchemaWithout_eq (s : Json) : s.isSchemaWithout excluded = stepWithout excluded (isSchemaWithout excluded) s :=
  recurse_eq (stepWithout_descends excluded) s

lemma isSchemaWithout_obj : (obj fs).isSchemaWithout excluded ↔
    Placed (isSchemaWithout excluded) fs ∧ ∀ field ∈ fs, field.1 ∉ excluded := by
  rw [isSchemaWithout_eq]
  change (_ && _) ↔ _
  simp only [Bool.and_eq_true,decide_eq_true_eq,all_eq_true,Bool.not_eq_true',contains_eq_mem,decide_eq_false_iff_not]
  constructor
  · intro ⟨sorted,each⟩
    refine ⟨⟨orderly_obj.mpr ⟨sorted,fun field mem => (each field mem).1.2⟩,fun key s found => ?_⟩,
      fun field mem => (each field mem).1.1⟩
    exact (each (key,s) (mem_of_get? found)).2
  intro ⟨placed,allowed⟩
  refine ⟨placed.sorted,fun field mem => ⟨⟨allowed field mem,?_⟩,?_⟩⟩
  · exact (orderly_obj.mp placed.orderly).2 field mem
  · exact placed.places _ _ (get?_of_mem placed.sorted mem)

lemma family_isSchemaWithout (excluded : List String) : Family (isSchemaWithout excluded) := by
  refine ⟨fun s schema => ?_⟩
  cases s with
  | bool b => exact .inl ⟨b,rfl⟩
  | obj fs => exact .inr ⟨fs,rfl,(isSchemaWithout_obj.mp schema).1⟩
  | _ =>
    cases schema

lemma isSchemaWithout_emptyObj : emptyObj.isSchemaWithout excluded := isSchemaWithout_obj.mpr ⟨⟨rfl,nofun⟩,nofun⟩

lemma absent_of_without (schema : (obj fs).isSchemaWithout excluded) (out : key ∈ excluded) : fs.get? key = none := by
  cases found : fs.get? key with
  | none => rfl
  | some s => exact absurd out ((isSchemaWithout_obj.mp schema).2 _ (mem_of_get? found))
end Schemas
namespace Canonical
variable {excluded : List String} {fs : Fields} {field : String × Json} {s : Json}
lemma mem_tidy (mem : field ∈ tidy fs) : ∃ s, (field.1,s) ∈ fs := by
  obtain ⟨old,inside,kept⟩ := mem_filterMap.mp mem
  obtain ⟨t,_,rfl⟩ := Option.map_eq_some_iff.mp kept
  exact ⟨old.2,inside⟩

lemma mem_fold (mem : field ∈ Bound.fold fs) : field ∈ fs := by
  have dropped : ∀ {side soft strict} {fs},field ∈ Bound.dropImplied side soft strict fs → field ∈ fs :=
    Bound.dropImplied_cases (motive := fun out => field ∈ out → _) id mem_erase mem_erase
  exact dropped (dropped mem)

lemma mem_closeObject (mem : field ∈ closeObject fs) : ∃ s, (field.1,s) ∈ fs := by
  rcases closeObject_cases fs with same | ⟨declared,_,_,atProperties,⟨closed,_⟩ | ⟨closed,_⟩⟩
  · rw [same] at mem
    exact ⟨field.2,mem⟩
  · rw [closed] at mem
    exact ⟨field.2,mem_erase mem⟩
  rw [closed] at mem
  rcases mem_put mem with rfl | old
  · exact ⟨_,mem_of_get? atProperties⟩
  · exact ⟨field.2,old⟩

lemma isSchemaWithout_nothing (negates : "not" ∉ excluded) : nothing.isSchemaWithout excluded := by
  refine isSchemaWithout_obj.mpr ⟨⟨rfl,fun key s found => ?_⟩,fun field mem => ?_⟩
  · rw [get?_cons] at found
    split at found
    · next same =>
      subst same
      cases found
      exact places_of_formed isSchemaWithout_emptyObj
    · cases found
  · rw [mem_singleton.mp mem]
    exact negates

lemma isSchemaWithout_form (negates : "not" ∉ excluded) (schema : s.isSchemaWithout excluded) :
    (form s).isSchemaWithout excluded := by
  have family := family_isSchemaWithout excluded
  induction s using byDepth with
  | step s ih =>
    rcases family.cases s schema with ⟨b,rfl⟩ | ⟨fs,rfl,placed⟩
    · cases b with
      | true => exact isSchemaWithout_emptyObj
      | false => exact isSchemaWithout_nothing negates
    have inner : Placed (isSchemaWithout excluded) (mapFields form fs) :=
      Replacement.placed_mapFields family placed fun t good shallow => ih t shallow good
    rw [form_obj_tidy family placed]
    refine isSchemaWithout_obj.mpr ⟨placed_closeObject (placed_fold (placed_tidy family inner)),fun field mem => ?_⟩
    -- a keyword of the form was there before each of the steps
    obtain ⟨folded,before⟩ := mem_closeObject mem
    obtain ⟨tidied,mapped⟩ := mem_tidy (mem_fold before)
    obtain ⟨own,inside,same⟩ := mem_map.mp mapped
    have key : own.1 = field.1 := (Prod.mk.inj same).1
    rw [← key]
    exact (isSchemaWithout_obj.mp schema).2 own inside
end Canonical
-- A value whose doubles, at any depth, are numbers. No text of a value writes a double that is none.
inductive Json.Numeric : Json → Prop where
  | null : Numeric .null
  | bool (b : Bool) : Numeric (.bool b)
  | str (text : String) : Numeric (.str text)
  | num (n : Num) (number : Doubles.IsNumber n.toFloat) : Numeric (.num n)
  | arr (xs : List Json) (each : ∀ v ∈ xs, Numeric v) : Numeric (.arr xs)
  | obj (fs : Fields) (each : ∀ field ∈ fs, Numeric field.2) : Numeric (.obj fs)

lemma Json.Numeric.ordered {v : Json} (numeric : v.Numeric) : v.Ordered := by
  rintro n rfl
  cases numeric with
  | num n number => exact number

lemma hereditary_numeric : Hereditary Numeric where
  text := .str
  item numeric mem := by
    cases numeric with
    | arr xs each => exact each _ mem
  member numeric inside := by
    cases numeric with
    | obj fs each => exact each _ inside

theorem accepts_eq_of_compareSchemas_eq (texts : Texts) (a b v : Json) (left : a.isSchemaWithout ["oneOf","$ref"] = true)
    (right : b.isSchemaWithout ["oneOf","$ref"] = true) (equal : compareSchemas a b = .eq) (numeric : v.Numeric) :
    a.accepts texts v = b.accepts texts v := by
  have family := family_isSchemaWithout ["oneOf","$ref"]
  have closed : ∀ s : Json, s.isSchemaWithout ["oneOf","$ref"] = true →
      (Canonical.form s).isSchemaWithout ["oneOf","$ref"] = true := fun s schema =>
    Canonical.isSchemaWithout_form (by decide) schema
  have keeps : ∀ s : Json, s.isSchemaWithout ["oneOf","$ref"] = true →
      (Canonical.form s).accepts texts v = s.accepts texts v := fun s schema =>
    Canonical.alikeOn_form hereditary_numeric (fun _ numeric => numeric.ordered) family closed
      (fun _ schema => absent_of_without schema (by decide)) schema v numeric
  calc a.accepts texts v = (Canonical.form a).accepts texts v := (keeps a left).symm
    _ = (Canonical.form b).accepts texts v := by rw [compare_eq_iff.mp equal]
    _ = b.accepts texts v := keeps b right

-- One closed object under `box` and even numbers under names that begin with `n`, written twice.
def wordyBox : Json :=
  .obj [("allOf",.arr [.obj [("exclusiveMinimum",.digit 1),("minimum",.digit 2)],.obj [("minimum",.digit 2)]]),
    ("dependencies",.obj [("box",.strings ["n1","n0","n1"])]),("minProperties",.digit 0),
    ("patternProperties",.obj [("^n",.obj [("maximum",.num (.double 1e20)),("multipleOf",.digit 2),
      ("type",.strings ["number","number"])])]),
    ("properties",.obj [("box",.obj [("additionalProperties",.bool false),("properties",.obj [("lid",.bool false)])])]),
    ("propertyNames",.bool true),("title",.str "box"),("unit",.digit 7)]

def plainBox : Json :=
  .obj [("allOf",.arr [.obj [("minimum",.digit 2)]]),("dependencies",.obj [("box",.strings ["n0","n1"])]),
    ("patternProperties",.obj [("^n",.obj [("maximum",.num (.double 1e20)),("multipleOf",.digit 2),("type",.str "number")])]),
    ("properties",.obj [("box",.obj [("additionalProperties",.obj [("not",.bool true)])])]),("unit",.digit 7)]

def boxed : Json :=
  .obj [("box",.obj []),("n0",.digit 4),("n1",.num (.double 2.5))]

lemma wordyBox_schema : wordyBox.isSchemaWithout ["oneOf","$ref"] := by decide +kernel

lemma plainBox_schema : plainBox.isSchemaWithout ["oneOf","$ref"] := by decide +kernel

lemma boxes_equal : compareSchemas wordyBox plainBox = .eq := by decide +kernel

lemma boxed_numeric : boxed.Numeric := by
  refine .obj _ fun field mem => ?_
  simp only [mem_cons,not_mem_nil,or_false] at mem
  rcases mem with rfl | rfl | rfl
  · exact .obj _ nofun
  · exact .num _ (Doubles.ofInt_number _)
  · exact .num _ nofun

theorem accepts_eq_of_compareSchemas_eq_box :
    wordyBox.isSchemaWithout ["oneOf","$ref"] = true ∧ plainBox.isSchemaWithout ["oneOf","$ref"] = true ∧
      compareSchemas wordyBox plainBox = .eq ∧ boxed.Numeric ∧
      ∀ texts, wordyBox.accepts texts boxed = plainBox.accepts texts boxed :=
  ⟨wordyBox_schema,plainBox_schema,boxes_equal,boxed_numeric,fun texts => accepts_eq_of_compareSchemas_eq texts
    wordyBox plainBox boxed wordyBox_schema plainBox_schema boxes_equal boxed_numeric⟩
end SchemaOrder
