import SchemaOrder.Proofs.Acceptance
import SchemaOrder.Proofs.Integers
namespace SchemaOrder
open List Fields Json Keyword
variable {good : Json → Bool}
-- Well-formed schemas: each keyword's value has the form it asks for, numbers are whole, keys are in order, and `then`
-- and `else` stand beside an `if`.
structure Vocabulary where
  keywords : List String
  -- may additional properties be described by more than a boolean?
  describesExtra : Bool := true
  -- the formats that may be named
  formats : String → Bool := fun _ => true
namespace Vocabulary
def has (vocab : Vocabulary) (key : String) : Bool :=
  vocab.keywords.contains key || [Shape.note,.lowerBound,.upperBound].contains (shape key)

def allows (vocab : Vocabulary) (key : String) (s : Json) : Bool :=
  vocab.has key && (key != "additionalProperties" || vocab.describesExtra || s.bool?.isSome) &&
    (key != "format" || s.str?.all vocab.formats)
end Vocabulary
namespace Schemas
def isNames : Json → Bool
  | .arr ns => ns.all fun name => name.str?.isSome
  | _ => false

def scalarFormed (key : String) (s : Json) : Bool :=
  match key with
  | "type" => s.str?.isSome || isNames s
  | "required" => isNames s
  | "const" => s.isExact
  | "enum" => s.items?.any fun ms => ms.all isExact
  | "uniqueItems" => s.bool?.isSome
  | "pattern" | "format" => s.str?.isSome
  | _ => false

def keywordFormed (formed : Json → Bool) (key : String) (s : Json) : Bool :=
  match shape key with
  | .subSchema => formed s
  | .items => formed s || s.items?.any fun tuple => tuple.all formed
  | .schemaList => s.items?.any fun ms => ms.all formed
  | .schemaMap => s.fields?.any fun es => decide es.Sorted && es.all fun entry => formed entry.2
  | .dependencies =>
    s.fields?.any fun es => decide es.Sorted && es.all fun entry => isNames entry.2 || formed entry.2
  | .lowerBound | .upperBound => s.num?.any Num.isWhole
  | .note => s.isExact
  | .scalar => scalarFormed key s

def step (vocab : Vocabulary) (formed : Json → Bool) : Json → Bool
  | .bool _ => true
  | .obj fs =>
    decide (Sorted fs) &&
      (fs.all fun field => vocab.allows field.1 field.2 && keywordFormed formed field.1 field.2) &&
      (has fs "if" || !has fs "then" && !has fs "else")
  | _ => false
end Schemas
def Json.isSchema (vocab : Vocabulary) (s : Json) : Bool :=
  recurse (Schemas.step vocab) false s
namespace Schemas
open Acceptance (all_agree option_agree depth_itemsOrNone depth_entries)
section Forms
variable {f g : Json → Bool} {key : String} {s : Json}
lemma isNames_iff : isNames s ↔ ∃ ns : List String, s = .strings ns := by
  cases s with
  | arr xs =>
    simp only [isNames,all_eq_true,strings,arr.injEq]
    constructor
    · intro ts
      refine ⟨xs.filterMap str?,?_⟩
      induction xs with
      | nil => rfl
      | cons item rest ih =>
        obtain ⟨text,found⟩ := Option.isSome_iff_exists.mp (ts item mem_cons_self)
        cases item with
        | str text => exact congrArg _ (ih fun v later => ts v (.tail _ later))
        | _ => cases found
    · rintro ⟨ns,rfl⟩ v mem
      obtain ⟨name,_,rfl⟩ := mem_map.mp mem
      rfl
  | _ => simp [isNames,strings]

@[simp] lemma listedStrings_strings (ns : List String) : (strings ns).listedStrings = ns := by
  simp only [listedStrings,strings,itemsOrNone,items?,Option.getD_some,filterMap_map]
  exact filterMap_some

lemma formed_subSchema (shape : shape key = .subSchema) : keywordFormed f key s = f s := by
  unfold keywordFormed; rw [shape]

lemma formed_items (shape : shape key = .items) :
    keywordFormed f key s ↔ f s ∨ ∃ tuple, s = .arr tuple ∧ ∀ t ∈ tuple, f t := by
  unfold keywordFormed; rw [shape]
  cases s <;> simp [items?]

lemma formed_list (shape : shape key = .schemaList) : keywordFormed f key s ↔ ∃ ms, s = .arr ms ∧ ∀ t ∈ ms, f t := by
  unfold keywordFormed; rw [shape]
  cases s <;> simp [items?]

lemma formed_map (shape : shape key = .schemaMap) : keywordFormed f key s ↔
    ∃ es : Fields, s = .obj es ∧ es.Sorted ∧ ∀ entry ∈ es, f entry.2 := by
  unfold keywordFormed; rw [shape]
  cases s <;> simp [fields?]

lemma formed_dependencies (shape : shape key = .dependencies) :
    keywordFormed f key s ↔ ∃ es : Fields, s = .obj es ∧ es.Sorted ∧ ∀ entry ∈ es, isNames entry.2 ∨ f entry.2 := by
  unfold keywordFormed; rw [shape]
  cases s <;> simp [fields?]

lemma formed_bound (shape : shape key = .lowerBound ∨ shape key = .upperBound) :
    keywordFormed f key s ↔ ∃ n, s = .num (.whole n) := by
  have whole : s.num?.any Num.isWhole ↔ ∃ n, s = .num (.whole n) := by
    cases s with
    | num n => cases n <;> simp [num?,Num.isWhole]
    | _ => simp [num?]
  unfold keywordFormed
  rcases shape with shape | shape <;> rw [shape] <;> exact whole

lemma formed_scalar (shape : shape key = .scalar) : keywordFormed f key s = scalarFormed key s := by
  unfold keywordFormed; rw [shape]

lemma keywordFormed_agree (agree : ∀ t, t.depth ≤ s.depth → f t = g t) : keywordFormed f key s = keywordFormed g key s := by
  have here : f s = g s := agree s (le_refl _)
  have items : (s.items?.any fun tuple => tuple.all f) = s.items?.any fun tuple => tuple.all g := by
    cases s with
    | arr tuple => exact all_agree fun t mem => agree t (le_of_lt (depth_item mem))
    | _ => rfl
  unfold keywordFormed
  split
  · exact here
  · rw [here,items]
  · exact items
  · cases s with
    | obj es =>
      change (_ && _) = (_ && _)
      rw [all_agree fun entry mem => agree entry.2 (le_of_lt (depth_field mem))]
    | _ => rfl
  · cases s with
    | obj es =>
      change (_ && _) = (_ && _)
      rw [all_agree fun entry mem => by
        rw [agree entry.2 (le_of_lt (depth_field mem))]]
    | _ => rfl
  all_goals rfl
end Forms
lemma step_descends (vocab : Vocabulary) : Descends (step vocab) := by
  intro s f g agree
  cases s with
  | obj fs =>
    change (_ && _ && _) = (_ && _ && _)
    rw [all_agree fun field mem => by
      rw [keywordFormed_agree fun t shallow =>
        agree t (lt_of_le_of_lt shallow (depth_field mem))]]
  | _ => rfl
end Schemas
structure Formed (vocab : Vocabulary) (fs : Fields) : Prop where
  sorted : fs.Sorted
  allowed : ∀ key s, fs.get? key = some s → vocab.allows key s
  formed : ∀ key s, fs.get? key = some s → Schemas.keywordFormed (isSchema vocab) key s
  conditional : fs.get? "if" = none → fs.get? "then" = none ∧ fs.get? "else" = none
namespace Schemas
variable {vocab : Vocabulary} {fs : Fields} {key : String} {s : Json}
lemma isSchema_eq (s : Json) : s.isSchema vocab = step vocab (isSchema vocab) s := recurse_eq (step_descends vocab) s

@[simp] lemma isSchema_bool (b : Bool) : (bool b).isSchema vocab := isSchema_eq _

lemma step_obj (f : Json → Bool) : step vocab f (.obj fs) ↔ fs.Sorted ∧
    (∀ key s, fs.get? key = some s → vocab.allows key s) ∧ (∀ key s, fs.get? key = some s → keywordFormed f key s) ∧
    (fs.get? "if" = none → fs.get? "then" = none ∧ fs.get? "else" = none) := by
  have beside : (has fs "if" || !has fs "then" && !has fs "else") ↔
      (fs.get? "if" = none → fs.get? "then" = none ∧ fs.get? "else" = none) := by
    cases found : fs.get? "if" <;> simp [has,found]
  change (_ && _ && _) ↔ _
  rw [Bool.and_eq_true,Bool.and_eq_true,beside,decide_eq_true_eq,all_eq_true]
  constructor
  · rintro ⟨⟨sorted,each⟩,conditional⟩
    have both := fun key s found =>
      Bool.and_eq_true_iff.mp (each (key,s) (mem_of_get? found))
    exact ⟨sorted,fun key s found => (both key s found).1,fun key s found => (both key s found).2,conditional⟩
  rintro ⟨sorted,allowed,formed,conditional⟩
  refine ⟨⟨sorted,fun field mem => ?_⟩,conditional⟩
  have found : fs.get? field.1 = some field.2 := get?_of_mem sorted mem
  exact Bool.and_eq_true_iff.mpr ⟨allowed _ _ found,formed _ _ found⟩

lemma isSchema_obj : (obj fs).isSchema vocab ↔ Formed vocab fs := by
  rw [isSchema_eq,step_obj]
  exact ⟨fun ⟨sorted,allowed,formed,conditional⟩ => ⟨sorted,allowed,formed,conditional⟩,
    fun formed => ⟨formed.sorted,formed.allowed,formed.formed,formed.conditional⟩⟩

-- A well-formed schema is a boolean or an object.
lemma isSchema_cases (schema : s.isSchema vocab) :
    (∃ b, s = .bool b) ∨ ∃ fs : Fields, s = .obj fs ∧ Formed vocab fs := by
  cases s with
  | bool b => exact .inl ⟨b,rfl⟩
  | obj fs => exact .inr ⟨fs,rfl,isSchema_obj.mp schema⟩
  | _ => cases schema

lemma isArr_of_isSchema (schema : s.isSchema vocab) : s.isArr = false := by
  rcases isSchema_cases schema with ⟨b,rfl⟩ | ⟨fs,rfl,_⟩ <;> rfl

lemma entryRule?_single (schema : s.isSchema vocab) (more : Option Json) (i : Nat) :
    Acceptance.entryRule? (some s) more i = some s :=
  Acceptance.entryRule?_some (isArr_of_isSchema schema) more i

lemma formed_nil : Formed vocab [] where
  sorted := sorted_nil
  allowed _ _ found := nomatch found
  formed _ _ found := nomatch found
  conditional _ := ⟨rfl,rfl⟩

lemma isSchema_single (allowed : vocab.allows key s)
    (formed : keywordFormed (isSchema vocab) key s) (plain : key ≠ "then" ∧ key ≠ "else") :
    (single key s).isSchema vocab := by
  have only other t (found : get? [(key,s)] other = some t) : key = other ∧ s = t := by
    rw [get?_cons] at found
    split at found
    · next same => cases found; exact ⟨same,rfl⟩
    · cases found
  refine isSchema_obj.mpr ⟨sorted_single key s,?_,?_,fun _ => ?_⟩
  · intro other t found
    obtain ⟨rfl,rfl⟩ := only other t found
    exact allowed
  · intro other t found
    obtain ⟨rfl,rfl⟩ := only other t found
    exact formed
  · simp [get?_cons,plain]

lemma keywordFormed_mono {f g : Json → Bool} (imp : ∀ t, t.depth ≤ s.depth → f t → g t)
    (formed : keywordFormed f key s) : keywordFormed g key s := by
  have listed : ∀ {xs}, s = .arr xs → (∀ t ∈ xs, f t) → ∀ t ∈ xs, g t := by
    rintro xs rfl schemas t mem
    exact imp t (le_of_lt (depth_item mem)) (schemas t mem)
  cases shape : shape key with
  | subSchema =>
    rw [formed_subSchema shape] at formed ⊢
    exact imp s (le_refl _) formed
  | items =>
    refine (formed_items shape).mpr (((formed_items shape).mp formed).imp (imp s (le_refl _)) ?_)
    rintro ⟨tuple,same,schemas⟩
    exact ⟨tuple,same,listed same schemas⟩
  | schemaList =>
    obtain ⟨ms,same,schemas⟩ := (formed_list shape).mp formed
    exact (formed_list shape).mpr ⟨ms,same,listed same schemas⟩
  | schemaMap =>
    obtain ⟨es,rfl,sorted,schemas⟩ := (formed_map shape).mp formed
    refine (formed_map shape).mpr ⟨es,rfl,sorted,fun entry mem => ?_⟩
    exact imp _ (le_of_lt (depth_field mem)) (schemas entry mem)
  | dependencies =>
    obtain ⟨es,rfl,sorted,schemas⟩ := (formed_dependencies shape).mp formed
    refine (formed_dependencies shape).mpr ⟨es,rfl,sorted,fun entry mem => ?_⟩
    exact (schemas entry mem).imp_right (imp _ (le_of_lt (depth_field mem)))
  | lowerBound => exact (formed_bound (.inl shape)).mpr ((formed_bound (.inl shape)).mp formed)
  | upperBound => exact (formed_bound (.inr shape)).mpr ((formed_bound (.inr shape)).mp formed)
  | note => unfold keywordFormed at formed ⊢; rwa [shape] at formed ⊢
  | scalar => rwa [formed_scalar shape] at formed ⊢

lemma isSchema_mono (allows : ∀ key s, vocab.allows key s → wider.allows key s)
    (schema : s.isSchema vocab) : s.isSchema wider := by
  induction s using byDepth with
  | step s ih =>
    rcases isSchema_cases schema with ⟨b,rfl⟩ | ⟨fs,rfl,formed⟩
    · exact isSchema_bool b
    refine isSchema_obj.mpr ⟨formed.sorted,fun key t found => allows key t (formed.allowed key t found),
      fun key t found => ?_,formed.conditional⟩
    exact keywordFormed_mono (fun u shallow => ih u (lt_of_le_of_lt shallow (depth_get? found)))
      (formed.formed key t found)

def stepWith (vocab : Vocabulary) (also : Fields → Bool) (formed : Json → Bool) (s : Json) : Bool :=
  step vocab formed s && s.fields?.all also
end Schemas
-- A well-formed schema whose objects, also those of its sub-schemas, satisfy one condition more.
def Json.isSchemaWith (vocab : Vocabulary) (also : Fields → Bool) (s : Json) : Bool :=
  recurse (Schemas.stepWith vocab also) false s
namespace Schemas
variable {vocab : Vocabulary} {fs : Fields} {key : String} {s : Json} {also : Fields → Bool}
lemma isSchemaWith_eq (s : Json) : s.isSchemaWith vocab also = stepWith vocab also (isSchemaWith vocab also) s := by
  refine recurse_eq (fun s f g agree => ?_) s
  unfold stepWith
  rw [step_descends vocab s f g agree]

@[simp] lemma isSchemaWith_bool (b : Bool) : (bool b).isSchemaWith vocab also := isSchemaWith_eq _

lemma isSchemaWith_obj : (obj fs).isSchemaWith vocab also ↔
    step vocab (isSchemaWith vocab also) (.obj fs) ∧ also fs := by
  rw [isSchemaWith_eq]
  exact Bool.and_eq_true_iff

lemma isSchema_of_with (schema : s.isSchemaWith vocab also) : s.isSchema vocab := by
  induction s using byDepth with
  | step s ih =>
    cases s with
    | bool b => exact isSchema_bool b
    | obj fs =>
      obtain ⟨sorted,allowed,formed,conditional⟩ := (step_obj _).mp (isSchemaWith_obj.mp schema).1
      refine isSchema_obj.mpr ⟨sorted,allowed,fun key t found => ?_,conditional⟩
      exact keywordFormed_mono (fun u shallow => ih u (lt_of_le_of_lt shallow (depth_get? found))) (formed key t found)
    | _ => rw [isSchemaWith_eq] at schema; cases (Bool.and_eq_true_iff.mp schema).1

lemma formed_of_with (formed : keywordFormed (isSchemaWith vocab also) key s) : keywordFormed (isSchema vocab) key s :=
  keywordFormed_mono (fun _ _ => isSchema_of_with) formed

lemma isSchemaWith_cases (schema : s.isSchemaWith vocab also) : (∃ b, s = .bool b) ∨ ∃ fs : Fields, s = .obj fs ∧
    step vocab (isSchemaWith vocab also) (.obj fs) ∧ also fs := by
  rcases isSchema_cases (isSchema_of_with schema) with boolean | ⟨fs,rfl,_⟩
  · exact .inl boolean
  · exact .inr ⟨fs,rfl,isSchemaWith_obj.mp schema⟩

lemma orderly_strings {nums : Num → Bool} (ns : List String) : (strings ns).isOrderly nums := by
  refine orderly_arr.mpr fun v mem => ?_
  obtain ⟨name,_,rfl⟩ := mem_map.mp mem
  rfl

lemma exact_strings (ns : List String) : (strings ns).isExact := (isExact_eq _).trans (orderly_strings ns)

lemma exact_isNames (listed : isNames s) : s.isExact := by
  obtain ⟨ns,rfl⟩ := isNames_iff.mp listed
  exact exact_strings ns

lemma exact_scalar (formed : scalarFormed key s) : s.isExact := by
  have text : s.str?.isSome → s.isExact := by cases s <;> simp [str?,isExact]
  unfold scalarFormed at formed
  split at formed
  · rcases Bool.or_eq_true_iff.mp formed with single | ns
    · exact text single
    · exact exact_isNames ns
  · exact exact_isNames formed
  · exact formed
  · cases s with
    | arr ms => exact exact_arr.mpr (all_eq_true.mp formed)
    | _ => cases formed
  · cases s <;> first | rfl | cases formed
  · exact text formed
  · exact text formed
  · cases formed

lemma orderly_keyword {nums : Num → Bool} (wide : ∀ n, n.isWhole → nums n)
    (inside : ∀ t : Json, t.depth ≤ s.depth → good t → t.isOrderly nums)
    (formed : keywordFormed good key s) : s.isOrderly nums := by
  have exactly : ∀ {t : Json}, t.isExact → t.isOrderly nums := fun {t} exact =>
    orderly_mono wide ((isExact_eq t).symm.trans exact)
  have listed : ∀ xs, s = .arr xs → (∀ t ∈ xs, good t) → s.isOrderly nums := by
    rintro xs rfl schemas
    exact orderly_arr.mpr fun t mem => inside t (le_of_lt (depth_item mem)) (schemas t mem)
  cases shape : shape key with
  | subSchema => rw [formed_subSchema shape] at formed; exact inside s (le_rfl) formed
  | items =>
    rcases (formed_items shape).mp formed with single | ⟨tuple,same,schemas⟩
    · exact inside s (le_rfl) single
    · exact listed tuple same schemas
  | schemaList =>
    obtain ⟨ms,same,schemas⟩ := (formed_list shape).mp formed
    exact listed ms same schemas
  | schemaMap =>
    obtain ⟨es,rfl,sorted,schemas⟩ := (formed_map shape).mp formed
    refine orderly_obj.mpr ⟨sorted,fun entry mem => ?_⟩
    exact inside _ (le_of_lt (depth_field mem)) (schemas entry mem)
  | dependencies =>
    obtain ⟨es,rfl,sorted,schemas⟩ := (formed_dependencies shape).mp formed
    refine orderly_obj.mpr ⟨sorted,fun entry mem => ?_⟩
    rcases schemas entry mem with ns | schema
    · exact exactly (exact_isNames ns)
    · exact inside _ (le_of_lt (depth_field mem)) schema
  | lowerBound => obtain ⟨n,rfl⟩ := (formed_bound (.inl shape)).mp formed; exact wide _ rfl
  | upperBound => obtain ⟨n,rfl⟩ := (formed_bound (.inr shape)).mp formed; exact wide _ rfl
  | note => unfold keywordFormed at formed; rw [shape] at formed; exact exactly formed
  | scalar => rw [formed_scalar shape] at formed; exact exactly (exact_scalar formed)

lemma exact_keyword (inside : ∀ t : Json, t.depth ≤ s.depth → good t → t.isExact)
    (formed : keywordFormed good key s) : s.isExact := by
  simp only [isExact_eq] at inside ⊢
  exact orderly_keyword (fun _ whole => whole) inside formed

lemma exact_schema (schema : s.isSchema vocab) : s.isExact := by
  induction s using byDepth with
  | step s ih =>
    rcases isSchema_cases schema with ⟨b,rfl⟩ | ⟨fs,rfl,formed⟩
    · rfl
    refine exact_obj.mpr ⟨formed.sorted,fun field mem => ?_⟩
    have found : fs.get? field.1 = some field.2 := get?_of_mem formed.sorted mem
    have shallower := depth_get? found
    exact exact_keyword (fun t shallow => ih t (lt_of_le_of_lt shallow shallower)) (formed.formed _ _ found)

lemma exact_formed (formed : Formed vocab f) (found : f.get? key = some s) : s.isExact :=
  exact_get? (exact_schema (isSchema_obj.mpr formed)) found
end Schemas
namespace Schemas
-- Shapes of keywords that hold no sub-schemas.
def leaves : List Shape := [.lowerBound,.upperBound,.note,.scalar]

-- Are the sub-schemas under a keyword well-formed? Where there are none, any value will do.
def placesFormed (good : Json → Bool) (key : String) (s : Json) : Bool :=
  leaves.contains (shape key) || keywordFormed good key s

lemma placesFormed_agree (agree : ∀ t : Json, t.depth < (obj fs).depth → f t = g t) (mem : field ∈ fs) :
    placesFormed f field.1 field.2 = placesFormed g field.1 field.2 := by
  unfold placesFormed
  rw [keywordFormed_agree fun t shallow => agree t (lt_of_le_of_lt shallow (depth_field mem))]
end Schemas
lemma Json.orderly_of_exact {v : Json} (exact : v.isExact) : v.isOrderly Num.isInteger :=
  orderly_mono (fun _ => Num.integer_of_whole) ((isExact_eq v).symm.trans exact)

-- Numbers are integers, and well-formed schemas stand where sub-schemas do.
structure Placed (good : Json → Bool) (fs : Fields) : Prop where
  orderly : (obj fs).isOrderly Num.isInteger
  places : ∀ key s, fs.get? key = some s → Schemas.placesFormed good key s

-- Schemas whose sub-schemas are schemas of the same kind.
structure Family (good : Json → Bool) : Prop where
  cases : ∀ s, good s → (∃ b, s = .bool b) ∨ ∃ fs : Fields, s = .obj fs ∧ Placed good fs
section Families
open Schemas
variable {good : Json → Bool} {vocab : Vocabulary} {fs : Fields} {key : String} {s : Json}
lemma Schemas.formed_of_places (places : placesFormed good key s) (inner : shape key ∉ leaves) :
    keywordFormed good key s := by
  refine (Bool.or_eq_true_iff.mp places).resolve_left fun leaf => inner ?_
  exact contains_iff_mem.mp leaf

lemma Schemas.places_of_formed (formed : keywordFormed good key s) : placesFormed good key s :=
  Bool.or_eq_true_iff.mpr (.inr formed)

lemma Schemas.places_leaf (leaf : shape key ∈ leaves) : placesFormed good key s :=
  Bool.or_eq_true_iff.mpr (.inl (contains_iff_mem.mpr leaf))
section
variable (placed : Placed good fs)
include placed
lemma Placed.sorted : fs.Sorted := (orderly_obj.mp placed.orderly).1

lemma Placed.formed (inner : shape key ∉ leaves) (found : fs.get? key = some s) : keywordFormed good key s :=
  formed_of_places (placed.places key s found) inner

lemma Placed.put (ord : t.isOrderly Num.isInteger) (places : placesFormed good key t) : Placed good (fs.put key t) := by
  refine ⟨orderly_put placed.orderly ord,fun other s found => ?_⟩
  rw [get?_put] at found
  split at found
  · next same =>
    subst same
    cases found
    exact places
  · exact placed.places other s found

lemma Placed.erase (key : String) : Placed good (fs.erase key) := by
  refine ⟨orderly_erase placed.orderly,fun other s found => ?_⟩
  rw [get?_erase placed.sorted] at found
  split at found
  · cases found
  · exact placed.places other s found
end
lemma Family.orderly (family : Family good) (schema : good s) : s.isOrderly Num.isInteger := by
  rcases family.cases s schema with ⟨b,rfl⟩ | ⟨fs,rfl,placed⟩
  · rfl
  · exact placed.orderly

lemma Family.single (family : Family good) (schema : good s) : s.isArr = false := by
  rcases family.cases s schema with ⟨b,rfl⟩ | ⟨fs,rfl,placed⟩ <;> rfl

lemma Formed.placed (formed : Formed vocab fs) : Placed (isSchema vocab) fs :=
  ⟨orderly_of_exact (exact_schema (isSchema_obj.mpr formed)),fun key s found => places_of_formed (formed.formed key s found)⟩

lemma family_isSchema (vocab : Vocabulary) : Family (isSchema vocab) := by
  refine ⟨fun s schema => ?_⟩
  rcases isSchema_cases schema with boolean | ⟨fs,rfl,formed⟩
  · exact .inl boolean
  · exact .inr ⟨fs,rfl,formed.placed⟩
end Families
lemma Placed.declared (placed : Placed good fs) :
    (Acceptance.declared fs).Sorted ∧ ∀ name s, (Acceptance.declared fs).get? name = some s → good s := by
  unfold Acceptance.declared
  cases found : fs.get? "properties" with
  | none => exact ⟨sorted_nil,nofun⟩
  | some map =>
    obtain ⟨es,rfl,sorted,each⟩ := (Schemas.formed_map rfl).mp (placed.formed (by decide) found)
    exact ⟨sorted,fun name s at_ => each (name,s) (mem_of_get? at_)⟩

lemma Formed.declared (formed : Formed vocab fs) : (Acceptance.declared fs).Sorted ∧
    ∀ name s, (Acceptance.declared fs).get? name = some s → s.isSchema vocab :=
  formed.placed.declared
end SchemaOrder
