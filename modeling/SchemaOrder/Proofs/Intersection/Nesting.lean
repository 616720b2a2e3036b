import SchemaOrder.Proofs.Intersection.Heft
namespace SchemaOrder
open List Fields Json Acceptance
namespace Nesting
-- The schemas under a keyword that speak about the value itself, and those that speak about a property of it.
def beside (key : String) (v : Json) : List Json :=
  if key = "allOf" then v.itemsOrNone else if key = "then" ∨ key = "else" then [v] else []

def below (key : String) (v : Json) : List Json :=
  if key = "properties" ∨ key = "patternProperties" then v.values else if key = "additionalProperties" then [v] else []

def step (nested : Json → Nat) : Json → Nat
  | .obj fs => max (most nested (fs.flatMap fun field => beside field.1 field.2))
      (most (nested · + 1) (fs.flatMap fun field => below field.1 field.2))
  | _ => 0
end Nesting
-- How many properties lie within one another.
def Json.nesting (v : Json) : Nat := recurse Nesting.step 0 v
namespace Nesting
variable {fs : Fields} {key : String} {s v : Json} {n : Nat}
structure Under (n : Nat) (key : String) (v : Json) : Prop where
  beside : ∀ s ∈ beside key v, s.nesting ≤ n
  below : ∀ s ∈ below key v, s.nesting < n

lemma depth_beside (mem : s ∈ beside key v) : s.depth ≤ v.depth := by
  unfold beside at mem
  split_ifs at mem
  · exact (depth_itemsOrNone mem).le
  · rw [mem_singleton.mp mem]
  · cases mem

lemma depth_below (mem : s ∈ below key v) : s.depth ≤ v.depth := by
  unfold below at mem
  split_ifs at mem
  · obtain ⟨entry,inside,rfl⟩ := mem_map.mp mem
    exact (depth_entries inside).le
  · rw [mem_singleton.mp mem]
  · cases mem

lemma step_descends : Descends step := by
  intro v f g agree
  cases v with
  | obj fs =>
    have first : most f (fs.flatMap fun field => beside field.1 field.2) =
        most g (fs.flatMap fun field => beside field.1 field.2) := most_congr fun s mem => by
      obtain ⟨field,inside,part⟩ := mem_flatMap.mp mem
      exact agree s (lt_of_le_of_lt (depth_beside part) (depth_field inside))
    have second : most (f · + 1) (fs.flatMap fun field => below field.1 field.2) =
        most (g · + 1) (fs.flatMap fun field => below field.1 field.2) := most_congr fun s mem => by
      obtain ⟨field,inside,part⟩ := mem_flatMap.mp mem
      exact congrArg (· + 1) (agree s (lt_of_le_of_lt (depth_below part) (depth_field inside)))
    simp only [step,first,second]
  | _ => rfl

lemma nesting_le : (obj fs).nesting ≤ n ↔ ∀ field ∈ fs, Under n field.1 field.2 := by
  rw [nesting,recurse_eq step_descends]
  change max _ _ ≤ n ↔ _
  rw [max_le_iff,most_le_iff,most_le_iff]
  simp only [mem_flatMap]
  constructor
  · rintro ⟨first,second⟩ field inside
    exact ⟨fun s part => first s ⟨field,inside,part⟩,fun s part => second s ⟨field,inside,part⟩⟩
  · intro all
    exact ⟨fun s ⟨field,inside,part⟩ => (all field inside).beside s part,
      fun s ⟨field,inside,part⟩ => (all field inside).below s part⟩

lemma nesting_le_depth (v : Json) : v.nesting ≤ v.depth := by
  induction v using byDepth with
  | step v ih =>
    cases v with
    | obj fs =>
      refine nesting_le.mpr fun field inside => ⟨fun s part => ?_,fun s part => ?_⟩
      · have less := lt_of_le_of_lt (depth_beside part) (depth_field inside)
        exact le_trans (ih s less) less.le
      · have less := lt_of_le_of_lt (depth_below part) (depth_field inside)
        exact lt_of_le_of_lt (ih s less) less
    | _ => exact Nat.zero_le _

lemma under_get? (nests : (obj fs).nesting ≤ n) (found : fs.get? key = some v) : Under n key v :=
  nesting_le.mp nests _ (mem_of_get? found)

lemma nesting_of_get? (sorted : fs.Sorted) (each : ∀ key v, fs.get? key = some v → Under n key v) :
    (obj fs).nesting ≤ n :=
  nesting_le.mpr fun _ inside => each _ _ (get?_of_mem sorted inside)

lemma nesting_filter (nests : (obj fs).nesting ≤ n) (keep : String × Json → Bool) : (obj (fs.filter keep)).nesting ≤ n :=
  nesting_le.mpr fun field inside => nesting_le.mp nests field (mem_filter.mp inside).1

lemma nesting_single : (single key v).nesting ≤ n ↔ Under n key v := by
  rw [single,nesting_le,forall_mem_singleton]

def traced : List String := ["allOf","then","else","properties","patternProperties","additionalProperties"]

lemma under_closed (closed : key ∉ traced) (n : Nat) (v : Json) : Under n key v := by
  simp only [traced,mem_cons,not_or] at closed
  constructor <;> simp [beside,below,closed]

lemma under_map (map : key = "properties" ∨ key = "patternProperties") :
    Under n key v ↔ ∀ s ∈ v.values, s.nesting < n := by
  have alone : beside key v = [] := by rcases map with rfl | rfl <;> rfl
  have inner : below key v = v.values := if_pos map
  exact ⟨fun under => inner ▸ under.below,fun each => ⟨alone ▸ nofun,inner ▸ each⟩⟩

lemma under_extra : Under n "additionalProperties" v ↔ v.nesting < n :=
  ⟨fun under => under.below v (mem_singleton_self v),fun less => ⟨nofun,fun _ mem => mem_singleton.mp mem ▸ less⟩⟩

lemma under_allOf : Under n "allOf" v ↔ ∀ s ∈ v.itemsOrNone, s.nesting ≤ n :=
  ⟨fun under => under.beside,fun each => ⟨each,nofun⟩⟩
end Nesting
end SchemaOrder
