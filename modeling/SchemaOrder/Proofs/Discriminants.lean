import SchemaOrder.Memory
import SchemaOrder.Proofs.Fields
import SchemaOrder.Proofs.Runs
import SchemaOrder.Resolution
namespace SchemaOrder
open List Fields
-- Every entry of the discriminant is a part of the data, under the names that lead to it.
def Json.along (data : Json) : List String → Option Json
  | [] => some data
  | name :: rest => (data.field? name).bind fun part => part.along rest
namespace Resolution
-- Names that hold a dot may make one key of two paths; whichever entry stands there, it is read along its own path.
def Holds (data : Json) (key : String) (x : Json) : Prop :=
  ∃ ns : List String, ns ≠ [] ∧ ".".intercalate ns = key ∧ data.along ns = some x

def Reported (data : Json) (found : Fields) : Prop := ∀ entry ∈ found, Holds data entry.1 entry.2
variable {σ : Type} {data x : Json} {found nested : Fields} {name key : String}
lemma Reported.put (reported : Reported data found) (holds : Holds data key x) : Reported data (found.put key x) := by
  intro entry mem
  rcases mem_put mem with rfl | old
  · exact holds
  · exact reported entry old

lemma Reported.foldl {α : Type} {step : Fields → α → Fields} {l : List α} (reported : Reported data found)
    (keeps : ∀ found, ∀ a ∈ l, Reported data found → Reported data (step found a)) : Reported data (l.foldl step found) := by
  induction l generalizing found with
  | nil => exact reported
  | cons a rest ih => exact ih (keeps found a mem_cons_self reported) fun found b later => keeps found b (.tail _ later)

lemma holds_field (at_ : data.field? name = some x) : Holds data name x := by
  refine ⟨[name],cons_ne_nil _ _,String.intercalate_singleton,?_⟩
  rw [Json.along,at_]
  rfl

-- Data that is no object stands for an object without fields, in which no path leads anywhere.
lemma holds_below (holds : Holds (nestedData data name) key x) : Holds data (name ++ "." ++ key) x := by
  obtain ⟨ns,some,rfl,at_⟩ := holds
  cases ns with
  | nil => exact absurd rfl some
  | cons first rest =>
    unfold nestedData at at_
    split at at_
    · next fs found =>
      refine ⟨name :: first :: rest,cons_ne_nil _ _,String.intercalate_cons_cons,?_⟩
      rw [Json.along,found]
      exact at_
    · cases at_

lemma reported_collect (cond : Json) (reported : Reported data found) : Reported data (collect cond data found) := by
  unfold collect
  split
  · refine reported.foldl fun found entry _ reported => ?_
    dsimp only
    split
    · next value here =>
      split
      · exact reported.put (holds_field here)
      · exact reported
    · exact reported
  · exact reported

lemma reported_addBelow (reported : Reported data found) (below : Reported (nestedData data name) nested) :
    Reported data (addBelow name found nested) :=
  reported.foldl fun _ entry mem reported => reported.put (holds_below (below entry mem))
section Passes
variable (e : Engine (StateM σ))
lemma decideBranch_reported (cond : Json) (reported : Reported data found) :
    Always (decideBranch e cond data found) fun made => Reported data made.2 :=
  .bind (ensures_any _) fun _ _ => .pure (reported_collect cond reported)

lemma resolveAllOf_reported (s : State) (reported : Reported data s.discriminant) :
    Always (resolveAllOf e data s) fun made => Reported data made.discriminant := by
  unfold resolveAllOf
  split
  · refine .bind (.foldlM (motive := fun _ s => Reported data s.discriminant) (fun entry _ s reported => ?_) _ _ reported)
      fun _ reported => .bind (ensures_any _) fun _ _ => .pure reported
    unfold resolveEntry
    split
    · exact .bind (decideBranch_reported e _ reported) fun _ reported => .pure reported
    · exact .pure reported
  · exact .pure reported

lemma resolveOwn_reported (s : State) (reported : Reported data s.discriminant) :
    Always (resolveOwn e data s) fun made => Reported data made.2.discriminant := by
  unfold resolveOwn
  split
  · exact .pure reported
  refine .bind (decideBranch_reported e _ reported) fun made reported => ?_
  dsimp only
  split
  · exact .bind (ensures_any _) fun _ _ => .pure reported
  · exact .pure reported

lemma resolveProperties_reported {resolve : Json → Json → StateM σ Resolution} (s : State)
    (reported : Reported data s.discriminant)
    (recur : ∀ schema data, Always (resolve schema data) fun made => Reported data made.discriminant) :
    Always (resolveProperties resolve data s) fun made => Reported data made.discriminant := by
  unfold resolveProperties
  split
  · split
    · refine .bind (.foldlM (motive := fun _ s => Reported data s.discriminant) (fun entry _ s reported => ?_) _ _ reported)
        fun _ reported => .pure reported
      dsimp only
      split
      · exact .bind (recur _ _) fun _ below => .pure (reported_addBelow reported below)
      · exact .pure reported
    · exact .pure reported
  · exact .pure reported

lemma resolveWithin_reported (depth : Nat) (schema data : Json) :
    Always (resolveWithin e depth schema data) fun made => Reported data made.discriminant := by
  induction depth generalizing schema data with
  | zero => exact .pure nofun
  | succ depth ih =>
    cases schema with
    | obj fs =>
      refine .bind (resolveAllOf_reported e _ nofun) fun s reported => ?_
      refine .bind (resolveOwn_reported e s reported) fun made reported => ?_
      exact .bind (resolveProperties_reported _ reported ih) fun _ reported => .pure reported
    | _ => exact .pure nofun
end Passes
theorem discriminant_along (e : Engine (StateM σ)) (schema data : Json) (state : σ) (entry : String × Json)
    (member : entry ∈ ((e.resolve schema data).run state).1.discriminant) :
    ∃ names : List String, names ≠ [] ∧ ".".intercalate names = entry.1 ∧ data.along names = some entry.2 :=
  (resolveWithin_reported e _ schema data state trivial).2 entry member

def parcel : Json :=
  .obj [("properties",.obj [("a",.obj [("if",.obj [("properties",.obj [("b.c",.single "const" (.str "x"))])])])])]

def parcelData : Json := .obj [("a",.obj [("b.c",.str "y")])]

theorem discriminant_along_nested :
    (((Memory.engine {} : Engine (StateM Memory)).resolve parcel parcelData).run {}).1.discriminant = [("a.b.c",.str "y")] ∧
      ∃ names : List String, names ≠ [] ∧ ".".intercalate names = "a.b.c" ∧ parcelData.along names = some (.str "y") := by
  have reported : (((Memory.engine {} : Engine (StateM Memory)).resolve parcel parcelData).run {}).1.discriminant =
      [("a.b.c",.str "y")] := by rfl
  refine ⟨reported,discriminant_along (Memory.engine {} : Engine (StateM Memory)) parcel parcelData {} ("a.b.c",.str "y") ?_⟩
  rw [reported]
  exact mem_singleton_self _
end Resolution
end SchemaOrder
