import SchemaOrder.Proofs.Annotations.Containment
import SchemaOrder.Proofs.Sessions
namespace SchemaOrder
open Keyword List Fields Json Replacement Engine Memory Split
-- Annotations have no influence on a verdict, as long as they stand where they have no say.
mutual
def Json.stripped : Json → Json
  | .obj fs => .obj (strippedKeywords fs)
  | v => v

def strippedKeywords : List (String × Json) → List (String × Json)
  | [] => []
  | (key, value) :: rest =>
    if shape key = .note then strippedKeywords rest
    else if varying.contains key then (key, strippedUnder (shape key) value) :: strippedKeywords rest
    else (key, value) :: strippedKeywords rest

def strippedUnder (shape : Shape) : Json → Json
  | .arr xs =>
    match shape with
    | .items | .schemaList => .arr (strippedItems xs)
    | _ => .arr xs
  | .obj fs =>
    match shape with
    | .subSchema | .items => .obj (strippedKeywords fs)
    | .schemaMap => .obj (strippedEntries fs)
    | _ => .obj fs
  | v => v

def strippedItems : List Json → List Json
  | [] => []
  | v :: rest => v.stripped :: strippedItems rest

def strippedEntries : List (String × Json) → List (String × Json)
  | [] => []
  | (name, v) :: rest => (name, v.stripped) :: strippedEntries rest
end
mutual
def Json.isGrounded : Json → Bool
  | .obj fs =>
    (fs.all (fun field => shape field.1 != .note) || fs.any fun field => isOwn field.1 field.2) && groundedKeywords fs
  | _ => true

def groundedKeywords : List (String × Json) → Bool
  | [] => true
  | (key, value) :: rest =>
    (match key, value with
      | "allOf", .arr es => groundedItems es
      | _, _ => true) && groundedKeywords rest

def groundedItems : List Json → Bool
  | [] => true
  | v :: rest => v.isGrounded && groundedItems rest
end
def Json.unannotated (s : Json) : Json :=
  match of? s, s.stripped with
  | some split, .obj fs => .obj (put fs split.kind.keyword (.arr (split.branches.map stripped)))
  | _, v => v

def Json.besideEffective (s : Json) : Bool :=
  match of? s with
  | some split => split.beside.isEmpty || split.beside.any fun field => shape field.1 != .note
  | none => true

def Json.partsGrounded (s : Json) : Bool :=
  match of? s with
  | some split => split.branches.all fun branch =>
    ((obj split.beside).splits == 0 && branch.splits == 0) || ((obj split.beside).isGrounded && branch.isGrounded)
  | none => true

def strippedAt (key : String) (v : Json) : Json := if varying.contains key then mapKeyword stripped key v else v

lemma strippedItems_eq (xs : List Json) : strippedItems xs = xs.map stripped := by
  induction xs with
  | nil => rfl
  | cons v rest ih => rw [strippedItems,ih,map_cons]

lemma strippedEntries_eq (es : Fields) : strippedEntries es = mapEntries stripped es := by
  unfold mapEntries
  induction es with
  | nil => rfl
  | cons entry rest ih => rw [strippedEntries,ih,map_cons]

lemma strippedUnder_eq (varies : key ∈ varying) (value : Json) :
    strippedUnder (shape key) value = mapKeyword stripped key value := by
  have known : ∀ key ∈ varying, shape key ≠ .dependencies := by decide
  unfold mapKeyword
  cases value with
  | arr xs => cases shape key <;> first | exact congrArg arr (strippedItems_eq xs) | rfl
  | obj fs =>
    cases is : shape key with
    | schemaMap => exact congrArg obj (strippedEntries_eq fs)
    | dependencies => exact absurd is (known key varies)
    | _ => rfl
  | _ => cases shape key <;> rfl

lemma strippedKeywords_cons (key : String) (value : Json) (rest : Fields) : strippedKeywords ((key,value) :: rest) =
    if shape key = .note then strippedKeywords rest else (key,strippedAt key value) :: strippedKeywords rest := by
  conv_lhs => unfold strippedKeywords
  unfold strippedAt
  by_cases varies : varying.contains key
  · rw [if_pos varies,if_pos varies,strippedUnder_eq (contains_iff_mem.mp varies)]
  · rw [if_neg varies,if_neg varies]

lemma strippedKeywords_eq (fs : Fields) : strippedKeywords fs =
    (fs.filter fun field => shape field.1 != .note).map fun field => (field.1,strippedAt field.1 field.2) := by
  induction fs with
  | nil => rfl
  | cons field rest ih =>
    obtain ⟨key,value⟩ := field
    rw [strippedKeywords_cons,ih,filter_cons]
    by_cases note : shape key = .note
    · rw [if_pos note,if_neg (by simp [note])]
    · rw [if_neg note,if_pos (by simpa using note),map_cons]
section Stripped
variable {grounded : Bool} {f : Fields} {v : Json} {key : String}
lemma get?_stripped (f : Fields) (key : String) :
    get? (strippedKeywords f) key = if shape key = .note then none else (f.get? key).map (strippedAt key) := by
  rw [strippedKeywords_eq,get?_map strippedAt,get?_filter (fun key => shape key != .note)]
  by_cases note : shape key = .note
  · rw [if_neg (by simp [note]),if_pos note]
    rfl
  · rw [if_pos (by simpa using note),if_neg note]

lemma orderly_stripped (ord : v.Orderly) : v.stripped.Orderly := by
  induction v using byDepth with
  | step v ih =>
    cases v with
    | obj fs =>
      obtain ⟨sorted,orderlies⟩ := orderly_obj.mp ord
      unfold stripped
      rw [strippedKeywords_eq]
      refine orderly_obj.mpr ⟨sorted_map strippedAt (sorted_filter _ sorted),fun field mem => ?_⟩
      obtain ⟨own,kept,rfl⟩ := mem_map.mp mem
      have inside := mem_of_mem_filter kept
      dsimp only
      unfold strippedAt
      split
      · exact orderly_mapKeyword (orderlies own inside) fun t shallow =>
          ih t (lt_of_le_of_lt shallow (depth_field inside))
      · exact orderlies own inside
    | _ => exact ord

lemma kinEach_map (each : ∀ v ∈ l, Kin grounded v v.stripped) : KinEach grounded l (l.map stripped) := by
  induction l with
  | nil => exact .nil
  | cons v rest ih =>
    exact .cons (each v mem_cons_self) (ih fun w mem => each w (.tail _ mem))

lemma kinMembers_map (each : ∀ entry ∈ f, Kin false entry.2 entry.2.stripped) : KinMembers f (mapEntries stripped f) := by
  induction f with
  | nil => exact .nil
  | cons entry rest ih =>
    exact .cons (each entry mem_cons_self) (ih fun other mem => each other (.tail _ mem))

lemma groundedItems_iff : groundedItems l ↔ ∀ v ∈ l, v.isGrounded := by
  induction l with
  | nil => simp [groundedItems]
  | cons v rest ih => simp [groundedItems,ih]

lemma grounded_entries (found : f.get? "allOf" = some (.arr es))
    (grounded : groundedKeywords f) : ∀ v ∈ es, v.isGrounded := by
  induction f with
  | nil => cases found
  | cons field rest ih =>
    obtain ⟨key,value⟩ := field
    rw [get?_cons] at found
    unfold groundedKeywords at grounded
    rw [Bool.and_eq_true] at grounded
    split at found
    · next is =>
      cases is
      cases found
      exact groundedItems_iff.mp grounded.1
    · exact ih found grounded.2

lemma notes_stripped (sorted : f.Sorted) (isGrounded : (obj f).isGrounded) :
    Anchored f ∨ SameNotes f (strippedKeywords f) := by
  unfold Json.isGrounded at isGrounded
  rw [Bool.and_eq_true,Bool.or_eq_true] at isGrounded
  rcases isGrounded.1 with plain | own
  · refine .inr fun key note => ?_
    rw [get?_stripped,if_pos note]
    cases found : f.get? key with
    | none => rfl
    | some v =>
      have effective := all_eq_true.mp plain _ (mem_of_get? found)
      rw [note] at effective
      cases effective
  · obtain ⟨field,inside,isOwn⟩ := any_eq_true.mp own
    exact .inl ⟨field.1,field.2,get?_of_mem sorted inside,isOwn⟩

lemma kinAt_stripped (ord : v.Orderly) (one : ∀ {w : Json}, w.depth ≤ v.depth → w.Orderly → Kin false w w.stripped)
    (entry : ∀ es, key = "allOf" → v = .arr es → ∀ w ∈ es, Kin grounded w w.stripped) :
    KinAt grounded key (some v) (some (strippedAt key v)) := by
  have members : ∀ map, v = .obj map → KinMembers map (mapEntries stripped map) := by
    rintro map rfl
    have orderlies := (orderly_obj.mp ord).2
    exact kinMembers_map fun entry inside => one (le_of_lt (depth_field inside)) (orderlies entry inside)
  unfold strippedAt
  split
  · next varies =>
    simp only [varying,contains_iff_mem,mem_cons,not_mem_nil,or_false] at varies
    rcases varies with rfl | rfl | rfl | rfl | rfl
    · cases v with
      | obj map => exact .members (members map rfl)
      | _ => exact .same _
    · cases v with
      | arr tuple =>
        exact .tuple (kinEach_map fun w inside => one (le_of_lt (depth_item inside)) (orderly_item ord inside))
      | _ => exact .item (one (le_refl _) ord)
    · exact .further (one (le_refl _) ord)
    · cases v with
      | arr es => exact .entries (kinEach_map (entry es rfl rfl))
      | _ => exact .same _
    · cases v with
      | obj map => exact .named (members map rfl)
      | _ => exact .same _
  · exact .same _

lemma kin_stripped (ord : v.Orderly) (isGrounded : grounded → v.isGrounded) : Kin grounded v v.stripped := by
  induction v using byDepth generalizing grounded with
  | step v ih =>
    cases v with
    | obj f =>
      have sorted := (orderly_obj.mp ord).1
      have stripped := orderly_stripped ord
      refine .obj ord stripped (fun strict => notes_stripped sorted (isGrounded strict)) fun key effective => ?_
      rw [get?_stripped,if_neg effective]
      cases found : get? f key with
      | none => exact .same _
      | some v =>
        have shallow := depth_get? found
        have vOrderly := orderly_get? ord found
        refine kinAt_stripped vOrderly (fun within ord => ih _ (lt_of_le_of_lt within shallow) ord
          (absurd · Bool.false_ne_true)) ?_
        rintro es rfl rfl w inside
        refine ih w (lt_trans (depth_item inside) shallow) (orderly_item vOrderly inside) fun strict => ?_
        have whole := isGrounded strict
        exact grounded_entries found ((Bool.and_eq_true _ _).mp whole).2 w inside
    | _ => exact .leaf rfl ord

lemma without_stripped (sorted : f.Sorted) (key : String) (v : Json) :
    without (put (strippedKeywords f) key v) [key] = strippedKeywords (without f [key]) := by
  have stripped {f : Fields} (sorted : f.Sorted) : Sorted (strippedKeywords f) := by
    rw [strippedKeywords_eq]
    exact sorted_map strippedAt (sorted_filter _ sorted)
  refine ext (sorted_filter _ (sorted_put (stripped sorted))) (stripped (sorted_filter _ sorted)) fun name => ?_
  rw [get?_without,get?_stripped,get?_without]
  split
  · split <;> rfl
  next other =>
  rw [get?_put_other (fun is => other (by simp [is])),get?_stripped]

lemma effective_beside (ord : s.Orderly) (found : of? s = some split)
    (beside : s.besideEffective) : Effective split.beside ∨ split.beside = strippedKeywords split.beside := by
  unfold besideEffective at beside
  rw [found] at beside
  rcases (Bool.or_eq_true _ _).mp beside with empty | effective
  · rw [isEmpty_iff.mp empty]
    exact .inr rfl
  obtain ⟨field,inside,effective⟩ := any_eq_true.mp effective
  have sorted := (orderly_obj.mp (orderly_split ord found).1).1
  exact .inl ⟨field.1,field.2,get?_of_mem sorted inside,by simpa using effective⟩

lemma parts_stripped (ord : s.Orderly) (found : of? s = some split)
    (grounded : s.partsGrounded) : Forall₂ (PartKin split.beside (strippedKeywords split.beside)) split.branches
      (split.branches.map stripped) := by
  obtain ⟨besideOrderly,branchesOrderly⟩ := orderly_split ord found
  unfold partsGrounded at grounded
  rw [found] at grounded
  rw [forall₂_map_right_iff,forall₂_same]
  intro branch inside
  rcases (Bool.or_eq_true _ _).mp (all_eq_true.mp grounded branch inside) with last | sound
  · obtain ⟨beside,none⟩ := (Bool.and_eq_true _ _).mp last
    exact .last (kin_stripped (branchesOrderly branch inside) (absurd · Bool.false_ne_true)) (beq_iff_eq.mp beside)
      (beq_iff_eq.mp none)
  obtain ⟨beside,sound⟩ := (Bool.and_eq_true _ _).mp sound
  exact .grounded (kin_obj.mp (kin_stripped besideOrderly fun _ => beside))
    (kin_stripped (branchesOrderly branch inside) fun _ => sound)

lemma akin_unannotated {s : Json} {narrow : Bool} (ord : s.Orderly) (beside : s.besideEffective)
    (parts : narrow → s.partsGrounded) : Akin narrow s s.unannotated := by
  unfold unannotated
  cases found : of? s with
  | none => exact .whole (kin_stripped ord (absurd · Bool.false_ne_true)) found
  | some split =>
    cases s with
    | obj f =>
      have notes := effective_beside ord found beside
      have made : narrow → _ := fun divided => parts_stripped ord found (parts divided)
      obtain ⟨besideOrderly,branchesOrderly⟩ := orderly_split ord found
      obtain ⟨kind,list,listed,rfl,first⟩ := split_cases found
      have sorted := (orderly_obj.mp ord).1
      have each : KinEach false list (list.map stripped) :=
        kinEach_map fun b inside => kin_stripped (branchesOrderly b inside) (absurd · Bool.false_ne_true)
      have whole : KinFields false f (strippedKeywords f) := kin_obj.mp (kin_stripped ord (absurd · Bool.false_ne_true))
      have divided : of? (.obj (put (strippedKeywords f) kind.keyword (.arr (list.map stripped)))) =
          some ⟨kind,list.map stripped,strippedKeywords (splitAt f kind list).beside⟩ := by
        have listed' : listed? (put (strippedKeywords f) kind.keyword (.arr (list.map stripped))) kind =
            some (list.map stripped) := by
          unfold listed?
          rw [get?_put_self]
          rfl
        rw [split_of_listed listed' fun is => ?_]
        · unfold splitAt
          rw [without_stripped sorted]
        cases is
        unfold listed?
        rw [get?_put_other (by decide)]
        exact (whole.listed .anyOf).symm.trans (first rfl)
      have strippedBeside := kin_obj.mp (kin_stripped besideOrderly (absurd · Bool.false_ne_true))
      exact .union ord (orderly_put whole.right each.orderly.2) found divided ⟨rfl,strippedBeside,notes,each,made⟩
    | _ => cases found
end Stripped
open Pattern (Regex)
def Engine.forgetful (settings : Settings) : Engine (StateM Unit) where
  primitive := Intersection.merge fun pat => pure ((Regex.compile? pat).map Regex.isMatch)
  matcher pat := pure ((Regex.compile? pat).map Regex.isMatch)
  patternWithin sub sup := pure (estimate settings.effort ⟨sub,sup,settings.sampleCount⟩)
namespace Memory
def forgetting (settings : Settings) (older : Memory) : Simulation (StateM Memory) (StateM Unit) :=
  .forgetful (Grown settings older)

lemma forgetting_engines (settings : Settings) (older : Memory) :
    (forgetting settings older).Engines (engine settings) (forgetful settings) where
  primitive := (forgetting settings older).merge grown_matcher
  matcher := grown_matcher
  patternWithin _ _ := grown_patternWithin _

lemma check_forgetful (faithful : memory.Faithful settings) (sub sup : Json) :
    (((engine settings : Engine (StateM Memory)).check sub sup).run memory).1 =
      (((forgetful settings).check sub sup).run ()).1 :=
  ((forgetting_engines settings memory).check sub sup memory ⟨faithful,extends_refl memory⟩).2
end Memory
lemma verdict_unannotated (settings : Settings) {sub sup : Json} (subOrderly : sub.Orderly) (supOrderly : sup.Orderly)
    (subBeside : sub.besideEffective) (supBeside : sup.besideEffective) (parts : sub.partsGrounded) :
    SameVerdict (((forgetful settings).check sub sup).run ()).1
      (((forgetful settings).check sub.unannotated sup.unannotated).run ()).1 :=
  twin_check rfl (akin_unannotated subOrderly subBeside fun _ => parts)
    (akin_unannotated supOrderly supBeside (absurd · Bool.false_ne_true))

theorem isSubset_eq_of_unannotated_eq (settings : Settings) (memory memory' : Memory) (sub sub' sup sup' : Json)
    (faithful : memory.Faithful settings) (faithful' : memory'.Faithful settings)
    (subOrderly : sub.Orderly ∧ sub'.Orderly) (supOrderly : sup.Orderly ∧ sup'.Orderly)
    (subBeside : sub.besideEffective = true ∧ sub'.besideEffective = true)
    (supBeside : sup.besideEffective = true ∧ sup'.besideEffective = true)
    (parts : sub.partsGrounded = true ∧ sub'.partsGrounded = true)
    (sameSub : sub.unannotated = sub'.unannotated) (sameSup : sup.unannotated = sup'.unannotated) :
    let engine : Engine (StateM Memory) := Memory.engine settings
    ((engine.check sub sup).run memory).1.isSubset = ((engine.check sub' sup').run memory').1.isSubset := by
  intro engine
  have verdict := verdict_unannotated settings subOrderly.1 supOrderly.1 subBeside.1 supBeside.1 parts.1
  have verdict' := verdict_unannotated settings subOrderly.2 supOrderly.2 subBeside.2 supBeside.2 parts.2
  rw [← sameSub,← sameSup] at verdict'
  rw [Memory.check_forgetful faithful,Memory.check_forgetful faithful']
  exact Eq.trans verdict (Eq.symm verdict')

def annotatedList : Json :=
  .obj [("$comment",.str "c"),("allOf",.arr [.obj [("default",.null),("minItems",.digit 1)]]),
    ("anyOf",.arr [.obj [("items",.obj [("description",.str "d"),("type",.str "string")]),("title",.str "texts")],
      .obj [("anyOf",.arr [.single "items" (.arr [.single "minimum" (.digit 1)])]),("maxItems",.digit 2),("title",.str "short")]]),
    ("definitions",.obj [("n",.obj [("examples",.arr []),("type",.str "null")])]),("type",.str "array")]

def plainList : Json :=
  .obj [("allOf",.arr [.single "minItems" (.digit 1)]),
    ("anyOf",.arr [.single "items" (.single "type" (.str "string")),
      .obj [("anyOf",.arr [.single "items" (.arr [.single "minimum" (.digit 1)])]),("maxItems",.digit 2)]]),
    ("definitions",.obj [("n",.single "type" (.str "null"))]),("type",.str "array")]

def annotatedArray : Json :=
  .obj [("anyOf",.arr [.obj [("title",.str "list"),("type",.str "array")],.single "type" (.str "null")]),
    ("description",.str "d"),("minItems",.digit 0)]

def plainArray : Json :=
  .obj [("anyOf",.arr [.single "type" (.str "array"),.single "type" (.str "null")]),("minItems",.digit 0)]

theorem isSubset_eq_of_unannotated_eq_list :
    annotatedList.partsGrounded = true ∧ annotatedArray.besideEffective = true ∧ annotatedList.unannotated = plainList ∧
      annotatedArray.unannotated = plainArray ∧ ∀ settings,
        let engine : Engine (StateM Memory) := Memory.engine settings
        ((engine.check annotatedList annotatedArray).run {}).1.isSubset = ((engine.check plainList plainArray).run {}).1.isSubset := by
  have listStripped : annotatedList.unannotated = plainList := by rfl
  have arrayStripped : annotatedArray.unannotated = plainArray := by rfl
  have listPlain : plainList.unannotated = plainList := by rfl
  have arrayPlain : plainArray.unannotated = plainArray := by rfl
  refine ⟨by decide,by decide,listStripped,arrayStripped,fun settings => ?_⟩
  exact isSubset_eq_of_unannotated_eq settings {} {} annotatedList plainList annotatedArray plainArray
    Memory.faithful_empty Memory.faithful_empty ⟨by decide,by decide⟩ ⟨by decide,by decide⟩ ⟨by decide,by decide⟩
    ⟨by decide,by decide⟩ ⟨by decide,by decide⟩ (listStripped.trans listPlain.symm) (arrayStripped.trans arrayPlain.symm)

theorem isSubset_reads_title : let sub := Json.obj [("contains",.single "type" (.str "string")),("type",.str "array")]
    let sup := Json.obj [("contains",.single "type" (.str "string"))]
    let titled := Json.obj [("contains",.obj [("title",.str "t"),("type",.str "string")])]
    let engine : Engine (StateM Memory) := Memory.engine {}
    ((engine.check sub sup).run {}).1.isSubset = true ∧ ((engine.check sub titled).run {}).1.isSubset = false := by
  decide +kernel
end SchemaOrder
