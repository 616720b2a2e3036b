import SchemaOrder.Proofs.Comparison
namespace SchemaOrder
open List Fields Json Change
-- Each change holds what stands at its place on either side, no place lies at or below another, and carrying all of
-- them out turns the first value into the second.
def Fields.assign (fs : Fields) (key : String) : Option Json → Fields
  | some value => fs.put key value
  | none => fs.erase key

lemma Fields.get?_assign {fs : Fields} (sorted : fs.Sorted) (key : String) (new : Option Json) (other : String) :
    (fs.assign key new).get? other = if key = other then new else fs.get? other := by
  cases new with
  | none => exact get?_erase sorted key other
  | some value => exact get?_put fs key value other

lemma Fields.sorted_assign {fs : Fields} (sorted : fs.Sorted) (key : String) (new : Option Json) :
    (fs.assign key new).Sorted := by
  cases new with
  | none => exact sorted_erase sorted
  | some value => exact sorted_put sorted

def Json.at? (v : Option Json) : List String → Option Json
  | [] => v
  | key :: rest => at? (v.bind (·.field? key)) rest

def Json.edited : Option Json → List String → Option Json → Option Json
  | _,[],new => new
  | some (.obj fs),key :: rest,new => some (.obj (assign fs key (edited (get? fs key) rest new)))
  | v,_ :: _,_ => v
namespace Change
def apply (v : Option Json) (c : Change) : Option Json :=
  match c.kind with
  | .removed => edited v c.position none
  | .added | .changed => edited v c.position (some c.actual)

def Reads (before after : Option Json) (c : Change) : Prop :=
  match c.kind with
  | .added => at? before c.position = none ∧ c.expected = .null ∧ at? after c.position = some c.actual
  | .removed => at? before c.position = some c.expected ∧ at? after c.position = none ∧ c.actual = .null
  | .changed => at? before c.position = some c.expected ∧ at? after c.position = some c.actual ∧
    c.expected.deepEqual c.actual = false

def Apart (c d : Change) : Prop :=
  ¬ c.position <+: d.position ∧ ¬ d.position <+: c.position

def under? (key : String) (c : Change) : Option Change :=
  match c.position with
  | [] => none
  | k :: rest => if k = key then some { c with position := rest } else none

lemma under?_below (key : String) (c : Change) : (c.below key).under? key = some c := by
  exact if_pos rfl

lemma under?_other {key k : String} {rest : List String} {c : Change} (headed : c.position = k :: rest) (other : k ≠ key) :
    c.under? key = none := by
  unfold under?
  rw [headed]
  exact if_neg other

-- What a change does to an object it does to one field.
lemma apply_below (fs : Fields) (key : String) (c : Change) :
    (c.below key).apply (some (.obj fs)) = some (.obj (fs.assign key (c.apply (fs.get? key)))) := by
  cases kind : c.kind <;> simp only [apply,below,kind] <;> rfl

lemma reads_below {before after : Option Json} {key : String} {c : Change} :
    (c.below key).Reads before after ↔ c.Reads (before.bind (·.field? key)) (after.bind (·.field? key)) := by
  cases kind : c.kind <;> simp only [Reads,below,kind] <;> rfl

lemma apart_below {key : String} {c d : Change} : (c.below key).Apart (d.below key) ↔ c.Apart d := by
  simp only [Apart,below,cons_prefix_cons,true_and]

lemma apart_of_heads {key other : String} {c d : Change} (ne : key ≠ other) : (c.below key).Apart (d.below other) := by
  simp only [Apart,below,cons_prefix_cons]
  exact ⟨fun both => ne both.1,fun both => ne both.1.symm⟩
end Change
lemma Num.equal_self {n : Num} (number : Doubles.IsNumber n.toFloat) : n.equal n := by
  cases n with
  | whole w => exact beq_self_eq_true w.val
  | double x => exact Doubles.beq_self number
namespace Json
lemma numeric_of_exact {v : Json} (exact : v.isExact) : v.Numeric := by
  induction v using byDepth with
  | step v ih =>
    cases v with
    | null => exact .null
    | bool b => exact .bool b
    | str text => exact .str text
    | num n => cases n with
      | whole w => exact .num _ (Doubles.ofInt_number w.val)
      | double x => cases exact
    | arr xs => exact .arr xs fun w mem => ih w (depth_item mem) (exact_item exact mem)
    | obj fs => exact .obj fs fun field mem => ih field.2 (depth_field mem) ((exact_obj.mp exact).2 field mem)

-- A double that is a number equals itself.
lemma deepEqual_self {v : Json} (ord : v.Orderly) (numeric : v.Numeric) : v.deepEqual v := by
  induction v using byDepth with
  | step v ih =>
    cases numeric with
    | null => rfl
    | bool b => exact beq_self_eq_true b
    | str text => exact beq_self_eq_true text
    | num n number => exact Num.equal_self number
    | arr xs each =>
      have all (part : List Json) : (∀ w ∈ part, w ∈ xs) → equalItems part part := by
        induction part with
        | nil => exact fun _ => rfl
        | cons w rest later =>
          intro inside
          have mem := inside w mem_cons_self
          rw [equalItems,ih w (depth_item mem) (orderly_item ord mem) (each w mem),Bool.true_and]
          exact later fun u within => inside u (.tail _ within)
      exact all xs fun _ mem => mem
    | obj fs each =>
      obtain ⟨sorted,orderlies⟩ := orderly_obj.mp ord
      refine (deepEqual_obj_iff sorted sorted).mpr fun key => ?_
      cases found : fs.get? key with
      | none => exact .none
      | some w =>
        have mem := mem_of_get? found
        exact .some (ih w (depth_field mem) (orderlies _ mem) (each _ mem))
end Json
structure Exact (before after : Option Json) (report : List Change) : Prop where
  empty : report = [] ↔ Agree before after
  reads : ∀ c ∈ report, c.Reads before after
  apart : report.Pairwise Apart
  restores : ∀ order : List Change, order.Perm report → Agree (order.foldl apply before) after
namespace Exact
lemma single {before after : Option Json} {c : Change} (differ : ¬ Agree before after) (reads : c.Reads before after)
    (restores : Agree (apply before c) after) : Exact before after [c] where
  empty := ⟨nofun,fun agree => absurd agree differ⟩
  reads _ mem := mem_singleton.mp mem ▸ reads
  apart := pairwise_singleton _ _
  restores _ perm := perm_singleton.mp perm ▸ restores

lemma removal (v : Json) : Exact (some v) none [⟨[],.removed,v,.null⟩] := single nofun ⟨rfl,rfl,rfl⟩ .none

lemma addition (self : w.deepEqual w) : Exact none (some w) [⟨[],.added,.null,w⟩] :=
  single nofun ⟨rfl,rfl,rfl⟩ (.some self)

lemma nothing {before after : Option Json} (agree : Agree before after) : Exact before after [] where
  empty := ⟨fun _ => agree,fun _ => rfl⟩
  reads c mem := nomatch mem
  apart := Pairwise.nil
  restores order perm := by
    rw [perm_nil.mp perm]
    exact agree

lemma whole (self : w.deepEqual w) (ne : v.deepEqual w = false) : Exact (some v) (some w) [⟨[],.changed,v,w⟩] where
  empty := ⟨nofun,fun agree => absurd (agree_some.mp agree) (ne_true_of_eq_false ne)⟩
  reads c mem := by
    rw [mem_singleton] at mem
    subst mem
    exact ⟨rfl,rfl,ne⟩
  apart := pairwise_singleton _ _
  restores order perm := by
    rw [perm_singleton.mp perm]
    exact .some self
variable {l r : Fields} {report : List Change}
def Inside (report : List Change) : Prop := ∀ c ∈ report, ∃ key d, c = below key d

lemma mem_under (mem : c.below key ∈ report) : c ∈ report.filterMap (under? key) :=
  mem_filterMap.mpr ⟨_,mem,under?_below key c⟩

-- A change to an object is a change to one field, so a run of changes is one run for each field.
lemma foldl_apply (sorted : l.Sorted) (inside : Inside report) : ∃ fs : Fields,
    report.foldl apply (some (.obj l)) = some (.obj fs) ∧ fs.Sorted ∧
      ∀ key, fs.get? key = (report.filterMap (under? key)).foldl apply (l.get? key) := by
  induction report generalizing l with
  | nil => exact ⟨l,rfl,sorted,fun _ => rfl⟩
  | cons c rest ih =>
    obtain ⟨k,d,rfl⟩ := inside c mem_cons_self
    rw [foldl_cons,apply_below]
    obtain ⟨fs,made,ordered,each⟩ := ih (sorted_assign sorted k (d.apply (l.get? k))) fun e mem => inside e (.tail _ mem)
    refine ⟨fs,made,ordered,fun key => ?_⟩
    rw [each key,get?_assign sorted]
    by_cases same : k = key
    · subst same
      rw [if_pos rfl,filterMap_cons_some (under?_below k d),foldl_cons]
    · rw [if_neg same,filterMap_cons_none (under?_other rfl same)]

lemma pairwise_apart (inside : Inside report)
    (each : ∀ key, (report.filterMap (under? key)).Pairwise Apart) : report.Pairwise Apart := by
  induction report with
  | nil => exact .nil
  | cons c rest ih =>
    have later : Inside rest := fun d mem => inside d (.tail _ mem)
    obtain ⟨k,d,rfl⟩ := inside c mem_cons_self
    refine pairwise_cons.mpr ⟨fun e mem => ?_,ih later fun key => ?_⟩
    · obtain ⟨k',e,rfl⟩ := later e mem
      by_cases same : k = k'
      · subst same
        have here := each k
        rw [filterMap_cons_some (under?_below k d)] at here
        exact apart_below.mpr ((pairwise_cons.mp here).1 e (mem_under mem))
      · exact apart_of_heads same
    · exact (each key).sublist ((sublist_cons_self _ rest).filterMap _)

lemma of_fields (left : l.Sorted) (right : r.Sorted) (inside : Inside report)
    (each : ∀ key, Exact (l.get? key) (r.get? key) (report.filterMap (under? key))) :
    Exact (some (.obj l)) (some (.obj r)) report where
  empty := by
    have fieldwise : Agree (some (.obj l)) (some (.obj r)) ↔ ∀ key, Agree (l.get? key) (r.get? key) := by
      rw [← deepEqual_obj_iff left right,agree_some]
    rw [fieldwise]
    constructor
    · rintro rfl key
      exact (each key).empty.mp rfl
    intro agree
    refine eq_nil_iff_forall_not_mem.mpr fun c mem => ?_
    obtain ⟨key,d,rfl⟩ := inside c mem
    have none := (each key).empty.mpr (agree key)
    exact absurd (none ▸ mem_under mem) not_mem_nil
  reads c mem := by
    obtain ⟨key,d,rfl⟩ := inside c mem
    exact reads_below.mpr ((each key).reads d (mem_under mem))
  apart := pairwise_apart inside fun key => (each key).apart
  restores order perm := by
    obtain ⟨fs,made,ordered,runs⟩ := foldl_apply left fun c mem => inside c (perm.mem_iff.mp mem)
    rw [made]
    refine .some ((deepEqual_obj_iff ordered right).mpr fun key => ?_)
    rw [runs key]
    exact (each key).restores _ (perm.filterMap _)
end Exact
def fieldReport (inner : String → Json → Json → List Change) (after : Fields) (field : String × Json) : List Change :=
  match after.get? field.1 with
  | none => [⟨[field.1],.removed,field.2,.null⟩]
  | some other => (inner field.1 field.2 other).map (below field.1)

def additionReport (before : Fields) (field : String × Json) : List Change :=
  if before.has field.1 then [] else [⟨[field.1],.added,.null,field.2⟩]
section Reading
variable {fs before after : Fields}
lemma under_flatMap (sorted : fs.Sorted) {changed : String × Json → List Change}
    (headed : ∀ field, ∀ c ∈ changed field, ∃ d, c = below field.1 d) (key : String) :
    (fs.flatMap changed).filterMap (under? key) =
      ((fs.get? key).map fun value => (changed (key,value)).filterMap (under? key)).getD [] := by
  induction fs with
  | nil => rfl
  | cons field rest ih =>
    obtain ⟨k,value⟩ := field
    obtain ⟨least,ordered⟩ := pairwise_cons.mp sorted
    rw [flatMap_cons,filterMap_append,ih ordered,get?_cons]
    by_cases same : k = key
    · subst same
      rw [get?_tail sorted,if_pos rfl]
      exact append_nil _
    have other : (changed (k,value)).filterMap (under? key) = [] := by
      refine filterMap_eq_nil_iff.mpr fun c mem => ?_
      obtain ⟨d,rfl⟩ := headed _ c mem
      exact under?_other rfl same
    rw [other,if_neg same,nil_append]

lemma under_map_below (key : String) (report : List Change) :
    (report.map (below key)).filterMap (under? key) = report := by
  rw [filterMap_map]
  exact (filterMap_congr fun c _ => under?_below key c).trans filterMap_some

lemma headed_fieldReport (inner : String → Json → Json → List Change) (after : Fields) (field : String × Json) :
    ∀ c ∈ fieldReport inner after field, ∃ d, c = below field.1 d := by
  intro c mem
  unfold fieldReport at mem
  split at mem
  · exact ⟨⟨[],.removed,field.2,.null⟩,mem_singleton.mp mem⟩
  obtain ⟨d,_,same⟩ := mem_map.mp mem
  exact ⟨d,same.symm⟩

lemma headed_additionReport (before : Fields) (field : String × Json) :
    ∀ c ∈ additionReport before field, ∃ d, c = below field.1 d := by
  intro c mem
  unfold additionReport at mem
  split at mem
  · cases mem
  · exact ⟨⟨[],.added,.null,field.2⟩,mem_singleton.mp mem⟩

lemma under_fieldReport (inner : String → Json → Json → List Change) (key : String) (value : Json) :
    (fieldReport inner after (key,value)).filterMap (under? key) = match after.get? key with
      | none => [⟨[],.removed,value,.null⟩]
      | some other => inner key value other := by
  unfold fieldReport
  cases after.get? key with
  | none => exact under_map_below key [⟨[],.removed,value,.null⟩]
  | some other => exact under_map_below key (inner key value other)

lemma under_additionReport (key : String) (value : Json) : (additionReport before (key,value)).filterMap (under? key) =
      match before.get? key with
      | none => [⟨[],.added,.null,value⟩]
      | some _ => [] := by
  unfold additionReport has
  cases before.get? key with
  | none => exact under_map_below key [⟨[],.added,.null,value⟩]
  | some _ => rfl

lemma additions_eq : additions before after = after.flatMap (additionReport before) := by
  unfold additions
  induction after with
  | nil => rfl
  | cons field rest ih =>
    rw [filter_cons,flatMap_cons,← ih]
    unfold additionReport
    cases before.has field.1 <;> rfl
end Reading
lemma exact_fields {before after : Fields} (left : before.Sorted) (right : after.Sorted)
    (self : ∀ field ∈ after, field.2.deepEqual field.2) (inner : String → Json → Json → List Change)
    (each : ∀ key v w, before.get? key = some v → after.get? key = some w → Exact (some v) (some w) (inner key v w)) :
    Exact (some (.obj before)) (some (.obj after)) (before.flatMap (fieldReport inner after) ++ additions before after) := by
  have olds := headed_fieldReport inner after
  have news := headed_additionReport before
  rw [additions_eq]
  refine Exact.of_fields left right (fun c mem => ?_) fun key => ?_
  · rcases mem_append.mp mem with old | new
    · obtain ⟨field,_,made⟩ := mem_flatMap.mp old
      exact ⟨field.1,olds field c made⟩
    obtain ⟨field,_,made⟩ := mem_flatMap.mp new
    exact ⟨field.1,news field c made⟩
  rw [filterMap_append,under_flatMap left olds,under_flatMap right news]
  simp only [under_fieldReport,under_additionReport]
  cases old : before.get? key with
  | none =>
    cases new : after.get? key with
    | none => exact .nothing .none
    | some w => exact .addition (self _ (mem_of_get? new))
  | some v =>
    cases new : after.get? key with
    | none => exact .removal v
    | some w => exact (append_nil (inner key v w)).symm ▸ each key v w old new

def keywordReport (key : String) (value other : Json) : List Change :=
  if value.deepEqual other then []
  else
    match Keyword.shape key,value,other with
    | .subSchema,.obj l,.obj r => changedKeywords l r ++ additions l r
    | .items,.obj l,.obj r => changedKeywords l r ++ additions l r
    | .schemaMap,.obj l,.obj r => changedEntries l r ++ additions l r
    | .dependencies,.obj l,.obj r => changedEntries l r ++ additions l r
    | _,l,r => [⟨[],.changed,l,r⟩]

def entryReport (_ : String) (schema other : Json) : List Change :=
  if schema.deepEqual other then []
  else if schema.isArr || other.isArr then [⟨[],.changed,schema,other⟩]
  else changes schema other

lemma changedKeywords_eq (before after : Fields) :
    changedKeywords before after = before.flatMap (fieldReport keywordReport after) := by
  induction before with
  | nil => rfl
  | cons field rest ih =>
    obtain ⟨key,value⟩ := field
    rw [changedKeywords,flatMap_cons,ih]
    unfold fieldReport
    cases after.get? key with
    | none => rfl
    | some other =>
      unfold keywordReport
      dsimp only
      split
      · rfl
      · cases Keyword.shape key <;> first | rfl | (cases value <;> first | rfl | (cases other <;> rfl))

lemma changedEntries_eq (before after : Fields) :
    changedEntries before after = before.flatMap (fieldReport entryReport after) := by
  induction before with
  | nil => rfl
  | cons field rest ih =>
    obtain ⟨key,value⟩ := field
    rw [changedEntries,flatMap_cons,ih]
    congr 1
    unfold fieldReport
    cases after.get? key with
    | none => rfl
    | some other =>
      unfold entryReport
      dsimp only
      split
      · rfl
      · split <;> rfl

def Told (before after : Json) : Prop :=
  Exact (some before) (some after) (changes before after) ∧ ∀ l r, before = .obj l → after = .obj r →
    Exact (some before) (some after) (changedEntries l r ++ additions l r)

lemma changes_obj (l r : Fields) : changes (.obj l) (.obj r) = changedKeywords l r ++ additions l r := by
  rw [changes]
section Told
variable {v w : Json}
lemma exact_keywordReport (told : Told v w) (self : w.deepEqual w) (key : String) :
    Exact (some v) (some w) (keywordReport key v w) := by
  unfold keywordReport
  split
  · next equal => exact .nothing (.some equal)
  next ne =>
  split
  · exact changes_obj _ _ ▸ told.1
  · exact changes_obj _ _ ▸ told.1
  · exact told.2 _ _ rfl rfl
  · exact told.2 _ _ rfl rfl
  · exact .whole self (Bool.eq_false_iff.mpr ne)

lemma exact_entryReport (told : Told v w) (self : w.deepEqual w) (name : String) :
    Exact (some v) (some w) (entryReport name v w) := by
  unfold entryReport
  split
  · next equal => exact .nothing (.some equal)
  next ne =>
  split
  · exact .whole self (Bool.eq_false_iff.mpr ne)
  · exact told.1
end Told
lemma told {before after : Json} (left : before.Orderly) (right : after.Orderly) (numeric : after.Numeric) :
    Told before after := by
  induction before using byDepth generalizing after with
  | step before ih =>
    by_cases objects : ∃ l r, before = .obj l ∧ after = .obj r
    · obtain ⟨l,r,rfl,rfl⟩ := objects
      obtain ⟨sortedL,orderlyL⟩ := orderly_obj.mp left
      obtain ⟨sortedR,orderlyR⟩ := orderly_obj.mp right
      have self : ∀ field ∈ r, field.2.deepEqual field.2 := fun field mem =>
        deepEqual_self (orderlyR field mem) (hereditary_numeric.member numeric mem)
      have below key v w (old : get? l key = some v) (new : get? r key = some w) : Told v w ∧ w.deepEqual w := by
        have inL := mem_of_get? old
        have inR := mem_of_get? new
        refine ⟨ih v (depth_field inL) (orderlyL _ inL) (orderlyR _ inR) ?_,self _ inR⟩
        exact hereditary_numeric.member numeric inR
      constructor
      · rw [changes_obj,changedKeywords_eq]
        refine exact_fields sortedL sortedR self keywordReport fun key v w old new => ?_
        exact exact_keywordReport (below key v w old new).1 (below key v w old new).2 key
      rintro _ _ ⟨⟩ ⟨⟩
      rw [changedEntries_eq]
      refine exact_fields sortedL sortedR self entryReport fun key v w old new => ?_
      exact exact_entryReport (below key v w old new).1 (below key v w old new).2 key
    · have scalar : changes before after = if before.deepEqual after then [] else [⟨[],.changed,before,after⟩] := by
        unfold changes
        split
        · exact absurd ⟨_,_,rfl,rfl⟩ objects
        · rfl
      refine ⟨?_,fun l r isL isR => absurd ⟨l,r,isL,isR⟩ objects⟩
      rw [scalar]
      split
      · next equal => exact .nothing (.some equal)
      · next ne => exact .whole (deepEqual_self right numeric) (Bool.eq_false_iff.mpr ne)

lemma eq_of_no_differences (left : a.isExact) (right : b.isExact) (none : differences a b base = []) : a = b := by
  have ord : ∀ {v : Json}, v.isExact → v.Orderly := fun exact => orderly_mono (fun _ _ => rfl) (orderly_of_exact exact)
  have empty := (told (ord left) (ord right) (numeric_of_exact right)).1.1
  exact (deepEqual_iff left right).mp (agree_some.mp (empty.mp (map_eq_nil_iff.mp none)))

theorem differences_exact (before after : Json) (base : String) (left : before.Orderly) (right : after.Orderly)
    (numeric : after.Numeric) :
    let report := changes before after
    differences before after base = report.map (Change.toDifference base) ∧
      (differences before after base = [] ↔ before.deepEqual after = true) ∧
      (∀ c ∈ report, c.Reads (some before) (some after)) ∧ report.Pairwise Change.Apart ∧
      ∀ order : List Change, order.Perm report →
        ∃ patched, order.foldl Change.apply (some before) = some patched ∧ patched.deepEqual after = true := by
  obtain ⟨empty,reads,apart,restores⟩ := (told left right numeric).1
  refine ⟨rfl,?_,reads,apart,fun order perm => ?_⟩
  · exact List.map_eq_nil_iff.trans (empty.trans Json.agree_some)
  · have agree := restores order perm
    cases made : order.foldl Change.apply (some before) with
    | none => rw [made] at agree; cases agree
    | some patched => exact ⟨patched,rfl,Json.agree_some.mp (made ▸ agree)⟩

-- A bound written as a double stays, two fields come, one goes and two change, one of them as a whole.
def parcel : Json :=
  .obj [("dependencies",.obj [("lid",.strings ["box"])]),
    ("properties",.obj [("size",.obj [("maximum",.digit 5),("type",.str "integer")]),("tag",.bool true)])]

def largerParcel : Json :=
  .obj [("dependencies",.obj [("lid",.obj [("required",.strings ["box"])])]),
    ("properties",.obj [("size",.obj [("maximum",.num (.double 5.0)),("minimum",.digit 1),("type",.str "number")])]),
    ("required",.strings ["size"])]

lemma largerParcel_numeric : largerParcel.Numeric := by
  refine .obj _ (forall_mem_cons.mpr ⟨numeric_of_exact (by decide),forall_mem_cons.mpr ⟨?_,fun field mem => ?_⟩⟩)
  · refine .obj _ fun field mem => ?_
    rw [mem_singleton.mp mem]
    refine .obj _ (forall_mem_cons.mpr ⟨.num _ nofun,fun field mem => numeric_of_exact ?_⟩)
    revert field
    decide
  · rw [mem_singleton.mp mem]
    exact numeric_of_exact (by decide)

theorem differences_exact_parcel : parcel.Orderly ∧ largerParcel.Orderly ∧ largerParcel.Numeric ∧
    (changes parcel largerParcel).map (·.position) = [["dependencies","lid"],["properties","size","type"],
      ["properties","size","minimum"],["properties","tag"],["required"]] ∧
    ∀ order : List Change, order.Perm (changes parcel largerParcel) →
      ∃ patched, order.foldl Change.apply (some parcel) = some patched ∧ patched.deepEqual largerParcel = true :=
  ⟨by decide,by decide,largerParcel_numeric,by decide +kernel,
    (differences_exact parcel largerParcel "" (by decide) (by decide) largerParcel_numeric).2.2.2.2⟩
end SchemaOrder
