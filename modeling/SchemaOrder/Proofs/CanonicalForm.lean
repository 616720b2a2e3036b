import SchemaOrder.Proofs.NormalForm
import SchemaOrder.Proofs.Written
namespace SchemaOrder
open Acceptance Schemas List Fields Json Intersection Keyword Option
namespace Canonical
section Sets
variable {α : Type} {key : α → String} {a x : α} {l : List α}
-- How the keywords of a schema are brought to canonical form.
lemma mem_insertBy : x ∈ insertBy key a l ↔ x = a ∨ x ∈ l := by
  induction l with
  | nil => simp [insertBy]
  | cons b rest ih =>
    unfold insertBy
    split
    · rw [mem_cons,ih,mem_cons]
      exact or_left_comm
    · rw [mem_cons]

lemma mem_sortBy : x ∈ sortBy key l ↔ x ∈ l := by
  induction l with
  | nil => rfl
  | cons b rest ih => rw [sortBy,mem_insertBy,ih,mem_cons]

-- Only entries equal to the one before them are dropped.
lemma mem_dropRepeats (ne : ∀ b ∈ a :: l, ∀ c ∈ a :: l, key b = key c → b = c) :
    x ∈ a :: dropRepeats key (key a) l ↔ x ∈ a :: l := by
  induction l generalizing a with
  | nil => rfl
  | cons b rest ih =>
    unfold dropRepeats
    split
    · next same =>
      have repeated : b = a := ne b (by simp) a (by simp) same
      rw [ih fun c inC d inD => ne c (by grind) d (by grind),repeated]
      simp
    · have tail := ih (a := b) fun c inC d inD => ne c (.tail _ inC) d (.tail _ inD)
      rw [mem_cons,tail,mem_cons (b := a)]

lemma mem_dedup (ne : ∀ b ∈ l, ∀ c ∈ l, key b = key c → b = c) : x ∈ dedup key l ↔ x ∈ l := by
  cases l with
  | nil => rfl
  | cons a rest => exact mem_dropRepeats ne

lemma mem_of_dedup (mem : a ∈ dedup key l) : a ∈ l := by
  have dropped : ∀ l last, a ∈ dropRepeats key last l → a ∈ l := by
    intro l
    induction l with
    | nil => exact fun _ mem => mem
    | cons b rest ih =>
      intro last mem
      unfold dropRepeats at mem
      split at mem
      · exact mem_cons_of_mem _ (ih last mem)
      · exact (mem_cons.mp mem).elim (· ▸ .head _) fun later => mem_cons_of_mem _ (ih _ later)
  cases l with
  | nil => exact mem
  | cons b rest =>
    exact (mem_cons.mp mem).elim (· ▸ .head _) fun later => mem_cons_of_mem _ (dropped rest _ later)

lemma sorted_insertBy (sorted : l.Pairwise fun b c => key b ≤ key c) :
    (insertBy key a l).Pairwise fun b c => key b ≤ key c := by
  induction l with
  | nil => exact pairwise_singleton _ _
  | cons b rest ih =>
    obtain ⟨least,tail⟩ := pairwise_cons.mp sorted
    unfold insertBy
    split
    · next below =>
      refine pairwise_cons.mpr ⟨fun c mem => ?_,ih tail⟩
      rcases mem_insertBy.mp mem with rfl | later
      · exact not_lt.mp fun above => lt_irrefl _ (lt_trans below above)
      · exact least c later
    next notBelow =>
    have first := not_lt.mp notBelow
    refine pairwise_cons.mpr ⟨fun c mem => ?_,sorted⟩
    rcases mem_cons.mp mem with rfl | later
    · exact first
    · exact le_trans first (least c later)

lemma sorted_sortBy (l : List α) : (sortBy key l).Pairwise fun b c => key b ≤ key c := by
  induction l with
  | nil => exact Pairwise.nil
  | cons a rest ih => exact sorted_insertBy ih

lemma sorted_dropRepeats (sorted : (a :: l).Pairwise fun b c => key b ≤ key c) :
    (a :: dropRepeats key (key a) l).Pairwise fun b c => key b < key c := by
  induction l generalizing a with
  | nil => exact pairwise_singleton _ _
  | cons b rest ih =>
    obtain ⟨least,tail⟩ := pairwise_cons.mp sorted
    unfold dropRepeats
    split
    · exact ih (pairwise_cons.mpr ⟨fun c mem => least c (.tail _ mem),(pairwise_cons.mp tail).2⟩)
    next apart =>
    have below : key a < key b := key_above (not_lt.mpr (least b mem_cons_self)) (symm apart)
    have strict := ih tail
    refine pairwise_cons.mpr ⟨fun c mem => ?_,strict⟩
    rcases mem_cons.mp mem with rfl | later
    · exact below
    · exact lt_trans below ((pairwise_cons.mp strict).1 c later)

lemma sorted_dedup (sorted : l.Pairwise fun b c => key b ≤ key c) : (dedup key l).Pairwise fun b c => key b < key c := by
  cases l with
  | nil => exact Pairwise.nil
  | cons a rest => exact sorted_dropRepeats sorted

lemma sorted_unique {l r : List α} (left : l.Pairwise fun b c => key b < key c)
    (right : r.Pairwise fun b c => key b < key c) (same : ∀ a, a ∈ l ↔ a ∈ r) : l = r := by
  have ne {l : List α} (sorted : l.Pairwise (fun b c => key b < key c)) : l.Nodup := by
    refine Pairwise.imp (fun below same => ?_) sorted
    exact lt_irrefl _ (same ▸ below)
  refine ((perm_ext_iff_of_nodup (ne left) (ne right)).mpr same).eq_of_pairwise
    (fun a b _ _ below above => ?_) left right
  exact absurd (lt_trans below above) (lt_irrefl _)
end Sets
lemma mem_sortNames {ns : List String} {name : String} : name ∈ sortNames ns ↔ name ∈ ns := by
  exact (mem_dedup fun _ _ _ _ same => same).trans mem_sortBy

lemma sortNames_congr {l r : List String} (same : ∀ name, name ∈ l ↔ name ∈ r) : sortNames l = sortNames r :=
  sorted_unique (sorted_dedup (sorted_sortBy l)) (sorted_dedup (sorted_sortBy r)) fun name =>
    mem_sortNames.trans ((same name).trans mem_sortNames.symm)

lemma mem_sortSet {ms : List Json} {v : Json} : v ∈ sortSet ms ↔ v ∈ ms := by
  have written pair : pair ∈ sortBy Prod.fst (ms.map fun v => (v.text,v)) ↔ ∃ v ∈ ms, (v.text,v) = pair := by
    rw [mem_sortBy,List.mem_map]
  have ne b (inB : b ∈ sortBy Prod.fst (ms.map fun v => (v.text,v))) c
      (inC : c ∈ sortBy Prod.fst (ms.map fun v => (v.text,v))) (same : b.1 = c.1) : b = c := by
    obtain ⟨w,_,rfl⟩ := (written b).mp inB
    obtain ⟨u,_,rfl⟩ := (written c).mp inC
    rw [text_injective same]
  unfold sortSet
  simp only [List.mem_map,mem_dedup ne,written]
  constructor
  · rintro ⟨_,⟨w,inside,rfl⟩,rfl⟩
    exact inside
  intro inside
  exact ⟨_,⟨v,inside,rfl⟩,rfl⟩

lemma sorted_sortSet (ms : List Json) : (sortSet ms).Pairwise fun v w => v.text < w.text := by
  refine pairwise_map.mpr ((sorted_dedup (sorted_sortBy _)).imp_of_mem fun {p q} inP inQ below => ?_)
  have own {p} (mem : p ∈ dedup Prod.fst (sortBy Prod.fst (ms.map fun v => (v.text,v)))) : p.2.text = p.1 := by
    obtain ⟨v,_,rfl⟩ := mem_map.mp (mem_sortBy.mp (mem_of_dedup mem))
    rfl
  rw [own inP,own inQ]
  exact below

lemma sortSet_congr {l r : List Json} (same : ∀ v, v ∈ l ↔ v ∈ r) : sortSet l = sortSet r :=
  sorted_unique (sorted_sortSet l) (sorted_sortSet r) fun v => by rw [mem_sortSet,mem_sortSet,same]

lemma valueItems_eq (xs : List Json) : valueItems xs = xs.map value := by
  induction xs with
  | nil => rfl
  | cons v rest ih => rw [valueItems,ih,map_cons]

lemma valueFields_eq (fs : Fields) : valueFields fs = fs.map fun field => (field.1,value field.2) := by
  induction fs with
  | nil => rfl
  | cons field rest ih => rw [valueFields,ih,map_cons]

lemma map_same {α : Type} {f : α → α} {l : List α} (same : ∀ a ∈ l, f a = a) : l.map f = l :=
  (map_congr_left same).trans (map_id' l)

lemma value_orderly {v : Json} (ord : v.isOrderly Num.isInteger) : value v = v := by
  induction v using byDepth with
  | step v ih =>
    cases v with
    | num n => exact congrArg num (Num.canonical_integer ord)
    | arr xs =>
      have each := orderly_arr.mp ord
      rw [value,valueItems_eq,map_same fun v mem => ih v (depth_item mem) (each v mem)]
    | obj fs =>
      rw [value,valueFields_eq,map_same fun field mem => ?_]
      obtain ⟨key,v⟩ := field
      rw [ih v (depth_field mem) ((orderly_obj.mp ord).2 _ mem)]
    | _ => rfl

lemma valueItems_orderly {xs : List Json} (ord : ∀ v ∈ xs, v.isOrderly Num.isInteger) : valueItems xs = xs := by
  rw [valueItems_eq,map_same fun v mem => value_orderly (ord v mem)]

-- Fields whose values are replaced or dropped one by one.
lemma get?_treated {fs : Fields} (treat : String → Json → Option Json) (sorted : fs.Sorted) (key : String) :
    get? (fs.filterMap fun field => (treat field.1 field.2).map fun t => (field.1,t)) key =
      (fs.get? key).bind (treat key) := by
  induction fs with
  | nil => rfl
  | cons field rest ih =>
    obtain ⟨below,restSorted⟩ := pairwise_cons.mp sorted
    have tail := ih restSorted
    rw [filterMap_cons,get?_cons]
    split
    · next dropped =>
      rw [map_eq_none_iff] at dropped
      split
      · next same =>
        subst same
        rw [tail,bind_some,dropped]
        rw [get?_tail sorted]
        rfl
      · exact tail
    · next kept at_ =>
      obtain ⟨t,treated,rfl⟩ := map_eq_some_iff.mp at_
      rw [get?_cons]
      split
      · next same => subst same; rw [bind_some,treated]
      · exact tail

lemma sorted_treated {fs : Fields} (treat : String → Json → Option Json) (sorted : fs.Sorted) :
    Sorted (fs.filterMap fun field => (treat field.1 field.2).map fun t => (field.1,t)) := by
  refine Pairwise.filterMap _ ?_ sorted
  intro a b below p first q second
  obtain ⟨_,_,rfl⟩ := map_eq_some_iff.mp first
  obtain ⟨_,_,rfl⟩ := map_eq_some_iff.mp second
  exact below

def sortEntry (entry : String × Json) : String × Json :=
  match entry.2 with
  | .arr list => (entry.1,.arr (sortSet list))
  | _ => entry

def tidyKeyword (key : String) (s : Json) : Option Json :=
  match treatment key s with
  | .drop => none
  | .typeSet => some (.strings (sortNames (typeNames s)))
  | .nameSet =>
    match sortNames s.listedStrings with
    | [] => none
    | names => some (.strings names)
  | .valueSet => some (.arr (sortSet s.itemsOrNone))
  | .optionalForm => unlessTrivial s
  | .items =>
    match s with
    | .arr tuple => some (.arr tuple)
    | single => unlessTrivial single
  | .form => some s
  | .formSet =>
    match s with
    | .arr members => some (.arr (sortSet members))
    | _ => some (.arr [])
  | .entries =>
    match s with
    | .obj members => unlessEmpty (members.map sortEntry)
    | _ => none
  | .value => some s

def tidy (fs : Fields) : Fields :=
  fs.filterMap fun field => (tidyKeyword field.1 field.2).map fun s => (field.1,s)

lemma forms_eq (schemas : List Json) : forms schemas = schemas.map form := by
  induction schemas with
  | nil => rfl
  | cons s rest ih => rw [forms,ih,map_cons]

lemma form_obj (fs : Fields) : form (.obj fs) = .obj (closeObject (Bound.fold (keywords fs))) := by
  rw [form]

lemma form_isArr {good : Json → Bool} {s : Json} (family : Family good) (schema : good s) : (form s).isArr = false := by
  rcases family.cases s schema with ⟨b,rfl⟩ | ⟨fs,rfl,_⟩
  · cases b <;> rfl
  · rfl

lemma sortEntry_single {entry : String × Json} (single : entry.2.isArr = false) : sortEntry entry = entry := by
  obtain ⟨name,s⟩ := entry
  cases s with
  | arr => cases single
  | _ => rfl

lemma isInert_map (f : Json → Json) (key : String) (s : Json) : isInert key (mapKeyword f key s) = isInert key s := by
  unfold isInert
  split
  · cases s <;> rfl
  · cases s <;> rfl
  · cases s <;> rfl
  · cases s <;> rfl
  · rfl

lemma treatment_map (f : Json → Json) (key : String) (s : Json) : treatment key (mapKeyword f key s) = treatment key s := by
  unfold treatment
  rw [isInert_map]

inductive Treats (key : String) (s : Json) : Treatment → Prop where
  | drop (inert : isInert key s) : Treats key s .drop
  | typeSet (name : key = "type") : Treats key s .typeSet
  | nameSet (name : key = "required") : Treats key s .nameSet
  | valueSet (name : key = "enum") : Treats key s .valueSet
  | optionalForm (name : key ∈ ["additionalProperties","additionalItems","propertyNames"]) : Treats key s .optionalForm
  | items (name : key = "items") : Treats key s .items
  | form (shape : shape key = .subSchema) : Treats key s .form
  | formSet (shape : shape key = .schemaList) : Treats key s .formSet
  | entries (shape : shape key = .schemaMap) : Treats key s .entries
  | dependencies (shape : shape key = .dependencies) : Treats key s .entries
  | value (shape : shape key ∈ [.lowerBound,.upperBound,.scalar])
    (others : key ∉ ["type","required","enum"]) : Treats key s .value

lemma treats (key : String) (s : Json) : Treats key s (treatment key s) := by
  unfold treatment
  split
  · next inert => exact .drop inert
  next active =>
  split
  · exact .typeSet rfl
  · exact .nameSet rfl
  · exact .valueSet rfl
  · exact .optionalForm (by decide)
  · exact .optionalForm (by decide)
  · exact .optionalForm (by decide)
  cases shape : shape key with
  | items => exact .items (shape_items shape)
  | subSchema => exact .form shape
  | schemaList => exact .formSet shape
  | schemaMap => exact .entries shape
  | dependencies => exact .dependencies shape
  | note =>
    refine absurd ?_ active
    unfold isInert
    split
    case h_5 => exact beq_iff_eq.mpr shape
    all_goals cases shape
  | lowerBound | upperBound | scalar => exact .value (by simp [shape]) (by simp_all)
variable {good : Json → Bool} {fs : Fields} {key : String} {s : Json}
-- The entries of a schema map or of dependencies.
lemma entries_eq (family : Family good) (each : ∀ entry ∈ fields, isNames entry.2 ∨ good entry.2) :
    entries fields = (mapEntries (fun d => if d.isArr then d else form d) fields).map sortEntry := by
  induction fields with
  | nil => rfl
  | cons entry rest ih =>
    obtain ⟨name,s⟩ := entry
    have tail := ih fun entry later => each entry (.tail _ later)
    change _ = sortEntry (name,if s.isArr then s else form s) ::
      (mapEntries (fun d => if d.isArr then d else form d) rest).map sortEntry
    rw [← tail]
    rcases each (name,s) mem_cons_self with names | schema
    · obtain ⟨list,rfl⟩ := isNames_iff.mp names
      rw [strings,entries,valueItems_orderly (orderly_arr.mp (orderly_strings list))]
      rfl
    have sorted : sortEntry (name,form s) = (name,form s) := sortEntry_single (form_isArr family schema)
    rcases family.cases s schema with ⟨b,rfl⟩ | ⟨own,rfl,_⟩
    all_goals exact (congrArg (· :: entries rest) sorted).symm

lemma mapEntries_single (family : Family good) (schemas : ∀ entry ∈ fs, good entry.2) (f : Json → Json) :
    mapEntries (fun d => if d.isArr then d else f d) fs = mapEntries f fs := by
  refine map_congr_left fun entry mem => ?_
  have single : entry.2.isArr = false := family.single (schemas entry mem)
  dsimp only
  rw [if_neg (by rw [single]; decide)]

def formKeyword (key : String) (s : Json) : Option Json :=
  match treatment key s with
  | .drop => none
  | .typeSet => some (.strings (sortNames (typeNames s)))
  | .nameSet =>
    match sortNames s.listedStrings with
    | [] => none
    | names => some (.strings names)
  | .valueSet => some (.arr (sortSet (valueItems s.itemsOrNone)))
  | .optionalForm => unlessTrivial (form s)
  | .items =>
    match s with
    | .arr tuple => some (.arr (forms tuple))
    | single => unlessTrivial (form single)
  | .form => some (form s)
  | .formSet =>
    match s with
    | .arr members => some (.arr (sortSet (forms members)))
    | _ => some (.arr [])
  | .entries =>
    match s with
    | .obj members => unlessEmpty (entries members)
    | _ => none
  | .value => some (value s)

lemma keywords_cons (key : String) (s : Json) (rest : Fields) : keywords ((key,s) :: rest) = match formKeyword key s with
      | some t => (key,t) :: keywords rest
      | none => keywords rest := by
  cases s <;> rfl

lemma keywords_treated (fs : Fields) :
    keywords fs = fs.filterMap fun field => (formKeyword field.1 field.2).map fun t => (field.1,t) := by
  induction fs with
  | nil => rfl
  | cons field rest ih =>
    obtain ⟨key,s⟩ := field
    rw [keywords_cons,filterMap_cons,ih]
    cases formKeyword key s <;> rfl

def formEntry : Json → Json
  | .arr list => .arr (sortSet (valueItems list))
  | s => form s

-- The sub-schemas first, then the keyword itself.
lemma formKeyword_eq (family : Family good) (orderly : s.isOrderly Num.isInteger)
    (places : placesFormed good key s) : formKeyword key s = tidyKeyword key (mapKeyword form key s) := by
  unfold formKeyword tidyKeyword
  rw [treatment_map]
  have treats := treats key s
  generalize treatment key s = treatment at treats
  cases treats with
  | drop => rfl
  | typeSet name | nameSet name => subst name; cases s <;> rfl
  | valueSet name =>
    subst name
    cases s with
    | arr members => exact congrArg (fun l => some (arr (sortSet l))) (valueItems_orderly (orderly_arr.mp orderly))
    | _ => rfl
  | optionalForm name =>
    fin_cases name <;> rfl
  | items name =>
    subst name
    rcases (formed_items rfl).mp (formed_of_places places (by decide)) with single | ⟨tuple,rfl,_⟩
    · have notArr := form_isArr family single
      have mapped : mapKeyword form "items" s = form s := by
        rcases family.cases s single with ⟨b,rfl⟩ | ⟨own,rfl,_⟩ <;> rfl
      have read : ∀ t, t.isArr = false → (match t with
          | .arr tuple => some (.arr tuple)
          | single => unlessTrivial single) = unlessTrivial t := by
        intro t notArr
        cases t with
        | arr => cases notArr
        | _ => rfl
      rw [mapped]
      rw [read _ notArr]
      rcases family.cases s single with ⟨b,rfl⟩ | ⟨own,rfl,_⟩ <;> rfl
    · exact congrArg (fun l => some (arr l)) (forms_eq tuple)
  | form shape => simp only [mapKeyword,shape]
  | formSet shape =>
    obtain ⟨members,rfl,_⟩ := (formed_list shape).mp (formed_of_places places (by rw [shape]; decide))
    simp only [mapKeyword,shape,forms_eq]
  | entries shape =>
    obtain ⟨members,rfl,_,schemas⟩ := (formed_map shape).mp (formed_of_places places (by rw [shape]; decide))
    simp only [mapKeyword,shape]
    rw [entries_eq family fun entry member => .inr (schemas entry member),mapEntries_single family schemas]
  | dependencies shape =>
    obtain ⟨members,rfl,_,each⟩ := (formed_dependencies shape).mp (formed_of_places places (by rw [shape]; decide))
    simp only [mapKeyword,shape]
    rw [entries_eq family each]
  | value shape =>
    simp only [mem_cons,not_mem_nil,or_false] at shape
    rcases shape with shape | shape | shape <;> simp only [mapKeyword,shape,value_orderly orderly]

lemma keywords_eq (family : Family good) (placed : Placed good fs) : keywords fs = tidy (mapFields form fs) := by
  have each field (mem : field ∈ fs) : field.2.isOrderly Num.isInteger ∧ placesFormed good field.1 field.2 :=
    ⟨(orderly_obj.mp placed.orderly).2 field mem,placed.places _ _ (get?_of_mem placed.sorted mem)⟩
  clear placed
  induction fs with
  | nil => rfl
  | cons field rest ih =>
    obtain ⟨key,s⟩ := field
    obtain ⟨ord,places⟩ := each (key,s) mem_cons_self
    rw [keywords_cons,formKeyword_eq family ord places,ih fun field later => each field (.tail _ later)]
    unfold tidy mapFields
    rw [map_cons,filterMap_cons]
    cases tidyKeyword key (mapKeyword form key s) <;> rfl
end Canonical
structure Vocabulary.Canonical (vocab : Vocabulary) : Prop where
  not : vocab.has "not"
  describes : vocab.describesExtra
  ungrouped : vocab.has "patternProperties" = false
namespace Canonical
section Tidying
variable {ts : Texts} {good : Json → Bool} {vocab : Vocabulary} {fs : Fields} {key : String} {s t v : Json}
-- Keywords without effect hold.
lemma inert_holds (inert : isInert key s) : keywordHolds texts (accepts texts) key s v := by
  have lower {quantity} (limit : limit? key = some ⟨quantity,.lower,false⟩) (counts : quantity ≠ .value)
      (zero : isInert "minLength" s) : keywordHolds texts (accepts texts) key s v := by
    cases s with
    | num n =>
      rw [keywordHolds_limit limit,Limit.holds_num]
      intro x measured
      refine decide_eq_true ?_
      cases quantity with
      | value => exact absurd rfl counts
      | length | items | members =>
        cases v <;> cases measured
        exact Doubles.admits_count (of_decide_eq_true zero) _
    | _ => cases zero
  unfold isInert at inert
  split at inert
  · cases s with
    | bool b => cases b with
      | true => cases inert
      | false =>
        cases v <;> rfl
    | _ => cases inert
  · exact lower rfl (by decide) inert
  · exact lower rfl (by decide) inert
  · exact lower rfl (by decide) inert
  · exact keywordHolds_note (beq_iff_eq.mp inert)

structure Tidied (ts : Texts) (key : String) (s : Json) (tidied : Option Json) : Prop where
  kept : ∀ t, tidied = some t → key ≠ "oneOf" →
    ∀ v, keywordHolds ts (accepts ts) key t v = keywordHolds ts (accepts ts) key s v
  dropped : tidied = none → ∀ v, keywordHolds ts (accepts ts) key s v

lemma Tidied.same : Tidied ts key s (some s) where
  kept t same := by
    cases same
    exact fun _ _ => rfl
  dropped absent := nomatch absent

lemma isEmptyObj_iff : s.isEmptyObj ↔ s = .emptyObj := by
  cases s with
  | obj fs => cases fs <;> simp [isEmptyObj,emptyObj]
  | _ => simp [isEmptyObj,emptyObj]

lemma eq_of_unlessTrivial (kept : unlessTrivial s = some t) : t = s := by
  unfold unlessTrivial at kept
  split at kept <;> cases kept
  rfl

-- A schema that accepts everything is left out only where its keyword then holds.
lemma Tidied.unlessTrivial (trivial : ∀ v, keywordHolds ts (accepts ts) key .emptyObj v) :
    Tidied ts key s (unlessTrivial s) := by
  unfold Canonical.unlessTrivial
  split
  · next empty =>
    rw [isEmptyObj_iff.mp empty]
    exact ⟨nofun,fun _ => trivial⟩
  · exact .same

lemma any_same {α : Type} {p : α → Bool} {l m : List α} (same : ∀ a, a ∈ l ↔ a ∈ m) : l.any p = m.any p := by
  rw [Bool.eq_iff_iff,List.any_eq_true,List.any_eq_true]
  simp only [same]

lemma all_same {α : Type} {p : α → Bool} {l m : List α} (same : ∀ a, a ∈ l ↔ a ∈ m) : l.all p = m.all p := by
  rw [Bool.eq_iff_iff,List.all_eq_true,List.all_eq_true]
  simp only [same]

lemma tidied_type (s : Json) : Tidied ts "type" s (some (.strings (sortNames (typeNames s)))) where
  kept t same := by
    cases same
    intro _ v
    change (typeNames (.strings _)).any v.hasType = (typeNames s).any v.hasType
    have listed : ∀ ns, typeNames (.strings ns) = ns := listedStrings_strings
    rw [listed]
    exact any_same fun _ => mem_sortNames
  dropped absent := nomatch absent

lemma tidied_required (s : Json) : Tidied texts "required" s (match sortNames s.listedStrings with
    | [] => none
    | names => some (.strings names)) := by
  have members : ∀ name, name ∈ sortNames s.listedStrings ↔ name ∈ s.listedStrings := fun _ => mem_sortNames
  generalize sortNames s.listedStrings = sorted at members
  have holds : ∀ s v, keywordHolds texts (accepts texts) "required" s v =
      v.fields?.all fun fields => s.listedStrings.all fields.has := fun _ _ => rfl
  cases sorted with
  | nil =>
    refine ⟨nofun,fun _ v => ?_⟩
    have none : s.listedStrings = [] := eq_nil_iff_forall_not_mem.mpr fun name member => nomatch (members name).mpr member
    rw [holds,none]
    cases v <;> rfl
  | cons first rest =>
    refine ⟨fun t same => ?_,nofun⟩
    cases same
    intro _ v
    rw [holds,holds,listedStrings_strings]
    exact option_agree fun fields _ => all_same members

lemma tidied_enum : Tidied ts "enum" s (some (.arr (sortSet s.itemsOrNone))) := by
  refine ⟨fun t same => ?_,nofun⟩
  cases same
  intro _ v
  exact any_same fun _ => mem_sortSet

lemma tidied_list {ms : List Json} (shape : shape key = .schemaList) :
    Tidied ts key (.arr ms) (some (.arr (sortSet ms))) := by
  refine ⟨fun t same inclusive v => ?_,nofun⟩
  cases same
  have keys := shape_schemaList shape
  fin_cases keys
  · exact all_same fun _ => mem_sortSet
  · exact any_same fun _ => mem_sortSet
  · exact absurd rfl inclusive

lemma map_sortEntry_schemas {es : Fields} (family : Family good) (schemas : ∀ entry ∈ es, good entry.2) :
    es.map sortEntry = es :=
  map_same fun entry mem => sortEntry_single (family.single (schemas entry mem))

lemma tidied_map {es : Fields} (shape : shape key = .schemaMap) (family : Family good)
    (schemas : ∀ entry ∈ es, good entry.2) : Tidied ts key (.obj es) (unlessEmpty (es.map sortEntry)) := by
  rw [map_sortEntry_schemas family schemas]
  unfold unlessEmpty
  split
  · refine ⟨nofun,fun _ v => ?_⟩
    have keys := shape_schemaMap shape
    fin_cases keys <;> rfl
  · exact .same

lemma dependencyHolds_sort {d : Json} (family : Family good) (listed : isNames d ∨ good d) (ms : Fields) :
    dependencyHolds (accepts ts) ms (sortEntry (key,d)).2 = dependencyHolds (accepts ts) ms d := by
  rcases listed with ns | schema
  · obtain ⟨list,rfl⟩ := isNames_iff.mp ns
    refine all_same fun name => ?_
    simp only [mem_filterMap,mem_sortSet]
  · rw [sortEntry_single (family.single schema)]

lemma sortEntry_fst (entry : String × Json) : (sortEntry entry).1 = entry.1 := by
  unfold sortEntry
  split <;> rfl

lemma sorted_sortEntry {es : Fields} (sorted : es.Sorted) : Sorted (es.map sortEntry) :=
  Pairwise.map _ (fun a b below => by rwa [sortEntry_fst,sortEntry_fst]) sorted

lemma tidied_dependencies {es : Fields} (family : Family good) (each : ∀ entry ∈ es, isNames entry.2 ∨ good entry.2) :
    Tidied ts "dependencies" (.obj es) (unlessEmpty (es.map sortEntry)) := by
  have holds v : keywordHolds ts (accepts ts) "dependencies" (.obj (es.map sortEntry)) v =
      keywordHolds ts (accepts ts) "dependencies" (.obj es) v := by
    refine option_agree fun ms _ => ?_
    change (es.map sortEntry).all _ = es.all _
    rw [List.all_map]
    refine all_agree fun entry mem => ?_
    change (!ms.has (sortEntry entry).1 || dependencyHolds (accepts ts) ms (sortEntry entry).2) = _
    rw [sortEntry_fst,dependencyHolds_sort family (each entry mem)]
  unfold unlessEmpty
  split
  · next none =>
    refine ⟨nofun,fun _ v => ?_⟩
    rw [← holds,isEmpty_iff.mp none]
    cases v <;> rfl
  · refine ⟨fun t same => ?_,nofun⟩
    cases same
    exact fun _ => holds

lemma tidied_keyword (family : Family good) (places : placesFormed good key s) : Tidied ts key s (tidyKeyword key s) := by
  unfold tidyKeyword
  have treats := treats key s
  generalize treatment key s = treatment at treats
  cases treats with
  | drop inert => exact ⟨nofun,fun _ v => inert_holds inert⟩
  | typeSet name => subst name; exact tidied_type s
  | nameSet name => subst name; exact tidied_required s
  | valueSet name => subst name; exact tidied_enum
  | optionalForm name =>
    refine .unlessTrivial fun v => ?_
    fin_cases name
    · rfl
    · rfl
    cases v with
    | obj ms => exact all_eq_true.mpr fun mem _ => accepts_emptyObj _
    | _ => rfl
  | items name =>
    subst name
    dsimp only
    split
    · exact .same
    · exact .unlessTrivial fun _ => rfl
  | form shape => exact .same
  | formSet shape =>
    obtain ⟨ms,rfl,schemas⟩ := (formed_list shape).mp (formed_of_places places (by rw [shape]; decide))
    exact tidied_list shape
  | entries shape =>
    obtain ⟨es,rfl,_,schemas⟩ := (formed_map shape).mp (formed_of_places places (by rw [shape]; decide))
    exact tidied_map shape family schemas
  | dependencies shape =>
    obtain rfl := shape_dependencies shape
    obtain ⟨es,rfl,_,each⟩ := (formed_dependencies rfl).mp (formed_of_places places (by decide))
    exact tidied_dependencies family each
  | value => exact .same

lemma eq_of_unlessEmpty {es : Fields} (kept : unlessEmpty es = some t) : t = .obj es := by
  unfold unlessEmpty at kept
  split at kept <;> cases kept
  rfl

lemma formed_tidyKeyword (family : Family good) (formed : keywordFormed good key s)
    (kept : tidyKeyword key s = some t) : keywordFormed good key t := by
  unfold tidyKeyword at kept
  have treats := treats key s
  generalize treatment key s = treatment at treats kept
  cases treats with
  | drop => cases kept
  | typeSet name =>
    subst name
    cases kept
    exact formed_typeNames _
  | nameSet name =>
    subst name
    dsimp only at kept
    split at kept <;> cases kept
    exact isNames_iff.mpr ⟨_,rfl⟩
  | valueSet name =>
    subst name
    cases kept
    cases s with
    | arr ms =>
      have exact := formed_enum.mp formed
      exact formed_enum.mpr fun v mem => exact v (mem_sortSet.mp mem)
    | _ => cases formed
  | optionalForm name =>
    rw [eq_of_unlessTrivial kept]
    exact formed
  | items name =>
    dsimp only at kept
    split at kept
    · cases kept
      exact formed
    rw [eq_of_unlessTrivial kept]
    exact formed
  | form shape =>
    cases kept
    exact formed
  | formSet shape =>
    obtain ⟨ms,rfl,schemas⟩ := (formed_list shape).mp formed
    cases kept
    exact (formed_list shape).mpr ⟨_,rfl,fun t mem => schemas t (mem_sortSet.mp mem)⟩
  | entries shape =>
    obtain ⟨es,rfl,_,schemas⟩ := (formed_map shape).mp formed
    dsimp only at kept
    rw [map_sortEntry_schemas family schemas] at kept
    rw [eq_of_unlessEmpty kept]
    exact formed
  | dependencies shape =>
    obtain ⟨es,rfl,sorted,each⟩ := (formed_dependencies shape).mp formed
    rw [eq_of_unlessEmpty kept]
    refine (formed_dependencies shape).mpr ⟨_,rfl,sorted_sortEntry sorted,fun entry mem => ?_⟩
    obtain ⟨old,inside,rfl⟩ := mem_map.mp mem
    rcases each old inside with ns | schema
    · refine .inl ?_
      obtain ⟨name,d⟩ := old
      obtain ⟨list,rfl⟩ := isNames_iff.mp ns
      refine all_eq_true.mpr fun v inside => ?_
      exact all_eq_true.mp ns v (mem_sortSet.mp inside)
    · rw [sortEntry_single (family.single schema)]
      exact .inr schema
  | value =>
    cases kept
    exact formed

lemma allows_tidyKeyword (allowed : vocab.allows key s) (kept : tidyKeyword key s = some t) : vocab.allows key t := by
  by_cases special : key ∈ ["additionalProperties","format"]
  · have same : t = s := by
      fin_cases special
      · exact eq_of_unlessTrivial kept
      cases kept
      rfl
    rw [same]
    exact allowed
  · exact Vocabulary.allows_plain (Vocabulary.has_of_allows allowed) special _

lemma orderly_sortSet {ms : List Json} (ord : ∀ v ∈ ms, v.isOrderly Num.isInteger) :
    (arr (sortSet ms)).isOrderly Num.isInteger :=
  orderly_arr.mpr fun v mem => ord v (mem_sortSet.mp mem)

lemma orderly_tidyKeyword (ord : s.isOrderly Num.isInteger) (kept : tidyKeyword key s = some t) :
    t.isOrderly Num.isInteger := by
  unfold tidyKeyword at kept
  split at kept
  · cases kept
  · cases kept
    exact orderly_strings _
  · split at kept <;> cases kept
    exact orderly_strings _
  · cases kept
    exact orderly_sortSet (orderly_itemsOrNone ord)
  · rwa [eq_of_unlessTrivial kept]
  · split at kept
    · cases kept
      exact ord
    · rwa [eq_of_unlessTrivial kept]
  · cases kept
    exact ord
  · split at kept <;> cases kept
    · exact orderly_sortSet (orderly_arr.mp ord)
    · rfl
  · split at kept
    · obtain ⟨sorted,each⟩ := orderly_obj.mp ord
      rw [eq_of_unlessEmpty kept]
      refine orderly_obj.mpr ⟨sorted_sortEntry sorted,fun entry mem => ?_⟩
      obtain ⟨old,inside,rfl⟩ := mem_map.mp mem
      have own := each old inside
      unfold sortEntry
      split
      · next list is =>
        rw [is] at own
        exact orderly_sortSet (orderly_arr.mp own)
      · exact own
    · cases kept
  · cases kept
    exact ord

lemma get?_tidy (sorted : fs.Sorted) (key : String) : (tidy fs).get? key = (fs.get? key).bind (tidyKeyword key) :=
  get?_treated tidyKeyword sorted key

lemma sorted_tidy (sorted : fs.Sorted) : (tidy fs).Sorted := sorted_treated tidyKeyword sorted

lemma tidy_conditional (sorted : fs.Sorted) (key : String) (cond : key ∈ conditional) :
    (tidy fs).get? key = fs.get? key := by
  have same : ∀ s, tidyKeyword key s = some s := by
    fin_cases cond <;> exact fun _ => rfl
  rw [get?_tidy sorted]
  cases fs.get? key with
  | none => rfl
  | some s => exact same s

lemma tidy_source (sorted : fs.Sorted) (found : (tidy fs).get? key = some t) :
    ∃ s, fs.get? key = some s ∧ tidyKeyword key s = some t := by
  rw [get?_tidy sorted] at found
  exact bind_eq_some_iff.mp found

lemma formed_tidy (formed : Formed vocab fs) : Formed vocab (tidy fs) := by
  refine ⟨sorted_tidy formed.sorted,fun key t found => ?_,fun key t found => ?_,fun absent => ?_⟩
  · obtain ⟨s,at_,kept⟩ := tidy_source formed.sorted found
    exact allows_tidyKeyword (formed.allowed key s at_) kept
  · obtain ⟨s,at_,kept⟩ := tidy_source formed.sorted found
    exact formed_tidyKeyword (family_isSchema vocab) (formed.formed key s at_) kept
  · rw [tidy_conditional formed.sorted _ (by decide)] at absent
    rw [tidy_conditional formed.sorted _ (by decide),tidy_conditional formed.sorted _ (by decide)]
    exact formed.conditional absent

lemma placed_tidy (family : Family good) (placed : Placed good fs) : Placed good (tidy fs) := by
  have sorted := sorted_tidy placed.sorted
  refine ⟨orderly_obj.mpr ⟨sorted,fun field mem => ?_⟩,fun key t found => ?_⟩
  · obtain ⟨s,at_,kept⟩ := tidy_source placed.sorted (get?_of_mem sorted mem)
    exact orderly_tidyKeyword (orderly_get? placed.orderly at_) kept
  obtain ⟨s,at_,kept⟩ := tidy_source placed.sorted found
  by_cases leaf : shape key ∈ leaves
  · exact places_leaf leaf
  · exact places_of_formed (formed_tidyKeyword family (placed.formed leaf at_) kept)

lemma all_unlessTrivial (own : Option Json) (x : Json) :
    (own.bind unlessTrivial).all (·.accepts ts x) = own.all (·.accepts ts x) := by
  cases own with
  | none => rfl
  | some s =>
    rw [bind_some]
    unfold unlessTrivial
    split
    · next empty =>
      rw [isEmptyObj_iff.mp empty,all_some,accepts_emptyObj]
      rfl
    · rfl
section
variable (family : Family good) (placed : Placed good fs)
include family placed
-- Maps of schemas are kept, or dropped where they are empty.
lemma entries_tidy (shape : shape key = .schemaMap) :
    (((tidy fs).get? key).bind fields?).getD [] = ((fs.get? key).bind fields?).getD [] := by
  rw [get?_tidy placed.sorted]
  cases found : fs.get? key with
  | none => rfl
  | some map =>
    obtain ⟨es,rfl,_,schemas⟩ := (formed_map shape).mp (placed.formed (by rw [shape]; decide) found)
    have tidied : tidyKeyword key (.obj es) = unlessEmpty es := by
      have keys := shape_schemaMap shape
      fin_cases keys <;> exact congrArg unlessEmpty (map_sortEntry_schemas family schemas)
    rw [bind_some,tidied]
    cases es <;> rfl

lemma memberRules_tidy (name : String) (x : Json) :
    (memberRules ts (tidy fs) name).all (·.accepts ts x) = (memberRules ts fs name).all (·.accepts ts x) := by
  have named : declared (tidy fs) = declared fs := entries_tidy family placed rfl
  have matched : matching ts (tidy fs) name = matching ts fs name := by
    unfold matching
    rw [entries_tidy family placed rfl]
  unfold memberRules
  rw [named,matched]
  cases ((declared fs).get? name).toList ++ matching ts fs name with
  | cons rule rest => rfl
  | nil =>
    have all_toList : ∀ o : Option Json, o.toList.all (·.accepts ts x) = o.all (·.accepts ts x) := by
      rintro (_ | rule)
      · rfl
      · exact Bool.and_true _
    rw [all_toList,all_toList,get?_tidy placed.sorted]
    exact all_unlessTrivial _ x

lemma itemRule?_tidy (i : Nat) (x : Json) :
    (itemRule? (tidy fs) i).all (·.accepts ts x) = (itemRule? fs i).all (·.accepts ts x) := by
  unfold itemRule?
  rw [get?_tidy placed.sorted,get?_tidy placed.sorted]
  cases found : fs.get? "items" with
  | none => rfl
  | some s =>
    rcases (formed_items rfl).mp (placed.formed (by decide) found) with single | ⟨tuple,rfl,_⟩
    · have own := family.single single
      have tidied : tidyKeyword "items" s = unlessTrivial s := by
        cases s with
        | arr => cases own
        | _ => rfl
      rw [bind_some,tidied,entryRule?_some own]
      unfold unlessTrivial
      split
      · next empty =>
        rw [isEmptyObj_iff.mp empty,all_some,accepts_emptyObj]
        rfl
      · rw [entryRule?_some own]
    · change (tuple[i]?.or _).all _ = (tuple[i]?.or _).all _
      cases tuple[i]? with
      | some s => rfl
      | none => exact all_unlessTrivial _ x

lemma accepts_tidy (inclusive : fs.get? "oneOf" = none)
    (v : Json) : (obj (tidy fs)).accepts ts v = (obj fs).accepts ts v := by
  have spec : ∀ key s, fs.get? key = some s → Tidied ts key s (tidyKeyword key s) := fun key s found =>
    tidied_keyword family (placed.places key s found)
  have named : ∀ key s, fs.get? key = some s → key ≠ "oneOf" := by
    rintro key s found rfl
    rw [inclusive] at found
    cases found
  rw [Bool.eq_iff_iff,accepts_obj (sorted_tidy placed.sorted),accepts_obj placed.sorted]
  refine ⟨fun obeys => ?_,fun obeys => ?_⟩
  · refine obeys.by_rules (fun key cond => (tidy_conditional placed.sorted key cond).symm)
      (fun key s found => ?_) (fun _ _ name x _ => (memberRules_tidy family placed name x).symm)
      fun _ _ i x _ => (itemRule?_tidy family placed i x).symm
    cases tidied : tidyKeyword key s with
    | none => exact (spec key s found).dropped tidied v
    | some t =>
      rw [← (spec key s found).kept t tidied (named key s found) v]
      exact obeys.keyword key t (by rw [get?_tidy placed.sorted,found]; exact tidied)
  · refine obeys.by_rules (tidy_conditional placed.sorted) (fun key t found => ?_)
      (fun _ _ name x _ => memberRules_tidy family placed name x) fun _ _ i x _ => itemRule?_tidy family placed i x
    obtain ⟨s,at_,tidied⟩ := tidy_source placed.sorted found
    rw [(spec key s at_).kept t tidied (named key s at_) v]
    exact obeys.keyword key s at_
end
end Tidying
end Canonical
end SchemaOrder
