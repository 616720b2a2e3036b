import SchemaOrder.Resolution
import SchemaOrder.Proofs.Intersection.Nesting
import SchemaOrder.Proofs.Intersection.Orderly
namespace SchemaOrder
open List Fields Json Option Keyword Attempt
-- What an intersection looks like at its root: how many unions can be taken apart there, and which types it lists. Only
-- `allOf`, `anyOf`, `oneOf` and `type` matter, and no sub-schema is looked at but the entries of these lists.
def rootLists : List String := ["allOf","anyOf","oneOf"]
mutual
def Json.splits : Json → Nat
  | .obj fs => splitsFields fs
  | _ => 0

def splitsFields : List (String × Json) → Nat
  | [] => 0
  | (key,v) :: rest =>
    (match v with
      | .arr xs => if key = "anyOf" || key = "oneOf" then splitsItems xs + 1
        else if key = "allOf" then splitsItems xs else 0
      | _ => 0) + splitsFields rest

def splitsItems : List Json → Nat
  | [] => 0
  | v :: rest => v.splits + splitsItems rest
end
def namesApart (t : Json) : Bool :=
  !((typeNames t).contains "integer" && (typeNames t).contains "number")
mutual
def Json.typesApart : Json → Bool
  | .obj fs => typesApartFields fs
  | _ => true

def typesApartFields : List (String × Json) → Bool
  | [] => true
  | (key,v) :: rest =>
    (if key = "type" then namesApart v && v.itemsOrNone.all namesApart
      else match v with
        | .arr xs => !rootLists.contains key || typesApartItems xs
        | _ => true) && typesApartFields rest

def typesApartItems : List Json → Bool
  | [] => true
  | v :: rest => v.typesApart && typesApartItems rest
end
variable {fs : Fields} {key : String} {v : Json}
def splitsUnder (key : String) (v : Json) : Nat :=
  match v with
  | .arr xs => if key = "anyOf" || key = "oneOf" then splitsItems xs + 1
    else if key = "allOf" then splitsItems xs else 0
  | _ => 0

def splitsAt (fs : Fields) (key : String) : Nat :=
  ((fs.get? key).map (splitsUnder key)).getD 0

lemma splitsFields_cons (rest : Fields) : splitsFields ((key,v) :: rest) = splitsUnder key v + splitsFields rest := by
  cases v <;> rfl

lemma splitsUnder_other (other : key ∉ rootLists) (v : Json) : splitsUnder key v = 0 := by
  simp only [rootLists,mem_cons,not_or] at other
  cases v with
  | arr xs => simp [splitsUnder,other]
  | _ => rfl

lemma splitsUnder_union (union : key = "anyOf" ∨ key = "oneOf") (xs : List Json) :
    splitsUnder key (.arr xs) = splitsItems xs + 1 := by
  rcases union with rfl | rfl <;> rfl

lemma splitsUnder_allOf (v : Json) : splitsUnder "allOf" v = splitsItems v.itemsOrNone := by
  cases v <;> rfl

lemma splitsAt_cons (rest : Fields) (other : String) :
    splitsAt ((key,v) :: rest) other = if key = other then splitsUnder key v else splitsAt rest other := by
  unfold splitsAt
  rw [get?_cons]
  split
  · next same => subst same; rfl
  · rfl

lemma splits_eq (sorted : fs.Sorted) :
    (obj fs).splits = splitsAt fs "allOf" + splitsAt fs "anyOf" + splitsAt fs "oneOf" := by
  change splitsFields fs = _
  induction fs with
  | nil => rfl
  | cons field rest ih =>
    obtain ⟨key,v⟩ := field
    have absent : splitsAt rest key = 0 := by unfold splitsAt; rw [get?_tail sorted]; rfl
    rw [splitsFields_cons,ih (pairwise_cons.mp sorted).2]
    simp only [splitsAt_cons]
    by_cases isAllOf : key = "allOf"
    · subst isAllOf
      rw [if_pos rfl,if_neg (by decide),if_neg (by decide)]
      omega
    by_cases isAnyOf : key = "anyOf"
    · subst isAnyOf
      rw [if_neg (by decide),if_pos rfl,if_neg (by decide)]
      omega
    by_cases isOneOf : key = "oneOf"
    · subst isOneOf
      rw [if_neg (by decide),if_neg (by decide),if_pos rfl]
      omega
    · rw [if_neg isAllOf,if_neg isAnyOf,if_neg isOneOf,
        splitsUnder_other (by simp [rootLists,isAllOf,isAnyOf,isOneOf]),zero_add]

lemma splitsItems_append (xs ys : List Json) : splitsItems (xs ++ ys) = splitsItems xs + splitsItems ys := by
  induction xs with
  | nil => simp [splitsItems]
  | cons v rest ih => simp only [cons_append,splitsItems]; omega

lemma splits_single : (single key v).splits = splitsUnder key v := splitsFields_cons []

lemma splits_member (mem : v ∈ xs) : v.splits ≤ splitsItems xs := by
  induction xs with
  | nil => cases mem
  | cons head rest ih =>
    simp only [splitsItems]
    rcases mem_cons.mp mem with rfl | later
    · omega
    · have := ih later; omega

-- Only unions are counted, and each at most once.
lemma splits_le_unionCount (v : Json) : v.splits ≤ v.unionCount := by
  induction v using byDepth with
  | step v ih =>
    have list (xs : List Json) (each : ∀ w ∈ xs, w.splits ≤ w.unionCount) : splitsItems xs ≤ unionCountItems xs := by
      induction xs with
      | nil => exact le_refl 0
      | cons head rest rest_ih =>
        have first := each head mem_cons_self
        have later := rest_ih fun w mem => each w (.tail _ mem)
        simp only [splitsItems,unionCountItems]
        omega
    cases v with
    | obj fs =>
      have all part (within : ∀ field ∈ part, field ∈ fs) : splitsFields part ≤ unionCountFields part := by
        induction part with
        | nil => exact le_refl 0
        | cons field rest rest_ih =>
          obtain ⟨key,s⟩ := field
          have mem := within _ mem_cons_self
          have later := rest_ih fun f inside => within f (.tail _ inside)
          have inner : ∀ xs, s = .arr xs → splitsItems xs ≤ s.unionCount := by
            rintro xs rfl
            exact list xs fun w inside => ih w (lt_trans (depth_item inside) (depth_field mem))
          have here : splitsUnder key s ≤ (if key = "anyOf" || key = "oneOf" then 1 else 0) + s.unionCount := by
            unfold splitsUnder
            split
            · have := inner _ rfl
              split
              · omega
              · split <;> omega
            · exact Nat.zero_le _
          rw [splitsFields_cons]
          change _ ≤ (if key = "anyOf" || key = "oneOf" then 1 else 0) + s.unionCount + unionCountFields rest
          omega
      exact all fs fun _ mem => mem
    | _ => exact Nat.zero_le _

lemma typesApartItems_iff (xs : List Json) : typesApartItems xs ↔ ∀ v ∈ xs, v.typesApart := by
  induction xs with
  | nil => simp [typesApartItems]
  | cons head rest ih => simp [typesApartItems,ih]

def EntriesApart (fs : Fields) : Prop :=
  ∀ key ∈ rootLists, ∀ es, fs.get? key = some (.arr es) → ∀ e ∈ es, e.typesApart

lemma EntriesApart.listed (apart : EntriesApart fs) (mem : v ∈ Heft.listAt fs "allOf") : v.typesApart := by
  obtain ⟨list,found,inside⟩ := Heft.mem_listAt.mp mem
  exact apart "allOf" (by decide) list found v inside

structure Apart (fs : Fields) : Prop where
  type : ∀ t, fs.get? "type" = some t → namesApart t ∧ ∀ inner ∈ t.itemsOrNone, namesApart inner
  entries : EntriesApart fs

lemma typesApart_obj (sorted : fs.Sorted) : (obj fs).typesApart ↔ Apart fs := by
  change typesApartFields fs ↔ _
  have each : typesApartFields fs ↔ ∀ field ∈ fs,
      (field.1 = "type" → namesApart field.2 ∧ ∀ inner ∈ field.2.itemsOrNone, namesApart inner) ∧
        (field.1 ∈ rootLists → ∀ es, field.2 = .arr es → ∀ e ∈ es, e.typesApart) := by
    clear sorted
    induction fs with
    | nil => simp [typesApartFields]
    | cons field rest ih =>
      obtain ⟨key,v⟩ := field
      rw [forall_mem_cons,← ih]
      by_cases isType : key = "type"
      · subst isType
        cases v <;> simp [typesApartFields,rootLists]
      cases v with
      | arr xs => by_cases root : key ∈ rootLists <;> simp [typesApartFields,isType,root,typesApartItems_iff]
      | _ => simp [typesApartFields,isType]
  rw [each]
  constructor
  · intro all
    refine ⟨fun t found => (all _ (mem_of_get? found)).1 rfl,fun key root es found => ?_⟩
    exact (all _ (mem_of_get? found)).2 root es rfl
  rintro ⟨type,lists⟩ ⟨key,v⟩ mem
  have found := get?_of_mem sorted mem
  constructor
  · rintro rfl
    exact type v found
  rintro root es rfl
  exact lists key root es found
namespace Intersection
open Nesting
open Heft (listAt mem_listAt)
open Resolution (hasConditional)
variable {σ : Type} {inv : σ → Prop} {recur : Step (StateM σ)} {lookup : Lookup (StateM σ)}
  {nums : Num → Bool} {left right out : Fields} {l r m : Json} {path : String}

lemma number_commonType? (common : commonType? a b = some "number") : a = "number" ∧ b = "number" := by
  unfold commonType? typeWithin at common
  grind

lemma integer_commonType? (common : commonType? a b = some "integer") : a = "integer" ∨ b = "integer" := by
  unfold commonType? typeWithin at common
  grind

lemma namesApart_iff : namesApart m ↔ ¬ ("integer" ∈ typeNames m ∧ "number" ∈ typeNames m) := by
  rw [namesApart,Bool.not_eq_true',Bool.eq_false_iff,ne_eq,Bool.and_eq_true,contains_iff_mem,contains_iff_mem]

lemma namesApart_types (lApart : namesApart l) (rApart : namesApart r)
    (made : types l r path = .ok m) : namesApart m := by
  rw [namesApart_iff] at *
  rintro ⟨integer,number⟩
  rw [typeNames_types made,mem_commonTypes] at integer number
  obtain ⟨a,inLeft,b,inRight,common⟩ := number
  obtain ⟨rfl,rfl⟩ := number_commonType? common
  obtain ⟨a,alsoLeft,b,alsoRight,common⟩ := integer
  rcases integer_commonType? common with rfl | rfl
  · exact lApart ⟨alsoLeft,inLeft⟩
  · exact rApart ⟨alsoRight,inRight⟩

inductive Named : Json → Prop where
  | one (name : String) : Named (.str name)
  | several (ns : List String) : Named (.strings ns)

lemma named_types (made : types l r path = .ok m) : Named m := by
  unfold types at made
  split at made
  · cases made
  · cases made; exact .one _
  · cases made; exact .several _

lemma Named.inner (named : Named m) : ∀ inner ∈ m.itemsOrNone, ∃ name, inner = .str name := by
  cases named with
  | one name => exact nofun
  | several ns =>
    intro inner mem
    obtain ⟨name,_,rfl⟩ := mem_map.mp mem
    exact ⟨name,rfl⟩

lemma Named.eq_of_deepEqual (named : Named m) (same : l.deepEqual m) : l = m := by
  cases named with
  | one name =>
    cases l with
    | str own => simpa [deepEqual] using same
    | _ => simp [deepEqual] at same
  | several ns =>
    cases l with
    | arr own =>
      simp only [strings,deepEqual] at same
      refine congrArg arr ?_
      induction own generalizing ns with
      | nil => cases ns <;> simp_all [equalItems]
      | cons first rest ih =>
        cases ns with
        | nil => simp [equalItems] at same
        | cons name others =>
          simp only [map_cons,equalItems,Bool.and_eq_true] at same
          refine cons_eq_cons.mpr ⟨?_,ih others same.2⟩
          cases first with
          | str own => simpa [deepEqual] using same.1
          | _ => simp [deepEqual] at same
    | _ => simp [strings,deepEqual] at same

lemma namesApart_str (name : String) : namesApart (.str name) := by
  rw [namesApart_iff]
  rintro ⟨integer,number⟩
  have same := (mem_singleton.mp integer).trans (mem_singleton.mp number).symm
  exact absurd same (by decide)

-- One name meets names apart in at most one name.
lemma commonTypes_single (name : String) (apart : ¬ ("integer" ∈ ns ∧ "number" ∈ ns)) :
    commonTypes [name] ns = [] ∨ ∃ only, commonTypes [name] ns = [only] := by
  have one : ∃ only, ∀ other ∈ ns, ∀ t, commonType? name other = some t → t = only := by
    by_cases integer : "integer" ∈ ns
    · refine ⟨if name = "number" then "integer" else name,fun other mem t common => ?_⟩
      unfold commonType? typeWithin at common
      grind
    refine ⟨name,fun other mem t common => ?_⟩
    unfold commonType? typeWithin at common
    grind
  obtain ⟨only,all⟩ := one
  have fold : commonTypes [name] ns = [] ∨ commonTypes [name] ns = [only] := by
    refine foldlRecOn (motive := fun found => found = [] ∨ found = [only]) ns _ (.inl rfl) fun found soFar other mem => ?_
    cases common : commonType? name other with
    | none => exact soFar
    | some t =>
      obtain rfl := all other mem t common
      rcases soFar with rfl | rfl <;> simp
  exact fold.imp_right fun same => ⟨only,same⟩

lemma types_single (apart : namesApart r) (made : types (.str name) r path = .ok m) : ∃ only, m = .str only := by
  rw [namesApart_iff] at apart
  unfold types at made
  rcases commonTypes_single name apart with none | ⟨only,single⟩
  · rw [show typeNames (.str name) = [name] from rfl,none] at made
    cases made
  rw [show typeNames (.str name) = [name] from rfl,single] at made
  cases made
  exact ⟨only,rfl⟩

-- A conditional among the entries of `allOf` comes with one at the root.
def Overt (s : Json) : Prop := hasConditional s → (s.field? "if").isSome

lemma hasConditional_of_if (asks : (s.field? "if").isSome) : hasConditional s := by
  unfold hasConditional
  rw [asks]
  rfl

lemma hasConditional_iff : hasConditional (obj fs) ↔
    (fs.get? "if").isSome ∨ ∃ e ∈ listAt fs "allOf", (e.field? "if").isSome := by
  unfold hasConditional listAt
  simp only [field?]
  cases get? fs "allOf" with
  | none => simp
  | some v => cases v <;> simp [items?,itemsOrNone]

structure RootMeets (nums : Num → Bool) (a b m : Json) : Prop where
  orderly : m.isOrderly nums
  splits : m.splits ≤ a.splits + b.splits
  apart : a.typesApart → b.typesApart → m.typesApart
  nests : m.nesting ≤ max a.nesting b.nesting
  overt : m = .bool false ∨ (Overt m ∧ (hasConditional a ∨ hasConditional b → (m.field? "if").isSome))
  empty : a = .bool false ∨ b = .bool false → m = .bool false
  -- the type of the left side is kept or narrowed to names
  type : ∀ t, a.field? "type" = some t → m = .bool false ∨ ∃ s, m.field? "type" = some s ∧ (s = t ∨ Named s)

structure RootMeeting (nums : Num → Bool) (inv : σ → Prop) (recur : Step (StateM σ)) : Prop where
  whole : ∀ w, nums (.whole w)
  merged : ∀ a b path, a.isOrderly nums → b.isOrderly nums →
    Yields inv (recur a b path) (RootMeets nums a b)

lemma RootMeeting.keepsOrder (meeting : RootMeeting nums inv recur) : KeepsOrder nums inv recur where
  whole := meeting.whole
  merged a b path left right := (meeting.merged a b path left right).mono fun _ meets => meets.orderly

structure RootRule (key : String) (l r m : Json) (extra : List Json) : Prop where
  spare : extra = [] ∨ (extra = [.single key r] ∧ l.deepEqual r = false)
  type : key = "type" → extra = [] ∧ ((l.deepEqual r ∧ m = l) ∨ ∃ path, types l r path = .ok m)
  allOf : key = "allOf" → extra = [] ∧ (m = l ∨ m = .arr (appendNew l.itemsOrNone r.itemsOrNone))
  union : key = "anyOf" ∨ key = "oneOf" → m = l
  nests : ∀ n, Under n key l → Under n key r → Under n key m

def marked : List String := "type" :: "anyOf" :: "oneOf" :: traced

lemma RootRule.plain (other : key ∉ marked)
    (spare : extra = [] ∨ (extra = [.single key r] ∧ l.deepEqual r = false)) : RootRule key l r m extra where
  spare := spare
  type same := absurd (by rw [same]; decide) other
  allOf same := absurd (by rw [same]; decide) other
  union same := absurd (by rcases same with rfl | rfl <;> decide) other
  nests n _ _ := under_closed (fun mem => other (.tail _ (.tail _ (.tail _ mem)))) n m

lemma yields_schemaMapsNested (meeting : RootMeeting nums inv recur) (left : l.isOrderly nums) (right : r.isOrderly nums) :
    Yields inv (schemaMaps recur l r path) fun m => ∀ n, (∀ s ∈ l.values, s.nesting < n) →
      (∀ s ∈ r.values, s.nesting < n) → ∀ s ∈ m.values, s.nesting < n := by
  unfold schemaMaps
  split
  · next ls rs =>
    change Yields inv (schemaMaps recur (.obj ls) (.obj rs) path) _
    rw [schemaMaps_eq]
    refine .bind (runs_joinMaps (fun _ a b m => m.nesting ≤ max a.nesting b.nesting) (orderly_obj.mp left).1
      (orderly_obj.mp right).1 fun name a b atL atR => ?_) fun out ⟨sorted,stems⟩ => .pure fun n lefts rights s mem => ?_
    · exact .orElse ((meeting.merged a b _ (orderly_get? left atL) (orderly_get? right atR)).mono
        fun m meets => meets.nests) fun _ _ => .pure (Nat.zero_le _)
    obtain ⟨entry,inside,rfl⟩ := mem_map.mp mem
    have source := stems entry.1
    rw [get?_of_mem sorted inside] at source
    have own {fs : Fields} {t} (each : ∀ s ∈ (obj fs).values, s.nesting < n)
        (found : fs.get? entry.1 = some t) : t.nesting < n := each t (mem_map_of_mem (mem_of_get? found))
    rcases source.sources with atL | atR | ⟨a,b,atL,atR,bounded⟩
    · exact own lefts atL
    · exact own rights atR
    · exact lt_of_le_of_lt bounded (max_lt (own lefts atL) (own rights atR))
  · exact .pure fun _ lefts _ => lefts

-- Only the types, the lists of schemas and what is about properties count; any other keyword just leaves over nothing
-- or its partner.
lemma yields_keywordRoot (meeting : RootMeeting nums inv recur) (left : l.isOrderly nums) (right : r.isOrderly nums) :
    Yields inv (keyword recur key l r path) fun made => RootRule key l r made.1 made.2 := by
  have alone : ∀ {x} {post}, Yields inv x post → (∀ m, post m → RootRule key l r m []) →
      Yields inv (do return ((← x),([] : List Json))) fun made => RootRule key l r made.1 made.2 :=
    fun yields imp => .bind yields fun m holds => .pure (imp m holds)
  unfold keyword
  split
  · next same =>
    exact .pure ⟨.inl rfl,fun _ => ⟨rfl,.inl ⟨same,rfl⟩⟩,fun _ => ⟨rfl,.inl rfl⟩,fun _ => rfl,fun _ under _ => under⟩
  next different =>
  have apart : l.deepEqual r = false := Bool.eq_false_iff.mpr different
  split
  · refine alone (.ofAny fun m made => made) fun m made => ?_
    exact ⟨.inl rfl,fun _ => ⟨rfl,.inr ⟨path,made⟩⟩,(absurd · (by decide)),(absurd · (by decide)),
      fun n _ _ => under_closed (by decide) n m⟩
  · exact .conflict trivial
  · exact alone (.ofAny fun _ _ => trivial) fun _ (_ : True) => .plain (by decide) (.inl rfl)
  iterate 2 exact .pure (.plain (by decide) (.inl rfl))
  · split
    · exact .pure (.plain (by decide) (.inl rfl))
    · exact .pure (.plain (by decide) (.inr ⟨rfl,apart⟩))
  · exact .pure (.plain (by decide) (.inl rfl))
  · refine .pure ⟨.inl rfl,(absurd · (by decide)),fun _ => ⟨rfl,.inr rfl⟩,(absurd · (by decide)),fun n lefts rights => ?_⟩
    exact under_allOf.mpr fun s mem => (mem_of_appendNew mem).elim (lefts.beside s) (rights.beside s)
  · exact .pure (.plain (by decide) (.inl rfl))
  next notType _ _ _ _ _ _ notAllOf _ =>
  have other {shape} (is : Keyword.shape key = shape) (ne : shape ∉ [.schemaList,.subSchema,.schemaMap]) :
      key ∉ marked := by
    rintro mem
    fin_cases mem
    · exact notType rfl
    all_goals exact ne (is ▸ by decide)
  have joined {shape m} (is : Keyword.shape key = shape) (ne : shape ≠ .schemaList)
      (nests : ∀ n, Under n key l → Under n key r → Under n key m) : RootRule key l r m [] :=
    ⟨.inl rfl,fun same => absurd same notType,fun same => absurd same notAllOf,
      fun same => absurd is (by rcases same with rfl | rfl <;> exact ne.symm),nests⟩
  have kept : RootRule key l r l [.single key r] :=
    ⟨.inr ⟨rfl,apart⟩,fun same => absurd same notType,fun same => absurd same notAllOf,fun _ => rfl,fun _ under _ => under⟩
  split
  · next shape => exact .pure (.plain (other shape (by decide)) (.inl rfl))
  · next shape => exact .pure (.plain (other shape (by decide)) (.inl rfl))
  · next shape =>
    split
    · exact .pure kept
    next unspared =>
    refine alone (meeting.merged _ _ _ left right) fun m meets => joined shape (by decide) fun n lefts rights => ?_
    by_cases further : key = "additionalProperties"
    · subst further
      exact under_extra.mpr (lt_of_le_of_lt meets.nests (max_lt (under_extra.mp lefts) (under_extra.mp rights)))
    · refine under_closed (fun mem => ?_) n m
      fin_cases mem
      · exact notAllOf rfl
      iterate 2 exact unspared (by decide)
      iterate 2 exact absurd shape (by decide)
      exact further rfl
  · next shape =>
    refine alone (yields_schemaMapsNested meeting left right) fun m nested => joined shape (by decide) fun n lefts rights => ?_
    by_cases map : key = "properties" ∨ key = "patternProperties"
    · exact (under_map map).mpr (nested n ((under_map map).mp lefts) ((under_map map).mp rights))
    · refine under_closed (fun mem => ?_) n m
      fin_cases mem
      iterate 3 exact absurd shape (by decide)
      · exact map (.inl rfl)
      · exact map (.inr rfl)
      · exact absurd shape (by decide)
  · next shape =>
    exact alone (yields_dependenciesOrderly meeting.keepsOrder left right) fun _ _ => .plain (other shape (by decide)) (.inl rfl)
  · next shape => exact .pure (.plain (other shape (by decide)) (.inl rfl))
  · exact .pure kept

lemma splitsItems_appendNew (ls rs : List Json) : splitsItems (appendNew ls rs) ≤ splitsItems ls + splitsItems rs := by
  unfold appendNew
  induction rs generalizing ls with
  | nil => exact Nat.le_add_right _ _
  | cons entry rest ih =>
    rw [foldl_cons]
    split
    · have := ih ls
      simp only [splitsItems]
      omega
    have := ih (ls ++ [entry])
    rw [splitsItems_append] at this
    simp only [splitsItems] at this ⊢
    omega
section Gathered
variable {clash : Bool} {shared : Fields} {extra : String → List Json} {props xs more : Option Json}
  {key : String}

lemma root_inPlace (root : key ∈ "type" :: rootLists) (clash : Bool) : setAside clash key = false := by
  fin_cases root <;> cases clash <;> decide

lemma splitsAt_assembled (drawn : Gathered RootRule clash left right [] shared extra) (rSorted : right.Sorted)
    (root : key ∈ rootLists) :
    splitsAt (assembled clash left right shared props xs more) key + splitsItems (extra key) ≤
      splitsAt left key + splitsAt right key := by
  have stems := drawn.stems rSorted (root_inPlace (.tail _ root) clash) props xs more
  have spent : left.get? key = none ∨ right.get? key = none → extra key = [] := by
    intro absent
    apply Classical.byContradiction
    intro spare
    obtain ⟨l,r,atL,atR,_⟩ := drawn.spare key spare
    rcases absent with none | none
    · rw [none] at atL; cases atL
    · rw [none] at atR; cases atR
  unfold splitsAt
  generalize left.get? key = atL at stems spent
  generalize right.get? key = atR at stems spent
  generalize (assembled clash left right shared props xs more).get? key = made at stems
  cases stems with
  | neither => rw [spent (.inl rfl)]; exact Nat.zero_le _
  | left l => rw [spent (.inr rfl)]; exact le_rfl
  | right r => rw [spent (.inl rfl)]; exact Nat.le_add_left _ _
  | both l r m ruled =>
    change splitsUnder key m + splitsItems (extra key) ≤ splitsUnder key l + splitsUnder key r
    by_cases isAllOf : key = "allOf"
    · subst isAllOf
      obtain ⟨none,made⟩ := ruled.allOf rfl
      rw [none,splitsUnder_allOf,splitsUnder_allOf,splitsUnder_allOf]
      rcases made with rfl | rfl
      · exact Nat.le_add_right _ _
      · exact splitsItems_appendNew _ _
    have union : key = "anyOf" ∨ key = "oneOf" := by
      simpa [rootLists,isAllOf] using root
    rw [ruled.union union]
    rcases ruled.spare with none | ⟨single,_⟩
    · rw [none]; exact Nat.le_add_right _ _
    rw [single]
    simp only [splitsItems,splits_single]
    omega

-- Of all that is left over only unions count, and every keyword leaves over once.
lemma splitsItems_extras (sorted : left.Sorted) (plain : ∀ key, key ≠ "anyOf" → key ≠ "oneOf" → splitsItems (extra key) = 0) :
    splitsItems (left.flatMap fun field => extra field.1) ≤ (if left.has "anyOf" then splitsItems (extra "anyOf") else 0) +
        (if left.has "oneOf" then splitsItems (extra "oneOf") else 0) := by
  induction left with
  | nil => exact Nat.zero_le _
  | cons field rest ih =>
    obtain ⟨key,v⟩ := field
    have tail := ih (pairwise_cons.mp sorted).2
    have absent : has rest key = false := by unfold has; rw [get?_tail sorted]; rfl
    have has_cons other : has ((key,v) :: rest) other = (decide (key = other) || has rest other) := by
      unfold has
      rw [get?_cons]
      by_cases same : key = other <;> simp [same]
    rw [flatMap_cons,splitsItems_append,has_cons,has_cons]
    by_cases isAnyOf : key = "anyOf"
    · subst isAnyOf
      rw [absent] at tail
      simp at tail ⊢
      omega
    by_cases isOneOf : key = "oneOf"
    · subst isOneOf
      rw [absent] at tail
      simp at tail ⊢
      omega
    · simp only [isAnyOf,isOneOf,plain key isAnyOf isOneOf,zero_add]
      exact tail

lemma splitsItems_extra (drawn : Gathered RootRule clash left right [] shared extra) (key : String)
    (notAnyOf : key ≠ "anyOf") (notOneOf : key ≠ "oneOf") : splitsItems (extra key) = 0 := by
  by_cases spare : extra key = []
  · rw [spare]; rfl
  obtain ⟨l,r,m,atL,atR,inPlace,ruled⟩ := drawn.ruled spare
  have notAllOf : key ≠ "allOf" := fun same => spare (ruled.allOf same).1
  rw [(ruled.spare.resolve_left spare).1]
  simp only [splitsItems,splits_single]
  exact splitsUnder_other (by simp [rootLists,notAnyOf,notOneOf,notAllOf]) r
end Gathered
lemma sorted_addResidual (sorted : out.Sorted) (residual : List Json) : (addResidual out residual).Sorted := by
  unfold addResidual
  split
  · exact sorted
  · exact sorted_put sorted

lemma splitsAt_addResidual (out : Fields) (residual : List Json) :
    splitsAt (addResidual out residual) "allOf" ≤ splitsAt out "allOf" + splitsItems residual := by
  unfold addResidual
  split
  · exact Nat.le_add_right _ _
  have own : splitsAt out "allOf" = splitsItems (((out.get? "allOf").bind items?).getD []) := by
    unfold splitsAt
    cases out.get? "allOf" with
    | none => rfl
    | some s => exact splitsUnder_allOf s
  rw [own]
  unfold splitsAt
  rw [get?_put_self,map_some,splitsUnder_allOf]
  exact splitsItems_appendNew _ _

structure Rooted (left right made : Fields) : Prop where
  splits : (obj made).splits ≤ (obj left).splits + (obj right).splits
  entries : EntriesApart left → EntriesApart right → EntriesApart made
  type : Stems TypeRule (left.get? "type") (right.get? "type") (made.get? "type")
  nests : (obj made).nesting ≤ max (obj left).nesting (obj right).nesting
  overt : Overt (obj left) → Overt (obj right) → Overt (obj made)
  asks : (left.get? "if").isSome ∨ (right.get? "if").isSome → (made.get? "if").isSome

lemma Rooted.apart (rooted : Rooted left right made) (lApart : Apart left) (rApart : Apart right) : Apart made := by
  refine ⟨fun t found => ?_,rooted.entries lApart.entries rApart.entries⟩
  have stems := rooted.type
  rw [found] at stems
  generalize atL : left.get? "type" = a at stems
  generalize atR : right.get? "type" = b at stems
  cases stems with
  | left => exact lApart.type t atL
  | right => exact rApart.type t atR
  | both l r m ruled =>
    rcases ruled with ⟨_,rfl⟩ | ⟨_,made⟩
    · exact lApart.type t atL
    refine ⟨namesApart_types (lApart.type l atL).1 (rApart.type r atR).1 made,fun inner mem => ?_⟩
    obtain ⟨name,rfl⟩ := (named_types made).inner inner mem
    exact namesApart_str name
section Assembled
variable {clash : Bool} {shared : Fields} {extra : String → List Json} {props xs more : Option Json}
  {key : String} {start : List Json}
section
variable (drawn : Gathered RootRule clash left right [] shared extra)
include drawn
lemma stems_type (rSorted : right.Sorted) : Stems TypeRule (left.get? "type") (right.get? "type")
      ((assembled clash left right shared props xs more).get? "type") := by
  have inPlace : setAside clash "type" = false := root_inPlace (by decide) clash
  have stems := drawn.stems rSorted inPlace props xs more
  generalize left.get? "type" = l at stems ⊢
  generalize right.get? "type" = r at stems ⊢
  generalize (assembled clash left right shared props xs more).get? "type" = m at stems ⊢
  cases stems with
  | neither => exact .neither
  | left l => exact .left l
  | right r => exact .right r
  | both l r m ruled => exact .both l r m (ruled.type rfl).2

lemma apart_extra (rApart : EntriesApart right) (mem : e ∈ extra key) : e.typesApart := by
  obtain ⟨l,r,m,atL,atR,inPlace,ruled⟩ := drawn.ruled (ne_nil_of_mem mem)
  rcases ruled.spare with none | ⟨single,_⟩
  · rw [none] at mem; cases mem
  rw [single] at mem
  rw [mem_singleton.mp mem]
  refine (typesApart_obj (sorted_single key r)).mpr ⟨fun t found => ?_,fun name root es found => ?_⟩
  · -- two types leave nothing over
    rw [get?_cons] at found
    split at found
    · next same =>
      have none := (ruled.type same).1
      rw [single] at none
      cases none
    · cases found
  · rw [get?_cons] at found
    split at found
    · next same =>
      subst same
      cases found
      exact rApart key root es atR
    · cases found

lemma listAt_assembled (rSorted : right.Sorted)
    (mem : e ∈ listAt (assembled clash left right shared props xs more) "allOf") :
    e ∈ listAt left "allOf" ∨ e ∈ listAt right "allOf" := by
  obtain ⟨list,found,inside⟩ := mem_listAt.mp mem
  rcases drawn.sources rSorted (root_inPlace (by decide) clash) found with atL | atR | ⟨l,r,atL,atR,ruled⟩
  · exact .inl (mem_listAt.mpr ⟨list,atL,inside⟩)
  · exact .inr (mem_listAt.mpr ⟨list,atR,inside⟩)
  unfold listAt
  rw [atL,atR]
  rcases (ruled.allOf rfl).2 with rfl | made
  · exact .inl inside
  · exact mem_of_appendNew (arr.inj made ▸ inside)

lemma entries_assembled (rSorted : right.Sorted)
    (lApart : EntriesApart left) (rApart : EntriesApart right) (props xs more : Option Json) :
    EntriesApart (assembled clash left right shared props xs more) := by
  intro key root es found
  by_cases isAllOf : key = "allOf"
  · subst isAllOf
    exact fun e mem => (listAt_assembled drawn rSorted (mem_listAt.mpr ⟨es,found,mem⟩)).elim lApart.listed rApart.listed
  rcases drawn.sources rSorted (root_inPlace (.tail _ root) clash) found with atL | atR | ⟨l,r,atL,atR,ruled⟩
  · exact lApart key root es atL
  · exact rApart key root es atR
  · have union : key = "anyOf" ∨ key = "oneOf" := by simpa [rootLists,isAllOf] using root
    exact lApart key root es (ruled.union union ▸ atL)

lemma under_assembled (rSorted : right.Sorted) (lNests : (obj left).nesting ≤ n) (rNests : (obj right).nesting ≤ n)
    (inner : ∀ m, props = some m → ∀ s ∈ m.values, s.nesting < n)
    (found : (assembled clash left right shared props xs more).get? key = some v) : Under n key v := by
  cases away : setAside clash key with
  | true =>
    rw [drawn.get?_aside rSorted away] at found
    split_ifs at found with isProperties isItems isFurther
    · exact isProperties ▸ (under_map (.inl rfl)).mpr (inner v found)
    · exact isItems ▸ under_closed (by decide) n v
    · exact isFurther ▸ under_closed (by decide) n v
    · exact under_get? lNests found
  | false =>
    rcases drawn.sources rSorted away found with atL | atR | ⟨l,r,atL,atR,ruled⟩
    · exact under_get? lNests atL
    · exact under_get? rNests atR
    · exact ruled.nests n (under_get? lNests atL) (under_get? rNests atR)

lemma nesting_extra (rNests : (obj right).nesting ≤ n) (mem : e ∈ extra key) : e.nesting ≤ n := by
  have spare := ne_nil_of_mem mem
  obtain ⟨l,r,m,_,atR,_,ruled⟩ := drawn.ruled spare
  rw [(ruled.spare.resolve_left spare).1] at mem
  exact mem_singleton.mp mem ▸ nesting_single.mpr (under_get? rNests atR)
end
lemma listAt_addResidual {residual : List Json} (mem : e ∈ listAt (addResidual out residual) "allOf") :
    e ∈ listAt out "allOf" ∨ e ∈ residual := by
  unfold addResidual at mem
  split at mem
  · exact .inl mem
  rw [listAt,get?_put_self] at mem
  refine (mem_of_appendNew mem).imp_left fun own => ?_
  unfold listAt
  cases at_ : out.get? "allOf" <;> rw [at_] at own <;> exact own

lemma entries_addResidual (apart : EntriesApart out) (residual : List Json)
    (each : ∀ e ∈ residual, e.typesApart) : EntriesApart (addResidual out residual) := by
  intro key root es found
  by_cases isAllOf : key = "allOf"
  · subst isAllOf
    exact fun e mem => (listAt_addResidual (mem_listAt.mpr ⟨es,found,mem⟩)).elim apart.listed (each e)
  · exact apart key root es ((get?_addResidual isAllOf).symm.trans found)

lemma under_addResidual {residual : List Json} (each : ∀ key v, out.get? key = some v → Under n key v)
    (spare : ∀ e ∈ residual, e.nesting ≤ n) (found : (addResidual out residual).get? key = some v) : Under n key v := by
  by_cases isAllOf : key = "allOf"
  · subst isAllOf
    refine under_allOf.mpr fun e mem => ?_
    have listed : e ∈ listAt (addResidual out residual) "allOf" := by
      unfold listAt
      rw [found]
      exact mem
    rcases listAt_addResidual listed with own | left
    · obtain ⟨list,at_,inside⟩ := mem_listAt.mp own
      exact under_allOf.mp (each _ _ at_) e inside
    · exact spare e left
  · exact each key v ((get?_addResidual isAllOf).symm.trans found)
section
variable (drawn : Gathered RootRule (conditionalsClash left right) left right [] shared extra)
include drawn
lemma if_assembled (rSorted : right.Sorted) (held : (left.get? "if").isSome ∨ (right.get? "if").isSome) :
    ((assembled (conditionalsClash left right) left right shared props xs more).get? "if").isSome := by
  cases clash : conditionalsClash left right with
  | true =>
    rw [clash] at drawn
    rw [drawn.get?_conditional rSorted (by decide)]
    exact clash_left clash
  | false =>
    rw [clash] at drawn
    have stems : Stems _ _ (right.get? "if") _ := drawn.stems rSorted (by decide) props xs more
    generalize left.get? "if" = l at stems held
    generalize right.get? "if" = r at stems held
    generalize (assembled false left right shared props xs more).get? "if" = m at stems ⊢
    cases stems with
    | neither => exact held.elim id id
    | left | right | both => rfl

-- Two conditions that differ are a clash, so that none is left over.
lemma unasked_extra (mem : e ∈ extra key) : e.field? "if" = none := by
  have spare := ne_nil_of_mem mem
  obtain ⟨l,r,m,atL,atR,inPlace,ruled⟩ := drawn.ruled spare
  obtain ⟨single,apart⟩ := ruled.spare.resolve_left spare
  rw [single] at mem
  rw [mem_singleton.mp mem]
  change get? [(key,r)] "if" = none
  rw [get?_cons]
  split
  · next isIf =>
    subst isIf
    have noClash : conditionalsClash left right = false := by
      cases clash : conditionalsClash left right with
      | false => rfl
      | true => rw [clash] at inPlace; exact absurd inPlace (by decide)
    unfold conditionalsClash has at noClash
    rw [atL,atR,isSome_some,isSome_some,Bool.true_and,Bool.true_and] at noClash
    have same := any_eq_false.mp noClash "if" (by decide)
    rw [atL,atR,sameOption,apart] at same
    exact absurd rfl same
  · rfl
end
lemma splits_residual (drawn : Gathered RootRule clash left right [] shared extra) (lSorted : left.Sorted)
    (rSorted : right.Sorted) (flat : splitsItems start = 0) (props xs more : Option Json) :
    (obj (addResidual (assembled clash left right shared props xs more)
      (start ++ left.flatMap fun field => extra field.1))).splits ≤ (obj left).splits + (obj right).splits := by
  set out := assembled clash left right shared props xs more
  set residual := start ++ left.flatMap fun field => extra field.1
  have sorted : out.Sorted := drawn.sorted_assembled
  have added := splitsAt_addResidual out residual
  rw [splitsItems_append] at added
  have extras := splitsItems_extras lSorted fun key => splitsItems_extra drawn key
  have all key root : splitsAt out key + splitsItems (extra key) ≤ splitsAt left key + splitsAt right key :=
    splitsAt_assembled drawn rSorted root
  have atAllOf := all "allOf" (by decide)
  have atAnyOf := all "anyOf" (by decide)
  have atOneOf := all "oneOf" (by decide)
  have other key (ne : key ≠ "allOf") : splitsAt (addResidual out residual) key = splitsAt out key := by
    unfold splitsAt
    rw [get?_addResidual ne]
  rw [splits_eq (sorted_addResidual sorted _),splits_eq lSorted,splits_eq rSorted,other "anyOf" (by decide),
    other "oneOf" (by decide)]
  have most (held : Bool) n : (if held then n else 0) ≤ n := by
    cases held
    · exact Nat.zero_le n
    · exact le_refl n
  have anyOfMost := most (left.has "anyOf") (splitsItems (extra "anyOf"))
  have oneOfMost := most (left.has "oneOf") (splitsItems (extra "oneOf"))
  omega
end Assembled
-- A conditional has nothing that counts at the root.
lemma conditional_aside (root : key ∈ "type" :: rootLists) : (right.pick conditional).get? key = none := by
  rw [get?_pick,if_neg]
  fin_cases root <;> decide

lemma splits_conditional (rSorted : right.Sorted) : (obj (right.pick conditional)).splits = 0 := by
  have sorted : (right.pick conditional).Sorted := sorted_filter _ rSorted
  rw [splits_eq sorted]
  unfold splitsAt
  rw [conditional_aside (by decide),conditional_aside (by decide),conditional_aside (by decide)]
  rfl

lemma apart_conditional (rSorted : right.Sorted) : (obj (right.pick conditional)).typesApart := by
  have sorted : (right.pick conditional).Sorted := sorted_filter _ rSorted
  refine (typesApart_obj sorted).mpr ⟨fun t found => ?_,fun key root es found => ?_⟩
  · rw [conditional_aside (by decide)] at found; cases found
  · rw [conditional_aside (.tail _ root)] at found; cases found

lemma root_unbounded (root : key ∈ "if" :: marked) : key ≠ "enum" ∧ limit? key = none := by
  fin_cases root <;> exact ⟨by decide,rfl⟩

lemma yields_propertiesNested (meeting : RootMeeting nums inv recur) (steady : Lasting inv lookup)
    (lOrd : (obj left).isOrderly nums) (rOrd : (obj right).isOrderly nums) (lNests : (obj left).nesting ≤ n)
    (rNests : (obj right).nesting ≤ n) : Yields inv (properties lookup recur left right path) fun made =>
      ∀ m, made = some m → ∀ s ∈ m.values, s.nesting < n := by
  have ruled {fs : Fields} (ord : (obj fs).isOrderly nums) (nests : (obj fs).nesting ≤ n) :
      Ruled (fun s => s.isOrderly nums ∧ s.nesting < n) fs := by
    have own := ruled_orderly ord
    refine ⟨own.sorted,fun key map e mem => ⟨own.entries key map e mem,?_⟩,
      fun s found => ⟨own.further s found,under_extra.mp (under_get? nests found)⟩⟩
    cases found : fs.get? key with
    | none => rw [found] at mem; cases mem
    | some v =>
      rw [found] at mem
      exact (under_map map).mp (under_get? nests found) e.2 (mem_map_of_mem mem)
  refine .mono (yields_ruledProperties (fun s => s.isOrderly nums ∧ s.nesting < n) (fun a b path aGood bGood => ?_)
    (fun s good => ⟨rfl,lt_of_le_of_lt (Nat.zero_le _) good.2⟩) steady (ruled lOrd lNests) (ruled rOrd rNests))
      fun made each m same s mem => ?_
  · exact (meeting.merged a b path aGood.1 bGood.1).mono fun m meets =>
      ⟨meets.orderly,lt_of_le_of_lt meets.nests (max_lt aGood.2 bGood.2)⟩
  · obtain ⟨out,rfl,_,good⟩ := each m same
    obtain ⟨e,inside,rfl⟩ := mem_map.mp mem
    exact (good e inside).2

lemma yields_objectsRoot (meeting : RootMeeting nums inv recur)
    (steady : Lasting inv lookup) (lOrd : (obj left).isOrderly nums)
    (rOrd : (obj right).isOrderly nums) : Yields inv (objects lookup recur left right path) fun made =>
      (obj made).isOrderly nums ∧ Rooted left right made := by
  refine .mono (.and (yields_objectsOrderly meeting.keepsOrder steady lOrd rOrd)
    (?_ : Yields inv _ fun made => made.Sorted → Rooted left right made)) fun made ⟨ord,rooted⟩ =>
      ⟨ord,rooted (orderly_obj.mp ord).1⟩
  have lSorted := (orderly_obj.mp lOrd).1
  have rSorted := (orderly_obj.mp rOrd).1
  -- a clash leaves over the conditional of the right side, in which nothing counts
  have flat : splitsItems (if conditionalsClash left right then [obj (right.pick conditional)]
      else []) = 0 := by
    split
    · simp only [splitsItems,splits_conditional rSorted]
    · rfl
  have first e (mem : e ∈ (if conditionalsClash left right then [obj (right.pick conditional)] else [])) :
      conditionalsClash left right ∧ e.typesApart ∧ e.nesting ≤ (obj right).nesting := by
    split at mem
    · next clash => exact mem_singleton.mp mem ▸ ⟨clash,apart_conditional rSorted,nesting_filter le_rfl _⟩
    · cases mem
  unfold objects
  dsimp only
  generalize (if conditionalsClash left right then [obj (right.pick conditional)] else []) = start at flat first
  refine .bind (runs_sharedKeywords RootRule lSorted path (fun key l r atL atR _ =>
    (yields_keywordRoot meeting (orderly_get? lOrd atL) (orderly_get? rOrd atR))) start).yields ?_
  rintro ⟨shared,residual⟩ ⟨extra,rfl,drawn⟩
  refine .bind (yields_propertiesNested meeting steady lOrd rOrd (le_max_left _ _) (le_max_right _ _))
    fun props inner => ?_
  refine .bind (yields_itemsOrderly meeting.keepsOrder lOrd rOrd) ?_
  rintro ⟨xs,further⟩ _
  refine .bind (.ofAny fun out reconciled => reconciled) fun out reconciled => ?_
  refine .bind (.ofAny fun _ _ => trivial) fun _ (_ : True) =>
    .pure fun sorted => ?_
  have same key (root : key ∈ "if" :: marked) : (Bound.fold out).get? key =
      (addResidual (assembled (conditionalsClash left right) left right shared props xs further)
      (start ++ left.flatMap fun field => extra field.1)).get? key := by
    obtain ⟨notEnum,unbounded⟩ := root_unbounded root
    exact (Bound.get?_fold unbounded out).trans (get?_reconcileValues reconciled notEnum)
  have each {post : Json → Prop} (aside : ∀ e ∈ start, post e) (spare : ∀ key, ∀ e ∈ extra key, post e) e
      (mem : e ∈ start ++ left.flatMap fun field => extra field.1) : post e := by
    rcases mem_append.mp mem with here | later
    · exact aside e here
    · obtain ⟨field,_,inside⟩ := mem_flatMap.mp later
      exact spare field.1 e inside
  have asks (held : (left.get? "if").isSome ∨ (right.get? "if").isSome) : ((Bound.fold out).get? "if").isSome := by
    rw [same "if" (by decide),get?_addResidual (by decide)]
    exact if_assembled drawn rSorted held
  refine ⟨?_,fun lApart rApart => ?_,?_,?_,fun lOvert rOvert conditional => ?_,asks⟩
  · refine le_trans (le_of_eq ?_) (splits_residual drawn lSorted rSorted flat props xs further)
    rw [splits_eq sorted,splits_eq (sorted_addResidual drawn.sorted_assembled _)]
    unfold splitsAt
    rw [same "allOf" (by decide),same "anyOf" (by decide),same "oneOf" (by decide)]
  · intro key root es found
    exact entries_addResidual (entries_assembled drawn rSorted lApart rApart props xs further) _
      (each (fun e aside => (first e aside).2.1) fun _ _ => apart_extra drawn rApart) key root es
      ((same key (by fin_cases root <;> decide)).symm.trans found)
  · rw [same "type" (by decide),get?_addResidual (by decide)]
    exact stems_type drawn rSorted
  · refine nesting_of_get? sorted fun key v found => ?_
    by_cases isOpen : key ∈ traced
    · rw [same key (.tail _ (.tail _ (.tail _ (.tail _ isOpen))))] at found
      exact under_addResidual (fun key v => under_assembled drawn rSorted (le_max_left _ _) (le_max_right _ _) inner)
        (each (fun e aside => le_trans (first e aside).2.2 (le_max_right _ _)) fun _ _ => nesting_extra drawn (le_max_right _ _))
        found
    · exact under_closed isOpen _ v
  · rcases hasConditional_iff.mp conditional with root | ⟨e,mem,entryAsks⟩
    · exact root
    unfold listAt at mem
    rw [same "allOf" (by decide)] at mem
    rcases listAt_addResidual mem with own | spare
    · refine asks ((listAt_assembled drawn rSorted own).imp (fun inside => lOvert ?_) fun inside => rOvert ?_) <;>
        exact hasConditional_iff.mpr (.inr ⟨e,inside,entryAsks⟩)
    have clash : ∀ e ∈ start ++ left.flatMap fun field => extra field.1, (e.field? "if").isSome → conditionalsClash left right := by
      refine each (fun e aside _ => (first e aside).1) fun key e inside => ?_
      intro entryAsks
      rw [unasked_extra drawn inside] at entryAsks
      cases entryAsks
    exact asks (.inl (clash_left (clash e spare entryAsks)))

structure RootFolds (nums : Num → Bool) (s m : Json) : Prop where
  orderly : m.isOrderly nums
  splits : m.splits ≤ s.splits
  apart : s.typesApart → m.typesApart
  nests : m.nesting ≤ s.nesting
  overt : m = .bool false ∨ (Overt m ∧ (hasConditional s → (m.field? "if").isSome))
  empty : s = .bool false → m = .bool false
  type : ∀ t, s.field? "type" = some t → m = .bool false ∨ ∃ u, m.field? "type" = some u ∧ (u = t ∨ Named u)

lemma RootFolds.refl (ord : s.isOrderly nums) (overt : Overt s) : RootFolds nums s s :=
  ⟨ord,le_rfl,id,le_rfl,.inr ⟨overt,overt⟩,id,fun t found => .inr ⟨t,found,.inl rfl⟩⟩

lemma splitsAt_erase (sorted : fs.Sorted) (key other : String) :
    splitsAt (fs.erase key) other = if key = other then 0 else splitsAt fs other := by
  unfold splitsAt
  rw [get?_erase sorted]
  split <;> rfl

lemma yields_foldAllOfRoot (meeting : RootMeeting nums inv recur) (ord : s.isOrderly nums) :
    Yields inv (foldAllOf recur s path) (RootFolds nums s) := by
  unfold foldAllOf
  split
  · next fs =>
    have sorted := (orderly_obj.mp ord).1
    split
    · next es found =>
      have entriesOrderly := orderly_arr.mp (orderly_get? ord found)
      have total : (obj fs).splits = (obj (erase fs "allOf")).splits + splitsItems es := by
        rw [splits_eq sorted,splits_eq (sorted_erase sorted),splitsAt_erase sorted,splitsAt_erase sorted,
          splitsAt_erase sorted,if_pos rfl,if_neg (by decide),if_neg (by decide)]
        have own : splitsAt fs "allOf" = splitsItems es := by
          unfold splitsAt
          rw [found]
          rfl
        omega
      -- the entries still to come have not been counted yet
      refine .mono (.foldlM (motive := fun rest m => (∀ e ∈ rest, e ∈ es) ∧
        m.isOrderly nums ∧ m.splits + splitsItems rest ≤ (obj fs).splits ∧
        ((obj fs).typesApart → m.typesApart) ∧ m.nesting ≤ (obj fs).nesting ∧
        (m = .bool false ∨ (Overt m ∧ (hasConditional (obj fs) → (m.field? "if").isSome ∨ ∃ e ∈ rest, hasConditional e))) ∧
        ∀ t, get? fs "type" = some t → m = .bool false ∨ ∃ u, m.field? "type" = some u ∧ (u = t ∨ Named u))
        ?_ es _ ?_) ?_
      · rintro entry rest m ⟨within,mOrderly,count,apart,nests,overt,type⟩
        have inside := within entry mem_cons_self
        refine (meeting.merged m entry path mOrderly (entriesOrderly entry inside)).mono fun n meets => ⟨?_,meets.orderly,?_,?_,?_,?_,?_⟩
        · exact fun e mem => within e (.tail _ mem)
        · have fewer := meets.splits
          simp only [splitsItems] at count
          omega
        · intro all
          refine meets.apart (apart all) ?_
          exact ((typesApart_obj sorted).mp all).entries "allOf" (by decide) es found entry inside
        · exact le_trans meets.nests (max_le nests (under_allOf.mp (under_get? le_rfl found) entry inside))
        · rcases overt with rfl | ⟨_,asked⟩
          · exact .inl (meets.empty (.inl rfl))
          refine meets.overt.imp_right ?_
          rintro ⟨overt,asks⟩
          refine ⟨overt,fun conditional => ?_⟩
          rcases asked conditional with root | ⟨e,mem,entryAsks⟩
          · exact .inl (asks (.inl (hasConditional_of_if root)))
          rcases mem_cons.mp mem with rfl | later
          · exact .inl (asks (.inr entryAsks))
          · exact .inr ⟨e,later,entryAsks⟩
        intro t atType
        rcases type t atType with rfl | ⟨u,atU,narrowed⟩
        · exact .inl (meets.empty (.inl rfl))
        rcases meets.type u atU with none | ⟨w,atW,again⟩
        · exact .inl none
        refine .inr ⟨w,atW,?_⟩
        rcases again with rfl | named
        · exact narrowed
        · exact .inr named
      · refine ⟨fun _ mem => mem,orderly_erase ord,le_of_eq total.symm,fun all => ?_,?_,?_,fun t atType => ?_⟩
        · have apart := (typesApart_obj sorted).mp all
          refine (typesApart_obj (sorted_erase sorted)).mpr ⟨fun t at_ => ?_,fun key root list at_ => ?_⟩
          · rw [get?_erase sorted] at at_
            exact apart.type t at_
          rw [get?_erase sorted] at at_
          split at at_
          · cases at_
          · exact apart.entries key root list at_
        · exact nesting_le.mpr fun field inside => nesting_le.mp le_rfl field (mem_erase inside)
        · refine .inr ⟨fun conditional => ?_,fun conditional => ?_⟩
          · refine (hasConditional_iff.mp conditional).resolve_right ?_
            rintro ⟨e,mem,_⟩
            rw [listAt,get?_erase_self sorted] at mem
            cases mem
          · rcases hasConditional_iff.mp conditional with root | ⟨e,mem,asks⟩
            · exact .inl ((congrArg isSome (get?_erase_other (by decide))).trans root)
            · rw [listAt,found] at mem
              exact .inr ⟨e,mem,hasConditional_of_if asks⟩
        · exact .inr ⟨t,(get?_erase_other (by decide)).trans atType,.inl rfl⟩
      · rintro m ⟨_,mOrderly,count,apart,nests,overt,type⟩
        refine ⟨mOrderly,count,apart,nests,overt.imp_right ?_,fun none => (by cases none),type⟩
        rintro ⟨shown,asks⟩
        refine ⟨shown,fun conditional => (asks conditional).resolve_right ?_⟩
        rintro ⟨_,mem,_⟩
        cases mem
    next unlisted =>
    refine .pure (.refl ord fun conditional => (hasConditional_iff.mp conditional).resolve_right ?_)
    rintro ⟨e,mem,_⟩
    obtain ⟨list,found,_⟩ := mem_listAt.mp mem
    exact unlisted list found
  · next notObject =>
    refine .pure (.refl ord fun conditional => ?_)
    cases s with
    | obj fs => exact absurd rfl (notObject fs)
    | _ => cases conditional

lemma meeting_stepRoot (meeting : RootMeeting nums inv recur)
    (steady : Lasting inv lookup) : RootMeeting nums inv (step lookup recur) := by
  refine ⟨meeting.whole,?_⟩
  intro a b path aOrd bOrd
  refine .bind (yields_foldAllOfRoot meeting aOrd) fun a' aFolds => ?_
  refine .bind (yields_foldAllOfRoot meeting bOrd) fun b' bFolds => ?_
  have lift {m} (meets : RootMeets nums a' b' m) : RootMeets nums a b m := by
    refine ⟨meets.orderly,?_,fun aApart bApart => meets.apart (aFolds.apart aApart) (bFolds.apart bApart),
      le_trans meets.nests (max_le_max aFolds.nests bFolds.nests),?_,
      fun same => meets.empty (same.imp aFolds.empty bFolds.empty),fun t found => ?_⟩
    · have := meets.splits
      have := aFolds.splits
      have := bFolds.splits
      omega
    · rcases aFolds.overt with none | ⟨_,aAsks⟩
      · exact .inl (meets.empty (.inl none))
      rcases bFolds.overt with none | ⟨_,bAsks⟩
      · exact .inl (meets.empty (.inr none))
      exact meets.overt.imp_right fun ⟨overt,asks⟩ => ⟨overt,fun conditional =>
        asks (conditional.imp (fun c => hasConditional_of_if (aAsks c)) fun c => hasConditional_of_if (bAsks c))⟩
    rcases aFolds.type t found with none | ⟨u,atU,narrowed⟩
    · exact .inl (meets.empty (.inl none))
    rcases meets.type u atU with none | ⟨w,atW,again⟩
    · exact .inl none
    refine .inr ⟨w,atW,?_⟩
    rcases again with rfl | named
    · exact narrowed
    · exact .inr named
  have nothing : RootMeets nums a' b' (.bool false) :=
    ⟨rfl,Nat.zero_le _,fun _ _ => rfl,Nat.zero_le _,.inl rfl,fun _ => rfl,fun _ _ => .inl rfl⟩
  split
  · exact .pure (lift nothing)
  · exact .pure (lift nothing)
  · refine .pure (lift ⟨bFolds.orderly,Nat.le_add_left _ _,fun _ apart => apart,le_max_right _ _,
      bFolds.overt.imp_right fun ⟨overt,_⟩ => ⟨overt,fun conditional => overt (conditional.resolve_left nofun)⟩,
      fun same => same.resolve_left nofun,fun t found => ?_⟩)
    cases found
  · exact .pure (lift ⟨aFolds.orderly,Nat.le_add_right _ _,fun apart _ => apart,le_max_left _ _,
      aFolds.overt.imp_right fun ⟨overt,_⟩ => ⟨overt,fun conditional => overt (conditional.resolve_right nofun)⟩,
      fun same => same.resolve_right nofun,fun t found => .inr ⟨t,found,.inl rfl⟩⟩)
  · next left right =>
    refine .bind (yields_objectsRoot meeting steady aFolds.orderly bFolds.orderly) ?_
    rintro made ⟨ord,rooted⟩
    have lSorted := (orderly_obj.mp aFolds.orderly).1
    have rSorted := (orderly_obj.mp bFolds.orderly).1
    obtain ⟨lOvert,_⟩ := aFolds.overt.resolve_left nofun
    obtain ⟨rOvert,_⟩ := bFolds.overt.resolve_left nofun
    refine .pure (lift ⟨ord,rooted.splits,fun aApart bApart => ?_,rooted.nests,.inr ⟨rooted.overt lOvert rOvert,
      fun conditional => rooted.asks (conditional.imp lOvert rOvert)⟩,fun same => by simp at same,fun t found => ?_⟩)
    · exact (typesApart_obj (orderly_obj.mp ord).1).mpr
        (rooted.apart ((typesApart_obj lSorted).mp aApart) ((typesApart_obj rSorted).mp bApart))
    have stems := rooted.type
    rw [show get? left "type" = some t from found] at stems
    generalize get? right "type" = atR at stems
    generalize isMade : get? made "type" = atMade at stems
    cases stems with
    | left => exact .inr ⟨t,isMade,.inl rfl⟩
    | both _ r m ruled =>
      refine .inr ⟨m,isMade,?_⟩
      rcases ruled with ⟨_,rfl⟩ | ⟨_,made⟩
      · exact .inl rfl
      · exact .inr (named_types made)
  all_goals exact .conflict trivial

lemma meeting_mergeRoot (whole : ∀ w, nums (.whole w)) (steady : Lasting inv lookup) (fuel : Nat) :
    RootMeeting nums inv (mergeWithin lookup fuel) := by
  induction fuel with
  | zero => exact ⟨whole,fun _ _ _ _ _ => .outOfFuel trivial⟩
  | succ fuel ih => exact meeting_stepRoot ih steady

lemma ensures_mergeRoot (whole : ∀ w, nums (.whole w)) (steady : Lasting inv lookup)
    (aOrd : a.isOrderly nums) (bOrd : b.isOrderly nums) :
    Ensures inv (merge lookup a b) fun result => ∀ m, result = .ok m → m.isOrderly nums ∧
      m.splits ≤ a.splits + b.splits ∧ (a.typesApart → b.typesApart → m.typesApart) := by
  refine .mono (ensures_merge_of_runs (.mono ((meeting_mergeRoot whole steady (budget a b)).merged a b "" aOrd bOrd)
    fun m meets => ⟨meets.orderly,meets.splits,meets.apart⟩) fun _ => ⟨?_,?_,fun aApart bApart => ?_⟩) fun _ facts => facts.1
  · exact orderly_single (orderly_arr.mpr (by simp [aOrd,bOrd]))
  · change splitsItems [a,b] ≤ _
    simp [splitsItems]
  refine (typesApart_obj (sorted_single _ _)).mpr ⟨nofun,fun key _ es found => ?_⟩
  rw [get?_cons] at found
  split at found
  · cases found
    simp [aApart,bApart]
  · cases found

structure OneType (s t m : Json) : Prop where
  named : ∀ u, m.field? "type" = some u → Named u
  apart : s.typesApart → ∀ ns, m.field? "type" = some (.arr ns) → m.typesApart
  one : s.typesApart → ∀ name, t = .str name → ∀ u, m.field? "type" = some u → ∃ only, u = .str only

lemma apart_of_listed {s t : Json} {types : List Json} (ord : s.isOrderly nums)
    (listed : s.field? "type" = some (.arr types)) (mem : t ∈ types) (apart : s.typesApart) : namesApart t := by
  cases s with
  | obj fs => exact (((typesApart_obj (orderly_obj.mp ord).1).mp apart).type _ listed).2 t mem
  | _ => cases listed

lemma entries_type (t : Json) : EntriesApart [("type",t)] := by
  intro key root es found
  fin_cases root <;> cases found

lemma yields_stepType (path : String) (meeting : RootMeeting nums inv recur)
    (steady : Lasting inv lookup) {s t : Json} {types : List Json}
    (ord : s.isOrderly nums) (listed : s.field? "type" = some (.arr types)) (mem : t ∈ types) :
    Yields inv (step lookup recur (.single "type" t) s path) (OneType s t) := by
  have typesOrderly : (arr types).isOrderly nums := by
    cases s with
    | obj fs => exact orderly_get? ord listed
    | _ => cases listed
  have tOrderly := orderly_item typesOrderly mem
  refine .bind (.pure (Eq.refl (single "type" t))) fun a' same => ?_
  subst same
  refine .bind (yields_foldAllOfRoot meeting ord) fun b' folds => ?_
  rcases folds.type _ listed with rfl | ⟨b,atB,narrowed⟩
  · exact .pure ⟨nofun,nofun,nofun⟩
  cases b' with
  | obj right =>
    refine .bind (yields_objectsRoot meeting steady (orderly_single tOrderly) folds.orderly) ?_
    rintro made ⟨madeOrderly,rooted⟩
    -- the type of the rest is the whole list or was narrowed to names, and only the latter can be one of its types
    have met u (found : get? made "type" = some u) : Named u ∧
        (Apart right → namesApart t → namesApart u ∧ ∀ name, t = .str name → ∃ only, u = .str only) := by
      have stems := rooted.type
      rw [show get? right "type" = some b from atB,found] at stems
      cases stems with
      | both _ _ _ ruled =>
        rcases ruled with ⟨equal,rfl⟩ | ⟨_,common⟩
        · rcases narrowed with rfl | named
          · exact absurd equal (not_deepEqual_own mem)
          obtain rfl := named.eq_of_deepEqual equal
          exact ⟨named,fun _ tApart => ⟨tApart,fun name is => ⟨name,is⟩⟩⟩
        refine ⟨named_types common,fun rApart tApart => ⟨?_,?_⟩⟩
        · exact namesApart_types tApart (rApart.type b atB).1 common
        rintro name rfl
        exact types_single (rApart.type b atB).1 common
    have sides : s.typesApart → Apart right ∧ namesApart t := fun apart =>
      ⟨(typesApart_obj (orderly_obj.mp folds.orderly).1).mp (folds.apart apart),apart_of_listed ord listed mem apart⟩
    refine .pure ⟨fun u found => (met u found).1,fun apart _ _ => ?_,fun apart name is u found => ?_⟩
    · obtain ⟨rApart,tApart⟩ := sides apart
      refine (typesApart_obj (orderly_obj.mp madeOrderly).1).mpr
        ⟨fun u found => ⟨((met u found).2 rApart tApart).1,fun inner inside => ?_⟩,
          rooted.entries (entries_type t) rApart.entries⟩
      obtain ⟨name,rfl⟩ := (met u found).1.inner inner inside
      exact namesApart_str name
    · obtain ⟨rApart,tApart⟩ := sides apart
      exact ((met u found).2 rApart tApart).2 name is
  | _ => cases atB

lemma ensures_mergeType (whole : ∀ w, nums (.whole w)) (steady : Lasting inv lookup) {s t : Json} {types : List Json}
    (ord : s.isOrderly nums) (listed : s.field? "type" = some (.arr types)) (mem : t ∈ types) :
    Ensures inv (merge lookup (.single "type" t) s) fun result => ∀ m, result = .ok m → OneType s t m := by
  obtain ⟨fuel,enough⟩ := budget_succ (.single "type" t) s
  have yields : Yields inv (mergeWithin lookup (budget (.single "type" t) s) (.single "type" t) s "") (OneType s t) := by
    rw [enough]
    exact yields_stepType "" (meeting_mergeRoot whole steady fuel) steady ord listed mem
  refine .mono (ensures_merge_of_runs yields fun _ => ?_) fun _ facts => facts.1
  exact ⟨nofun,nofun,nofun⟩
end Intersection
end SchemaOrder
