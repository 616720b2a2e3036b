import SchemaOrder.Proofs.Checks
namespace SchemaOrder
open Keyword List Fields Json Replacement SchemaOrder.Normal Schemas Canonical
-- Schemas that differ in annotations only, at places where annotations have no say.
def isOwn (key : String) (v : Json) : Bool :=
  shape key != .note && !rootLists.contains key && (key != "properties" || v.isObj)

def Anchored (fs : Fields) : Prop := ∃ key v, fs.get? key = some v ∧ isOwn key v

def SameNotes (f g : Fields) : Prop := ∀ key, shape key = .note → f.get? key = g.get? key
mutual
inductive Kin : Bool → Json → Json → Prop where
  | leaf {grounded : Bool} {v : Json} (plain : v.isObj = false) (ord : v.Orderly) : Kin grounded v v
  | obj {grounded : Bool} {f g : Fields} (left : (obj f).Orderly) (right : (obj g).Orderly)
      (notes : grounded → Anchored f ∨ SameNotes f g)
      (keyed : ∀ key, shape key ≠ .note → KinAt grounded key (f.get? key) (g.get? key)) : Kin grounded (.obj f) (.obj g)

inductive KinAt : Bool → String → Option Json → Option Json → Prop where
  | same {grounded : Bool} {key : String} (o : Option Json) : KinAt grounded key o o
  | members {grounded : Bool} {l r : Fields} (each : KinMembers l r) :
      KinAt grounded "properties" (some (.obj l)) (some (.obj r))
  | item {grounded : Bool} {l r : Json} (one : Kin false l r) : KinAt grounded "items" (some l) (some r)
  | tuple {grounded : Bool} {l r : List Json} (each : KinEach false l r) :
      KinAt grounded "items" (some (.arr l)) (some (.arr r))
  | further {grounded : Bool} {l r : Json} (one : Kin false l r) : KinAt grounded "additionalItems" (some l) (some r)
  | entries {grounded : Bool} {l r : List Json} (each : KinEach grounded l r) :
      KinAt grounded "allOf" (some (.arr l)) (some (.arr r))
  | named {grounded : Bool} {l r : Fields} (each : KinMembers l r) :
      KinAt grounded "definitions" (some (.obj l)) (some (.obj r))

inductive KinEach : Bool → List Json → List Json → Prop where
  | nil {grounded : Bool} : KinEach grounded [] []
  | cons {grounded : Bool} {a b : Json} {l r : List Json} (first : Kin grounded a b) (rest : KinEach grounded l r) :
      KinEach grounded (a :: l) (b :: r)

inductive KinMembers : Fields → Fields → Prop where
  | nil : KinMembers [] []
  | cons {name : String} {a b : Json} {l r : Fields} (first : Kin false a b) (rest : KinMembers l r) :
      KinMembers ((name,a) :: l) ((name,b) :: r)
end
structure KinFields (grounded : Bool) (f g : Fields) : Prop where
  left : (obj f).Orderly
  right : (obj g).Orderly
  notes : grounded → Anchored f ∨ SameNotes f g
  keyed : ∀ key, shape key ≠ .note → KinAt grounded key (f.get? key) (g.get? key)

def Keyword.varying : List String := ["properties","items","additionalItems","allOf","definitions"]

def Keyword.isFixed (key : String) : Bool := shape key != .note && !varying.contains key
section Reading
variable {grounded : Bool} {f g : Fields} {a b v w : Json} {key : String} {o p : Option Json}
lemma kin_obj : Kin grounded (.obj f) (.obj g) ↔ KinFields grounded f g := by
  refine ⟨fun kin => ?_,fun kin => .obj kin.left kin.right kin.notes kin.keyed⟩
  cases kin with
  | leaf plain => cases plain
  | obj left right notes keyed => exact ⟨left,right,notes,keyed⟩

lemma Kin.cases (kin : Kin grounded a b) :
    (a = b ∧ a.isObj = false) ∨ ∃ f g, a = .obj f ∧ b = .obj g ∧ KinFields grounded f g := by
  cases kin with
  | leaf plain => exact .inl ⟨rfl,plain⟩
  | obj left right notes keyed => exact .inr ⟨_,_,rfl,rfl,left,right,notes,keyed⟩

lemma Kin.fields (kin : Kin grounded a b) : Option.Rel (KinFields grounded) a.fields? b.fields? := by
  cases kin with
  | leaf plain =>
    cases a with
    | obj => cases plain
    | _ => exact .none
  | obj left right notes keyed => exact .some ⟨left,right,notes,keyed⟩

lemma Kin.left (kin : Kin grounded a b) : a.Orderly := by
  cases kin with
  | leaf _ ord => exact ord
  | obj left => exact left

lemma Kin.right (kin : Kin grounded a b) : b.Orderly := by
  cases kin with
  | leaf _ ord => exact ord
  | obj _ right => exact right

lemma KinFields.refl (ord : (obj f).Orderly) : KinFields grounded f f :=
  ⟨ord,ord,fun _ => .inr fun _ _ => rfl,fun _ _ => .same _⟩

lemma Kin.refl (ord : v.Orderly) : Kin grounded v v := by
  cases v with
  | obj fs => exact kin_obj.mpr (.refl ord)
  | _ => exact .leaf rfl ord

lemma KinEach.refl (orderlies : ∀ v ∈ l, v.Orderly) : KinEach grounded l l := by
  induction l with
  | nil => exact .nil
  | cons v rest ih =>
    exact .cons (.refl (orderlies v mem_cons_self)) (ih fun w mem => orderlies w (.tail _ mem))

lemma KinMembers.refl (orderlies : ∀ e ∈ f, e.2.Orderly) : KinMembers f f := by
  induction f with
  | nil => exact .nil
  | cons e rest ih =>
    exact .cons (.refl (orderlies e mem_cons_self)) (ih fun w mem => orderlies w (.tail _ mem))

lemma KinFields.leftSorted (kin : KinFields grounded f g) : f.Sorted := (orderly_obj.mp kin.left).1

lemma KinFields.rightSorted (kin : KinFields grounded f g) : g.Sorted := (orderly_obj.mp kin.right).1

lemma KinAt.closed (kin : KinAt grounded key o p) (closed : key ∉ varying) : o = p := by
  cases kin with
  | same => rfl
  | members | item | tuple | further | entries | named => exact absurd (by decide) closed

lemma fixed_iff : isFixed key ↔ shape key ≠ .note ∧ key ∉ varying := by
  simp [isFixed]

lemma KinFields.fixed (kin : KinFields grounded f g) (key : String) (fixed : isFixed key) : f.get? key = g.get? key :=
  (kin.keyed key (fixed_iff.mp fixed).1).closed (fixed_iff.mp fixed).2

lemma KinAt.rel (kin : KinAt grounded key o p) : Option.Rel (fun v w => KinAt grounded key (some v) (some w)) o p := by
  cases kin with
  | same o =>
    cases o with
    | none => exact .none
    | some v => exact .some (.same _)
  | members each => exact .some (.members each)
  | item one => exact .some (.item one)
  | tuple each => exact .some (.tuple each)
  | further one => exact .some (.further one)
  | entries each => exact .some (.entries each)
  | named each => exact .some (.named each)

lemma isSome_of_rel {related : Json → Json → Prop} (both : Option.Rel related o p) : o.isSome = p.isSome := by
  cases both <;> rfl

-- Only the entries of `allOf` are asked to be grounded.
lemma KinAt.regard (kin : KinAt grounded key o p) (single : key ≠ "allOf") (strict : Bool) : KinAt strict key o p := by
  cases kin with
  | same => exact .same _
  | members each => exact .members each
  | item one => exact .item one
  | tuple each => exact .tuple each
  | further one => exact .further one
  | entries => exact absurd rfl single
  | named each => exact .named each

lemma KinFields.has (kin : KinFields grounded f g) (effective : shape key ≠ .note) : f.has key = g.has key :=
  isSome_of_rel (kin.keyed key effective).rel

lemma KinFields.declared (kin : KinFields grounded f g) :
    Option.Rel KinMembers ((f.get? "properties").bind fields?) ((g.get? "properties").bind fields?) := by
  have at_ := kin.keyed "properties" (by decide)
  generalize name : "properties" = key at at_
  generalize found : f.get? key = o at at_
  generalize g.get? key = p at at_
  cases at_ with
  | same =>
    cases o with
    | none => exact .none
    | some v =>
      cases v with
      | obj map => exact .some (.refl (orderly_obj.mp (orderly_get? kin.left found)).2)
      | _ => exact .none
  | members each => exact .some each
  | item | tuple | further | entries | named => exact absurd name (by decide)

lemma KinFields.further (kin : KinFields grounded f g) :
    Option.Rel (Kin false) (f.get? "additionalItems") (g.get? "additionalItems") := by
  have at_ := kin.keyed "additionalItems" (by decide)
  generalize name : "additionalItems" = key at at_
  generalize found : f.get? key = o at at_
  generalize g.get? key = p at at_
  cases at_ with
  | same =>
    cases o with
    | none => exact .none
    | some v => exact .some (.refl (orderly_get? kin.left found))
  | further one => exact .some one
  | item | tuple | members | entries | named => exact absurd name (by decide)

inductive KinItems : Json → Json → Prop where
  | tuple {l r : List Json} (each : KinEach false l r) : KinItems (.arr l) (.arr r)
  | single {l r : Json} (left : l.isArr = false) (right : r.isArr = false) (one : Kin false l r) : KinItems l r

lemma Kin.items (kin : Kin false v w) : KinItems v w := by
  rcases kin.cases with ⟨rfl,plain⟩ | ⟨f,g,rfl,rfl,_⟩
  · cases v with
    | arr list => exact .tuple (.refl (orderly_arr.mp kin.left))
    | _ => exact .single rfl rfl kin
  · exact .single rfl rfl kin

lemma KinFields.items (kin : KinFields grounded f g) : Option.Rel KinItems (f.get? "items") (g.get? "items") := by
  have at_ := kin.keyed "items" (by decide)
  generalize name : "items" = key at at_
  generalize found : f.get? key = o at at_
  generalize g.get? key = p at at_
  cases at_ with
  | same =>
    cases o with
    | none => exact .none
    | some v => exact .some (Kin.refl (orderly_get? kin.left found)).items
  | item one => exact .some one.items
  | tuple each => exact .some (.tuple each)
  | further | members | entries | named => exact absurd name (by decide)

lemma KinFields.entries (kin : KinFields grounded f g) :
    (∃ l r, f.get? "allOf" = some (.arr l) ∧ g.get? "allOf" = some (.arr r) ∧ KinEach grounded l r) ∨
      (f.get? "allOf" = g.get? "allOf" ∧ ∀ l, f.get? "allOf" ≠ some (.arr l)) := by
  have at_ := kin.keyed "allOf" (by decide)
  generalize name : "allOf" = key at at_ ⊢
  generalize found : f.get? key = o at at_
  generalize g.get? key = p at at_
  cases at_ with
  | same =>
    by_cases listed : ∃ l, o = some (.arr l)
    · obtain ⟨l,rfl⟩ := listed
      exact .inl ⟨l,l,rfl,rfl,.refl (orderly_arr.mp (orderly_get? kin.left found))⟩
    · exact .inr ⟨rfl,fun l is => listed ⟨l,is⟩⟩
  | entries each => exact .inl ⟨_,_,rfl,rfl,each⟩
  | item | tuple | further | members | named => exact absurd name (by decide)

lemma KinMembers.get? (kin : KinMembers f g) (name : String) : Option.Rel (Kin false) (f.get? name) (g.get? name) := by
  induction f generalizing g with
  | nil => cases kin; exact .none
  | cons e rest ih =>
    cases kin with
    | cons first later =>
      rw [get?_cons,get?_cons]
      split
      · exact .some first
      · exact ih later

lemma KinMembers.has (kin : KinMembers f g) (name : String) : f.has name = g.has name := isSome_of_rel (kin.get? name)

lemma KinMembers.put (kin : KinMembers f g) (one : Kin false v w) (name : String) :
    KinMembers (f.put name v) (g.put name w) := by
  induction f generalizing g with
  | nil => cases kin; exact .cons one .nil
  | cons e rest ih =>
    cases kin with
    | cons first later =>
      unfold put
      split
      · exact .cons one later
      split
      · exact .cons one (.cons first later)
      · exact .cons first (ih later)
end Reading
-- The recursion follows the proof, down the entries of `allOf`; everything else is loose already.
mutual
lemma Kin.loose : Kin grounded a b → Kin false a b
  | .leaf plain ord => .leaf plain ord
  | .obj left right _ keyed =>
    .obj left right nofun fun key effective => (keyed key effective).loose

lemma KinAt.loose : KinAt grounded key o p → KinAt false key o p
  | .same o => .same o
  | .members each => .members each
  | .item one => .item one
  | .tuple each => .tuple each
  | .further one => .further one
  | .entries each => .entries each.loose
  | .named each => .named each

lemma KinEach.loose : KinEach grounded l r → KinEach false l r
  | .nil => .nil
  | .cons first rest => .cons first.loose rest.loose
end
lemma KinFields.loose (kin : KinFields grounded f g) : KinFields false f g := kin_obj.mp (kin_obj.mpr kin).loose

inductive Aligned (related : String → Json → Json → Prop) : Fields → Fields → Prop where
  | nil : Aligned related [] []
  | both {key : String} {v w : Json} {f g : Fields} (here : shape key ≠ .note → related key v w)
      (rest : Aligned related f g) : Aligned related ((key,v) :: f) ((key,w) :: g)
  | left {key : String} {v : Json} {f g : Fields} (note : shape key = .note) (rest : Aligned related f g) :
      Aligned related ((key,v) :: f) g
  | right {key : String} {w : Json} {f g : Fields} (note : shape key = .note) (rest : Aligned related f g) :
      Aligned related f ((key,w) :: g)
namespace Aligned
variable {related : String → Json → Json → Prop} {f g rest : Fields} {key k : String} {v : Json}
lemma absent (sorted : Sorted ((k,v) :: rest)) (below : key < k) : get? ((k,v) :: rest) key = none := by
  cases found : get? ((k,v) :: rest) key with
  | none => rfl
  | some w =>
    rcases mem_cons.mp (mem_of_get? found) with same | later
    · cases same
      exact absurd below (lt_irrefl _)
    · exact absurd (lt_trans below ((pairwise_cons.mp sorted).1 _ later)) (lt_irrefl _)

lemma past (note : shape k = .note) (effective : shape key ≠ .note) : get? ((k,v) :: rest) key = get? rest key := by
  rw [get?_cons,if_neg]
  rintro rfl
  exact effective note

lemma lone (each : ∀ key, shape key ≠ .note → Option.Rel (related key) (f.get? key) (g.get? key))
    (differ : (f.get? k).isSome ≠ (g.get? k).isSome) : shape k = .note := by
  apply Classical.byContradiction
  intro effective
  have here := each k effective
  generalize f.get? k = o at here differ
  generalize g.get? k = p at here differ
  cases here <;> exact differ rfl

lemma of_get? : ∀ (f g : Fields), f.Sorted → g.Sorted →
    (∀ key, shape key ≠ .note → Option.Rel (related key) (f.get? key) (g.get? key)) → Aligned related f g
  | [], [], _, _, _ => .nil
  | [], (k,w) :: others, lSorted, rSorted, each => by
    have note := lone each (k := k) (by simp [get?_cons])
    refine .right note (of_get? [] others lSorted (pairwise_cons.mp rSorted).2 fun key effective => by
      simpa only [past note effective] using each key effective)
  | (k,v) :: rest, [], lSorted, rSorted, each => by
    have note := lone each (k := k) (by simp [get?_cons])
    refine .left note (of_get? rest [] (pairwise_cons.mp lSorted).2 rSorted fun key effective => by
      simpa only [past note effective] using each key effective)
  | (k,v) :: rest, (k',w) :: others, lSorted, rSorted, each => by
    have lTail := (pairwise_cons.mp lSorted).2
    have rTail := (pairwise_cons.mp rSorted).2
    by_cases same : k = k'
    · subst same
      refine .both (fun effective => ?_) (of_get? rest others lTail rTail fun key effective => ?_)
      · have here := each k effective
        rw [get?_cons,get?_cons,if_pos rfl,if_pos rfl] at here
        cases here with
        | some related => exact related
      have whole := each key effective
      rw [get?_cons,get?_cons] at whole
      split at whole
      · next same =>
        rw [← same,get?_tail lSorted,get?_tail rSorted]
        exact .none
      · exact whole
    · by_cases below : k < k'
      · have note := lone each (k := k) (by rw [absent rSorted below]; simp [get?_cons])
        refine .left note (of_get? rest _ lTail rSorted fun key effective => by
          simpa only [past note effective] using each key effective)
      have above := key_above below (symm same)
      have note := lone each (k := k') (by rw [absent lSorted above]; simp [get?_cons])
      refine .right note (of_get? _ others lSorted rTail fun key effective => by
        simpa only [past note effective] using each key effective)
termination_by f g => f.length + g.length
end Aligned
lemma KinFields.aligned (kin : KinFields grounded f g) : Aligned (fun key v w => KinAt grounded key (some v) (some w)) f g :=
  .of_get? f g kin.leftSorted kin.rightSorted fun key effective => (kin.keyed key effective).rel
namespace Normal
variable {f g : Fields} {key : String}
lemma collapseEnum_congr (lSorted : f.Sorted) (rSorted : g.Sorted) (const : f.get? "const" = g.get? "const")
    (enum : f.get? "enum" = g.get? "enum") (here : f.get? key = g.get? key) :
    (collapseEnum f).get? key = (collapseEnum g).get? key := by
  unfold collapseEnum
  rw [const,enum]
  split
  · rw [get?_put,get?_put,get?_erase lSorted,get?_erase rSorted,here]
  · exact here

lemma dropEnum_congr (lSorted : f.Sorted) (rSorted : g.Sorted) (const : f.get? "const" = g.get? "const")
    (enum : f.get? "enum" = g.get? "enum") (here : f.get? key = g.get? key) : (dropEnum f).get? key = (dropEnum g).get? key := by
  unfold dropEnum
  rw [const,enum]
  split
  · split
    · rw [get?_erase lSorted,get?_erase rSorted,here]
    · exact here
  · exact here

lemma inferType_congr (const : f.get? "const" = g.get? "const") (type : f.get? "type" = g.get? "type")
    (here : f.get? key = g.get? key) : (inferType f).get? key = (inferType g).get? key := by
  unfold inferType
  rw [const,type]
  split
  · rw [get?_put,get?_put,here]
  · exact here

lemma settle_congr (lSorted : f.Sorted) (rSorted : g.Sorted) (const : f.get? "const" = g.get? "const")
    (enum : f.get? "enum" = g.get? "enum") (type : f.get? "type" = g.get? "type") (here : f.get? key = g.get? key) :
    (settle f).get? key = (settle g).get? key := by
  have collapsed : ∀ {key}, f.get? key = g.get? key → (collapseEnum f).get? key = (collapseEnum g).get? key :=
    collapseEnum_congr lSorted rSorted const enum
  have dropped : ∀ {key}, f.get? key = g.get? key →
      (dropEnum (collapseEnum f)).get? key = (dropEnum (collapseEnum g)).get? key := fun here =>
    dropEnum_congr (sorted_collapseEnum lSorted) (sorted_collapseEnum rSorted) (collapsed const) (collapsed enum)
      (collapsed here)
  exact inferType_congr (dropped const) (dropped type) (dropped here)

lemma anchored_settle (anchored : Anchored f) : Anchored (settle f) := by
  have collapsed : Anchored (collapseEnum f) := by
    unfold collapseEnum
    split
    · exact ⟨"const",_,get?_put_self _ _ _,rfl⟩
    · exact anchored
  have dropped : Anchored (dropEnum (collapseEnum f)) := by
    unfold dropEnum
    split
    · next constant _ found _ =>
      split
      · exact ⟨"const",constant,(get?_erase_other (by decide)).trans found,rfl⟩
      · exact collapsed
    · exact collapsed
  unfold settle
  unfold inferType
  split
  · exact ⟨"type",_,get?_put_self _ _ _,rfl⟩
  · exact dropped
end Normal
lemma anchored_mapFields {normal : Json → Json} (anchored : Anchored f) : Anchored (mapFields normal f) := by
  obtain ⟨key,v,found,own⟩ := anchored
  refine ⟨key,mapKeyword normal key v,by rw [get?_mapFields,found]; rfl,?_⟩
  by_cases props : key = "properties"
  · subst props
    cases v with
    | obj => rfl
    | _ => cases own
  have declared : (key != "properties") := by simpa using props
  unfold isOwn at own ⊢
  rw [declared] at own ⊢
  exact own
section Normal
variable {grounded : Bool} {f g : Fields}
lemma kinFields_normalize (left : (obj f).Orderly) (right : (obj g).Orderly)
    (notes : grounded → Anchored f ∨ SameNotes f g) (literal : ∀ key ∈ ["const","enum","type"], f.get? key = g.get? key)
    (keyed : ∀ key, shape key ≠ .note → KinAt grounded key ((f.get? key).map (mapKeyword normalize key))
      ((g.get? key).map (mapKeyword normalize key))) :
    KinFields grounded (settle (mapFields normalize f)) (settle (mapFields normalize g)) := by
  have lSorted := sorted_mapFields (f := normalize) (orderly_obj.mp left).1
  have rSorted := sorted_mapFields (f := normalize) (orderly_obj.mp right).1
  have mapped {key} (here : f.get? key = g.get? key) :
      (mapFields normalize f).get? key = (mapFields normalize g).get? key := by
    rw [get?_mapFields,get?_mapFields,here]
  have settled : ∀ {key}, f.get? key = g.get? key → (settle (mapFields normalize f)).get? key =
      (settle (mapFields normalize g)).get? key := fun here =>
    settle_congr lSorted rSorted (mapped (literal "const" (by decide))) (mapped (literal "enum" (by decide)))
      (mapped (literal "type" (by decide))) (mapped here)
  refine ⟨?_,?_,fun strict => ?_,fun key effective => ?_⟩
  · exact normalize_obj f ▸ orderly_normalize left
  · exact normalize_obj g ▸ orderly_normalize right
  · refine (notes strict).imp (fun anchored => anchored_settle (anchored_mapFields anchored)) ?_
    exact fun same key note => settled (same key note)
  by_cases reads : key ∈ ["const","enum","type"]
  · rw [settled (literal key reads)]
    exact .same _
  rw [get?_settle reads,get?_settle reads,get?_mapFields,get?_mapFields]
  exact keyed key effective
end Normal
mutual
lemma Kin.normalize : Kin grounded a b → Kin grounded a.normalize b.normalize
  | .leaf plain ord => .refl (orderly_normalize ord)
  | .obj left right notes keyed => by
    rw [normalize_obj,normalize_obj]
    refine kin_obj.mpr (kinFields_normalize left right notes (fun key reads => ?_) fun key effective =>
      (keyed key effective).normalize)
    have fixed : ∀ key ∈ ["const","enum","type"], shape key ≠ .note ∧ key ∉ varying := by decide
    exact (keyed key (fixed key reads).1).closed (fixed key reads).2

lemma KinAt.normalize : KinAt grounded key o p →
    KinAt grounded key (o.map (mapKeyword normalize key)) (p.map (mapKeyword normalize key))
  | .same o => .same _
  | .members each => .members each.normalize
  | .item one => by
    have normal := one.normalize
    rcases one.cases with ⟨rfl,_⟩ | ⟨_,_,rfl,rfl,_⟩
    · exact .same _
    · exact .item normal
  | .tuple each => .tuple each.normalize
  | .further one => .further one.normalize
  | .entries each => .entries each.normalize
  | .named each => .named each.normalize

lemma KinEach.normalize : KinEach grounded l r → KinEach grounded (l.map normalize) (r.map normalize)
  | .nil => .nil
  | .cons first rest => .cons first.normalize rest.normalize

lemma KinMembers.normalize : KinMembers l r → KinMembers (mapEntries normalize l) (mapEntries normalize r)
  | .nil => .nil
  | .cons first rest => .cons first.normalize rest.normalize
end
namespace Canonical
lemma keywords_congr (aligned : Aligned (fun key v w => formKeyword key v = formKeyword key w) f g) :
    keywords f = keywords g := by
  have dropped {key} {v} (note : shape key = .note) : formKeyword key v = none := by
    have inert : isInert key v := by
      unfold isInert
      split
      case h_5 => exact beq_iff_eq.mpr note
      all_goals cases note
    unfold formKeyword treatment
    rw [if_pos inert]
  induction aligned with
  | nil => rfl
  | @both key v w _ _ here _ ih =>
    rw [keywords_cons,keywords_cons,ih]
    by_cases note : shape key = .note
    · rw [dropped note,dropped note]
    · rw [here note]
  | left note _ ih | right note _ ih => rw [keywords_cons,dropped note]; exact ih

lemma form_congr {f g : Fields} (lSorted : f.Sorted) (rSorted : g.Sorted) (each : ∀ key, shape key ≠ .note →
    Option.Rel (fun v w => formKeyword key v = formKeyword key w) (f.get? key) (g.get? key)) : form (.obj f) = form (.obj g) := by
  rw [form_obj,form_obj,keywords_congr (.of_get? f g lSorted rSorted each)]
end Canonical
mutual
lemma Kin.form : Kin grounded a b → form a = form b
  | .leaf _ _ => rfl
  | .obj left right _ keyed =>
    form_congr (orderly_obj.mp left).1 (orderly_obj.mp right).1 fun key effective =>
      (keyed key effective).form

lemma KinAt.form : KinAt grounded key o p → Option.Rel (fun v w => formKeyword key v = formKeyword key w) o p
  | .same o => by
    cases o with
    | none => exact .none
    | some v => exact .some rfl
  | .members each => .some (congrArg unlessEmpty each.form)
  | .item one => by
    have same := one.form
    rcases one.cases with ⟨rfl,_⟩ | ⟨_,_,rfl,rfl,_⟩
    · exact .some rfl
    · exact .some (congrArg unlessTrivial same)
  | .tuple each => .some (congrArg (fun forms => some (arr forms)) each.form)
  | .further one => .some (congrArg unlessTrivial one.form)
  | .entries each => .some (congrArg (fun forms => some (arr (sortSet forms))) each.form)
  | .named each => .some (congrArg unlessEmpty each.form)

lemma KinEach.form : KinEach grounded l r → forms l = forms r
  | .nil => rfl
  | .cons first rest => by rw [forms,forms,first.form,rest.form]

lemma KinMembers.form : KinMembers l r → entries l = entries r
  | .nil => rfl
  | .cons first rest => by
    have same := first.form
    have later := rest.form
    rcases first.cases with ⟨rfl,_⟩ | ⟨_,_,rfl,rfl,_⟩
    · unfold entries
      split <;> simp_all
    · simp only [entries,same,later]
end
end SchemaOrder
