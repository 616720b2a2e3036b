import SchemaOrder.Proofs.Annotations.Merging
namespace SchemaOrder
open Keyword List Fields Json Intersection Paired
section Positions
variable {grounded strict : Bool} {f f' h h' : Fields} {path : String}
-- Clashes, closed objects and settled keywords are the same for kin, although annotations may make a schema deeper.
inductive Slot.Varies : Slot → Prop where
  | property (name : String) : Varies (.keyed "properties" name)
  | items : Varies (.single "items")
  | entry (i : Nat) : Varies (.indexed i)

inductive PairKin : Paired → Paired → Prop where
  | same (p : Paired) (fixed : isFixed p.slot.keyword) (left : p.left.Orderly) (right : p.right.Orderly) : PairKin p p
  | kin (slot : Slot) (path : String) {l l' r r' : Json} (varies : slot.Varies) (left : Kin false l l') (right : Kin false r r') :
      PairKin ⟨slot,l,r,path⟩ ⟨slot,l',r',path⟩

lemma PairKin.left (kin : PairKin p q) : Kin false p.left q.left := by
  cases kin with
  | same _ _ left => exact .refl left
  | kin _ _ _ left => exact left

lemma PairKin.right (kin : PairKin p q) : Kin false p.right q.right := by
  cases kin with
  | same _ _ _ right => exact .refl right
  | kin _ _ _ _ right => exact right

lemma PairKin.samePath (kin : PairKin p q) : p.path = q.path := by
  cases kin <;> rfl

lemma forall₂_ofMaps (left : KinMembers l l') (right : KinMembers r r') :
    Forall₂ PairKin (ofMaps "properties" path l r) (ofMaps "properties" path l' r') := by
  unfold ofMaps
  induction l generalizing l' with
  | nil => cases left; exact .nil
  | cons entry rest ih =>
    cases left with
    | @cons name a b _ _ first later =>
      have partner := right.get? name
      rw [filterMap_cons,filterMap_cons]
      dsimp only
      generalize r.get? name = o at partner
      generalize r'.get? name = p at partner
      cases partner with
      | none => exact ih later
      | some other => exact .cons (.kin _ _ (.property name) first other) (ih later)

lemma forall₂_ofTuples (left : KinEach false l l') (right : KinEach false r r') (i : Nat) :
    Forall₂ PairKin (ofTuples path i l r) (ofTuples path i l' r') := by
  induction l generalizing l' r r' i with
  | nil => cases left; exact .nil
  | cons a rest ih =>
    cases left with
    | cons first later =>
      cases right with
      | nil => exact .nil
      | cons other others => exact .cons (.kin _ _ (.entry i) first other) (ih later others (i + 1))

def pairedAt (left right : Fields) (path keyword : String) : List Paired :=
  match left.get? keyword, right.get? keyword with
  | some l, some r => ofKeyword keyword (joinPath path keyword) l r
  | _, _ => []

lemma pairedPositions_eq (left right : Fields) (path : String) (walk : Walk) :
    pairedPositions left right path walk = walk.keywords.flatMap (pairedAt left right path) := rfl

lemma pairedAt_properties (left right : Fields) : pairedAt left right path "properties" =
    match (left.get? "properties").bind fields?, (right.get? "properties").bind fields? with
  | some l, some r => ofMaps "properties" (joinPath path "properties") l r
  | _, _ => [] := by
  unfold pairedAt
  cases left.get? "properties" with
  | none => rfl
  | some l =>
    cases right.get? "properties" with
    | none => cases l <;> rfl
    | some r => cases l <;> cases r <;> rfl

lemma ofItems_singles (lPlain : l.isArr = false) (rPlain : r.isArr = false) :
    ofKeyword "items" path l r = [⟨.single "items",l,r,path⟩] := by
  cases l with
  | arr => cases lPlain
  | _ =>
    cases r with
    | arr => cases rPlain
    | _ => rfl

lemma ofItems_tupleSingle (plain : r.isArr = false) : ofKeyword "items" path (.arr tuple) r = [] := by
  cases r with
  | arr => cases plain
  | _ => rfl

lemma ofItems_singleTuple (plain : l.isArr = false) : ofKeyword "items" path l (.arr tuple) = [] := by
  cases l with
  | arr => cases plain
  | _ => rfl

lemma forall₂_ofItems (left : KinItems l l') (right : KinItems r r') :
    Forall₂ PairKin (ofKeyword "items" path l r) (ofKeyword "items" path l' r') := by
  cases left with
  | tuple lefts =>
    cases right with
    | tuple rights => exact forall₂_ofTuples lefts rights 0
    | single plain plain' =>
      rw [ofItems_tupleSingle plain,ofItems_tupleSingle plain']
      exact .nil
  | single plain plain' one =>
    cases right with
    | tuple rights =>
      rw [ofItems_singleTuple plain,ofItems_singleTuple plain']
      exact .nil
    | single otherPlain otherPlain' other =>
      rw [ofItems_singles plain otherPlain,ofItems_singles plain' otherPlain']
      exact .cons (.kin _ _ .items one other) .nil

lemma forall₂_pairedAt (left : KinFields grounded f f') (right : KinFields strict h h') {keyword : String}
    (walked : keyword = "properties" ∨ keyword = "items" ∨ isFixed keyword) :
    Forall₂ PairKin (pairedAt f h path keyword) (pairedAt f' h' path keyword) := by
  rcases walked with rfl | rfl | fixed
  · have declared := left.declared
    have others := right.declared
    rw [pairedAt_properties,pairedAt_properties]
    generalize (f.get? "properties").bind fields? = l at declared
    generalize (f'.get? "properties").bind fields? = l' at declared
    generalize (h.get? "properties").bind fields? = r at others
    generalize (h'.get? "properties").bind fields? = r' at others
    cases declared with
    | none => exact .nil
    | some own =>
      cases others with
      | none => exact .nil
      | some other => exact forall₂_ofMaps own other
  · have xs := left.items
    have others := right.items
    unfold pairedAt
    generalize f.get? "items" = l at xs
    generalize f'.get? "items" = l' at xs
    generalize h.get? "items" = r at others
    generalize h'.get? "items" = r' at others
    cases xs with
    | none => exact .nil
    | some own =>
      cases others with
      | none => exact .nil
      | some other => exact forall₂_ofItems own other
  · unfold pairedAt
    rw [← left.fixed keyword fixed,← right.fixed keyword fixed]
    refine forall₂_same.mpr fun p mem => ?_
    split at mem
    · next l r atL atR =>
      obtain ⟨lOrd,rOrd⟩ := orderly_ofKeyword (orderly_get? left.left atL) (orderly_get? right.left atR) mem
      exact .same p (keyword_ofKeyword mem ▸ fixed) lOrd rOrd
    · cases mem

lemma forall₂_positions (left : KinFields grounded f f') (right : KinFields strict h h') (path : String) (walk : Walk) :
    Forall₂ PairKin (pairedPositions f h path walk) (pairedPositions f' h' path walk) := by
  have walked : ∀ keyword ∈ walk.keywords, keyword = "properties" ∨ keyword = "items" ∨ isFixed keyword := by
    cases walk <;> decide
  rw [pairedPositions_eq,pairedPositions_eq]
  generalize walk.keywords = keywords at walked
  induction keywords with
  | nil => exact .nil
  | cons keyword rest ih =>
    exact rel_append (forall₂_pairedAt left right (walked keyword mem_cons_self))
      (ih fun later mem => walked later (.tail _ mem))
end Positions
structure Searches (walk : Walk) (against : Fields → Fields → String → Option Conflict)
    (search : Nat → Json → Json → String → Option Conflict) : Prop where
  objects : ∀ n (f h : Fields) path, search (n + 1) (.obj f) (.obj h) path = (against f h path).or
    ((pairedPositions f h path walk).findSome? fun p => search n p.left p.right p.path)
  plain : ∀ n a b path, a.isObj = false ∨ b.isObj = false → search n a b path = none
  same : ∀ {f f' h h' : Fields} path, KinFields false f f' → KinFields false h h' → against f h path = against f' h' path

lemma findSome?_congr {search search' : Paired → Option Conflict} (each : Forall₂ PairKin l r)
    (same : ∀ p q, p ∈ l → q ∈ r → PairKin p q → search p = search' q) : l.findSome? search = r.findSome? search' := by
  induction each with
  | nil => rfl
  | cons here _ ih =>
    rw [findSome?_cons,findSome?_cons,same _ _ mem_cons_self mem_cons_self here,
      ih fun p q inLeft inRight => same p q (.tail _ inLeft) (.tail _ inRight)]

-- Each schema has the fuel for its own depth, which annotations may make larger.
lemma Searches.agree {against : Fields → Fields → String → Option Conflict}
    {search : Nat → Json → Json → String → Option Conflict} (searches : Searches walk against search)
    (left : Kin false a a') (right : Kin false b b') (enough : a.depth ≤ n) (enough' : a'.depth ≤ n')
    (path : String) : search n a b path = search n' a' b' path := by
  induction n generalizing a a' b b' n' path with
  | zero =>
    rcases left.cases with ⟨rfl,plain⟩ | ⟨f,_,rfl,_⟩
    · rw [searches.plain _ _ _ _ (.inl plain),searches.plain _ _ _ _ (.inl plain)]
    · exact absurd enough (Nat.not_succ_le_zero _)
  | succ n ih =>
    rcases left.cases with ⟨rfl,plain⟩ | ⟨f,f',rfl,rfl,kinLeft⟩
    · rw [searches.plain _ _ _ _ (.inl plain),searches.plain _ _ _ _ (.inl plain)]
    rcases right.cases with ⟨rfl,plain⟩ | ⟨h,h',rfl,rfl,kinRight⟩
    · rw [searches.plain _ _ _ _ (.inr plain),searches.plain _ _ _ _ (.inr plain)]
    obtain ⟨rest,rfl⟩ := Nat.exists_eq_add_one_of_ne_zero (ne_of_gt (lt_of_lt_of_le (Nat.zero_lt_succ _) enough'))
    rw [searches.objects,searches.objects,searches.same path kinLeft kinRight]
    refine congrArg _ (findSome?_congr (forall₂_positions kinLeft kinRight path walk) fun p q inLeft inRight kin => ?_)
    rw [kin.samePath]
    refine ih kin.left kin.right ?_ ?_ q.path
    · exact Nat.le_of_lt_succ (lt_of_lt_of_le (depth_left inLeft) enough)
    · exact Nat.le_of_lt_succ (lt_of_lt_of_le (depth_left inRight) enough')
namespace Engine
lemma constantAgainst_congr (left : KinFields false f f') (right : KinFields false h h') (path : String) :
    constantAgainst f h path = constantAgainst f' h' path := by
  unfold constantAgainst
  rw [left.fixed "const" rfl,right.fixed "const" rfl,right.fixed "enum" rfl]

lemma searches_constants : Searches .constants
    (fun f h path => (constantAgainst f h path).or (constantAgainst h f path)) constantConflict where
  objects n f h path := by rw [constantConflict,Option.or_assoc]
  plain n a b path plain := by
    unfold constantConflict
    split
    · rcases plain with absurd | absurd <;> cases absurd
    · rfl
  same path left right := by rw [constantAgainst_congr left right,constantAgainst_congr right left]

lemma searches_formats : Searches .formats formatAgainst formatConflict where
  objects n f h path := by rw [formatConflict]
  plain n a b path plain := by
    unfold formatConflict
    split
    · rcases plain with absurd | absurd <;> cases absurd
    · rfl
  same path left right := by
    unfold formatAgainst
    rw [left.fixed "format" rfl,right.fixed "format" rfl]
section Closed
variable {m : Type → Type} [Monad m] (e : Engine m) {f f' h h' : Fields}
lemma declared_empty (kin : KinFields false f f') : ((declared? f).getD []).isEmpty = ((declared? f').getD []).isEmpty := by
  have declared : Option.Rel KinMembers (declared? f) (declared? f') := kin.declared
  generalize declared? f = o at declared
  generalize declared? f' = p at declared
  cases declared with
  | none => rfl
  | some each => cases each <;> rfl

lemma declared_has (kin : KinFields false f f') (name : String) :
    ((declared? f).getD []).has name = ((declared? f').getD []).has name := by
  have declared : Option.Rel KinMembers (declared? f) (declared? f') := kin.declared
  generalize declared? f = o at declared
  generalize declared? f' = p at declared
  cases declared with
  | none => rfl
  | some each => exact each.has name

lemma covers_congr (kin : KinFields false f f') (name : String) : e.covers f name = e.covers f' name := by
  unfold covers matchesPattern
  rw [declared_has kin,kin.fixed "patternProperties" rfl]

lemma field?_congr (kin : Kin false v w) (key : String) (fixed : isFixed key) : v.field? key = w.field? key := by
  rcases kin.cases with ⟨rfl,_⟩ | ⟨_,_,rfl,rfl,fs⟩
  · rfl
  · exact fs.fixed key fixed

lemma refusal?_congr (kin : KinFields false f f') (one : Kin false wanted wanted') (extra : Json)
    (name : String) : refusal? f extra name wanted = refusal? f' extra name wanted' := by
  unfold refusal?
  rw [declared_empty kin,field?_congr one "type" rfl]

lemma refusedName_congr (kin : KinFields false f f') (each : KinMembers declared declared')
    (extra : Json) (path : String) (ns : List String) :
    e.refusedName f extra declared path ns = e.refusedName f' extra declared' path ns := by
  induction ns with
  | nil => rfl
  | cons name rest ih =>
    have partner := each.get? name
    rw [refusedName,refusedName,ih,covers_congr e kin name]
    generalize declared.get? name = o at partner
    generalize declared'.get? name = p at partner
    cases partner with
    | none => rfl
    | some one =>
      dsimp only
      rw [refusal?_congr kin one]

lemma closedAgainst_congr (left : KinFields false f f') (right : KinFields false h h') (path : String) :
    e.closedAgainst f h path = e.closedAgainst f' h' path := by
  have declared : Option.Rel KinMembers (declared? h) (declared? h') := right.declared
  unfold closedAgainst
  rw [left.fixed "additionalProperties" rfl,required_congr right]
  generalize declared? h = o at declared
  generalize declared? h' = p at declared
  cases declared with
  | none => cases f'.get? "additionalProperties" <;> rfl
  | some each =>
    cases f'.get? "additionalProperties" with
    | none => rfl
    | some extra => exact refusedName_congr e left each extra path _

lemma firstAmong_congr {search search' : Json → Json → String → m (Option Conflict)}
    (left : KinMembers l l') (right : KinMembers r r') (path : String)
    (same : ∀ entry ∈ l, ∀ entry' ∈ l', ∀ b b' path, Kin false entry.2 entry'.2 → Kin false b b' →
      search entry.2 b path = search' entry'.2 b' path) : firstAmong search path r l = firstAmong search' path r' l' := by
  induction l generalizing l' with
  | nil => cases left; rfl
  | cons entry rest ih =>
    cases left with
    | @cons name a b _ _ first later =>
      have partner := right.get? name
      have others := ih later fun entry inLeft entry' inRight =>
        same entry (.tail _ inLeft) entry' (.tail _ inRight)
      unfold firstAmong
      rw [others]
      generalize r.get? name = o at partner
      generalize r'.get? name = p at partner
      rcases first.cases with ⟨rfl,plain⟩ | ⟨_,_,rfl,rfl,_⟩
      · cases a with
        | obj => cases plain
        | _ => rfl
      cases partner with
      | none => rfl
      | some other =>
        have here := same _ mem_cons_self _ mem_cons_self _ _ (joinPath path name) first other
        dsimp only at here ⊢
        rw [here]

lemma depth_declared {map : Fields} {entry : String × Json} (found : declared? f = some map) (mem : entry ∈ map) :
    entry.2.depth < (obj f).depth := by
  obtain ⟨v,at_,is⟩ := Option.bind_eq_some_iff.mp found
  cases v with
  | obj =>
    cases is
    exact lt_trans (depth_field mem) (depth_get? at_)
  | _ => cases is

lemma closedConflict_none (n : Nat) (plain : a.isObj = false ∨ b.isObj = false) (path : String) :
    e.closedConflict n a b path = pure none := by
  unfold closedConflict
  split
  · rcases plain with absurd | absurd <;> cases absurd
  · rfl

lemma closedConflict_congr (left : Kin false a a') (right : Kin false b b')
    (enough : a.depth ≤ n) (enough' : a'.depth ≤ n') (path : String) :
    e.closedConflict n a b path = e.closedConflict n' a' b' path := by
  induction n generalizing a a' b b' n' path with
  | zero =>
    rcases left.cases with ⟨rfl,plain⟩ | ⟨f,_,rfl,_⟩
    · rw [closedConflict_none e _ (.inl plain),closedConflict_none e _ (.inl plain)]
    · exact absurd enough (Nat.not_succ_le_zero _)
  | succ n ih =>
    rcases left.cases with ⟨rfl,plain⟩ | ⟨f,f',rfl,rfl,kinLeft⟩
    · rw [closedConflict_none e _ (.inl plain),closedConflict_none e _ (.inl plain)]
    rcases right.cases with ⟨rfl,plain⟩ | ⟨h,h',rfl,rfl,kinRight⟩
    · rw [closedConflict_none e _ (.inr plain),closedConflict_none e _ (.inr plain)]
    obtain ⟨rest,rfl⟩ := Nat.exists_eq_add_one_of_ne_zero (ne_of_gt (lt_of_lt_of_le (Nat.zero_lt_succ _) enough'))
    have own : Option.Rel KinMembers (declared? f) (declared? f') := kinLeft.declared
    have other : Option.Rel KinMembers (declared? h) (declared? h') := kinRight.declared
    rw [closedConflict,closedConflict,closedAgainst_congr e kinLeft kinRight,closedAgainst_congr e kinRight kinLeft]
    generalize atL : declared? f = o at own
    generalize atLeft' : declared? f' = p at own
    generalize declared? h = q at other
    generalize declared? h' = r at other
    cases own with
    | none => rfl
    | some own =>
      cases other with
      | none => rfl
      | some other =>
        dsimp only
        rw [firstAmong_congr own other]
        intro entry inLeft entry' inRight b b' path first kin
        refine ih first kin ?_ ?_ path
        · exact Nat.le_of_lt_succ (lt_of_lt_of_le (depth_declared atL inLeft) enough)
        · exact Nat.le_of_lt_succ (lt_of_lt_of_le (depth_declared atLeft' inRight) enough')
end Closed
end Engine
namespace Negation
variable {f f' : Fields}
section
variable (kin : KinFields false f f')
include kin
lemma literals?_congr : literals? f = literals? f' := by
  unfold literals?
  rw [kin.fixed "const" rfl,kin.fixed "enum" rfl]

lemma confinedTypes?_congr : confinedTypes? f = confinedTypes? f' := by
  unfold confinedTypes?
  rw [literals?_congr kin,kin.fixed "type" rfl]

lemma declaredAt_rel (name : String) :
    Option.Rel (Kin false) (((f.get? "properties").bind fields?).bind fun ps => ps.get? name)
      (((f'.get? "properties").bind fields?).bind fun ps => ps.get? name) := by
  have declared := kin.declared
  generalize (f.get? "properties").bind fields? = o at declared
  generalize (f'.get? "properties").bind fields? = p at declared
  cases declared with
  | none => exact .none
  | some each => exact each.get? name

lemma property?_rel (name : String) : Option.Rel (KinFields false) (property? f name) (property? f' name) := by
  have declared := declaredAt_rel kin name
  unfold property?
  generalize ((f.get? "properties").bind fields?).bind (fun ps => ps.get? name) = o at declared
  generalize ((f'.get? "properties").bind fields?).bind (fun ps => ps.get? name) = p at declared
  cases declared with
  | none => exact .none
  | some one => exact one.fields

lemma neverPresent_congr (name : String) : neverPresent f name = neverPresent f' name := by
  have declared := declaredAt_rel kin name
  unfold neverPresent
  rw [kin.fixed "additionalProperties" rfl,kin.has (by decide)]
  generalize ((f.get? "properties").bind fields?).bind (fun ps => ps.get? name) = o at declared
  generalize ((f'.get? "properties").bind fields?).bind (fun ps => ps.get? name) = p at declared
  cases declared with
  | none => rfl
  | some one =>
    rcases one.cases with ⟨rfl,plain⟩ | ⟨_,_,rfl,rfl,fs⟩
    all_goals rfl
end
lemma objectRelation?_congr {relate : Fields → Json → Relation}
    (same : ∀ {f f' : Fields} s, KinFields false f f' → relate f s = relate f' s) (kin : KinFields false f f') (negated : Fields) :
    objectRelation? relate f negated = objectRelation? relate f' negated := by
  have relates r name (schema : Json) :
      (property? f name).any (fun own => relate own schema.normalize = r) = (property? f' name).any fun own =>
      relate own schema.normalize = r := by
    have declared := property?_rel kin name
    generalize property? f name = o at declared
    generalize property? f' name = p at declared
    cases declared with
    | none => rfl
    | some fs => simp only [Option.any_some,same _ fs]
  have required : listed f "required" = listed f' "required" := by
    unfold listed
    rw [kin.fixed "required" rfl]
  have never : neverPresent f = neverPresent f' := funext (neverPresent_congr kin)
  unfold objectRelation?
  simp only [relates,required,never,confinedTypes?_congr kin]

lemma unionRelation?_congr {relate : Fields → Json → Relation}
    (same : ∀ {f f' : Fields} s, KinFields false f f' → relate f s = relate f' s) (kin : KinFields false f f') (negated : Fields) :
    unionRelation? relate f negated = unionRelation? relate f' negated := by
  unfold unionRelation?
  simp only [same _ kin]

lemma formatRelation?_congr (kin : KinFields false f f') (negated : Fields) :
    formatRelation? f negated = formatRelation? f' negated := by
  unfold formatRelation?
  rw [literals?_congr kin,confinedTypes?_congr kin,kin.fixed "format" rfl]

lemma relationWithin_congr (depth : Nat) (negated : Json) (kin : KinFields false f f') :
    relationWithin depth f negated = relationWithin depth f' negated := by
  induction depth generalizing f f' negated with
  | zero =>
    cases negated with
    | obj fs => cases fs <;> rfl
    | bool b => cases b <;> rfl
    | _ => rfl
  | succ depth ih =>
    cases negated with
    | obj fs =>
      cases fs with
      | nil => rfl
      | cons field rest =>
        unfold relationWithin
        have types : typeRelation? f = typeRelation? f' := by
          unfold typeRelation?
          rw [confinedTypes?_congr kin]
        have values : valueRelation? f = valueRelation? f' := by
          unfold valueRelation?
          rw [literals?_congr kin]
        rw [types,values,formatRelation?_congr kin,objectRelation?_congr (fun s kin => ih s kin) kin,
          unionRelation?_congr (fun s kin => ih s kin) kin]
    | bool b => cases b <;> rfl
    | _ => rfl
end Negation
lemma relation_congr (kin : KinFields false f f') (negated : Json) : relation f negated = relation f' negated :=
  Negation.relationWithin_congr _ _ kin
section Writing
variable {f f' : Fields} {key : String} {v w : Json}
lemma KinFields.put (kin : KinFields false f f') (at_ : KinAt false key (some v) (some w)) (left : v.Orderly) (right : w.Orderly) :
    KinFields false (f.put key v) (f'.put key w) where
  left := orderly_put kin.left left
  right := orderly_put kin.right right
  notes is := absurd is Bool.false_ne_true
  keyed name effective := by
    rw [get?_put,get?_put]
    split
    · next same => exact same ▸ at_
    · exact kin.keyed name effective

lemma KinFields.erase (kin : KinFields false f f') (key : String) : KinFields false (f.erase key) (f'.erase key) where
  left := orderly_erase kin.left
  right := orderly_erase kin.right
  notes is := absurd is Bool.false_ne_true
  keyed name effective := by
    rw [get?_erase kin.leftSorted,get?_erase kin.rightSorted]
    split
    · exact .same _
    · exact kin.keyed name effective

lemma KinEach.set (each : KinEach false l r) (one : Kin false v w) (i : Nat) :
    KinEach false (l.set i v) (r.set i w) := by
  induction l generalizing r i with
  | nil => cases each; exact .nil
  | cons a rest ih =>
    cases each with
    | cons first later =>
      cases i with
      | zero => exact .cons one later
      | succ i => exact .cons first (ih later i)

lemma KinEach.orderly (each : KinEach false l r) : (arr l).Orderly ∧ (arr r).Orderly := by
  have both {l r} (each : KinEach false l r) : (∀ a ∈ l, a.Orderly) ∧ ∀ b ∈ r, b.Orderly := by
    induction l generalizing r with
    | nil => cases each; simp
    | cons a rest ih =>
      cases each with
      | cons first later =>
        obtain ⟨lefts,rights⟩ := ih later
        exact ⟨forall_mem_cons.mpr ⟨first.left,lefts⟩,forall_mem_cons.mpr ⟨first.right,rights⟩⟩
  exact ⟨orderly_arr.mpr (both each).1,orderly_arr.mpr (both each).2⟩

lemma place_property (f : Fields) (name : String) (v : Json) : Slot.place f (.keyed "properties" name) v =
    match (f.get? "properties").bind fields? with
  | some es => if has es name then f.put "properties" (.obj (put es name v)) else f
  | none => f := by
  unfold Slot.place
  dsimp only
  cases f.get? "properties" with
  | none => rfl
  | some map => cases map <;> rfl

lemma place_unlisted (at_ : f.get? "items" = found) (unlisted : ∀ list, found ≠ some (.arr list)) (i : Nat) :
    Slot.place f (.indexed i) v = f := by
  unfold Slot.place
  dsimp only
  rw [at_]
  split
  · next list => exact absurd rfl (unlisted list)
  · rfl

lemma KinFields.place (kin : KinFields false f f') {slot : Slot} (varies : slot.Varies) (one : Kin false v w) :
    KinFields false (slot.place f v) (slot.place f' w) := by
  cases varies with
  | property name =>
    have declared := kin.declared
    have lOrd := Acceptance.orderly_declared kin.left
    have rOrd := Acceptance.orderly_declared kin.right
    unfold Acceptance.declared at lOrd rOrd
    rw [place_property,place_property]
    generalize (f.get? "properties").bind fields? = o at declared lOrd
    generalize (f'.get? "properties").bind fields? = p at declared rOrd
    cases declared with
    | none => exact kin
    | some each =>
      dsimp only
      rw [each.has name]
      split
      · exact kin.put (.members (each.put one name)) (orderly_put lOrd one.left) (orderly_put rOrd one.right)
      · exact kin
  | items =>
    unfold Slot.place
    dsimp only
    rw [kin.has (by decide)]
    split
    · exact kin.put (.item one) one.left one.right
    · exact kin
  | entry i =>
    have xs := kin.items
    generalize atL : f.get? "items" = o at xs
    generalize atR : f'.get? "items" = p at xs
    cases xs with
    | none =>
      have absent : ∀ list, (none : Option Json) ≠ some (.arr list) := nofun
      rw [place_unlisted atL absent,place_unlisted atR absent]
      exact kin
    | some xs =>
      cases xs with
      | tuple each =>
        have set := each.set one i
        unfold Slot.place
        rw [atL,atR]
        exact kin.put (.tuple set) set.orderly.1 set.orderly.2
      | single plain plain' =>
        have unlisted : ∀ {s : Json}, s.isArr = false → ∀ list, some s ≠ some (.arr list) := by
          rintro _ plain list ⟨⟩
          cases plain
        rw [place_unlisted atL (unlisted plain),place_unlisted atR (unlisted plain')]
        exact kin

lemma KinFields.placeFixed (kin : KinFields false f f') {slot : Slot} (fixed : isFixed slot.keyword) (ord : v.Orderly) :
    KinFields false (slot.place f v) (slot.place f' v) := by
  have has : f.has slot.keyword = f'.has slot.keyword := by
    unfold Fields.has
    rw [kin.fixed _ fixed]
  unfold Slot.place
  cases slot with
  | keyed keyword key =>
    dsimp only
    rw [kin.fixed keyword fixed]
    split
    · next es found =>
      split
      · have made : (obj (Fields.put es key v)).Orderly := orderly_put (orderly_get? kin.right found) ord
        exact kin.put (.same _) made made
      · exact kin
    · exact kin
  | single keyword =>
    dsimp only
    rw [show f.has keyword = f'.has keyword from has]
    split
    · exact kin.put (.same _) ord ord
    · exact kin
  | indexed i => cases fixed
end Writing
namespace Engine
variable {sub sub' : Fields} {path : String}
structure SettledKin (s s' : Settled) : Prop where
  sup : KinFields false s.sup s'.sup
  failures : s.failures = s'.failures

lemma SettledKin.decide (kin : SettledKin s s') (verdict : Option Bool) (keyword : String)
    (ord : ∀ v, replacement = some v → v.Orderly) (violation : Difference) :
    SettledKin (s.decide verdict keyword replacement violation) (s'.decide verdict keyword replacement violation) := by
  unfold Settled.decide
  split
  · cases replacement with
    | none => exact ⟨kin.sup.erase keyword,kin.failures⟩
    | some v => exact ⟨kin.sup.put (.same _) (ord v rfl) (ord v rfl),kin.failures⟩
  · refine ⟨kin.sup,?_⟩
    unfold Settled.fail
    rw [kin.failures]
  · exact kin

lemma ownConstraint_congr (kin : KinFields false sub sub') {keyword : String} (fixed : isFixed keyword) :
    ownConstraint sub keyword = ownConstraint sub' keyword := by
  unfold ownConstraint
  rw [kin.fixed keyword fixed,kin.fixed "const" rfl,kin.fixed "enum" rfl]

lemma SettledKin.settleFormat (kin : SettledKin s s') (own : KinFields false sub sub') (path : String) :
    SettledKin (settleFormat sub path s) (settleFormat sub' path s') := by
  have verdict : formatVerdict sub = formatVerdict sub' := by
    unfold formatVerdict
    rw [Negation.literals?_congr own,own.fixed "format" rfl]
  unfold Engine.settleFormat
  rw [kin.sup.fixed "format" rfl,verdict,ownConstraint_congr own (by decide),own.fixed "format" rfl]
  split
  · exact kin
  · exact kin.decide _ _ (fun v found => orderly_get? own.right found) _

lemma SettledKin.settleNegation (kin : SettledKin s s') (own : KinFields false sub sub') (path : String) :
    SettledKin (settleNegation sub path s) (settleNegation sub' path s') := by
  have verdict : negationVerdict sub = negationVerdict sub' := by
    funext negated
    unfold negationVerdict
    rw [relation_congr own]
  unfold Engine.settleNegation
  rw [kin.sup.fixed "not" rfl,verdict,own.fixed "not" rfl]
  split
  · exact kin
  split
  · exact kin
  · exact kin.decide _ _ (fun v (absent : none = some v) => nomatch absent) _

lemma twin_settlePattern (e : Engine (StateM Unit)) (own : KinFields false sub sub') (kin : SettledKin s s') :
    Twin SettledKin (e.settlePattern sub path s) (e.settlePattern sub' path s') := by
  have verdict : e.patternVerdict sub = e.patternVerdict sub' := by
    unfold patternVerdict
    rw [Negation.literals?_congr own,own.fixed "pattern" rfl]
  unfold settlePattern
  rw [kin.sup.fixed "pattern" rfl,verdict,ownConstraint_congr own (by decide),own.fixed "pattern" rfl]
  split
  · exact .pure kin
  next pat _ =>
  have same : Twin Eq (e.patternVerdict sub' pat) (e.patternVerdict sub' pat) := rfl
  refine .bind same ?_
  rintro verdict _ rfl
  exact .pure (kin.decide _ _ (fun v found => orderly_get? own.right found) _)

lemma reconcileWithin_plain {m : Type → Type} [Monad m] (e : Engine m) (n : Nat)
    (plain : a.isObj = false ∨ b.isObj = false) (path : String) : e.reconcileWithin n a b path = pure (b,[]) := by
  unfold reconcileWithin
  split
  · rcases plain with absurd | absurd <;> cases absurd
  · rfl

lemma foldlM_congr {m : Type → Type} [Monad m] {α β : Type} {f g : β → α → m β} {l : List α}
    (same : ∀ b, ∀ a ∈ l, f b a = g b a) (start : β) : l.foldlM f start = l.foldlM g start := by
  induction l generalizing start with
  | nil => rfl
  | cons a rest ih =>
    rw [foldlM_cons,same start a mem_cons_self]
    exact congrArg _ (funext fun b => ih (fun b a mem => same b a (.tail _ mem)) b)

lemma reconcileWithin_enough {m : Type → Type} [Monad m] (e : Engine m) {a : Json} {n n' : Nat} (enough : a.depth ≤ n)
    (enough' : a.depth ≤ n') (b : Json) (path : String) : e.reconcileWithin n a b path = e.reconcileWithin n' a b path := by
  induction n generalizing a b n' path with
  | zero =>
    cases a with
    | obj => exact absurd enough (Nat.not_succ_le_zero _)
    | _ => rw [reconcileWithin_plain e _ (.inl rfl),reconcileWithin_plain e _ (.inl rfl)]
  | succ n ih =>
    cases a with
    | obj f =>
      cases b with
      | obj h =>
        obtain ⟨rest,rfl⟩ := Nat.exists_eq_add_one_of_ne_zero (ne_of_gt (lt_of_lt_of_le (Nat.zero_lt_succ _) enough'))
        refine congrArg _ (funext fun s => congrArg (· >>= _) (foldlM_congr (fun s p mem => ?_) _))
        have below := depth_left mem
        rw [ih (Nat.le_of_lt_succ (lt_of_lt_of_le below enough)) (Nat.le_of_lt_succ (lt_of_lt_of_le below enough'))]
      | _ => rw [reconcileWithin_plain e _ (.inr rfl),reconcileWithin_plain e _ (.inr rfl)]
    | _ => rw [reconcileWithin_plain e _ (.inl rfl),reconcileWithin_plain e _ (.inl rfl)]

def LeftKin (made made' : Json × List Difference) : Prop := Kin false made.1 made'.1 ∧ made.2 = made'.2

lemma twin_reconcileWithin (e : Engine (StateM Unit)) (left : Kin false a a') (right : Kin false b b')
    (enough : a.depth ≤ n) (enough' : a'.depth ≤ n') (path : String) :
    Twin LeftKin (e.reconcileWithin n a b path) (e.reconcileWithin n' a' b' path) := by
  induction n generalizing a a' b b' n' path with
  | zero =>
    rcases left.cases with ⟨rfl,plain⟩ | ⟨f,_,rfl,_⟩
    · rw [reconcileWithin_plain e _ (.inl plain),reconcileWithin_plain e _ (.inl plain)]
      exact .pure ⟨right,rfl⟩
    · exact absurd enough (Nat.not_succ_le_zero _)
  | succ n ih =>
    rcases left.cases with ⟨rfl,plain⟩ | ⟨f,f',rfl,rfl,kinLeft⟩
    · rw [reconcileWithin_plain e _ (.inl plain),reconcileWithin_plain e _ (.inl plain)]
      exact .pure ⟨right,rfl⟩
    rcases right.cases with ⟨rfl,plain⟩ | ⟨h,h',rfl,rfl,kinRight⟩
    · rw [reconcileWithin_plain e _ (.inr plain),reconcileWithin_plain e _ (.inr plain)]
      exact .pure ⟨right,rfl⟩
    obtain ⟨rest,rfl⟩ := Nat.exists_eq_add_one_of_ne_zero (ne_of_gt (lt_of_lt_of_le (Nat.zero_lt_succ _) enough'))
    refine .bind (twin_settlePattern e kinLeft ⟨kinRight,rfl⟩) fun s s' settled => ?_
    have start := (settled.settleFormat kinLeft path).settleNegation kinLeft path
    refine .bind (.foldlM ?_ (forall₂_positions kinLeft kinRight path .settling) _ _ start) fun s s' settled =>
      .pure ⟨kin_obj.mpr settled.sup,settled.failures⟩
    intro s s' p q settled inLeft inRight kin
    have below := Nat.le_of_lt_succ (lt_of_lt_of_le (depth_left inLeft) enough)
    have below' := Nat.le_of_lt_succ (lt_of_lt_of_le (depth_left inRight) enough')
    cases kin with
    | same _ fixed lOrd rOrd =>
      rw [reconcileWithin_enough e below below']
      have made : Twin (fun made made' => made = made' ∧ made.1.Orderly) (e.reconcileWithin rest p.left p.right p.path)
          (e.reconcileWithin rest p.left p.right p.path) :=
        Twin.of_ensures (ensures_reconcileOrderly rest lOrd rOrd) fun _ ord => ⟨rfl,ord⟩
      refine .bind made ?_
      rintro made _ ⟨rfl,ord⟩
      exact .pure ⟨settled.sup.placeFixed fixed ord,congrArg (· ++ made.2) settled.failures⟩
    | kin slot path varies left right =>
      refine .bind (ih left right below below' path) ?_
      rintro ⟨made,failures⟩ ⟨made',_⟩ ⟨one,rfl⟩
      exact .pure ⟨settled.sup.place varies one,congrArg (· ++ failures) settled.failures⟩

lemma twin_reconcile (e : Engine (StateM Unit)) (left : Kin false a a') (right : Kin false b b')
    (path : String) : Twin LeftKin (e.reconcile a b path) (e.reconcile a' b' path) :=
  twin_reconcileWithin e left right (le_rfl) (le_rfl) path
end Engine
end SchemaOrder
