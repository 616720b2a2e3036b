import SchemaOrder.Proofs.Annotations.Searching
namespace SchemaOrder
open Keyword List Fields Json Replacement SchemaOrder.Normal Schemas Option Intersection Canonical Split
-- Containment of schemas that differ in annotations only. Two checks of such schemas have the same verdict.
def Effective (f : Fields) : Prop := ∃ key v, f.get? key = some v ∧ shape key ≠ .note

inductive PartKin (f g : Fields) (a b : Json) : Prop where
  | last (kin : Kin false a b) (beside : (obj f).splits = 0) (branch : a.splits = 0)
  | grounded (beside : KinFields true f g) (branch : Kin true a b)

structure SplitKin (narrow : Bool) (s s' : Split) : Prop where
  kind : s.kind = s'.kind
  beside : KinFields false s.beside s'.beside
  notes : Effective s.beside ∨ s.beside = s'.beside
  branches : KinEach false s.branches s'.branches
  parts : narrow → Forall₂ (PartKin s.beside s'.beside) s.branches s'.branches

inductive Akin (narrow : Bool) : Json → Json → Prop where
  | whole {a b : Json} (kin : Kin false a b) (undivided : of? a = none) : Akin narrow a b
  | union {a b : Json} {s s' : Split} (left : a.Orderly) (right : b.Orderly) (atL : of? a = some s)
      (atR : of? b = some s') (kin : SplitKin narrow s s') : Akin narrow a b
section Dividing
variable {grounded narrow : Bool} {a b : Json} {f g : Fields} {s s' : Split}
lemma SplitKin.empty (kin : SplitKin narrow s s') : s.beside.isEmpty = s'.beside.isEmpty := by
  rcases kin.notes with ⟨key,v,found,effective⟩ | same
  · have both := kin.beside.has effective
    unfold has at both
    rw [found] at both
    generalize s'.beside = other at both
    cases other with
    | nil => cases both
    | cons =>
      generalize s.beside = own at found
      cases own with
      | nil => cases found
      | cons => rfl
  · rw [same]

def listed? (f : Fields) (kind : UnionKind) : Option (List Json) := (f.get? kind.keyword).bind items?

def splitAt (f : Fields) (kind : UnionKind) (bs : List Json) : Split := ⟨kind,bs,without f [kind.keyword]⟩

lemma unlisted (other : ∀ list, o = some (.arr list) → False) : o.bind items? = none := by
  cases o with
  | none => rfl
  | some v =>
    cases v with
    | arr list => exact (other list rfl).elim
    | _ => rfl

lemma split_eq (f : Fields) : of? (.obj f) =
    ((listed? f .anyOf).map (splitAt f .anyOf)).or ((listed? f .oneOf).map (splitAt f .oneOf)) := by
  unfold of? listed?
  dsimp only [UnionKind.keyword]
  split
  · next at_ => rw [at_]; rfl
  · next at_ other => rw [at_,unlisted other]; rfl
  · next other another => rw [unlisted other,unlisted another]; rfl

lemma split_cases (found : of? (.obj f) = some s) : ∃ kind bs, listed? f kind = some bs ∧
    s = splitAt f kind bs ∧ (kind = .oneOf → listed? f .anyOf = none) := by
  rw [split_eq] at found
  cases anyOf : listed? f .anyOf with
  | some bs =>
    rw [anyOf] at found
    cases found
    exact ⟨.anyOf,bs,anyOf,rfl,nofun⟩
  | none =>
    rw [anyOf] at found
    cases oneOf : listed? f .oneOf with
    | none => rw [oneOf] at found; cases found
    | some bs =>
      rw [oneOf] at found
      cases found
      exact ⟨.oneOf,bs,oneOf,rfl,fun _ => rfl⟩

lemma split_of_listed {kind : UnionKind} {bs : List Json} (listed : listed? f kind = some bs)
    (first : kind = .oneOf → listed? f .anyOf = none) : of? (.obj f) = some (splitAt f kind bs) := by
  rw [split_eq]
  cases kind with
  | anyOf => rw [listed]; rfl
  | oneOf => rw [listed,first rfl]; rfl

lemma get?_of_listed {kind : UnionKind} {bs : List Json} (listed : listed? f kind = some bs) :
    f.get? kind.keyword = some (.arr bs) := by
  obtain ⟨v,found,is⟩ := bind_eq_some_iff.mp listed
  cases v with
  | arr => cases is; exact found
  | _ => cases is

lemma KinFields.listed (kin : KinFields grounded f g) (kind : UnionKind) : listed? f kind = listed? g kind := by
  unfold listed?
  cases kind <;> rw [kin.fixed _ rfl]

lemma union_keyword (kind : UnionKind) : kind.keyword ∈ rootLists ∧ kind.keyword ∉ ["const","enum","type"] ∧
    shape kind.keyword = .schemaList := by
  cases kind <;> decide

lemma listed?_normalize (f : Fields) (kind : UnionKind) :
    listed? (settle (mapFields normalize f)) kind = (listed? f kind).map (map normalize) := by
  unfold listed?
  rw [root_normalize (union_keyword kind).1]
  cases f.get? kind.keyword with
  | none => rfl
  | some v => cases v <;> rfl

lemma without_normalize (ord : (obj f).Orderly) (unsettled : key ∉ ["const","enum","type"]) :
    without (settle (mapFields normalize f)) [key] = settle (mapFields normalize (without f [key])) := by
  have sorted := (orderly_obj.mp ord).1
  have settled {f} (ord : (obj f).Orderly) : (settle (mapFields normalize f)).Sorted := by
    have normal := orderly_normalize ord
    rw [normalize_obj] at normal
    exact (orderly_obj.mp normal).1
  have same name (other : name ≠ key) : (mapFields normalize f).get? name =
      (mapFields normalize (without f [key])).get? name := by
    rw [get?_mapFields,get?_mapFields,get?_without,if_neg]
    simpa using other
  refine ext (sorted_filter _ (settled ord)) (settled (orderly_filter ord _)) fun name => ?_
  have apart : ∀ name ∈ ["const","enum","type"], name ≠ key := fun name inside is => unsettled (is ▸ inside)
  rw [get?_without]
  split
  · next at_ =>
    have is : name = key := by simpa using at_
    rw [is,get?_settle unsettled,get?_mapFields,get?_without,if_pos (by simp)]
    rfl
  next other =>
  exact settle_congr (sorted_mapFields sorted) (sorted_mapFields (sorted_filter _ sorted)) (same _ (apart _ (by decide)))
    (same _ (apart _ (by decide))) (same _ (apart _ (by decide))) (same _ (by simpa using other))

def Split.normalize (s : Split) : Split :=
  ⟨s.kind,s.branches.map Json.normalize,settle (mapFields Json.normalize s.beside)⟩

lemma split_normalize (ord : a.Orderly) : of? a.normalize = (of? a).map Split.normalize := by
  cases a with
  | obj f =>
    have apart kind bs : splitAt (settle (mapFields normalize f)) kind (bs.map normalize) =
        (splitAt f kind bs).normalize := by
      unfold splitAt Split.normalize
      rw [without_normalize ord (union_keyword kind).2.1]
    rw [normalize_obj,split_eq,split_eq,listed?_normalize,listed?_normalize]
    cases listed? f .anyOf with
    | some bs => exact congrArg some (apart .anyOf bs)
    | none =>
      cases listed? f .oneOf with
      | some bs => exact congrArg some (apart .oneOf bs)
      | none => rfl
  | _ => rfl

lemma Anchored.effective (anchored : Anchored f) : Effective f := by
  obtain ⟨key,v,found,own⟩ := anchored
  refine ⟨key,v,found,fun note => ?_⟩
  unfold isOwn at own
  rw [note] at own
  cases own

lemma Effective.normalize (effective : Effective f) : Effective (settle (mapFields normalize f)) := by
  obtain ⟨key,v,found,speaks⟩ := effective
  by_cases reads : key ∈ ["const","enum","type"]
  · have own key (reads : key ∈ ["const","enum","type"]) : isOwn key v := by
      fin_cases reads <;> rfl
    exact (anchored_settle (anchored_mapFields ⟨key,v,found,own key reads⟩)).effective
  · refine ⟨key,mapKeyword Json.normalize key v,?_,speaks⟩
    rw [get?_settle reads,get?_mapFields,found]
    rfl

lemma KinFields.normalize (kin : KinFields grounded f g) :
    KinFields grounded (settle (mapFields normalize f)) (settle (mapFields normalize g)) := by
  have normal := (kin_obj.mpr kin).normalize
  rw [normalize_obj,normalize_obj] at normal
  exact kin_obj.mp normal

lemma PartKin.normalize (ord : (obj f).Orderly) (part : PartKin f g a b) :
    PartKin (settle (mapFields normalize f)) (settle (mapFields normalize g)) a.normalize b.normalize := by
  cases part with
  | last kin beside branch =>
    have few := splits_normalize ord
    rw [normalize_obj,beside] at few
    exact .last kin.normalize (Nat.le_zero.mp few) (Nat.le_zero.mp (branch ▸ splits_normalize kin.left))
  | grounded beside branch => exact .grounded beside.normalize branch.normalize

lemma SplitKin.normalize (kin : SplitKin narrow s s') : SplitKin narrow s.normalize s'.normalize where
  kind := kin.kind
  beside := kin.beside.normalize
  notes := kin.notes.imp Effective.normalize fun same => by
    unfold Split.normalize
    rw [same]
  branches := kin.branches.normalize
  parts divided := by
    unfold Split.normalize
    rw [forall₂_map_left_iff,forall₂_map_right_iff]
    exact (kin.parts divided).imp fun _ _ => PartKin.normalize kin.beside.left
section
variable (akin : Akin narrow a b)
include akin
lemma Akin.normalize : Akin narrow a.normalize b.normalize := by
  cases akin with
  | whole kin undivided =>
    refine .whole kin.normalize ?_
    rw [split_normalize kin.left,undivided]
    rfl
  | union left right atL atR kin =>
    refine .union (orderly_normalize left) (orderly_normalize right) ?_ ?_ kin.normalize
    · rw [split_normalize left,atL]
      rfl
    rw [split_normalize right,atR]
    rfl

lemma Akin.cases : a = b ∨ ∃ f g, a = .obj f ∧ b = .obj g := by
  cases akin with
  | whole kin =>
    rcases kin.cases with ⟨same,_⟩ | ⟨f,g,atL,atR,_⟩
    · exact .inl same
    · exact .inr ⟨f,g,atL,atR⟩
  | union _ _ atL atR =>
    cases a with
    | obj f =>
      cases b with
      | obj g => exact .inr ⟨f,g,rfl,rfl⟩
      | _ => cases atR
    | _ => cases atL

lemma Akin.isTrue_eq : a.isTrue = b.isTrue := by
  rcases akin.cases with rfl | ⟨f,g,rfl,rfl⟩ <;> rfl

lemma Akin.isFalse_eq : a.isFalse = b.isFalse := by
  rcases akin.cases with rfl | ⟨f,g,rfl,rfl⟩ <;> rfl

lemma Akin.form : form a = form b := by
  cases akin with
  | whole kin => exact kin.form
  | union left right atL atR kin =>
    cases a with
    | obj f =>
      cases b with
      | obj g =>
        obtain ⟨kind,bs,listed,rfl,_⟩ := split_cases atL
        obtain ⟨kind',branches',listed',rfl,_⟩ := split_cases atR
        obtain ⟨same,beside,_,each,_⟩ := kin
        cases same
        refine form_congr (orderly_obj.mp left).1 (orderly_obj.mp right).1 fun key effective => ?_
        by_cases union : key = kind.keyword
        · subst union
          rw [get?_of_listed listed,get?_of_listed listed']
          refine .some ?_
          cases kind <;> exact congrArg (fun forms => some (arr (sortSet forms))) each.form
        have other : ¬ [kind.keyword].contains key := by simpa using union
        have keyed := (beside.keyed key effective).form
        unfold splitAt at keyed
        rw [get?_without,get?_without,if_neg other,if_neg other] at keyed
        exact keyed
      | _ => cases atR
    | _ => cases atL
end
lemma KinFields.without (kin : KinFields grounded f g) (kind : UnionKind) :
    KinFields grounded (without f [kind.keyword]) (without g [kind.keyword]) where
  left := orderly_filter kin.left _
  right := orderly_filter kin.right _
  notes strict := by
    refine (kin.notes strict).imp ?_ fun same key note => ?_
    · rintro ⟨key,v,found,own⟩
      refine ⟨key,v,?_,own⟩
      rw [get?_without,if_neg,found]
      intro is
      rw [mem_singleton.mp (contains_iff_mem.mp is)] at own
      cases kind <;> cases own
    · rw [get?_without,get?_without,same key note]
  keyed key effective := by
    rw [get?_without,get?_without]
    split
    · exact .same _
    · exact kin.keyed key effective

lemma KinFields.effective (kin : KinFields true f g) : Effective f ∨ f = g := by
  rcases kin.notes rfl with anchored | same
  · exact .inl anchored.effective
  by_cases effective : Effective f
  · exact .inl effective
  refine .inr (ext kin.leftSorted kin.rightSorted fun key => ?_)
  by_cases note : shape key = .note
  · exact same key note
  have rel := (kin.keyed key note).rel
  cases found : f.get? key with
  | some v => exact absurd ⟨key,v,found,note⟩ effective
  | none =>
    rw [found] at rel
    generalize g.get? key = other at rel
    cases rel
    rfl

lemma Kin.akin (kin : Kin true a b) : Akin true a b := by
  cases found : of? a with
  | none => exact .whole kin.loose found
  | some s =>
    rcases kin.cases with ⟨rfl,plain⟩ | ⟨f,g,rfl,rfl,fs⟩
    · cases a with
      | obj => cases plain
      | _ => cases found
    obtain ⟨kind,bs,listed,rfl,first⟩ := split_cases found
    have other : of? (.obj g) = some (splitAt g kind bs) := by
      refine split_of_listed (fs.listed kind ▸ listed) fun is => ?_
      rw [← fs.listed]
      exact first is
    have beside := fs.without kind
    have orderlies := (Engine.orderly_split kin.left found).2
    exact .union kin.left kin.right found other ⟨rfl,beside.loose,beside.effective,.refl orderlies,fun _ =>
      forall₂_same.mpr fun branch inside => .grounded beside (.refl (orderlies branch inside))⟩

lemma undivided_of_splits (ord : a.Orderly) (none : a.splits = 0) : of? a = .none := by
  cases found : of? a with
  | none => rfl
  | some split =>
    have total := Engine.split_fewer ord found
    omega

lemma Kin.undivided (kin : Kin grounded a b) (undivided : of? a = none) : of? b = none := by
  rcases kin.cases with ⟨rfl,_⟩ | ⟨f,g,rfl,rfl,fs⟩
  · exact undivided
  have none : ∀ {o p : Option Split}, o.or p = none → o = none ∧ p = none := by
    exact or_eq_none_iff.mp
  rw [split_eq] at undivided ⊢
  obtain ⟨noAny,noOne⟩ := none undivided
  rw [← fs.listed,← fs.listed,map_eq_none_iff.mp noAny,map_eq_none_iff.mp noOne]
  rfl
end Dividing
def TwinAnswer {α β : Type} (related : α → β → Prop) (x : OptionT (StateM Unit) α) (y : OptionT (StateM Unit) β) : Prop :=
  Twin (Rel related) x.run y.run
namespace TwinAnswer
variable {α β γ δ : Type} {related : α → β → Prop} {x : OptionT (StateM Unit) α} {y : OptionT (StateM Unit) β}
lemma pure (holds : related a b) :
    TwinAnswer related (pure a : OptionT (StateM Unit) α) (pure b : OptionT (StateM Unit) β) :=
  Twin.pure (.some holds)

lemma lift (twin : Twin related u v) : TwinAnswer related (OptionT.lift u) (OptionT.lift v) :=
  .bind twin fun _ _ holds => .pure (.some holds)

lemma bind {goal : γ → δ → Prop} {f : α → OptionT (StateM Unit) γ} {g : β → OptionT (StateM Unit) δ}
    (first : TwinAnswer related x y) (next : ∀ a b, related a b → TwinAnswer goal (f a) (g b)) :
    TwinAnswer goal (x >>= f) (y >>= g) := by
  unfold TwinAnswer
  rw [OptionT.run_bind,OptionT.run_bind]
  refine .bind first fun _ _ answers => ?_
  cases answers with
  | none => exact .pure .none
  | some holds => exact next _ _ holds
end TwinAnswer
def SameVerdict (r r' : Report) : Prop := r.isSubset = r'.isSubset

lemma SameVerdict.all (each : Forall₂ SameVerdict rs rs') : SameVerdict (Report.all rs) (Report.all rs') := by
  unfold SameVerdict Report.all
  dsimp only
  induction each with
  | nil => rfl
  | cons here _ ih => rw [all_cons,all_cons,ih,show _ = _ from here]
namespace Engine
variable {e : Engine (StateM Unit)} {grounded : Bool} {a a' b b' sub sub' sup sup' : Json} {f f' : Fields}
lemma equivalent_congr (left : form a = form a') (right : form b = form b') : equivalent a b = equivalent a' b' := by
  unfold equivalent compareSchemas
  rw [left,right]

lemma twin_intersect (merges : e.Merges) (left : Kin grounded a a')
    (right : Kin grounded b b') : Twin (Results grounded) (e.intersect a b) (e.intersect a' b') := by
  have constants := searches_constants.agree left.loose right.loose (le_rfl) (le_rfl) ""
  have formats := searches_formats.agree left.loose right.loose (le_rfl) (le_rfl) ""
  have closed := closedConflict_congr e left.loose right.loose (le_rfl) (le_rfl) ""
  unfold intersect
  rw [constants,formats,closed,merges]
  cases constantConflict a'.depth a' b' "" with
  | some c => exact .pure (.conflicts c c)
  | none =>
    cases formatConflict a'.depth a' b' "" with
    | some c => exact .pure (.conflicts c c)
    | none =>
      have same : Twin Eq (e.closedConflict a'.depth a' b' "") (e.closedConflict a'.depth a' b' "") := rfl
      refine .bind same ?_
      rintro found _ rfl
      cases found with
      | some c => exact .pure (.conflicts c c)
      | none => exact twin_merge e.matcher left right

lemma twin_intersect? (merges : e.Merges) (left : Kin grounded a a')
    (right : Kin grounded b b') : Twin (Rel (Kin grounded)) (e.intersect? a b) (e.intersect? a' b') := by
  refine .bind (twin_intersect merges left right) fun _ _ results => ?_
  cases results with
  | conflicts => exact .pure .none
  | schemas kin => exact .pure (.some kin)

lemma twin_withBeside (merges : e.Merges) (beside : KinFields grounded f f')
    (empty : f.isEmpty = f'.isEmpty) (branch : Kin grounded b b') :
    Twin (Rel (Kin grounded)) (e.withBeside f b) (e.withBeside f' b') := by
  unfold withBeside
  rw [empty]
  split
  · exact .pure (.some branch.normalize)
  refine .bind (twin_intersect? merges (kin_obj.mpr beside) branch) fun _ _ found => ?_
  cases found with
  | none => exact .pure .none
  | some kin => exact .pure (.some kin.normalize)

lemma checkFailed_refuses (sub sup : Json) (failures : List Difference) :
    ((e.checkFailed sub sup failures).run ()).1.isSubset = false := by
  unfold checkFailed
  split <;> rfl

lemma twin_checkAtomic (merges : e.Merges) (left : Kin false sub sub') (right : Kin false sup sup') (path : String) :
    Twin SameVerdict (e.checkAtomic sub sup path) (e.checkAtomic sub' sup' path) := by
  unfold checkAtomic
  rw [equivalent_congr left.form right.form]
  split
  · exact .pure rfl
  refine .bind (twin_reconcile e left right path) ?_
  rintro ⟨settled,failures⟩ ⟨settled',_⟩ ⟨kin,rfl⟩
  dsimp only
  split
  · refine .bind (twin_intersect merges left kin) fun _ _ results => ?_
    cases results with
    | conflicts => exact .pure rfl
    | schemas common => exact .pure (equivalent_congr common.normalize.form left.form)
  · exact (checkFailed_refuses sub settled failures).trans (checkFailed_refuses sub' settled' failures).symm

def affirms (closest : Option Report) : Bool := closest.any (·.isSubset)

lemma affirms_closer (soFar : affirms closest = false) (fails : r.isSubset = false) : affirms (closer closest r) = false := by
  unfold closer
  split
  · exact fails
  split
  · exact fails
  · exact soFar

lemma isSubset_getD (closest : Option Report) (fails : r.isSubset = false) : (closest.getD r).isSubset = affirms closest := by
  cases closest with
  | none => exact fails
  | some _ => rfl

-- Which of the failures is the closest may depend on annotations, but none of them is a yes.
lemma twin_checkBranches (merges : e.Merges) (own : Kin false sub sub')
    (beside : KinFields false f f') (empty : f.isEmpty = f'.isEmpty) (path : String)
    (each : KinEach false l l') (soFar : affirms closest = false) (soFar' : affirms closest' = false) :
    Twin (fun found found' => affirms found = affirms found') (e.checkBranches sub f path closest l)
      (e.checkBranches sub' f' path closest' l') := by
  induction l generalizing l' closest closest' with
  | nil =>
    cases each
    exact .pure (soFar.trans soFar'.symm)
  | cons branch rest ih =>
    cases each with
    | cons first later =>
      refine .bind (twin_withBeside merges beside empty first) fun _ _ found => ?_
      cases found with
      | none => exact ih later soFar soFar'
      | some kin =>
        refine .bind (twin_checkAtomic merges own kin path) fun r r' same => ?_
        rw [same]
        split
        · exact .pure same
        next fails =>
        have fails := Bool.not_eq_true _ ▸ fails
        exact ih later (affirms_closer soFar (same.trans fails)) (affirms_closer soFar' fails)

lemma forall₂_typeParts (own : Kin false sub sub') (path : String) :
    Forall₂ (fun p p' => ∃ t : Json, t.Orderly ∧ p = ⟨[("type",t)],sub,path⟩ ∧ p' = ⟨[("type",t)],sub',path⟩)
      (typeParts sub path) (typeParts sub' path) := by
  unfold typeParts
  rw [field?_congr own "type" rfl]
  split
  · next types found =>
    split
    · exact .nil
    have orderlies : ∀ t ∈ types, t.Orderly := by
      cases sub' with
      | obj => exact orderly_arr.mp (orderly_get? own.right found)
      | _ => cases found
    rw [forall₂_map_left_iff,forall₂_map_right_iff,forall₂_same]
    exact fun t mem => ⟨t,orderlies t mem,rfl,rfl⟩
  · exact .nil

lemma twinAnswer_checkParts {check check' : Json → String → OptionT (StateM Unit) Report} {is : Json → Json → Prop}
    (each : Forall₂ (fun p p' => p.path = p'.path ∧
      Twin (Rel is) (e.withBeside p.beside p.branch) (e.withBeside p'.beside p'.branch)) parts parts')
    (checks : ∀ s s' path, is s s' → TwinAnswer SameVerdict (check s path) (check' s' path)) :
    TwinAnswer (Forall₂ SameVerdict) (e.checkParts check parts) (e.checkParts check' parts') := by
  induction each with
  | nil => exact TwinAnswer.pure .nil
  | @cons p p' _ _ here _ ih =>
    obtain ⟨path,twin⟩ := here
    unfold checkParts
    rw [path]
    refine TwinAnswer.bind (TwinAnswer.lift twin) fun _ _ found => ?_
    cases found with
    | none => exact ih
    | some holds =>
      refine TwinAnswer.bind (checks _ _ p'.path holds) fun r r' same => ?_
      exact TwinAnswer.bind ih fun rs rs' others => TwinAnswer.pure (.cons same others)

lemma twin_checkAgainst (merges : e.Merges) (wider : Akin false sup sup') (fuel : Nat)
    (own : Kin false sub sub') (path : String) :
    TwinAnswer SameVerdict (e.checkAgainst sup fuel sub path) (e.checkAgainst sup' fuel sub' path) := by
  induction fuel generalizing sub sub' path with
  | zero => exact Twin.pure .none
  | succ fuel ih =>
    rw [checkAgainst,checkAgainst]
    cases wider with
    | whole kin undivided =>
      rw [undivided,kin.undivided undivided]
      exact TwinAnswer.lift (twin_checkAtomic merges own kin path)
    | @union s s' _ _ atL atR kin =>
      rw [atL,atR]
      refine TwinAnswer.bind (TwinAnswer.lift (twin_checkBranches merges own kin.beside kin.empty path kin.branches rfl rfl))
        fun closest closest' same => ?_
      have verdict : SameVerdict (closest.getD (noBranch sub sup s.kind path))
          (closest'.getD (noBranch sub' sup' s'.kind path)) := by
        unfold SameVerdict
        rw [isSubset_getD closest rfl,isSubset_getD closest' rfl,same]
      have parts := forall₂_typeParts own path
      have none : (typeParts sub path).isEmpty = (typeParts sub' path).isEmpty := by
        generalize typeParts sub path = own at parts
        generalize typeParts sub' path = other at parts
        cases parts <;> rfl
      dsimp only
      rw [none,show _ = _ from verdict]
      split
      · exact TwinAnswer.pure verdict
      have made : Forall₂ (fun p p' => p.path = p'.path ∧ Twin (Rel (Kin false)) (e.withBeside p.beside p.branch)
          (e.withBeside p'.beside p'.branch)) (typeParts sub path) (typeParts sub' path) := by
        refine parts.imp ?_
        rintro _ _ ⟨t,ord,rfl,rfl⟩
        exact ⟨rfl,twin_withBeside merges (.refl (orderly_single ord)) rfl own⟩
      refine TwinAnswer.bind (twinAnswer_checkParts made fun _ _ path kin => ih kin path) fun rs rs' each => ?_
      have byType := SameVerdict.all each
      refine TwinAnswer.pure ?_
      rw [show (Report.all rs).isSubset = (Report.all rs').isSubset from byType]
      split
      · exact byType
      · exact verdict

lemma forall₂_unionParts (kin : SplitKin true s s') (path : String) :
    Forall₂ (fun p p' => p.path = p'.path ∧ p.beside = s.beside ∧ p'.beside = s'.beside ∧ p.branch ∈ s.branches ∧
      p'.branch ∈ s'.branches ∧ PartKin s.beside s'.beside p.branch p'.branch) (unionParts s path) (unionParts s' path) := by
  have each {l l'} start (each : Forall₂ (PartKin s.beside s'.beside) l l') :
      Forall₂ (fun p p' => p.2 = p'.2 ∧ p.1 ∈ l ∧ p'.1 ∈ l' ∧
      PartKin s.beside s'.beside p.1 p'.1) (l.zipIdx start) (l'.zipIdx start) := by
    induction each generalizing start with
    | nil => exact .nil
    | cons first _ ih =>
      refine .cons ⟨rfl,.head _,.head _,first⟩ ((ih (start + 1)).imp ?_)
      exact fun _ _ ⟨index,inLeft,inRight,part⟩ => ⟨index,.tail _ inLeft,.tail _ inRight,part⟩
  unfold unionParts
  rw [forall₂_map_left_iff,forall₂_map_right_iff]
  refine (each 0 (kin.parts rfl)).imp ?_
  rintro ⟨b,i⟩ ⟨b',_⟩ ⟨rfl,inLeft,inRight,part⟩
  exact ⟨congrArg (fun kind => indexPath (joinPath path (UnionKind.keyword kind)) i) kin.kind,rfl,rfl,inLeft,inRight,part⟩

lemma twin_measured (merges : e.Merges) (beside : KinFields grounded f f')
    (empty : f.isEmpty = f'.isEmpty) (branch : Kin grounded b b') :
    Twin (Rel fun part part' => Kin grounded part part' ∧ part.splits ≤ (obj f).splits + b.splits ∧
      part'.splits ≤ (obj f').splits + b'.splits) (e.withBeside f b) (e.withBeside f' b') := by
  have merging : Merging (fun _ => true) e e := ⟨fun _ => rfl,merges,fun _ _ _ _ => rfl,rfl,rfl⟩
  have left := (concur_part merging beside.left branch.left).2
  have right := (concur_part merging beside.right branch.right).2
  refine .mono (.and (twin_withBeside merges beside empty branch) left right) ?_
  rintro _ _ ⟨found,left,right⟩
  cases found with
  | none => exact .none
  | some part => exact .some ⟨part,(left _ rfl).2.1,(right _ rfl).2.1⟩

lemma twin_part (merges : e.Merges) (kin : SplitKin true s s') (part : PartKin s.beside s'.beside b b') :
    Twin (Rel fun part part' => Akin true part part' ∧ part.splits ≤ (obj s.beside).splits + b.splits ∧
      part'.splits ≤ (obj s'.beside).splits + b'.splits) (e.withBeside s.beside b) (e.withBeside s'.beside b') := by
  cases part with
  | last branch noUnion none =>
    refine (twin_measured merges kin.beside kin.empty branch).mono fun _ _ found => ?_
    cases found with
    | none => exact .none
    | some facts =>
      obtain ⟨part,few,few'⟩ := facts
      exact .some ⟨.whole part (undivided_of_splits part.left (by omega)),few,few'⟩
  | grounded beside branch =>
    refine (twin_measured merges beside kin.empty branch).mono fun _ _ found => ?_
    cases found with
    | none => exact .none
    | some facts => exact .some ⟨facts.1.akin,facts.2⟩

lemma typeFuel_congr (kin : Kin false sub sub') : typeFuel sub = typeFuel sub' := by
  unfold typeFuel
  rw [field?_congr kin "type" rfl]

lemma twin_checkWithin (merges : e.Merges) (wider : Akin false sup sup')
    (own : Akin true sub sub') (enough : sub.splits < fuel) (enough' : sub'.splits < fuel') (path : String) :
    TwinAnswer SameVerdict (e.checkWithin sup fuel sub path) (e.checkWithin sup' fuel' sub' path) := by
  induction fuel generalizing sub sub' fuel' path with
  | zero => cases enough
  | succ fuel ih =>
    obtain ⟨rest,rfl⟩ := Nat.exists_eq_add_one_of_ne_zero (ne_of_gt (Nat.zero_lt_of_lt enough'))
    rw [checkWithin,checkWithin,own.isFalse_eq,wider.isTrue_eq,equivalent_congr wider.form rfl]
    split
    · exact TwinAnswer.pure rfl
    split
    · exact TwinAnswer.pure rfl
    have readTrue : ∃ s s', (if sub.isTrue then .emptyObj else sub) = s ∧
        (if sub'.isTrue then .emptyObj else sub') = s' ∧ Akin true s s' ∧ s.splits < fuel + 1 ∧
        s'.splits < rest + 1 := by
      rw [own.isTrue_eq]
      split
      · exact ⟨_,_,rfl,rfl,Kin.akin (.refl rfl),Nat.zero_lt_succ _,Nat.zero_lt_succ _⟩
      · exact ⟨sub,sub',rfl,rfl,own,enough,enough'⟩
    obtain ⟨s,s',is,is',akin,sEnough,sEnough'⟩ := readTrue
    dsimp only
    rw [is,is',equivalent_congr akin.form wider.form]
    split
    · exact TwinAnswer.pure rfl
    cases akin with
    | whole kin undivided =>
      rw [undivided,kin.undivided undivided,typeFuel_congr kin]
      exact twin_checkAgainst merges wider _ kin path
    | @union apart apart' left right atL atR kin =>
      rw [atL,atR]
      have total := split_fewer left atL
      have total' := split_fewer right atR
      have made : Forall₂ (fun p p' => p.path = p'.path ∧ Twin (Rel fun part part' => Akin true part part' ∧
          part.splits < fuel ∧ part'.splits < rest) (e.withBeside p.beside p.branch) (e.withBeside p'.beside p'.branch))
          (unionParts apart path) (unionParts apart' path) := by
        refine (forall₂_unionParts kin path).imp ?_
        rintro p p' ⟨samePath,beside,beside',inside,inside',branch⟩
        have few := splits_member inside
        have few' := splits_member inside'
        rw [beside,beside']
        refine ⟨samePath,(twin_part merges kin branch).mono fun _ _ found => ?_⟩
        cases found with
        | none => exact .none
        | some facts =>
          obtain ⟨akin,fewer,fewer'⟩ := facts
          exact .some ⟨akin,by omega,by omega⟩
      exact TwinAnswer.bind (twinAnswer_checkParts made fun _ _ path part => ih part.1 part.2.1 part.2.2 path)
        fun _ _ each => TwinAnswer.pure (SameVerdict.all each)

lemma twin_check (merges : e.Merges) (own : Akin true sub sub') (wider : Akin false sup sup') :
    Twin SameVerdict (e.check sub sup) (e.check sub' sup') := by
  refine .bind (twin_checkWithin merges wider.normalize own.normalize (splits_lt_unionCount _) (splits_lt_unionCount _) "")
    fun _ _ answers => .pure ?_
  cases answers with
  | none => rfl
  | some same => exact same
end Engine
end SchemaOrder
