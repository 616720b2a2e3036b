import SchemaOrder.Proofs.Annotations.Stripping
-- Adding an alternative to the wider schema.
namespace SchemaOrder
open Keyword List Json Engine Canonical Option Intersection
-- The path of a check shows in its differences, not in its verdict.
namespace Engine
structure Settled.Same (s s' : Settled) : Prop where
  sup : s.sup = s'.sup
  failures : s.failures.length = s'.failures.length
variable {e : Engine (StateM Unit)}
lemma Settled.Same.decide {s s' : Settled} (same : s.Same s') (verdict : Option Bool) (keyword : String)
    (replacement : Option Json) (violation violation' : Difference) :
    (s.decide verdict keyword replacement violation).Same (s'.decide verdict keyword replacement violation') := by
  unfold Settled.decide
  split
  · unfold settle
    split
    · exact ⟨congrArg (Fields.put · keyword _) same.sup,same.failures⟩
    · exact ⟨congrArg (Fields.erase · keyword) same.sup,same.failures⟩
  · refine ⟨same.sup,?_⟩
    unfold fail
    rw [length_append,length_append,same.failures,length_singleton,length_singleton]
  · exact same

lemma twin_patternPath {s s' : Settled} (same : s.Same s') (sub : Fields) (path path' : String) :
    Twin Settled.Same (e.settlePattern sub path s) (e.settlePattern sub path' s') := by
  unfold settlePattern
  rw [same.sup]
  split
  · exact .pure same
  next pat _ =>
  have verdict : Twin Eq (e.patternVerdict sub pat) (e.patternVerdict sub pat) := rfl
  refine .bind verdict ?_
  rintro verdict _ rfl
  exact .pure (same.decide _ _ _ _ _)

lemma Settled.Same.settleFormat {s s' : Settled} (same : s.Same s') (sub : Fields) (path path' : String) :
    (settleFormat sub path s).Same (settleFormat sub path' s') := by
  unfold Engine.settleFormat
  rw [same.sup]
  split
  · exact same
  · exact same.decide _ _ _ _ _

lemma Settled.Same.settleNegation {s s' : Settled} (same : s.Same s') (sub : Fields) (path path' : String) :
    (settleNegation sub path s).Same (settleNegation sub path' s') := by
  unfold Engine.settleNegation
  rw [same.sup]
  split
  · exact same
  split
  · exact same
  · exact same.decide _ _ _ _ _

lemma twin_reconcilePath (depth : Nat) (sub sup : Json) (path path' : String) :
    Twin (fun made made' => made.1 = made'.1 ∧ made.2.length = made'.2.length) (e.reconcileWithin depth sub sup path)
      (e.reconcileWithin depth sub sup path') := by
  induction depth generalizing sub sup path path' with
  | zero => exact .pure ⟨rfl,rfl⟩
  | succ depth ih =>
    cases sub with
    | obj f =>
      cases sup with
      | obj h =>
        refine .bind (twin_patternPath ⟨rfl,rfl⟩ f _ _) fun s s' same => ?_
        have start := (same.settleFormat f path path').settleNegation f path path'
        refine .bind (.foldlM ?_ (pairedPositions_path f h path path' .settling) _ _ start) fun s s' same =>
          .pure ⟨congrArg obj same.sup,same.failures⟩
        intro s s' p q same _ _ position
        rw [position.left,position.right]
        refine .bind (ih q.left q.right p.path q.path) ?_
        rintro ⟨made,failures⟩ ⟨_,failures'⟩ ⟨rfl,count⟩
        refine .pure ⟨?_,?_⟩
        · rw [position.slot,same.sup]
        · rw [length_append,length_append,same.failures,show failures.length = failures'.length from count]
      | _ =>
        exact .pure ⟨rfl,rfl⟩
    | _ =>
      exact .pure ⟨rfl,rfl⟩

lemma twin_atomicPath (sub sup : Json) (path path' : String) :
    Twin SameVerdict (e.checkAtomic sub sup path) (e.checkAtomic sub sup path') := by
  unfold checkAtomic
  split
  · exact .pure rfl
  refine .bind (twin_reconcilePath _ sub sup path path') ?_
  rintro ⟨settled,failures⟩ ⟨_,failures'⟩ ⟨rfl,count⟩
  have empty : failures.isEmpty = failures'.isEmpty := by
    cases failures <;> cases failures' <;> first | rfl | cases count
  dsimp only
  rw [empty]
  split
  · have merged : Twin Eq (e.intersect sub settled) (e.intersect sub settled) := rfl
    refine .bind merged ?_
    rintro result _ rfl
    cases result with
    | error c | ok common => exact .pure rfl
  · exact (checkFailed_refuses sub settled failures).trans (checkFailed_refuses sub settled failures').symm

def made (e : Engine (StateM Unit)) (beside : Fields) (branch : Json) : Option Json :=
  ((e.withBeside beside branch).run ()).1
section Answers
variable {α β : Type}
def found (x : OptionT (StateM Unit) α) : Option α := (x.run.run ()).1

lemma found_lift (x : StateM Unit α) : found (OptionT.lift x) = some (x.run ()).1 := rfl

lemma found_bind (x : OptionT (StateM Unit) α) (f : α → OptionT (StateM Unit) β) :
    found (x >>= f) = (found x).bind fun a => found (f a) := by
  unfold found
  rw [OptionT.run_bind]
  change (((x.run.run ()).1.elim (pure none) fun a => (f a).run : StateM Unit (Option β)).run (x.run.run ()).2).1 = _
  cases (x.run.run ()).1 with
  | none | some a => rfl
end Answers
def fitsBranch (e : Engine (StateM Unit)) (sub : Json) (beside : Fields) (bs : List Json) : Bool :=
  bs.any fun branch => (e.made beside branch).any fun sup => ((e.checkAtomic sub sup "").run ()).1.isSubset

def severalTypes (sub : Json) : List Json :=
  match sub.field? "type" with
  | some (.arr types) => if types.length < 2 then [] else types
  | _ => []

def verdictAgainst (e : Engine (StateM Unit)) (split : Split) : Nat → Json → Bool
  | 0, _ => false
  | fuel + 1, sub => e.fitsBranch sub split.beside split.branches ||
      (!(severalTypes sub).isEmpty && (severalTypes sub).all fun t =>
        (e.made [("type",t)] sub).all (verdictAgainst e split fuel))

lemma affirms_branches (sub : Json) (beside : Fields) (path : String) (bs : List Json) (soFar : affirms closest = false) :
    affirms ((e.checkBranches sub beside path closest bs).run ()).1 = e.fitsBranch sub beside bs := by
  induction bs generalizing closest with
  | nil => exact soFar
  | cons branch rest ih =>
    unfold fitsBranch made at ih ⊢
    rw [any_cons,checkBranches,answer_bind]
    cases ((e.withBeside beside branch).run ()).1 with
    | none => exact ih soFar
    | some sup =>
      have same : ((e.checkAtomic sub sup path).run ()).1.isSubset = ((e.checkAtomic sub sup "").run ()).1.isSubset :=
        twin_atomicPath sub sup path ""
      rw [answer_bind,any_some,← same]
      cases verdict : ((e.checkAtomic sub sup path).run ()).1.isSubset with
      | true => exact verdict
      | false => exact ih (affirms_closer soFar verdict)

lemma all_parts (check : Json → String → OptionT (StateM Unit) Report) (verdict : Json → Bool)
    (each : ∀ s path, affirms (found (check s path)) = verdict s) (parts : List Part) :
    (found (e.checkParts check parts)).any (fun reports => reports.all (·.isSubset)) =
      parts.all fun p => (e.made p.beside p.branch).all verdict := by
  induction parts with
  | nil => rfl
  | cons p rest ih =>
    rw [all_cons,checkParts,found_bind,found_lift,bind_some]
    unfold made at ih ⊢
    cases ((e.withBeside p.beside p.branch).run ()).1 with
    | none => exact ih
    | some s =>
      rw [all_some,← each s p.path,← ih,found_bind]
      cases found (check s p.path) with
      | none => rfl
      | some r =>
        rw [bind_some,found_bind]
        cases found (e.checkParts check rest) with
        | none => exact (Bool.and_false _).symm
        | some reports => rfl

lemma affirms_all (check : Json → String → OptionT (StateM Unit) Report) (verdict : Json → Bool)
    (each : ∀ s path, affirms (found (check s path)) = verdict s) (parts : List Part) :
    affirms (found (do return Report.all (← e.checkParts check parts))) =
      parts.all fun p => (e.made p.beside p.branch).all verdict := by
  rw [← all_parts check verdict each,found_bind]
  cases found (e.checkParts check parts) with
  | none | some reports => rfl

lemma typeParts_eq (sub : Json) (path : String) :
    typeParts sub path = (severalTypes sub).map fun t => ⟨[("type",t)],sub,path⟩ := by
  unfold typeParts severalTypes
  cases sub.field? "type" with
  | none => rfl
  | some v =>
    cases v with
    | arr types =>
      dsimp only
      split
      all_goals rfl
    | _ => rfl

lemma affirms_against (divided : Split.of? sup = some split) (fuel : Nat) (sub : Json)
    (path : String) : affirms (found (e.checkAgainst sup fuel sub path)) = e.verdictAgainst split fuel sub := by
  induction fuel generalizing sub path with
  | zero => rfl
  | succ fuel ih =>
    have types := affirms_all (e := e) (e.checkAgainst sup fuel) (e.verdictAgainst split fuel) ih (typeParts sub path)
    rw [typeParts_eq,List.all_map] at types
    have bs := affirms_branches (e := e) sub split.beside path split.branches (show affirms none = false from rfl)
    rw [← isSubset_getD _ (r := noBranch sub sup split.kind path) rfl] at bs
    rw [checkAgainst,divided,verdictAgainst,← bs]
    dsimp only
    rw [found_bind,found_lift,bind_some,typeParts_eq,isEmpty_map]
    generalize ((e.checkBranches sub split.beside path none split.branches).run ()).1.getD _ = answer
    cases fits : answer.isSubset with
    | true => exact fits
    | false =>
      rw [Bool.false_or]
      cases (severalTypes sub).isEmpty with
      | true => exact fits
      | false =>
        rw [if_neg Bool.false_ne_true,found_bind]
        refine Eq.trans ?_ types
        rw [found_bind]
        cases found (e.checkParts (e.checkAgainst sup fuel) ((severalTypes sub).map fun t => ⟨[("type",t)],sub,path⟩)) with
        | none => rfl
        | some reports =>
          rw [bind_some]
          split
          · rfl
          · next fails => exact fits.trans (Bool.not_eq_true _ ▸ fails).symm

def readTrue (sub : Json) : Json := if sub.isTrue then .emptyObj else sub

def alternatives (bs : List Json) : Json := .single "anyOf" (.arr bs)

def verdictWithin (e : Engine (StateM Unit)) (bs : List Json) : Nat → Json → Bool
  | 0, _ => false
  | fuel + 1, sub => sub.isFalse || equivalent (readTrue sub) (alternatives bs) ||
      match Split.of? (readTrue sub) with
      | none => e.verdictAgainst ⟨.anyOf,bs,[]⟩ (typeFuel (readTrue sub)) (readTrue sub)
      | some split => split.branches.all fun branch => (e.made split.beside branch).all (verdictWithin e bs fuel)

lemma split_alternatives (bs : List Json) : Split.of? (alternatives bs) = some ⟨.anyOf,bs,[]⟩ := rfl

lemma form_alternatives (bs : List Json) : form (alternatives bs) = alternatives (sortSet (bs.map form)) := by
  rw [← forms_eq]
  rfl

lemma constrains_alternatives (bs : List Json) : equivalent (alternatives bs) .emptyObj = false := by
  refine Bool.not_eq_true _ ▸ fun same => ?_
  rw [equivalent_iff,form_alternatives] at same
  cases same

lemma all_unionParts (split : Split) (path : String) (test : Fields → Json → Bool) :
    ((unionParts split path).all fun p => test p.beside p.branch) = split.branches.all (test split.beside) := by
  have each : ∀ (l : List Json) start,
      ((l.zipIdx start).all fun entry => test split.beside entry.1) = l.all (test split.beside) := by
    intro l
    induction l with
    | nil => exact fun _ => rfl
    | cons a l ih =>
      intro start
      rw [zipIdx_cons,all_cons,all_cons,ih]
  unfold unionParts
  rw [List.all_map]
  exact each split.branches 0

lemma affirms_within (bs : List Json) (fuel : Nat) (sub : Json) (path : String) :
    affirms (found (e.checkWithin (alternatives bs) fuel sub path)) = e.verdictWithin bs fuel sub := by
  induction fuel generalizing sub path with
  | zero => rfl
  | succ fuel ih =>
    have constrained : (alternatives bs).isTrue = false := rfl
    rw [checkWithin,verdictWithin,constrains_alternatives]
    unfold readTrue
    generalize (if sub.isTrue then emptyObj else sub) = whole
    cases sub.isFalse with
    | true => rfl
    | false =>
      dsimp only
      cases equivalent whole (alternatives bs) with
      | true => rfl
      | false =>
        cases Split.of? whole with
        | none => exact affirms_against (split_alternatives bs) _ _ path
        | some split =>
          exact (affirms_all _ _ ih (unionParts split path)).trans
            (all_unionParts split path fun beside branch => (e.made beside branch).all (e.verdictWithin bs fuel))

structure Ready (s : Json) : Prop where
  orderly : s.Orderly
  apart : s.typesApart
  normal : s.normalize = s

lemma ready_normalize {s : Json} (ord : s.Orderly) (apart : s.typesApart) : Ready s.normalize :=
  ⟨orderly_normalize ord,apart_normalize ord apart,normalize_normalize ord⟩

lemma merging_self (merges : e.Merges) : Merging (fun _ => true) e e := ⟨fun _ => rfl,merges,fun _ _ _ _ => rfl,rfl,rfl⟩

lemma normal_made (merges : e.Merges)
    (besideOrderly : (obj beside).Orderly) (branchOrderly : branch.Orderly) (is : e.made beside branch = some part) :
    part.normalize = part := by
  unfold made withBeside at is
  split at is
  · cases is
    exact normalize_normalize branchOrderly
  have merged := concur_intersect? (merging_self merges) besideOrderly branchOrderly (ensures_mergeRoot
    (fun _ => rfl) (fun _ => ensures_any _) besideOrderly branchOrderly)
  obtain ⟨m,found,rfl⟩ := map_eq_some_iff.mp is
  exact normalize_normalize ((merged.2 () trivial).2 m found).1

lemma ready_made (merges : e.Merges) (ready : Ready s)
    (divided : Split.of? s = some split) (mem : branch ∈ split.branches) (is : e.made split.beside branch = some part) :
    Ready part ∧ part.splits < s.splits := by
  obtain ⟨besideOrderly,branchesOrderly⟩ := orderly_split ready.orderly divided
  obtain ⟨besideApart,branchesApart⟩ := split_apart ready.orderly divided ready.apart
  have branchOrderly := branchesOrderly branch mem
  obtain ⟨ord,fewer,apart⟩ := ((concur_part (merging_self merges) besideOrderly branchOrderly).2 () trivial).2 part is
  have total := split_fewer ready.orderly divided
  have within := splits_member mem
  exact ⟨⟨ord,apart besideApart (branchesApart branch mem),normal_made merges besideOrderly branchOrderly is⟩,by omega⟩

def within (e : Engine (StateM Unit)) (bs : List Json) (sub : Json) : Bool :=
  ((e.check sub (alternatives bs)).run ()).1.isSubset

lemma normalize_alternatives (bs : List Json) : (alternatives bs).normalize = alternatives (bs.map normalize) := by
  rw [← Schemas.normalizeItems_eq]
  rfl

lemma within_eq (merges : e.Merges) (ready : Ready s) (ord : (arr bs).Orderly) (enough : s.splits < fuel) :
    e.within bs s = e.verdictWithin (bs.map normalize) fuel s := by
  have listOrderly : (alternatives bs).Orderly := orderly_single ord
  have settled : (e.checkWithin (alternatives bs).normalize (s.unionCount + 2) s "").run =
      (e.checkWithin (alternatives bs).normalize fuel s "").run :=
    (concur_within (merging_self merges).judging ready.orderly (orderly_normalize listOrderly) ready.apart
      (splits_lt_unionCount s) enough).1
  rw [normalize_alternatives] at settled
  rw [← affirms_within _ fuel s "",found,← settled]
  unfold within check
  rw [ready.normal,normalize_alternatives]
  exact isSubset_getD _ rfl

lemma within_parts (merges : e.Merges) (ready : Ready s) (ord : (arr bs).Orderly) :
    e.within bs s = (s.isFalse || equivalent (readTrue s) (alternatives (bs.map normalize)) ||
      match Split.of? (readTrue s) with
      | none => e.verdictAgainst ⟨.anyOf,bs.map normalize,[]⟩ (typeFuel (readTrue s)) (readTrue s)
      | some split => split.branches.all fun branch => (e.made split.beside branch).all (e.within bs)) := by
  rw [within_eq merges ready ord (Nat.lt_succ_self s.splits),verdictWithin]
  cases divided : Split.of? (readTrue s) with
  | none => rfl
  | some split =>
    have isUnion : Split.of? s = some split := by
      unfold readTrue at divided
      split at divided
      · cases divided
      · exact divided
    have each branch (mem : branch ∈ split.branches) :
        (e.made split.beside branch).all (e.verdictWithin (bs.map normalize) s.splits) =
        (e.made split.beside branch).all (e.within bs) := by
      cases is : e.made split.beside branch with
      | none => rfl
      | some part =>
        obtain ⟨partReady,fewer⟩ := ready_made merges ready isUnion mem is
        exact (within_eq merges partReady ord fewer).symm
    have all : (split.branches.all fun branch =>
        (e.made split.beside branch).all (e.verdictWithin (bs.map normalize) s.splits)) =
          split.branches.all fun branch => (e.made split.beside branch).all (e.within bs) := by
      rw [Bool.eq_iff_iff,List.all_eq_true,List.all_eq_true]
      exact forall_congr' fun branch => forall_congr' fun mem => by rw [each branch mem]
    dsimp only
    rw [all]
section Wider
variable {s : Json} {bs more : List Json}
lemma against_wider (fits : e.verdictAgainst ⟨.anyOf,bs,[]⟩ fuel sub) :
    e.verdictAgainst ⟨.anyOf,bs ++ more,[]⟩ fuel sub := by
  induction fuel generalizing sub with
  | zero => cases fits
  | succ fuel ih =>
    rw [verdictAgainst,Bool.or_eq_true,Bool.and_eq_true] at fits ⊢
    refine fits.imp (fun fits => ?_) fun ⟨several,all⟩ => ⟨several,?_⟩
    · unfold fitsBranch at fits ⊢
      rw [any_append,fits,Bool.true_or]
    rw [List.all_eq_true] at all ⊢
    intro t mem
    have part := all t mem
    cases is : e.made [("type",t)] sub with
    | none => rfl
    | some s =>
      rw [is] at part
      exact ih part

def isList (bs : List Json) (s : Json) : Bool := equivalent s (alternatives (bs.map normalize))

-- The parts of a schema that checks against a list of alternatives get to see, with and without `more` of them. What is
-- equivalent to the list is not taken apart.
inductive Exposed (e : Engine (StateM Unit)) (bs more : List Json) (s : Json) : Json → Prop where
  | whole : Exposed e bs more s s
  | part {t branch part : Json} {split : Split} (outer : Exposed e bs more s t) (narrow : isList bs t = false)
      (wide : isList (bs ++ more) t = false) (divided : Split.of? t = some split) (mem : branch ∈ split.branches)
      (is : e.made split.beside branch = some part) : Exposed e bs more s part
variable {p : Json}
lemma Exposed.ready (merges : e.Merges) (ready : Ready s) (exposed : Exposed e bs more s p) : Ready p := by
  induction exposed with
  | whole => exact ready
  | part _ _ _ divided mem is ih => exact (ready_made merges ih divided mem is).1

lemma Exposed.inside {branch part : Json} {split : Split} (narrow : isList bs s = false)
    (wide : isList (bs ++ more) s = false) (divided : Split.of? s = some split) (mem : branch ∈ split.branches)
    (is : e.made split.beside branch = some part) (exposed : Exposed e bs more part p) : Exposed e bs more s p := by
  induction exposed with
  | whole => exact .part .whole narrow wide divided mem is
  | part _ narrow wide divided mem is ih => exact .part ih narrow wide divided mem is

lemma equivalent_readTrue (s t : Json) : equivalent (readTrue s) t = equivalent s t := by
  cases s with
  | bool b => cases b <;> rfl
  | _ => rfl

lemma readTrue_divided (divided : Split.of? s = some split) : readTrue s = s ∧ s.isFalse = false := by
  cases s with
  | obj => exact ⟨rfl,rfl⟩
  | _ => cases divided

lemma undivided_readTrue (undivided : Split.of? s = none) : Split.of? (readTrue s) = none := by
  unfold readTrue
  split
  · rfl
  · exact undivided
section
variable (merges : e.Merges) (ready : Ready s)
include merges ready
lemma within_union (ord : (arr bs).Orderly) (differs : isList bs s = false) (divided : Split.of? s = some split) :
    e.within bs s ↔ ∀ branch ∈ split.branches, ∀ part, e.made split.beside branch = some part → e.within bs part := by
  obtain ⟨read,isObj⟩ := readTrue_divided divided
  unfold isList at differs
  rw [within_parts merges ready ord,read,isObj,differs,divided,Bool.false_or,Bool.false_or,List.all_eq_true]
  refine forall_congr' fun branch => forall_congr' fun mem => ?_
  cases e.made split.beside branch with
  | none => exact ⟨fun _ part is => (nomatch is),fun _ => rfl⟩
  | some part => exact ⟨fun holds other is => some.inj is ▸ holds,fun all => all part rfl⟩

lemma within_of_isList (ord : (arr bs).Orderly) (same : isList bs s) : e.within bs s := by
  unfold isList at same
  rw [within_parts merges ready ord,equivalent_readTrue,same,Bool.or_true,Bool.true_or]

lemma within_exposed (ord : (arr (bs ++ more)).Orderly) (holds : e.within (bs ++ more) s)
    (exposed : Exposed e bs more s p) : e.within (bs ++ more) p := by
  induction exposed with
  | whole => exact holds
  | part outer _ wide divided mem is ih =>
    exact (within_union merges (outer.ready merges ready) ord wide divided).mp ih _ mem _ is

-- What was positive stays so, unless it was equivalent to the list.
lemma within_wider (ord : (arr (bs ++ more)).Orderly) (holds : e.within bs s)
    (equal : ∀ p, Exposed e bs more s p → isList bs p → e.within (bs ++ more) p) :
    e.within (bs ++ more) s := by
  have fewerOrderly : (arr bs).Orderly := orderly_arr.mpr fun v mem =>
    orderly_arr.mp ord v (mem_append_left _ mem)
  generalize count : s.splits = n
  induction n using Nat.strong_induction_on generalizing s with
  | _ n ih =>
    subst count
    cases narrow : isList bs s with
    | true => exact equal s .whole narrow
    | false =>
      cases wide : isList (bs ++ more) s with
      | true => exact within_of_isList merges ready ord wide
      | false =>
        cases divided : Split.of? s with
        | some split =>
          refine (within_union merges ready ord wide divided).mpr fun branch mem part is => ?_
          obtain ⟨partReady,fewer⟩ := ready_made merges ready divided mem is
          refine ih part.splits fewer partReady ?_ (fun p exposed => ?_) rfl
          · exact (within_union merges ready fewerOrderly narrow divided).mp holds branch mem part is
          · exact equal p (exposed.inside narrow wide divided mem is)
        | none =>
          have undivided := undivided_readTrue divided
          unfold isList at narrow wide
          rw [within_parts merges ready fewerOrderly,equivalent_readTrue,narrow,undivided] at holds
          rw [within_parts merges ready ord,equivalent_readTrue,wide,undivided]
          rw [Bool.or_eq_true] at holds ⊢
          rw [map_append]
          exact holds.imp_right against_wider
end
lemma get?_form {kind : UnionKind} {f : Fields} {own : List Json} (listed : listed? f kind = some own) :
    ∃ g : Fields, form (.obj f) = .obj g ∧ g.get? kind.keyword = some (.arr (sortSet (own.map form))) := by
  refine ⟨_,rfl,?_⟩
  rw [get?_closeObject (by cases kind <;> decide),Bound.get?_fold (by cases kind <;> rfl)]
  obtain ⟨v,at_,is⟩ := bind_eq_some_iff.mp listed
  have formed : formKeyword kind.keyword v = some (.arr (sortSet (own.map form))) := by
    cases v with
    | arr list =>
      cases is
      rw [← forms_eq]
      cases kind <;> rfl
    | _ => cases is
  clear listed is
  induction f with
  | nil => cases at_
  | cons field f ih =>
    obtain ⟨key,w⟩ := field
    rw [keywords_cons]
    rw [Fields.get?_cons] at at_
    split at at_
    · next same =>
      cases at_
      rw [same,formed]
      exact if_pos rfl
    next differ =>
    cases formKeyword key w with
    | none => exact ih at_
    | some t => exact (if_neg differ).trans (ih at_)

lemma equivalent_branches (divided : Split.of? p = some split)
    (same : equivalent p (alternatives bs)) : ∀ a ∈ split.branches, ∃ b ∈ bs, equivalent a b := by
  intro a mem
  rw [equivalent_iff,form_alternatives] at same
  cases p with
  | obj f =>
    obtain ⟨kind,own,listed,rfl,-⟩ := split_cases divided
    obtain ⟨g,is,formed⟩ := get?_form listed
    rw [is] at same
    obtain rfl := obj.inj same
    cases kind with
    | oneOf => cases formed
    | anyOf =>
      change a ∈ own at mem
      have sets : arr _ = arr _ := some.inj formed
      have isMember := mem_sortSet.mpr (mem_map_of_mem (f := form) mem)
      rw [← arr.inj sets] at isMember
      obtain ⟨b,inside,formed⟩ := mem_map.mp (mem_sortSet.mp isMember)
      exact ⟨b,inside,equivalent_iff.mpr formed.symm⟩
  | _ => cases divided

def keepsBranches (e : Engine (StateM Unit)) (s : Json) : Bool :=
  match Split.of? s with
  | none => false
  | some split => split.branches.all fun branch =>
      (e.made split.beside branch).all fun part => equivalent part branch && (Split.of? part).isNone

lemma keepsBranches_cases (keeps : e.keepsBranches p) : ∃ split, Split.of? p = some split ∧
    ∀ branch ∈ split.branches, ∀ part, e.made split.beside branch = some part →
      equivalent part branch ∧ Split.of? part = none := by
  unfold keepsBranches at keeps
  split at keeps
  · cases keeps
  next split divided =>
  refine ⟨split,divided,fun branch mem part is => ?_⟩
  have kept := all_eq_true.mp keeps branch mem
  rw [is] at kept
  obtain ⟨same,undivided⟩ := Bool.and_eq_true_iff.mp kept
  exact ⟨same,isNone_iff_eq_none.mp undivided⟩

-- What is equivalent to an alternative passes it.
lemma within_of_member (merges : e.Merges) (ready : Ready s)
    (ord : (arr bs).Orderly) (undivided : Split.of? s = none) (mem : b ∈ bs)
    (same : equivalent s b.normalize) : e.within bs s := by
  have fits : e.fitsBranch (readTrue s) [] (bs.map normalize) := by
    have normal := normalize_normalize (orderly_arr.mp ord b mem)
    refine any_eq_true.mpr ⟨b.normalize,mem_map_of_mem mem,?_⟩
    change ((e.checkAtomic (readTrue s) b.normalize.normalize "").run ()).1.isSubset
    unfold checkAtomic
    rw [normal,if_pos ((equivalent_readTrue s _).trans same)]
    rfl
  rw [within_parts merges ready ord,undivided_readTrue undivided]
  rw [typeFuel,verdictAgainst,fits,Bool.true_or,Bool.or_true]

lemma within_kept (merges : e.Merges) (ready : Ready p)
    (ord : (arr (bs ++ more)).Orderly) (keeps : e.keepsBranches p) (same : isList bs p) :
    e.within (bs ++ more) p := by
  obtain ⟨split,divided,kept⟩ := keepsBranches_cases keeps
  cases wide : isList (bs ++ more) p with
  | true => exact within_of_isList merges ready ord wide
  | false =>
    refine (within_union merges ready ord wide divided).mpr fun branch mem part is => ?_
    have partReady := (ready_made merges ready divided mem is).1
    obtain ⟨alike,undivided⟩ := kept branch mem part is
    obtain ⟨_,inside,found⟩ := equivalent_branches divided same branch mem
    obtain ⟨b,isMember,rfl⟩ := mem_map.mp inside
    refine within_of_member merges partReady ord undivided (mem_append_left _ isMember) ?_
    exact equivalent_iff.mpr ((equivalent_iff.mp alike).trans (equivalent_iff.mp found))
end Wider
end Engine
def PassesWhole (settings : Settings) (bs : List Json) (x sub p : Json) : Prop :=
  Exposed (forgetful settings) bs [x] sub.normalize p ∧ isList bs p

theorem isSubset_widened (settings : Settings) (memory : Memory) (sub x : Json) (branches : List Json)
    (faithful : memory.Faithful settings) (orderly : sub.Orderly) (listOrderly : (Json.arr (branches ++ [x])).Orderly)
    (apart : sub.typesApart = true)
    (holds : (((Memory.engine settings : Engine (StateM Memory)).check sub (Engine.alternatives branches)).run
      memory).1.isSubset = true) :
    let passes (s : Json) : Prop :=
      (((Memory.engine settings : Engine (StateM Memory)).check s (Engine.alternatives (branches ++ [x]))).run
        memory).1.isSubset = true
    (passes sub ↔ ∀ p, PassesWhole settings branches x sub p → passes p) ∧
      ((∀ p, PassesWhole settings branches x sub p → (Engine.forgetful settings).keepsBranches p = true) → passes sub) := by
  intro passes
  have ready := Engine.ready_normalize orderly apart
  have merges : (Engine.forgetful settings).primitive = Intersection.merge (Engine.forgetful settings).matcher := rfl
  have passes_iff : ∀ s, passes s ↔ (Engine.forgetful settings).within (branches ++ [x]) s = true := by
    intro s
    change (_ = true) ↔ _
    rw [Memory.check_forgetful faithful]
    rfl
  have normalized : ∀ list, (Engine.forgetful settings).within list sub =
      (Engine.forgetful settings).within list sub.normalize := by
    intro list
    unfold Engine.within Engine.check
    rw [Json.normalize_normalize orderly]
  rw [Memory.check_forgetful faithful] at holds
  replace holds : (Engine.forgetful settings).within branches sub.normalize = true := (normalized branches).symm.trans holds
  have widens : (∀ p, PassesWhole settings branches x sub p → passes p) → passes sub := by
    intro equal
    rw [passes_iff,normalized]
    exact Engine.within_wider merges ready listOrderly holds fun p exposed same => (passes_iff p).mp (equal p ⟨exposed,same⟩)
  refine ⟨⟨fun whole p equal => ?_,widens⟩,fun keeps => widens fun p equal => ?_⟩
  · rw [passes_iff,normalized] at whole
    exact (passes_iff p).mpr (Engine.within_exposed merges ready listOrderly whole equal.1)
  · exact (passes_iff p).mpr
      (Engine.within_kept merges (equal.1.ready merges ready) listOrderly (keeps p equal) equal.2)

def titledPair : Json :=
  .obj [("anyOf",.arr [.single "type" (.str "string"),.single "type" (.str "null")]),("title",.str "t")]

def titledAlternatives : Json := .single "anyOf" (.arr [.single "const" (.str "a"),titledPair])

def pairAlternatives : List Json := [.single "type" (.str "null"),.single "type" (.str "string")]

lemma exposed_titled (exposed : Exposed (forgetful {}) pairAlternatives [x] titledAlternatives.normalize p) :
    p = titledAlternatives.normalize ∨ p = (single "const" (.str "a")).normalize ∨ p = titledPair := by
  induction exposed with
  | whole => exact .inl rfl
  | part _ narrow _ divided mem is ih =>
    rcases ih with rfl | rfl | rfl
    · cases divided
      rcases mem_cons.mp mem with rfl | mem
      · exact .inr (.inl (some.inj is).symm)
      cases mem_singleton.mp mem
      exact .inr (.inr (some.inj is).symm)
    · cases divided
    · exact absurd narrow (by decide +kernel)

-- The pair passes the narrower list as a whole, and the wider one branch by branch.
theorem isSubset_widened_titled :
    PassesWhole {} pairAlternatives (.single "type" (.str "boolean")) titledAlternatives titledPair ∧
      (((Memory.engine {} : Engine (StateM Memory)).check titledAlternatives (Engine.alternatives pairAlternatives)).run
        {}).1.isSubset = true ∧ (((Memory.engine {} : Engine (StateM Memory)).check titledAlternatives
        (Engine.alternatives (pairAlternatives ++ [.single "type" (.str "boolean")]))).run {}).1.isSubset = true := by
  have holds : (((Memory.engine {} : Engine (StateM Memory)).check titledAlternatives
      (Engine.alternatives pairAlternatives)).run {}).1.isSubset = true := by
    decide +kernel
  refine ⟨⟨?_,by decide +kernel⟩,holds,?_⟩
  · exact .part .whole (by decide +kernel) (by decide +kernel) rfl (List.mem_cons_of_mem _ List.mem_cons_self) rfl
  · refine (isSubset_widened {} {} titledAlternatives (.single "type" (.str "boolean")) pairAlternatives Memory.faithful_empty
      (by decide +kernel) (by decide +kernel) (by decide +kernel) holds).2 ?_
    rintro p ⟨exposed,equal⟩
    rcases exposed_titled exposed with rfl | rfl | rfl
    · exact absurd equal (by decide +kernel)
    · exact absurd equal (by decide +kernel)
    · decide +kernel

theorem nested_not_widened : let sub := Engine.alternatives [Engine.alternatives [.single "type" (.str "string")]]
    let wide := Engine.alternatives [Engine.alternatives [.single "type" (.str "string")],.single "type" (.str "null")]
    let engine : Engine (StateM Memory) := Memory.engine {}
    ((engine.check sub sub).run {}).1.isSubset = true ∧ ((engine.check sub wide).run {}).1.isSubset = false := by
  decide +kernel
end SchemaOrder
