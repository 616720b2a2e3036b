import SchemaOrder.Proofs.Containment
import SchemaOrder.Proofs.Intersection.Termination
namespace SchemaOrder.Resolution
open List Fields Json Intersection Nesting Keyword Schemas
variable {σ : Type} {inv : σ → Prop} {e : Engine (StateM σ)} {nums : Num → Bool} {key : String} {l r branch : Json} {n : Nat}
  {out : Fields}

-- A keyword of a branch is put into the schema, or meets the one that is there. No two keywords of the branch meet.
lemma ensures_mergeBranch (spec : String → Json → Json → Json → Prop) (sorted : (branchFields branch).Sorted)
    (outSorted : out.Sorted) (each : ∀ key l r, out.get? key = some l → (branchFields branch).get? key = some r →
      Ensures inv (mergeValues e key l r) (spec key l r)) :
    Ensures inv (mergeBranch e out branch) fun made => made.Sorted ∧ ∀ key,
      Stems (fun l r m => (l.deepEqual r ∧ m = l) ∨ spec key l r m) (out.get? key) ((branchFields branch).get? key)
        (made.get? key) := by
  unfold mergeBranch
  generalize branchFields branch = fs at sorted each
  induction fs generalizing out with
  | nil =>
    refine .pure ⟨outSorted,fun key => ?_⟩
    cases out.get? key with
    | none => exact .neither
    | some l => exact .left l
  | cons field rest ih =>
    obtain ⟨name,s⟩ := field
    let met : Fields → Prop := fun next => next.Sorted ∧ (∀ key, name ≠ key → next.get? key = out.get? key) ∧
      Stems (fun l r m => (l.deepEqual r ∧ m = l) ∨ spec name l r m) (out.get? name) (some s) (next.get? name)
    have written m (stems : Stems (fun l r m => (l.deepEqual r ∧ m = l) ∨ spec name l r m) (out.get? name) (some s) (some m)) :
        met (out.put name m) :=
      ⟨sorted_put outSorted,fun _ other => get?_put_other other,(get?_put_self out name m).symm ▸ stems⟩
    refine .bind (show Ensures inv _ met from ?_) fun next ⟨nextSorted,others,here⟩ => ?_
    · dsimp only
      cases found : out.get? name with
      | none => exact .pure (written s (found ▸ .right s))
      | some l =>
        dsimp only
        split
        · next same => exact .pure ⟨outSorted,fun _ _ => rfl,by rw [found]; exact .both l s l (.inl ⟨same,rfl⟩)⟩
        · exact .bind (each name l s found (if_pos rfl)) fun m meets => .pure (written m (found ▸ .both l s m (.inr meets)))
    refine .mono (ih nextSorted (pairwise_cons.mp sorted).2 fun key l r atNext later => ?_) fun made ⟨madeSorted,stems⟩ =>
      ⟨madeSorted,fun key => ?_⟩
    · have other : name ≠ key := fun same => by rw [← same,get?_tail sorted] at later; cases later
      exact each key l r (others key other ▸ atNext) (((get?_cons _ _ _ _).trans (if_neg other)).trans later)
    have last := stems key
    rw [get?_cons]
    split
    · next same =>
      subst same
      rw [get?_tail sorted] at last
      generalize next.get? name = m at here last
      generalize made.get? name = m' at last
      cases last with
      | neither | left => exact here
    · next other => exact others key other ▸ last

lemma ensures_mergeEntries {post : Json → Prop} {merge : Json → Json → StateM σ Json}
    (merged : ∀ a b, post a → post b → Ensures inv (merge a b) post) (ord : l.isOrderly nums)
    (lefts : ∀ s ∈ l.values, post s) (rights : ∀ s ∈ r.values, post s) : Ensures inv (mergeEntries merge l r) fun m =>
      m = r ∨ ∃ out : Fields, m = .obj out ∧ out.Sorted ∧ ∀ e ∈ out, post e.2 := by
  unfold mergeEntries
  split
  · next current more =>
    refine .bind (.foldlM (motive := fun rest out => (∀ e ∈ rest, post e.2) ∧ Sorted out ∧ ∀ e ∈ out, post e.2) ?_ more current
      ⟨fun e mem => rights _ (mem_map_of_mem mem),(orderly_obj.mp ord).1,fun e mem => lefts _ (mem_map_of_mem mem)⟩)
      fun out ⟨_,made⟩ => .pure (.inr ⟨out,rfl,made⟩)
    rintro ⟨name,v⟩ rest out ⟨toCome,outSorted,soFar⟩
    have own : post v := toCome _ mem_cons_self
    have put m (good : post m) : (∀ e ∈ rest, post e.2) ∧ (out.put name m).Sorted ∧ ∀ e ∈ out.put name m, post e.2 :=
      ⟨fun e later => toCome e (.tail _ later),sorted_put outSorted,
        fun e mem => (mem_put mem).elim (fun new => new ▸ good) (soFar e)⟩
    dsimp only
    split
    · next prior found =>
      exact .bind (merged prior v (lefts _ (mem_map_of_mem (mem_of_get? found))) own) fun m good => .pure (put m good)
    · exact .pure (put v own)
  · exact .pure (.inl rfl)

-- The entries that are asked before anything else.
def asksAmong (v : Json) : Bool := v.itemsOrNone.any fun entry => (entry.field? "if").isSome

lemma hasConditional_obj (fs : Fields) : hasConditional (.obj fs) =
    ((fs.get? "if").isSome || (fs.get? "allOf").any asksAmong) := by
  unfold hasConditional
  simp only [field?]
  cases get? fs "allOf" with
  | none => rfl
  | some v => cases v <;> rfl

lemma asksAmong_of_deepEqual (same : l.deepEqual r) (left : l.isOrderly nums) (right : r.isOrderly nums) :
    asksAmong l = asksAmong r := by
  have entry {s t : Json} (equal : s.deepEqual t) (sOrderly : s.isOrderly nums) (tOrderly : t.isOrderly nums) :
      (s.field? "if").isSome = (t.field? "if").isSome := by
    cases s <;> cases t <;> first | rfl | cases equal | skip
    rw [Bool.eq_iff_iff,Option.isSome_iff_exists,Option.isSome_iff_exists]
    exact ((deepEqual_obj_iff (orderly_obj.mp sOrderly).1 (orderly_obj.mp tOrderly).1).mp equal "if").some_iff
  cases l <;> cases r <;> first | rfl | cases same | skip
  next xs ys =>
  replace left := orderly_arr.mp left
  replace right := orderly_arr.mp right
  change equalItems xs ys at same
  change xs.any _ = ys.any _
  induction xs generalizing ys with
  | nil => cases ys with
    | nil => rfl
    | cons => cases same
  | cons x xs ih => cases ys with
    | nil => cases same
    | cons y ys =>
      obtain ⟨head,tail⟩ := (Bool.and_eq_true _ _).mp same
      rw [any_cons,any_cons,entry head (left x mem_cons_self) (right y mem_cons_self),
        ih ys (fun s later => left s (.tail _ later)) (fun s later => right s (.tail _ later)) tail]

structure Fits (nums : Num → Bool) (n : Nat) (s : Json) : Prop where
  orderly : s.isOrderly nums
  nests : s.nesting ≤ n

lemma fits_obj {fs : Fields} : Fits nums n (.obj fs) ↔
    fs.Sorted ∧ ∀ key v, fs.get? key = some v → v.isOrderly nums ∧ Under n key v := by
  constructor
  · rintro ⟨ord,nests⟩
    exact ⟨(orderly_obj.mp ord).1,fun key v found => ⟨orderly_get? ord found,under_get? nests found⟩⟩
  · rintro ⟨sorted,each⟩
    exact ⟨orderly_obj.mpr ⟨sorted,fun field inside => (each _ _ (get?_of_mem sorted inside)).1⟩,
      nesting_of_get? sorted fun key v found => (each key v found).2⟩

lemma field?_branchFields (branch : Json) : (branchFields branch).get? "allOf" = branch.field? "allOf" := by
  cases branch with
  | bool b => cases b <;> rfl
  | _ => rfl

lemma Fits.fields (fits : Fits nums n branch) : Fits nums n (.obj (branchFields branch)) := by
  have empty : Fits nums n .emptyObj := ⟨rfl,Nat.zero_le n⟩
  cases branch with
  | obj => exact fits
  | bool b =>
    cases b with
    | false => exact ⟨orderly_single empty.orderly,nesting_single.mpr (under_closed (by decide) n _)⟩
    | true => exact empty
  | _ => exact empty

structure Meets (nums : Num → Bool) (n : Nat) (key : String) (r m : Json) : Prop where
  orderly : m.isOrderly nums
  nests : Under n key m
  asks : key = "allOf" → asksAmong m = asksAmong r

lemma Meets.incoming (ord : r.isOrderly nums) (nests : Under n key r) : Meets nums n key r r := ⟨ord,nests,fun _ => rfl⟩
section Steady
variable (whole : ∀ w, nums (.whole w)) (steady : Engine.Steady inv e)
include whole steady
lemma ensures_intersectMeets (left : l.isOrderly nums) (right : r.isOrderly nums) :
    Ensures inv (e.intersect? l r) fun found => ∀ m, found = some m → RootMeets nums l r m :=
  Engine.ensures_found? steady (ensures_mergeMeets whole steady.matcher left right)

lemma ensures_mergeSchema (left : l.isOrderly nums ∧ l.nesting < n) (right : r.isOrderly nums ∧ r.nesting < n) :
    Ensures inv (mergeSchema e l r) fun m => m.isOrderly nums ∧ m.nesting < n := by
  refine .bind (ensures_intersectMeets whole steady left.1 right.1) fun found meets => .pure ?_
  cases found with
  | none => exact right
  | some m => exact ⟨(meets m rfl).orderly,lt_of_le_of_lt (meets m rfl).nests (max_lt left.2 right.2)⟩

lemma ensures_mergeDependency (left : l.isOrderly nums) (right : r.isOrderly nums) :
    Ensures inv (mergeDependency e l r) fun m => m.isOrderly nums := by
  unfold mergeDependency
  split
  · exact .pure (orderly_strings _)
  iterate 2 exact .pure right
  · exact (ensures_mergeSchema (n := max l.nesting r.nesting + 1) whole steady ⟨left,Nat.lt_succ_of_le (le_max_left _ _)⟩
      ⟨right,Nat.lt_succ_of_le (le_max_right _ _)⟩).mono fun _ good => good.1

-- What is left of two lists of entries as one list has no conditional, and then neither list had one.
lemma ensures_mergeKeyword (left : l.isOrderly nums) (right : r.isOrderly nums) (lUnder : Under n key l)
    (rUnder : Under n key r) : Ensures inv (mergeKeyword? e key l r) fun found => ∀ m, found = some m → Meets nums n key r m := by
  refine .bind (ensures_intersectMeets whole steady (orderly_single left) (orderly_single right)) fun found meets => ?_
  split
  · next k v =>
    refine .pure fun m same => ?_
    split at same
    · next isKey =>
      subst isKey
      cases same
      have met := meets _ rfl
      refine ⟨(orderly_obj.mp met.orderly).2 _ (mem_singleton_self _),
        nesting_single.mp (le_trans met.nests (max_le (nesting_single.mpr lUnder) (nesting_single.mpr rUnder))),?_⟩
      rintro rfl
      obtain none | ⟨overt,asks⟩ := met.overt
      · cases none
      have unasked s (conditional : hasConditional (.single "allOf" s) → (get? [("allOf",v)] "if").isSome) :
          asksAmong s = false := Bool.eq_false_iff.mpr fun among => by
        cases conditional (by rw [single,hasConditional_obj]; exact among)
      exact (unasked v overt).trans (unasked r fun conditional => asks (.inr conditional)).symm
    · cases same
  · exact .pure fun _ absent => by cases absent

lemma ensures_mergeValues (left : l.isOrderly nums) (right : r.isOrderly nums) (lUnder : Under n key l)
    (rUnder : Under n key r) : Ensures inv (mergeValues e key l r) (Meets nums n key r) := by
  have closed {m} (ord : m.isOrderly nums) (notTraced : key ∉ traced) : Meets nums n key r m :=
    ⟨ord,under_closed notTraced n m,fun same => absurd (same ▸ by decide) notTraced⟩
  have bound {shape} side (is : Keyword.shape key = shape) (bounds : shape ∈ [.lowerBound,.upperBound]) :
      Meets nums n key r (tighterBound side l r) := by
    refine closed ?_ fun mem => ?_
    · unfold tighterBound
      split
      · split
        · exact left
        · exact right
      · exact right
    · subst is
      fin_cases mem <;> exact absurd bounds (by decide)
  have es {s : Json} (ord : s.isOrderly nums) v (mem : v ∈ s.values) : v.isOrderly nums := by
    obtain ⟨e,inside,rfl⟩ := mem_map.mp mem
    exact (orderly_obj.mp (orderly_fields? ord)).2 e inside
  unfold mergeValues
  split
  · exact .pure (closed (orderly_strings _) (by decide))
  · have inner {s : Json} (ord : s.isOrderly nums) (under : Under n "properties" s) v (mem : v ∈ s.values) :
        v.isOrderly nums ∧ v.nesting < n := ⟨es ord v mem,(under_map (.inl rfl)).mp under v mem⟩
    refine .mono (ensures_mergeEntries (fun a b => ensures_mergeSchema whole steady) left (inner left lUnder)
      (inner right rUnder)) ?_
    rintro m (rfl | ⟨out,rfl,sorted,good⟩)
    · exact .incoming right rUnder
    refine ⟨orderly_obj.mpr ⟨sorted,fun e mem => (good e mem).1⟩,(under_map (.inl rfl)).mpr fun s mem => ?_,
      (absurd · (by decide))⟩
    obtain ⟨e,inside,rfl⟩ := mem_map.mp mem
    exact (good e inside).2
  · refine .mono (ensures_mergeEntries (fun a b aOrd bOrd => ensures_mergeDependency whole steady aOrd bOrd) left
      (es left) (es right)) ?_
    rintro m (rfl | ⟨out,rfl,sorted,good⟩)
    · exact .incoming right rUnder
    · exact closed (orderly_obj.mpr ⟨sorted,good⟩) (by decide)
  iterate 2 exact .pure (.incoming right rUnder)
  · exact .pure (closed rfl (by decide))
  split
  · next shape => exact .pure (bound .lower shape (by decide))
  · next shape => exact .pure (bound .upper shape (by decide))
  · refine .bind (ensures_mergeKeyword whole steady left right lUnder rUnder) fun found meets => .pure ?_
    cases found with
    | none => exact .incoming right rUnder
    | some m => exact meets m rfl

-- The branch decides what is asked among the entries of `allOf`, if it has any.
lemma ensures_fits (fits : Fits nums n (.obj out)) (branchFits : Fits nums n branch) :
    Ensures inv (mergeBranch e out branch) fun made => Fits nums n (.obj made) ∧
      (made.get? "allOf").any asksAmong = ((branch.field? "allOf").or (out.get? "allOf")).any asksAmong := by
  obtain ⟨outSorted,outFits⟩ := fits_obj.mp fits
  obtain ⟨sorted,parts⟩ := fits_obj.mp branchFits.fields
  refine .mono (ensures_mergeBranch (fun key _ => Meets nums n key) sorted outSorted fun key l r left right => ensures_mergeValues whole steady
    (outFits key l left).1 (parts key r right).1 (outFits key l left).2 (parts key r right).2) fun made ⟨madeSorted,stems⟩ => ?_
  refine ⟨fits_obj.mpr ⟨madeSorted,fun key m found => ?_⟩,?_⟩
  · have stem := stems key
    rw [found] at stem
    generalize atL : out.get? key = left at stem
    generalize atR : (branchFields branch).get? key = right at stem
    cases stem with
    | left => exact outFits key m atL
    | right => exact parts key m atR
    | both l r _ meets =>
      rcases meets with ⟨_,rfl⟩ | meets
      · exact outFits key m atL
      · exact ⟨meets.orderly,meets.nests⟩
  have stem := stems "allOf"
  rw [field?_branchFields] at stem
  generalize atL : out.get? "allOf" = left at stem
  generalize atR : branch.field? "allOf" = right at stem
  generalize made.get? "allOf" = m at stem
  cases stem with
  | neither | left | right => rfl
  | both l r m meets =>
    rcases meets with ⟨same,rfl⟩ | meets
    · exact asksAmong_of_deepEqual same (outFits _ _ atL).1 (parts _ r ((field?_branchFields _).trans atR)).1
    · exact meets.asks rfl
end Steady
def merged (e : Engine (StateM Unit)) (fs : Fields) (bs : List Json) : Fields :=
  ((bs.foldlM (mergeBranch e) fs).run ()).1

-- The `allOf` of the last branch that has one.
def brought (bs : List Json) : Option Json := bs.reverse.findSome? fun branch => branch.field? "allOf"

lemma merged_append (e : Engine (StateM Unit)) (fs : Fields) (front back : List Json) :
    merged e fs (front ++ back) = merged e (merged e fs front) back := by
  unfold merged
  rw [foldlM_append]
  rfl

lemma fits_merged {e : Engine (StateM Unit)} (whole : ∀ w, nums (.whole w)) (steady : Engine.Steady (fun _ => True) e)
    (fits : Fits nums n (.obj out)) (unasked : (out.get? "allOf").any asksAmong = false) (bs : List Json)
    (each : ∀ branch ∈ bs, Fits nums n branch) : Fits nums n (.obj (merged e out bs)) ∧
      ((merged e out bs).get? "allOf").any asksAmong = (brought bs).any asksAmong := by
  induction bs using reverseRecOn with
  | nil => exact ⟨fits,unasked⟩
  | append_singleton bs branch ih =>
    obtain ⟨before,asks⟩ := ih fun branch mem => each branch (mem_append_left _ mem)
    obtain ⟨after,last⟩ := (ensures_fits whole steady before (each branch (mem_append_right _ (mem_singleton_self _))) ()
      trivial).2
    rw [merged_append]
    refine ⟨after,last.trans ?_⟩
    rw [brought,reverse_append]
    change _ = Option.any asksAmong (findSome? _ (branch :: bs.reverse))
    rw [findSome?_cons]
    cases branch.field? "allOf" with
    | none => exact asks
    | some => rfl
end SchemaOrder.Resolution
