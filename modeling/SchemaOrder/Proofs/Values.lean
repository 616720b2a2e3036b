import SchemaOrder.Proofs.Fields
namespace SchemaOrder
open List Fields Bool
instance (fields : Fields) : Decidable fields.Sorted :=
  inferInstanceAs (Decidable (Pairwise _ _))
mutual
-- Keys are in order and all numbers are whole.
def Json.isExact : Json → Bool
  | .num n => n.isWhole
  | .arr xs => exactItems xs
  | .obj fs => decide (Sorted fs) && exactFields fs
  | _ => true

def exactItems : List Json → Bool
  | [] => true
  | v :: rest => v.isExact && exactItems rest

def exactFields : List (String × Json) → Bool
  | [] => true
  | (_,v) :: rest => v.isExact && exactFields rest
end
mutual
-- Keys are in order and all numbers are of one kind.
def Json.isOrderly (nums : Num → Bool) : Json → Bool
  | .num n => nums n
  | .arr xs => orderlyItems nums xs
  | .obj fs => decide (Sorted fs) && orderlyFields nums fs
  | _ => true

def orderlyItems (nums : Num → Bool) : List Json → Bool
  | [] => true
  | v :: rest => v.isOrderly nums && orderlyItems nums rest

def orderlyFields (nums : Num → Bool) : List (String × Json) → Bool
  | [] => true
  | (_,v) :: rest => v.isOrderly nums && orderlyFields nums rest
end
abbrev Json.Orderly (v : Json) : Prop := v.isOrderly (fun _ => true)
namespace Fields
lemma nodup {fs : Fields} (sorted : fs.Sorted) : Nodup fs := by
  refine Pairwise.imp ?_ sorted
  rintro a b below rfl
  exact lt_irrefl a.1 below

lemma ext {f g : Fields} (lSorted : f.Sorted) (rSorted : g.Sorted) (same : ∀ key, f.get? key = g.get? key) : f = g := by
  have perm : f.Perm g := by
    refine (perm_ext_iff_of_nodup (nodup lSorted) (nodup rSorted)).mpr ?_
    rintro ⟨key,v⟩
    rw [← get?_iff_mem lSorted,← get?_iff_mem rSorted,same key]
  refine perm.eq_of_pairwise (fun a b _ _ below above => ?_) lSorted rSorted
  exact absurd (lt_trans below above) (lt_irrefl _)

lemma put_same {fs : Fields} {key : String} {v : Json} (sorted : fs.Sorted) (found : fs.get? key = some v) :
    fs.put key v = fs := by
  refine ext (sorted_put sorted) sorted fun other => ?_
  rw [get?_put]
  split
  · next same => rw [← same,found]
  · rfl
end Fields
namespace Json
instance ten_ne_zero : NeZero 10 := ⟨by decide⟩

def digit (n : Fin 10) : Json := .num (.whole ⟨n,by omega,by omega⟩)
variable {v w : Json} {xs : List Json} {fs : Fields} {key : String}
lemma depth_item (mem : v ∈ xs) : v.depth < (arr xs).depth := by
  suffices v.depth ≤ depthItems xs by simp only [depth]; omega
  induction xs with
  | nil => cases mem
  | cons head rest ih =>
    simp only [depthItems]
    rcases mem_cons.mp mem with rfl | later
    · omega
    · have := ih later; omega

lemma depth_field (mem : field ∈ fs) : field.2.depth < (obj fs).depth := by
  suffices field.2.depth ≤ depthFields fs by simp only [depth]; omega
  induction fs with
  | nil => cases mem
  | cons head rest ih =>
    rcases mem_cons.mp mem with rfl | later
    · exact le_max_left _ _
    · exact le_trans (ih later) (le_max_right _ _)

lemma depth_get? (found : fs.get? key = some v) : v.depth < (obj fs).depth := depth_field (mem_of_get? found)

lemma byDepth {P : Json → Prop} (step : ∀ v, (∀ w, w.depth < v.depth → P w) → P v) (v : Json) : P v :=
  (measure depth).wf.induction v step
section Orderly
variable {nums wider : Num → Bool}
lemma orderly_arr : (arr xs).isOrderly nums ↔ ∀ v ∈ xs, v.isOrderly nums := by
  simp only [isOrderly]
  induction xs with
  | nil => simp [orderlyItems]
  | cons head rest ih => simp [orderlyItems,ih]

lemma orderlyFields_iff : orderlyFields nums fs ↔ ∀ field ∈ fs, field.2.isOrderly nums := by
  induction fs with
  | nil => simp [orderlyFields]
  | cons head rest ih => simp [orderlyFields,ih]

lemma orderly_obj : (obj fs).isOrderly nums ↔ fs.Sorted ∧ ∀ field ∈ fs, field.2.isOrderly nums := by
  simp only [isOrderly,and_eq_true,decide_eq_true_eq,orderlyFields_iff]
section
variable (ord : (obj fs).isOrderly nums)
include ord
lemma orderly_get? (found : fs.get? key = some v) : v.isOrderly nums := (orderly_obj.mp ord).2 _ (mem_of_get? found)

lemma orderly_put (value : v.isOrderly nums) : (obj (fs.put key v)).isOrderly nums := by
  obtain ⟨sorted,each⟩ := orderly_obj.mp ord
  refine orderly_obj.mpr ⟨sorted_put sorted,fun field mem => ?_⟩
  rcases mem_put mem with rfl | old
  · exact value
  · exact each field old

lemma orderly_erase : (obj (fs.erase key)).isOrderly nums := by
  obtain ⟨sorted,each⟩ := orderly_obj.mp ord
  exact orderly_obj.mpr ⟨sorted_erase sorted,fun field mem => each field (mem_erase mem)⟩

lemma orderly_filter (keep : String × Json → Bool) : (obj (fs.filter keep)).isOrderly nums := by
  obtain ⟨sorted,each⟩ := orderly_obj.mp ord
  exact orderly_obj.mpr ⟨sorted_filter keep sorted,fun field mem => each field (mem_filter.mp mem).1⟩
end
lemma orderly_itemsOrNone (ord : v.isOrderly nums) : ∀ w ∈ v.itemsOrNone, w.isOrderly nums := by
  cases v with
  | arr xs => exact orderly_arr.mp ord
  | _ => exact nofun

lemma orderly_item (ord : (arr xs).isOrderly nums) (mem : v ∈ xs) : v.isOrderly nums := orderly_arr.mp ord v mem

lemma orderly_single (ord : v.isOrderly nums) : (single key v).isOrderly nums :=
  orderly_obj.mpr ⟨sorted_single key v,fun _ mem => mem_singleton.mp mem ▸ ord⟩

lemma orderly_fields? (ord : v.isOrderly nums) : (obj (v.fields?.getD [])).isOrderly nums := by
  cases v with
  | obj fs => exact ord
  | _ => rfl

lemma orderly_mono (wide : ∀ n, nums n → wider n) (ord : v.isOrderly nums) : v.isOrderly wider := by
  induction v using byDepth with
  | step v ih =>
    cases v with
    | num n => exact wide n ord
    | arr xs => exact orderly_arr.mpr fun w mem => ih w (depth_item mem) (orderly_arr.mp ord w mem)
    | obj fs =>
      obtain ⟨sorted,each⟩ := orderly_obj.mp ord
      exact orderly_obj.mpr ⟨sorted,fun field mem => ih field.2 (depth_field mem) (each field mem)⟩
    | _ => rfl
end Orderly
mutual
lemma isExact_eq : ∀ v : Json, v.isExact = v.isOrderly Num.isWhole
  | .null | .bool _ | .num _ | .str _ => rfl
  | .arr xs => exactItems_eq xs
  | .obj fs => congrArg (decide (Sorted fs) && ·) (exactFields_eq fs)

lemma exactItems_eq : ∀ xs, exactItems xs = orderlyItems Num.isWhole xs
  | [] => rfl
  | v :: rest => congrArg₂ and (isExact_eq v) (exactItems_eq rest)

lemma exactFields_eq : ∀ fs, exactFields fs = orderlyFields Num.isWhole fs
  | [] => rfl
  | (_,v) :: rest => congrArg₂ and (isExact_eq v) (exactFields_eq rest)
end
lemma exact_arr : (arr xs).isExact ↔ ∀ v ∈ xs, v.isExact := by
  simp only [isExact_eq,orderly_arr]

lemma exact_obj : (obj fs).isExact ↔ fs.Sorted ∧ ∀ field ∈ fs, field.2.isExact := by
  simp only [isExact_eq,orderly_obj]

lemma exact_get? (exact : (obj fs).isExact) (found : fs.get? key = some v) : v.isExact :=
  (exact_obj.mp exact).2 _ (mem_of_get? found)

lemma exact_item (exact : (arr xs).isExact) (mem : v ∈ xs) : v.isExact := exact_arr.mp exact v mem

lemma equalItems_iff (same : ∀ x ∈ xs, ∀ y ∈ ys, x.deepEqual y ↔ x = y) : equalItems xs ys ↔ xs = ys := by
  induction xs generalizing ys with
  | nil => cases ys <;> simp [equalItems]
  | cons x xs ih =>
    cases ys with
    | nil => simp [equalItems]
    | cons y ys =>
      have head := same x mem_cons_self y mem_cons_self
      have tail : equalItems xs ys ↔ xs = ys := ih fun a inA b inB => same a (.tail _ inA) b (.tail _ inB)
      simp [equalItems,head,tail]

lemma equalFields_iff {xs ys : Fields} (same : ∀ x ∈ xs, ∀ y ∈ ys, x.2.deepEqual y.2 ↔ x.2 = y.2) (sorted : ys.Sorted) :
    equalFields xs ys ↔ ∀ x ∈ xs, x ∈ ys := by
  induction xs with
  | nil => simp [equalFields]
  | cons x xs ih =>
    obtain ⟨k,a⟩ := x
    have tail := ih fun a inA => same a (.tail _ inA)
    simp only [equalFields,and_eq_true,tail,forall_mem_cons]
    refine and_congr_left fun _ => ?_
    rw [← get?_iff_mem sorted]
    cases found : get? ys k with
    | none => simp
    | some b =>
      have head := same (k,a) mem_cons_self (k,b) (mem_of_get? found)
      simp only [Option.some.injEq]
      exact head.trans eq_comm

-- Both lists hold each key once and in order, so that one within the other of equal length is the other.
lemma fields_eq_of_subset {xs ys : Fields} (left : xs.Sorted) (right : ys.Sorted)
    (within : ∀ x ∈ xs, x ∈ ys) (long : ys.length ≤ xs.length) : xs = ys := by
  have perm : xs.Perm ys := ((nodup left).subperm within).perm_of_length_le long
  refine perm.eq_of_pairwise ?_ left right
  intro a b _ _ below above
  exact absurd above (lt_asymm below)

lemma deepEqual_iff (left : v.isExact) (right : w.isExact) : v.deepEqual w ↔ v = w := by
  induction v using byDepth generalizing w with
  | step v ih =>
    cases v with
    | null | bool a | str a => cases w <;> simp [deepEqual]
    | num a =>
      cases w with
      | num b =>
        cases a with
        | double => simp [isExact,Num.isWhole] at left
        | whole m =>
          cases b with
          | double => simp [isExact,Num.isWhole] at right
          | whole n =>
            obtain ⟨m,_,_⟩ := m
            obtain ⟨n,_,_⟩ := n
            simp [deepEqual,Num.equal]
      | _ => simp [deepEqual]
    | arr xs =>
      cases w with
      | arr ys =>
        simp only [arr.injEq]
        refine equalItems_iff fun x inXs y inYs => ?_
        exact ih x (depth_item inXs) (exact_item left inXs) (exact_item right inYs)
      | _ => simp [deepEqual]
    | obj xs =>
      cases w with
      | obj ys =>
        obtain ⟨sortedXs,exactXs⟩ := exact_obj.mp left
        obtain ⟨sortedYs,exactYs⟩ := exact_obj.mp right
        have within : equalFields xs ys ↔ ∀ x ∈ xs, x ∈ ys := equalFields_iff (fun x inXs y inYs =>
          ih x.2 (depth_field inXs) (exactXs x inXs) (exactYs y inYs)) sortedYs
        simp only [deepEqual,and_eq_true,beq_iff_eq,within,obj.injEq]
        constructor
        · rintro ⟨long,subset⟩
          exact fields_eq_of_subset sortedXs sortedYs subset (le_of_eq long.symm)
        rintro rfl
        exact ⟨rfl,fun _ mem => mem⟩
      | _ => simp [deepEqual]

lemma equalFields_cases {xs ys : Fields} : equalFields xs ys ↔ ∀ x ∈ xs, ∃ w, ys.get? x.1 = some w ∧ x.2.deepEqual w := by
  induction xs with
  | nil => simp [equalFields]
  | cons x xs ih =>
    obtain ⟨k,v⟩ := x
    rw [equalFields,and_eq_true,ih,forall_mem_cons]
    refine and_congr_left fun _ => ?_
    cases ys.get? k <;> simp

def Agree : Option Json → Option Json → Prop :=
  Option.Rel fun v w => v.deepEqual w

lemma agree_some : Agree (some v) (some w) ↔ v.deepEqual w :=
  ⟨fun agree => by cases agree with | some equal => exact equal,fun equal => .some equal⟩

lemma Agree.some_iff {v o : Option Json} (agree : Agree v o) : (∃ a, v = some a) ↔ ∃ b, o = some b := by
  cases agree <;> simp

lemma Agree.partner (agree : Agree (some v) o) : ∃ w, o = some w ∧ v.deepEqual w := by
  cases agree with
  | some equal => exact ⟨_,rfl,equal⟩

-- As many fields on both sides, and each of the first has a partner: so has each of the second.
lemma deepEqual_obj_iff {l r : Fields} (left : l.Sorted) (right : r.Sorted) :
    (obj l).deepEqual (obj r) ↔ ∀ key, Agree (l.get? key) (r.get? key) := by
  have ne : ∀ {fs : Fields}, fs.Sorted → (fs.map Prod.fst).Nodup := fun sorted =>
    pairwise_map.mpr (Pairwise.imp (fun below => ne_of_lt below) sorted)
  have named {fs : Fields} (sorted : fs.Sorted) {key} : key ∈ fs.map Prod.fst ↔ ∃ v, fs.get? key = some v := by
    rw [mem_map]
    refine ⟨fun ⟨field,mem,same⟩ => ⟨field.2,same ▸ get?_of_mem sorted mem⟩,?_⟩
    exact fun ⟨v,found⟩ => ⟨(key,v),mem_of_get? found,rfl⟩
  rw [deepEqual,and_eq_true,beq_iff_eq,equalFields_cases]
  constructor
  · rintro ⟨long,partners⟩ key
    have within : l.map Prod.fst ⊆ r.map Prod.fst := by
      intro name mem
      obtain ⟨x,inside,rfl⟩ := mem_map.mp mem
      obtain ⟨w,found,_⟩ := partners x inside
      exact (named right).mpr ⟨w,found⟩
    have perm : (l.map Prod.fst).Perm (r.map Prod.fst) :=
      ((ne left).subperm within).perm_of_length_le (by simpa using le_of_eq long.symm)
    cases own : l.get? key with
    | none =>
      cases other : r.get? key with
      | none => exact .none
      | some w =>
        obtain ⟨v,found⟩ := (named left).mp (perm.mem_iff.mpr ((named right).mpr ⟨w,other⟩))
        rw [own] at found
        cases found
    | some v =>
      obtain ⟨w,found,equal⟩ := partners (key,v) (mem_of_get? own)
      rw [found]
      exact .some equal
  · intro agree
    have names : (l.map Prod.fst).Perm (r.map Prod.fst) := by
      refine (perm_ext_iff_of_nodup (ne left) (ne right)).mpr fun key => ?_
      rw [named left,named right]
      exact (agree key).some_iff
    refine ⟨by simpa using names.length_eq,fun x mem => ?_⟩
    have here := agree x.1
    rw [get?_of_mem left mem] at here
    exact here.partner

lemma mem_equalItems (same : equalItems xs ys) (mem : y ∈ ys) : ∃ x ∈ xs, x.deepEqual y := by
  induction xs generalizing ys with
  | nil =>
    cases ys with
    | nil => cases mem
    | cons => simp [equalItems] at same
  | cons x xs ih =>
    cases ys with
    | nil => cases mem
    | cons z zs =>
      simp only [equalItems,and_eq_true] at same
      rcases mem_cons.mp mem with rfl | later
      · exact ⟨x,.head _,same.1⟩
      obtain ⟨w,inside,equal⟩ := ih same.2 later
      exact ⟨w,.tail _ inside,equal⟩

-- A list equal to one of its own members would have such a member itself, and so on without end.
lemma not_deepEqual_own (mem : v ∈ xs) : ¬ v.deepEqual (arr xs) := by
  induction v using byDepth generalizing xs with
  | step v ih =>
    intro same
    cases v with
    | arr own =>
      obtain ⟨w,inside,equal⟩ := mem_equalItems same mem
      exact ih w (depth_item inside) inside equal
    | _ => simp [deepEqual] at same

lemma among_iff (exact : v.isExact) (exacts : ∀ w ∈ ms, w.isExact) : v.among ms ↔ v ∈ ms := by
  simp only [among,any_eq_true]
  constructor
  · rintro ⟨w,mem,same⟩
    rw [← (deepEqual_iff (exacts w mem) exact).mp same]
    exact mem
  · intro mem
    exact ⟨v,mem,(deepEqual_iff exact exact).mpr rfl⟩
end Json
end SchemaOrder
