import SchemaOrder.Memory
import SchemaOrder.Resolution
import SchemaOrder.Proofs.Rounding
import SchemaOrder.Proofs.Intersection.Singles
namespace SchemaOrder
open List Fields Doubles Intersection Resolution Json Keyword SchemaOrder.Bound
-- Bounds are compared as doubles, so of two that are rounded to one double the first to come is kept, and one divisor is
-- held to be a multiple of another if their quotient is nearly whole. Apart from that both are exact.
def Side.shape : Side → Shape
  | .lower => .lowerBound
  | .upper => .upperBound

-- The bound that leaves less.
def Side.tightest : Side → ℤ → ℤ → ℤ
  | .lower => max
  | .upper => min

def Json.ofWhole (n : Whole) : Json := .num (.whole n)

def Whole.near (n : Whole) : ℤ := nearest n.val
variable {side : Side} {key : String} {l r : Whole} {m : Type → Type} [Monad m]
lemma Side.tightest_eq (side : Side) (a b : ℤ) : side.tightest a b = a ∨ side.tightest a b = b := by
  cases side
  · exact max_choice a b
  · exact min_choice a b

lemma tighter_whole (side : Side) (l r : Whole) : tighter side (Float.ofInt l.val) (Float.ofInt r.val) ↔
    l.near ≠ r.near ∧ side.tightest l.val r.val = l.val := by
  have order a b : nearest a < nearest b ↔ nearest b ≠ nearest a ∧ max b a = b := by
    rw [max_eq_left_iff]
    constructor
    · intro less
      refine ⟨less.ne',le_of_lt (lt_of_not_ge fun atLeast => ?_)⟩
      exact absurd (nearest_mono atLeast) (not_le_of_gt less)
    · rintro ⟨differ,atMost⟩
      exact lt_of_le_of_ne (nearest_mono atMost) (symm differ)
  cases side with
  | lower =>
    change decide (Float.ofInt r.val < Float.ofInt l.val) ↔ _
    rw [decide_eq_true_iff,ofInt_lt r.magnitude l.magnitude]
    exact order _ _
  | upper =>
    change decide (Float.ofInt l.val < Float.ofInt r.val) ↔ _
    rw [decide_eq_true_iff,ofInt_lt l.magnitude r.magnitude,order,max_eq_left_iff,ne_comm]
    exact and_congr_right fun _ => min_eq_left_iff.symm

lemma keyword_bound (kind : shape key = side.shape) (recur : Step m) (a b : Json) (path : String) :
    keyword recur key a b path = pure (if a.deepEqual b then a else bound side a b,[]) := by
  unfold keyword
  split
  · rfl
  split
  all_goals first | (cases side <;> cases kind) | skip
  cases side <;> rw [kind] <;> rfl

lemma mergeValues_bound (kind : shape key = side.shape) (e : Engine m) (a b : Json) :
    mergeValues e key a b = pure (tighterBound side a b) := by
  unfold mergeValues
  split
  all_goals first | (cases side <;> cases kind) | skip
  cases side <;> rw [kind] <;> rfl

lemma bound_apart (kind : shape key = side.shape) :
    key ∉ ["if","allOf","properties","items","additionalItems","const","enum"] := by
  intro listed
  fin_cases listed <;> cases side <;> cases kind

-- The second is kept unless the first is tighter as a double.
lemma kept_exact (side : Side) (l r : Whole) :
    (if tighter side (Float.ofInt l.val) (Float.ofInt r.val) then l else r).val = side.tightest l.val r.val ↔
      (l.near = r.near → side.tightest l.val r.val = r.val) := by
  rw [ite_cond_congr (propext (tighter_whole side l r))]
  rcases side.tightest_eq l.val r.val with isLeft | isRight
  all_goals grind
section Runs
variable [LawfulMonad m]
lemma merge_bounds (kind : shape key = side.shape) (lookup : Lookup m) (l r : Whole) :
    merge lookup (.single key (.ofWhole l)) (.single key (.ofWhole r)) = pure (.ok (.single key
      (.ofWhole (if tighter side (Float.ofInt r.val) (Float.ofInt l.val) then r else l)))) := by
  refine merge_single (bound_apart kind) lookup [] fun recur => (keyword_bound kind recur _ _ _).trans ?_
  congr 2
  change (if (l.val == r.val) then ofWhole l else if tighter side (Float.ofInt r.val) (Float.ofInt l.val) then
    ofWhole r else ofWhole l) = _
  by_cases same : l.val = r.val
  · rw [Whole.eq_of_val same]
    simp
  rw [if_neg (by simpa using same)]
  split <;> rfl

lemma mergeBranch_bounds (kind : shape key = side.shape) (e : Engine m) (l r : Whole) :
    mergeBranch e [(key,.ofWhole l)] (.single key (.ofWhole r)) = pure
      [(key,.ofWhole (if tighter side (Float.ofInt l.val) (Float.ofInt r.val) then l else r))] := by
  have atKey : get? [(key,ofWhole l)] key = some (.ofWhole l) := by rw [get?_cons,if_pos rfl]
  have put : ∀ s, put [(key,ofWhole l)] key s = [(key,s)] := by
    simp [put]
  unfold mergeBranch single
  simp only [branchFields,foldlM_cons,foldlM_nil,atKey,bind_pure]
  change (if (l.val == r.val) then _ else _) = _
  by_cases same : l.val = r.val
  · rw [Whole.eq_of_val same]
    simp
  rw [if_neg (by simpa using same),mergeValues_bound kind,pure_bind,put]
  congr 3
  change (if tighter side (Float.ofInt l.val) (Float.ofInt r.val) then ofWhole l else ofWhole r) = _
  split <;> rfl
end Runs
-- Whole bounds are merged exactly unless they are rounded to one double and the looser one is kept: the bound of the
-- first schema in an intersection, that of the branch where a branch is taken.
theorem merged_bound_exact_iff [LawfulMonad m] (lookup : String → m (Option Matcher)) (e : Engine m) (side : Side) (key : String)
    (kind : Keyword.shape key = side.shape) (l r : Whole) : ∃ merged taken : Whole,
      merge lookup (.single key (.ofWhole l)) (.single key (.ofWhole r)) = pure (.ok (.single key (.ofWhole merged))) ∧
      mergeBranch e [(key,.ofWhole l)] (.single key (.ofWhole r)) = pure [(key,.ofWhole taken)] ∧
      (merged.val = side.tightest l.val r.val ↔ (l.near = r.near → side.tightest l.val r.val = l.val)) ∧
      (taken.val = side.tightest l.val r.val ↔ (l.near = r.near → side.tightest l.val r.val = r.val)) ∧
      (l.val.natAbs ≤ 0x20000000000000 → r.val.natAbs ≤ 0x20000000000000 →
        merged.val = side.tightest l.val r.val ∧ taken.val = side.tightest l.val r.val) := by
  refine ⟨_,_,merge_bounds kind lookup l r,mergeBranch_bounds kind e l r,?_⟩
  have swapped : side.tightest r.val l.val = side.tightest l.val r.val := by
    cases side
    · exact max_comm _ _
    · exact min_comm _ _
  have first := kept_exact side r l
  rw [swapped,@eq_comm _ r.near] at first
  have second := kept_exact side l r
  refine ⟨first,second,fun small small' => ?_⟩
  have same : l.near = r.near → l.val = r.val := by
    rw [Whole.near,Whole.near,nearest_small small,nearest_small small']
    exact id
  exact ⟨first.mpr fun equal => by have := same equal; rcases side.tightest_eq l.val r.val <;> omega,
    second.mpr fun equal => by have := same equal; rcases side.tightest_eq l.val r.val <;> omega⟩

-- The two are beyond `2 ^ 53` and rounded to different doubles.
theorem merged_bound_exact_iff_maxLength : let l : Whole := ⟨9007199254740995,by decide,by decide⟩
    let r : Whole := ⟨9007199254740993,by decide,by decide⟩
    Keyword.shape "maxLength" = Side.upper.shape ∧ ∃ merged taken : Whole,
      merge (Memory.matcher : String → StateM Memory _) (.single "maxLength" (.ofWhole l)) (.single "maxLength" (.ofWhole r)) =
        pure (.ok (.single "maxLength" (.ofWhole merged))) ∧
      mergeBranch (Memory.engine {} : Engine (StateM Memory)) [("maxLength",.ofWhole l)] (.single "maxLength" (.ofWhole r)) =
        pure [("maxLength",.ofWhole taken)] ∧ merged.val = 9007199254740993 ∧ taken.val = 9007199254740993 := by
  intro l r
  obtain ⟨merged,taken,run,branch,first,second,_⟩ := merged_bound_exact_iff (Memory.matcher : String → StateM Memory _)
    (Memory.engine {}) .upper "maxLength" rfl l r
  have apart : l.near ≠ r.near := by decide +kernel
  exact ⟨rfl,merged,taken,run,branch,first.mpr (absurd · apart),second.mpr (absurd · apart)⟩

-- `2 ^ 53 + 1` is rounded to `2 ^ 53`, and the looser one of the two bounds is kept.
theorem merge_keeps_looser_bound : merge (Memory.matcher : String → StateM Memory _)
        (.single "minimum" (.ofWhole ⟨9007199254740992,by decide,by decide⟩))
        (.single "minimum" (.ofWhole ⟨9007199254740993,by decide,by decide⟩)) =
      pure (.ok (.single "minimum" (.ofWhole ⟨9007199254740992,by decide,by decide⟩))) ∧
    mergeBranch (Memory.engine {} : Engine (StateM Memory)) [("minimum",.ofWhole ⟨9007199254740993,by decide,by decide⟩)]
        (.single "minimum" (.ofWhole ⟨9007199254740992,by decide,by decide⟩)) =
      pure [("minimum",.ofWhole ⟨9007199254740992,by decide,by decide⟩)] := by
  have kind : Keyword.shape "minimum" = Side.lower.shape := rfl
  rw [merge_bounds kind,mergeBranch_bounds kind]
  exact ⟨rfl,rfl⟩

-- The whole divisors that a schema asks for, also those of the residual `allOf`.
def Json.divisors (s : Json) : List ℤ :=
  (s :: (s.field? "allOf").elim [] itemsOrNone).filterMap fun t =>
    match t.field? "multipleOf" with
    | some (.num (.whole d)) => some d.val
    | _ => none

def combined (l r : Whole) : Json :=
  if isMultipleOf (.ofInt l.val) (.ofInt r.val) then .single "multipleOf" (.ofWhole l)
  else if isMultipleOf (.ofInt r.val) (.ofInt l.val) then .single "multipleOf" (.ofWhole r)
  else match Whole.ofNat? (Nat.lcm l.val.toNat r.val.toNat) with
    | some d => .single "multipleOf" (.ofWhole d)
    | none => .obj [("allOf",.arr [.single "multipleOf" (.ofWhole r)]),("multipleOf",.ofWhole l)]

lemma not_le_zero (pos : 0 < l.val) : ¬ Float.ofInt l.val ≤ 0.0 := by
  have zero : IsNumber 0.0 := by rintro ⟨⟩
  have above := (ofInt_lt (a := 0) (b := l.val) (by decide) l.magnitude).mpr (by
    have least := nearest_mono (Int.add_one_le_of_lt pos)
    rw [nearest_small (by decide)] at least ⊢
    omega)
  rw [lt_iff (ofInt_number 0) (ofInt_number _)] at above
  rw [le_iff (ofInt_number _) zero]
  exact not_le_of_gt above

-- The rule with its numeric parts left open, so that nothing is computed.
lemma divisor_rule (whole? : ℤ → Option Num) (common : ℕ → ℕ → ℕ) (divides : Float → Float → Bool) (a b : ℕ)
    (left right : Json) {x y zero : Float} (lPositive : ¬ x ≤ zero) (rPositive : ¬ y ≤ zero) :
    (do
      if x ≤ zero || y ≤ zero then none
      if divides x y then return left
      if divides y x then return right
      let l ← some a
      let r ← some b
      let lcm ← whole? ((l / common l r * r : ℕ) : ℤ)
      return num lcm) =
    if divides x y then some left else if divides y x then some right
      else (whole? ((a / common a b * b : ℕ) : ℤ)).map num := by
  simp only [decide_eq_false lPositive,decide_eq_false rPositive]
  change (if divides x y then some left else if divides y x then some right
    else (whole? ((a / common a b * b : ℕ) : ℤ)).bind fun d => some (num d)) = _
  cases whole? ((a / common a b * b : ℕ) : ℤ) <;> rfl

lemma multipleOf?_eq {left right : Json} {x y : Float} {a b : ℕ} (lFloat : left.float? = some x)
    (rFloat : right.float? = some y) (lPositive : ¬ x ≤ 0.0) (rPositive : ¬ y ≤ 0.0)
    (lWhole : left.num?.bind Num.unsigned? = some a) (rWhole : right.num?.bind Num.unsigned? = some b) :
    multipleOf? left right = if isMultipleOf x y then some left else if isMultipleOf y x then some right
      else (Num.ofInt? (Nat.lcm a b : ℤ)).map num := by
  have product : Nat.lcm a b = a / gcd a b * b := (Nat.div_mul_right_comm (gcd_dvd_left a b) b).symm
  unfold multipleOf?
  rw [lFloat,rFloat,lWhole,rWhole,product]
  exact divisor_rule Num.ofInt? gcd isMultipleOf a b left right lPositive rPositive

lemma multipleOf?_whole (lPositive : 0 < l.val) (rPositive : 0 < r.val) :
    multipleOf? (.ofWhole l) (.ofWhole r) = if isMultipleOf (.ofInt l.val) (.ofInt r.val) then some (.ofWhole l)
      else if isMultipleOf (.ofInt r.val) (.ofInt l.val) then some (.ofWhole r)
      else (Whole.ofNat? (Nat.lcm l.val.toNat r.val.toNat)).map ofWhole := by
  have unsigned : ∀ {n}, 0 < n.val → (ofWhole n).num?.bind Num.unsigned? = some n.val.toNat := fun pos =>
    if_pos pos.le
  rw [multipleOf?_eq rfl rfl (not_le_zero lPositive) (not_le_zero rPositive) (unsigned lPositive)
    (unsigned rPositive),Num.ofInt?,Option.map_map]
  rfl

lemma merge_divisors [LawfulMonad m] (lookup : Lookup m) (lPositive : 0 < l.val)
    (rPositive : 0 < r.val) : merge lookup (.single "multipleOf" (.ofWhole l)) (.single "multipleOf" (.ofWhole r)) =
      pure (.ok (combined l r)) := by
  have apart : "multipleOf" ∉ ["if","allOf","properties","items","additionalItems","const","enum"] := by decide
  by_cases same : l.val = r.val
  · -- equal divisors are one and the same
    obtain rfl := Whole.eq_of_val same
    have alone : combined l l = .single "multipleOf" (.ofWhole l) := by
      have inRange : Whole.ofNat? l.val.toNat = some l := by
        have := l.high
        unfold Whole.ofNat? Whole.ofInt?
        rw [dif_pos (by omega),dif_pos (by omega)]
        exact congrArg some (Whole.eq_of_val (Int.toNat_of_nonneg lPositive.le))
      unfold combined
      rw [Nat.lcm_self,inRange]
      simp only [ite_self]
    rw [alone]
    refine merge_single apart lookup [] fun recur => ?_
    exact if_pos (beq_self_eq_true l.val)
  have keyword (recur : Step m) path : keyword recur "multipleOf" (.ofWhole l) (.ofWhole r) path =
      (multipleOf? (.ofWhole l) (.ofWhole r)).elim (pure (.ofWhole l,[.single "multipleOf" (.ofWhole r)])) fun
      divisor => pure (divisor,[]) := by
    refine (if_neg (by simpa [deepEqual,ofWhole,Num.equal] using same)).trans ?_
    cases multipleOf? (.ofWhole l) (.ofWhole r) <;> rfl
  have alone d (found : multipleOf? (.ofWhole l) (.ofWhole r) = some d) :
      merge lookup (.single "multipleOf" (.ofWhole l)) (.single "multipleOf" (.ofWhole r)) =
      pure (.ok (.single "multipleOf" d)) := by
    refine merge_single apart lookup [] fun recur => ?_
    rw [keyword,found,Option.elim_some]
  rw [multipleOf?_whole lPositive rPositive] at alone keyword
  unfold combined
  split
  · next divides => exact alone _ (if_pos divides)
  next kept =>
  rw [if_neg kept] at alone keyword
  split
  · next divides => exact alone _ (if_pos divides)
  next kept =>
  rw [if_neg kept] at alone keyword
  split
  · next d found => exact alone _ (by rw [found]; rfl)
  next none =>
  rw [none] at keyword
  exact merge_single apart lookup [.single "multipleOf" (.ofWhole r)] fun recur => keyword recur ""

lemma dvd_lcm (lPositive : 0 < l.val) (rPositive : 0 < r.val) (n : ℤ) :
    ((Nat.lcm l.val.toNat r.val.toNat : ℕ) : ℤ) ∣ n ↔ l.val ∣ n ∧ r.val ∣ n := by
  rw [Int.natCast_dvd,Nat.lcm_dvd_iff,← Int.natCast_dvd,← Int.natCast_dvd,Int.toNat_of_nonneg lPositive.le,
    Int.toNat_of_nonneg rPositive.le]

-- What is asked for in the end, divisor by divisor.
lemma dvd_combined (lPositive : 0 < l.val) (rPositive : 0 < r.val) (n : ℤ) : (∀ d ∈ (combined l r).divisors, d ∣ n) ↔
    if isMultipleOf (.ofInt l.val) (.ofInt r.val) then l.val ∣ n
    else if isMultipleOf (.ofInt r.val) (.ofInt l.val) then r.val ∣ n else l.val ∣ n ∧ r.val ∣ n := by
  have single : ∀ d, (single "multipleOf" (.ofWhole d)).divisors = [d.val] := fun _ => rfl
  unfold combined
  split
  · simp [single]
  split
  · simp [single]
  split
  · next d found =>
    rw [single,Whole.ofInt?_val found,forall_mem_singleton]
    exact dvd_lcm lPositive rPositive n
  · change (∀ d ∈ [l.val,r.val], d ∣ n) ↔ _
    simp

-- Whole divisors are merged exactly unless one is held to be a multiple of the other and is not. Nothing is asked for
-- that the two do not ask for.
theorem merged_divisors_exact_iff [LawfulMonad m] (lookup : String → m (Option Matcher)) (l r : Whole) (leftPositive : 0 < l.val)
    (rightPositive : 0 < r.val) : ∃ s : Json,
      merge lookup (.single "multipleOf" (.ofWhole l)) (.single "multipleOf" (.ofWhole r)) = pure (.ok s) ∧
      (∀ n : ℤ, l.val ∣ n → r.val ∣ n → ∀ d ∈ s.divisors, d ∣ n) ∧
      ((∀ n : ℤ, (∀ d ∈ s.divisors, d ∣ n) ↔ l.val ∣ n ∧ r.val ∣ n) ↔
        if isMultipleOf (.ofInt l.val) (.ofInt r.val) then r.val ∣ l.val
        else isMultipleOf (.ofInt r.val) (.ofInt l.val) = true → l.val ∣ r.val) := by
  refine ⟨_,merge_divisors lookup leftPositive rightPositive,fun n onLeft onRight => ?_,?_⟩
  · rw [dvd_combined leftPositive rightPositive]
    split
    · exact onLeft
    · split
      · exact onRight
      · exact ⟨onLeft,onRight⟩
  · simp only [dvd_combined leftPositive rightPositive]
    split
    · exact ⟨fun exact_ => ((exact_ l.val).mp dvd_rfl).2,fun divides n => ⟨fun on => ⟨on,divides.trans on⟩,And.left⟩⟩
    · split
      · next held =>
        exact ⟨fun exact_ _ => ((exact_ r.val).mp dvd_rfl).1,
          fun divides n => ⟨fun on => ⟨(divides held).trans on,on⟩,And.right⟩⟩
      · next unheld => exact ⟨fun _ held => absurd held unheld,fun _ n => Iff.rfl⟩

theorem merged_divisors_exact_iff_four_six : ∃ s : Json,
    merge (Memory.matcher : String → StateM Memory _) (.single "multipleOf" (.digit 4))
      (.single "multipleOf" (.digit 6)) = pure (.ok s) ∧ ∀ n : ℤ, (∀ d ∈ s.divisors, d ∣ n) ↔ 4 ∣ n ∧ 6 ∣ n := by
  obtain ⟨s,run,_,exactly⟩ := merged_divisors_exact_iff (Memory.matcher : String → StateM Memory _)
    ⟨4,by decide,by decide⟩ ⟨6,by decide,by decide⟩ (by decide) (by decide)
  exact ⟨s,run,exactly.mpr (by decide +kernel)⟩

-- The quotient of the two is nearly one, and the second divisor is dropped.
theorem merge_drops_divisor : merge (Memory.matcher : String → StateM Memory _)
      (.single "multipleOf" (.ofWhole ⟨2000000001,by decide,by decide⟩))
      (.single "multipleOf" (.ofWhole ⟨2000000000,by decide,by decide⟩)) =
    pure (.ok (.single "multipleOf" (.ofWhole ⟨2000000001,by decide,by decide⟩))) ∧ ¬ (2000000000 : ℤ) ∣ 2000000001 := by
  refine ⟨?_,by decide⟩
  rw [merge_divisors _ (by decide) (by decide),combined,if_pos (by decide +kernel)]
end SchemaOrder
