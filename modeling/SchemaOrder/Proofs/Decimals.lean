import Mathlib
import SchemaOrder.Number.Shortest
-- The decimals that the search for a shortest text finds. Such a decimal rounds to the double, seventeen digits after
-- the first being enough, and no other double has a decimal in common with it.
namespace SchemaOrder.Shortest
-- The parts of a positive double. Only at the least exponent the mantissa may be short.
structure Parts.Valid (p : Parts) : Prop where
  positive : 0 < p.mantissa
  high : p.mantissa < 0x20000000000000
  low : -1074 ≤ p.exponent
  short : p.mantissa < 0x10000000000000 → p.exponent = -1074
  narrow : p.narrow ↔ p.mantissa = 0x10000000000000 ∧ -1074 < p.exponent

-- A quarter of the gap between neighbours.
def Parts.quarter (p : Parts) : ℚ := 2 ^ (p.exponent - 2)

-- The ends of the numbers that round to the double, in quarters.
def Parts.low (p : Parts) : Nat := 4 * p.mantissa - if p.narrow then 1 else 2

def Parts.high (p : Parts) : Nat := 4 * p.mantissa + 2
variable {p q : Parts} {i : Interval} {a b n : Nat} {e top : Int} {s t k : ℚ}
lemma quarter_pos (p : Parts) : 0 < p.quarter := zpow_pos (by norm_num) _

lemma low_cases (p : Parts) : p.low = 4 * p.mantissa - 1 ∧ p.narrow ∨ p.low = 4 * p.mantissa - 2 ∧ ¬ p.narrow := by
  unfold Parts.low
  cases p.narrow <;> simp

-- The numbers that round to the double.
structure Rounds (p : Parts) (t : ℚ) : Prop where
  low : p.low * p.quarter ≤ t
  high : t ≤ p.high * p.quarter
  even : t = p.low * p.quarter ∨ t = p.high * p.quarter → p.mantissa % 2 = 0

-- Where one double ends at the other or before it, they meet there and both are even.
lemma Rounds.meet (first : Rounds p t) (second : Rounds q t) (apart : p.high * p.quarter ≤ q.low * q.quarter) :
    p.high * p.quarter = q.low * q.quarter ∧ p.mantissa % 2 = 0 ∧ q.mantissa % 2 = 0 := by
  have atHigh : t = p.high * p.quarter := le_antisymm first.high (apart.trans second.low)
  have atLow : t = q.low * q.quarter := le_antisymm (first.high.trans apart) second.low
  exact ⟨atHigh.symm.trans atLow,first.even (.inr atHigh),second.even (.inl atLow)⟩

-- Between doubles with one exponent only the middle rounds to both, and one of the two is odd.
lemma rounds_apart (same : p.exponent = q.exponent) (below : p.mantissa < q.mantissa)
    (first : Rounds p t) (second : Rounds q t) : False := by
  have unit : p.quarter = q.quarter := by unfold Parts.quarter; rw [same]
  have gap : p.high ≤ q.low := by
    unfold Parts.high
    rcases low_cases q with ⟨low,_⟩ | ⟨low,_⟩ <;> omega
  obtain ⟨ends,even,otherEven⟩ := first.meet second (by
    rw [unit]
    exact mul_le_mul_of_nonneg_right (Nat.cast_le.mpr gap) (quarter_pos q).le)
  rw [unit] at ends
  have touch : p.high = q.low := Nat.cast_injective (mul_right_cancel₀ (quarter_pos q).ne' ends)
  unfold Parts.high at touch
  rcases low_cases q with ⟨low,_⟩ | ⟨low,_⟩ <;> omega

-- Where the exponent grows, the largest mantissa below is odd.
lemma rounds_below (left : p.Valid) (right : q.Valid) (below : p.exponent < q.exponent) (first : Rounds p t)
    (second : Rounds q t) : False := by
  have least := left.low
  have doubled : 2 * p.quarter ≤ q.quarter := by
    unfold Parts.quarter
    rw [← zpow_one_add₀ two_ne_zero]
    exact zpow_le_zpow_right₀ (by norm_num) (by omega)
  have most : p.high + 1 < 2 * q.low ∨ p.high = 2 * q.low ∧ p.mantissa = 0x1fffffffffffff := by
    have long := left.high
    have short := right.short
    have narrow := right.narrow
    unfold Parts.high
    rcases low_cases q with ⟨low,thin⟩ | ⟨low,wide⟩
    · omega
    have : q.mantissa ≠ 0x10000000000000 := fun least => wide (narrow.mpr ⟨least,by omega⟩)
    omega
  have scaled : (2 * q.low : ℕ) * p.quarter ≤ q.low * q.quarter := by
    rw [Nat.cast_mul,mul_comm ((2 : ℕ) : ℚ),mul_assoc]
    exact mul_le_mul_of_nonneg_left doubled (Nat.cast_nonneg _)
  have pos := quarter_pos p
  obtain ⟨ends,even,_⟩ := first.meet second ((mul_le_mul_of_nonneg_right (Nat.cast_le.mpr (by omega)) pos.le).trans scaled)
  rw [← ends,mul_le_mul_iff_left₀ pos,Nat.cast_le] at scaled
  omega

lemma rounds_unique (left : p.Valid) (right : q.Valid) (first : Rounds p t) (second : Rounds q t) :
    p.exponent = q.exponent ∧ p.mantissa = q.mantissa := by
  rcases lt_trichotomy p.exponent q.exponent with below | same | above
  · exact (rounds_below left right below first second).elim
  · refine ⟨same,?_⟩
    rcases lt_trichotomy p.mantissa q.mantissa with less | equal | more
    · exact (rounds_apart same less first second).elim
    · exact equal
    · exact (rounds_apart same.symm more second first).elim
  · exact (rounds_below right left above second first).elim

lemma den_pos (p : Parts) : (0 : ℚ) < (interval p).den := by
  unfold interval
  dsimp only
  split
  · norm_num
  · exact_mod_cast Nat.pow_pos (by decide)

-- The interval counts quarters, over one denominator.
lemma interval_scaled (p : Parts) (quarters : Nat) :
    ((if 2 ≤ p.exponent then quarters * Nat.pow 2 (p.exponent - 2).toNat else quarters : Nat) : ℚ) =
      quarters * p.quarter * (interval p).den := by
  unfold interval Parts.quarter
  split
  · obtain ⟨k,exponent⟩ := Int.eq_ofNat_of_zero_le (show 0 ≤ p.exponent - 2 by omega)
    rw [exponent]
    simp [Nat.pow_eq]
  obtain ⟨k,exponent⟩ := Int.eq_ofNat_of_zero_le (show 0 ≤ 2 - p.exponent by omega)
  rw [show p.exponent - 2 = -k by omega,exponent]
  simp [Nat.pow_eq]

lemma le_scaled (pos : 0 < k) (left : (a : ℚ) = s * k) (right : (b : ℚ) = t * k) : a ≤ b ↔ s ≤ t := by
  rw [← @Nat.cast_le ℚ,left,right,mul_le_mul_iff_left₀ pos]

lemma pow_neg (e : Int) (negative : ¬ 0 ≤ e) : ((Nat.pow 10 (-e).toNat : Nat) : ℚ) = (10 ^ e)⁻¹ := by
  obtain ⟨k,exponent⟩ := Int.eq_ofNat_of_zero_le (show 0 ≤ -e by omega)
  rw [← zpow_neg,exponent]
  simp [Nat.pow_eq]

lemma pow_nonneg (e : Int) (grid : 0 ≤ e) : ((Nat.pow 10 e.toNat : Nat) : ℚ) = 10 ^ e := by
  obtain ⟨k,rfl⟩ := Int.eq_ofNat_of_zero_le grid
  simp [Nat.pow_eq]

lemma holds_iff (p : Parts) : (interval p).holds n e ↔ Rounds p (n * 10 ^ e) := by
  have closed : (interval p).closed = decide (p.mantissa % 2 = 0) := rfl
  unfold Interval.holds
  rw [closed]
  generalize unitIs : (if 0 ≤ e then 1 else Nat.pow 10 (-e).toNat) = unit
  generalize lIs : (if 0 ≤ e then n * Nat.pow 10 e.toNat * (interval p).den else n * (interval p).den) = left
  -- both sides of the comparisons are scaled alike
  have scaled : 0 < (unit : ℚ) ∧ (left : ℚ) = n * 10 ^ e * (unit * (interval p).den) := by
    have power : (0 : ℚ) < 10 ^ e := zpow_pos (by norm_num) _
    subst unitIs lIs
    split
    · next grid =>
      rw [Nat.cast_mul,Nat.cast_mul,pow_nonneg e grid,Nat.cast_one,one_mul]
      exact ⟨one_pos,rfl⟩
    next grid =>
    rw [pow_neg e grid,Nat.cast_mul,mul_assoc (n : ℚ),mul_inv_cancel_left₀ power.ne']
    exact ⟨inv_pos.mpr power,rfl⟩
  have scale : 0 < unit * ((interval p).den : ℚ) := mul_pos scaled.1 (den_pos p)
  have side {bound quarters : ℕ} (counted : bound = quarters * p.quarter * (interval p).den) :
      ((bound * unit : ℕ) : ℚ) = quarters * p.quarter * (unit * (interval p).den) := by
    rw [Nat.cast_mul,counted]
    ring
  have low := side (interval_scaled p p.low)
  have high := side (interval_scaled p p.high)
  have atLow := le_scaled scale low scaled.2
  have atHigh := le_scaled scale scaled.2 high
  have aboveLow := not_congr (le_scaled scale scaled.2 low)
  have belowHigh := not_congr (le_scaled scale high scaled.2)
  rw [not_le,not_le] at aboveLow belowHigh
  by_cases even : p.mantissa % 2 = 0
  · rw [if_pos (decide_eq_true even),Bool.and_eq_true,decide_eq_true_eq,decide_eq_true_eq]
    refine (and_congr atLow atHigh).trans ?_
    exact ⟨fun within => ⟨within.1,within.2,fun _ => even⟩,fun rounds => ⟨rounds.low,rounds.high⟩⟩
  rw [if_neg (by simpa using even),Bool.and_eq_true,decide_eq_true_eq,decide_eq_true_eq]
  refine (and_congr aboveLow belowHigh).trans ⟨?_,?_⟩
  · rintro ⟨above,below⟩
    refine ⟨above.le,below.le,?_⟩
    rintro (same | same)
    · exact absurd same above.ne'
    · exact absurd same below.ne
  · intro rounds
    exact ⟨lt_of_le_of_ne rounds.low fun same => even (rounds.even (.inl same.symm)),
      lt_of_le_of_ne rounds.high fun same => even (rounds.even (.inr same))⟩

lemma holds_of_onGrid (found : i.onGrid e = some n) : i.holds n e ∧ 0 < n := by
  unfold Interval.onGrid at found
  dsimp only at found
  generalize (if 0 ≤ e then i.value else i.value * Nat.pow 10 (-e).toNat) = num at found
  generalize (if 0 ≤ e then i.den * Nat.pow 10 e.toNat else i.den) = den at found
  split at found
  · next below above =>
    rw [Bool.and_eq_true,decide_eq_true_eq] at below
    split at found <;> cases found
    · exact below
    · exact ⟨above,Nat.succ_pos _⟩
  · next below above =>
    rw [Bool.and_eq_true,decide_eq_true_eq] at below
    cases found
    exact below
  · next above =>
    cases found
    exact ⟨above,Nat.succ_pos _⟩
  · cases found

lemma search_spec {more count last : Nat} (within : count ≤ last) (enough : last < count + more)
    (hits : (i.onGrid (top - (last : Int))).isSome) : ∃ n e, search i top more count = ⟨n,e⟩ ∧ i.onGrid e = some n := by
  induction more generalizing count with
  | zero => omega
  | succ more ih =>
    unfold search
    dsimp only
    cases found : i.onGrid (top - count) with
    | some n => exact ⟨n,_,rfl,found⟩
    | none =>
      refine ih ?_ (by omega)
      rcases lt_or_eq_of_le within with later | rfl
      · exact later
      rw [found] at hits
      cases hits

lemma lt_digitCount (n : Nat) : n < 10 ^ digitCount n :=
  (Nat.length_toDigits_le_iff (by decide) Nat.length_toDigits_pos).mp (le_rfl)

lemma digitCount_le (pos : 0 < n) : 10 ^ (digitCount n - 1) ≤ n := by
  by_cases single : digitCount n - 1 = 0
  · rw [single]
    exact pos
  apply Nat.le_of_not_lt
  intro less
  have shorter : digitCount n ≤ digitCount n - 1 :=
    (Nat.length_toDigits_le_iff (by decide) (pos_of_ne_zero single)).mpr less
  omega

-- The magnitude is that of the first digit.
lemma magnitude_le (num den : Nat) (pos : 0 < num) (whole : 0 < den) : (10 : ℚ) ^ magnitude num den ≤ num / den := by
  have below : (0 : ℚ) < den := Nat.cast_pos.mpr whole
  unfold magnitude
  split
  · next large =>
    have first : 0 < num / den := Nat.div_pos large whole
    have digits : 0 < digitCount (num / den) := Nat.length_toDigits_pos
    rw [show (digitCount (num / den) : ℤ) - 1 = (digitCount (num / den) - 1 : ℕ) by omega]
    calc (10 : ℚ) ^ (digitCount (num / den) - 1) ≤ ((num / den : ℕ) : ℚ) := by exact_mod_cast digitCount_le first
      _ ≤ num / den := Nat.cast_div_le
  dsimp only
  have digits : 0 < digitCount (den / num) := Nat.length_toDigits_pos
  split
  · next exact =>
    rw [show (digitCount (den / num) : ℤ) - 1 = (digitCount (den / num) - 1 : ℕ) by omega,zpow_neg]
    rw [inv_le_iff_one_le_mul₀ (by positivity),div_mul_eq_mul_div,one_le_div₀ below]
    exact_mod_cast exact.ge
  · have bounded := Nat.lt_mul_of_div_lt (lt_digitCount (den / num)) pos
    rw [zpow_neg,inv_le_iff_one_le_mul₀ (by positivity),div_mul_eq_mul_div,one_le_div₀ below]
    exact_mod_cast (Nat.mul_comm _ _ ▸ bounded).le

-- Seventeen digits after the first are finer than a quarter.
lemma fine_grid (valid : p.Valid) (first : (10 : ℚ) ^ top ≤ (4 * p.mantissa : ℕ) * p.quarter) :
    (10 : ℚ) ^ (top - (17 : ℕ)) < p.quarter := by
  have most : ((4 * p.mantissa : ℕ) : ℚ) < 10 ^ (17 : ℕ) := by
    have := valid.high
    exact_mod_cast (show 4 * p.mantissa < 10 ^ 17 by omega)
  rw [zpow_sub₀ (by norm_num),div_lt_iff₀ (by norm_num),mul_comm]
  exact first.trans_lt (mul_lt_mul_of_pos_right most (quarter_pos p))

-- The number below is then less than a quarter away.
lemma rounds_of_near (valid : p.Valid) (below : t ≤ (4 * p.mantissa : ℕ) * p.quarter)
    (near : (4 * p.mantissa : ℕ) * p.quarter < t + p.quarter) : Rounds p t := by
  have pos := quarter_pos p
  have least := valid.positive
  have low : ((p.low + 1 : ℕ) : ℚ) * p.quarter ≤ (4 * p.mantissa : ℕ) * p.quarter := by
    refine mul_le_mul_of_nonneg_right (Nat.cast_le.mpr ?_) pos.le
    rcases low_cases p with ⟨low,_⟩ | ⟨low,_⟩ <;> omega
  have high : ((4 * p.mantissa : ℕ) : ℚ) * p.quarter < p.high * p.quarter := by
    refine mul_lt_mul_of_pos_right (Nat.cast_lt.mpr ?_) pos
    unfold Parts.high
    omega
  rw [Nat.cast_succ] at low
  have above : p.low * p.quarter < t := by linarith
  have under : t < p.high * p.quarter := by linarith
  refine ⟨above.le,under.le,?_⟩
  rintro (same | same)
  · exact absurd same above.ne'
  · exact absurd same under.ne

lemma onGrid_fine (valid : p.Valid) (first : (10 : ℚ) ^ e ≤ (4 * p.mantissa : ℕ) * p.quarter) (fine : (10 : ℚ) ^ e < p.quarter) :
    ((interval p).onGrid e).isSome := by
  have power : (0 : ℚ) < 10 ^ e := zpow_pos (by norm_num) _
  have value : ((interval p).value : ℚ) = _ := interval_scaled p (4 * p.mantissa)
  have scale := den_pos p
  unfold Interval.onGrid
  dsimp only
  generalize numIs : (if 0 ≤ e then (interval p).value else (interval p).value * Nat.pow 10 (-e).toNat) = num
  generalize denIs : (if 0 ≤ e then (interval p).den * Nat.pow 10 e.toNat else (interval p).den) = den
  have ratio : num / den = (4 * p.mantissa : ℕ) * p.quarter / 10 ^ e := by
    subst numIs denIs
    split
    · next grid => rw [Nat.cast_mul,pow_nonneg e grid,value,mul_comm _ ((10 : ℚ) ^ e),mul_div_mul_right _ _ scale.ne']
    · next grid => rw [Nat.cast_mul,pow_neg e grid,value,mul_right_comm,mul_div_cancel_right₀ _ scale.ne',div_eq_mul_inv]
  have floor := @Nat.floor_div_eq_div ℚ _ _ _ _ num den
  rw [ratio] at floor
  have below := Nat.floor_le (show 0 ≤ (4 * p.mantissa : ℕ) * p.quarter / 10 ^ e by have := quarter_pos p; positivity)
  have above := Nat.lt_floor_add_one ((4 * p.mantissa : ℕ) * p.quarter / 10 ^ e)
  rw [floor,le_div_iff₀ power] at below
  rw [floor,div_lt_iff₀ power] at above
  have holds : (interval p).holds (num / den) e := (holds_iff p).mpr (rounds_of_near valid below (by linarith))
  have nonzero : 0 < num / den := by
    rw [← floor,Nat.floor_pos,one_le_div₀ power]
    exact first
  rw [holds,decide_eq_true nonzero]
  cases (interval p).holds (num / den + 1) e
  · rfl
  change (if _ then some _ else some _ : Option ℕ).isSome
  split <;> rfl

lemma decimal_spec {x : Float} (valid : (parts x).Valid) :
    ∃ n e, decimal x = ⟨n,e⟩ ∧ 0 < n ∧ Rounds (parts x) (n * 10 ^ e) := by
  have value : ((interval (parts x)).value : ℚ) = _ := interval_scaled (parts x) (4 * (parts x).mantissa)
  have scale := den_pos (parts x)
  have some : (0 : ℚ) < (4 * (parts x).mantissa : ℕ) := Nat.cast_pos.mpr (mul_pos (by decide) valid.positive)
  have pos : 0 < (interval (parts x)).value := by
    rw [← @Nat.cast_pos ℚ,value]
    exact mul_pos (mul_pos some (quarter_pos _)) scale
  have first := magnitude_le _ _ pos (Nat.cast_pos.mp scale)
  rw [value,mul_div_cancel_right₀ _ scale.ne'] at first
  have hits := onGrid_fine valid ((zpow_le_zpow_right₀ (by norm_num) (by omega)).trans first) (fine_grid valid first)
  obtain ⟨n,e,found,onGrid⟩ := search_spec (Nat.zero_le 17) (by decide : 17 < 0 + 18) hits
  obtain ⟨holds,nonzero⟩ := holds_of_onGrid onGrid
  exact ⟨n,e,found,nonzero,(holds_iff _).mp holds⟩

lemma trim_spec (fuel : Nat) (pos : 0 < n) : ∃ m j, trim fuel ⟨n,e⟩ = ⟨m,j⟩ ∧ 0 < m ∧ (m * 10 ^ j : ℚ) = n * 10 ^ e := by
  induction fuel generalizing n e with
  | zero => exact ⟨n,e,rfl,pos,rfl⟩
  | succ fuel ih =>
    unfold trim
    split
    · next round =>
      simp only [Bool.and_eq_true,decide_eq_true_eq] at round
      obtain ⟨m,j,trimmed,nonzero,same⟩ := ih (show 0 < n / 10 by omega)
      refine ⟨m,j,trimmed,nonzero,same.trans ?_⟩
      rw [zpow_add_one₀ (by norm_num),Nat.cast_div (Nat.dvd_of_mod_eq_zero round.1) (by norm_num)]
      ring
    · exact ⟨n,e,rfl,pos,rfl⟩
end SchemaOrder.Shortest
