import SchemaOrder.Proofs.Precision
-- A whole number becomes the nearest one of 53 binary digits, on a tie the even one, and doubles compare as these do.
namespace SchemaOrder.Doubles
open Float.Model Float.Model.UnpackedFloat
variable {a b : ℤ}
-- The last of the 53 digits counts `unit n`.
def unit (n : ℕ) : ℕ := 2 ^ (n.log2 - 52)

def digits (n : ℕ) : ℕ :=
  if unit n < 2 * (n % unit n) ∨ 2 * (n % unit n) = unit n ∧ n / unit n % 2 = 1 then n / unit n + 1 else n / unit n

def rounded (n : ℕ) : ℕ := digits n * unit n
variable {m n k : ℕ} {e : ℤ}
lemma shifted_more (k : ℕ) : Nat.repeat ExtendedMantissa.shiftRightOne (k + 1) ⟨m,false,false⟩ =
    ⟨m / 2 ^ (k + 1),m / 2 ^ k % 2 != 0,m % 2 ^ k != 0⟩ := by
  induction k with
  | zero => simp [Nat.repeat,ExtendedMantissa.shiftRightOne,Nat.mod_one]
  | succ k ih =>
    change ExtendedMantissa.shiftRightOne (Nat.repeat ExtendedMantissa.shiftRightOne (k + 1) ⟨m,false,false⟩) = _
    rw [ih]
    have half : m / 2 ^ (k + 1) / 2 = m / 2 ^ (k + 2) := by rw [Nat.div_div_eq_div_mul,← pow_succ]
    have sticky : (m / 2 ^ k % 2 != 0 || m % 2 ^ k != 0) = (m % 2 ^ (k + 1) != 0) := by
      rw [Nat.mod_pow_succ]
      rcases Nat.mod_two_eq_zero_or_one (m / 2 ^ k) with even | odd
      · simp [even]
      · simp [odd]
    simp only [ExtendedMantissa.shiftRightOne,half,sticky]

-- Shifting and rounding is rounding to a multiple of a power of two.
lemma roundedMantissa_shifted (k : ℕ) : (Nat.repeat ExtendedMantissa.shiftRightOne k ⟨m,false,false⟩).roundedMantissa =
    if 2 ^ k < 2 * (m % 2 ^ k) ∨ 2 * (m % 2 ^ k) = 2 ^ k ∧ m / 2 ^ k % 2 = 1 then m / 2 ^ k + 1 else m / 2 ^ k := by
  cases k with
  | zero => simp [Nat.repeat,ExtendedMantissa.roundedMantissa,ExtendedMantissa.accuracy,Accuracy.roundToNearestEven,Nat.mod_one]
  | succ k =>
    have rest : m % 2 ^ (k + 1) = m % 2 ^ k + 2 ^ k * (m / 2 ^ k % 2) := Nat.mod_pow_succ
    have small : m % 2 ^ k < 2 ^ k := Nat.mod_lt _ (Nat.two_pow_pos k)
    have power : 2 ^ (k + 1) = 2 * 2 ^ k := Nat.pow_succ'
    rw [shifted_more,rest,power]
    generalize m / (2 * 2 ^ k) = q
    generalize m % 2 ^ k = c at small
    have sticky : (c != 0) = !decide (c = 0) := by cases c <;> rfl
    rcases Nat.mod_two_eq_zero_or_one (m / 2 ^ k) with even | odd
    · rw [even,if_neg (by omega),sticky]
      by_cases whole : c = 0 <;> simp only [whole] <;> rfl
    rw [odd,sticky]
    by_cases tie : c = 0
    · rcases Nat.mod_two_eq_zero_or_one q with even | odd
      · rw [if_neg (by omega)]
        simp only [tie]
        exact congrArg (q + ·) even
      rw [if_pos (by omega)]
      simp only [tie]
      exact congrArg (q + ·) odd
    · rw [if_pos (by omega)]
      simp only [tie]
      rfl

-- One more digit may come up, and then there is room for it at the next exponent.
lemma digits_bounds (long : 0x10000000000000 ≤ n) : 0x10000000000000 ≤ digits n ∧ digits n ≤ 0x20000000000000 := by
  have pos : n ≠ 0 := by omega
  obtain ⟨below,above⟩ := (Nat.log2_eq_iff pos).mp rfl
  have length : 52 ≤ n.log2 := (Nat.le_log2 pos).mpr long
  have low : 2 ^ 52 * unit n ≤ n := by
    rwa [unit,← pow_add,Nat.add_sub_cancel' length]
  have high : n < 2 ^ 53 * unit n := by
    rwa [unit,← pow_add,show 53 + (n.log2 - 52) = n.log2 + 1 by omega]
  have least : 2 ^ 52 ≤ n / unit n := (Nat.le_div_iff_mul_le (Nat.two_pow_pos _)).mpr low
  have most : n / unit n < 2 ^ 53 := (Nat.div_lt_iff_lt_mul (Nat.two_pow_pos _)).mpr high
  unfold digits
  split <;> omega

lemma rounded_small (short : n < 0x20000000000000) : rounded n = n := by
  have length : n.log2 - 52 = 0 := by
    rcases eq_zero_or_pos n with rfl | pos
    · rfl
    have : n.log2 < 53 := (Nat.log2_lt pos.ne').mpr short
    omega
  simp [rounded,digits,unit,length,Nat.mod_one]

lemma digits_mono (same : m.log2 = n.log2) (atMost : m ≤ n) : digits m ≤ digits n := by
  have units : unit m = unit n := by rw [unit,same,unit]
  have left := Nat.div_add_mod m (unit n)
  have right := Nat.div_add_mod n (unit n)
  have order : m / unit n ≤ n / unit n := Nat.div_le_div_right atMost
  unfold digits
  rw [units]
  rcases lt_or_eq_of_le order with less | equal
  · split <;> split <;> omega
  rw [equal] at left ⊢
  split <;> split <;> omega

lemma rounded_mono (atMost : m ≤ n) : rounded m ≤ rounded n := by
  rcases lt_or_ge n 0x20000000000000 with short | long
  · rw [rounded_small short,rounded_small (atMost.trans_lt short)]
    exact atMost
  rcases eq_zero_or_pos m with rfl | pos
  · exact Nat.zero_le _
  rcases lt_or_eq_of_le ((Nat.le_log2 (by omega)).mpr ((Nat.log2_self_le pos.ne').trans atMost)) with shorter | same
  · -- what is shorter does not reach beyond the power of two that begins the longer
    have length : 53 ≤ n.log2 := (Nat.le_log2 (by omega)).mpr long
    have least : 2 ^ 52 * unit n ≤ rounded n := Nat.mul_le_mul_right _ (digits_bounds (by omega)).1
    have begins : 2 ^ 52 * unit n = 2 ^ n.log2 := by rw [unit,← pow_add,Nat.add_sub_cancel' (by omega)]
    refine le_trans ?_ (begins ▸ least)
    rcases lt_or_ge m 0x20000000000000 with short | tall
    · rw [rounded_small short]
      exact Nat.lt_log2_self.le.trans (Nat.pow_le_pow_right (by decide) shorter)
    have most : rounded m ≤ 2 ^ 53 * unit m := Nat.mul_le_mul_right _ (digits_bounds (by omega)).2
    refine most.trans ?_
    rw [unit,← pow_add]
    exact Nat.pow_le_pow_right (by decide) (by omega)
  · unfold rounded
    rw [unit,same]
    exact Nat.mul_le_mul_right _ (digits_mono same atMost)

lemma repeat_add {α : Type} (f : α → α) (k l : ℕ) (a : α) : Nat.repeat f (k + l) a = Nat.repeat f k (Nat.repeat f l a) := by
  induction k with
  | zero => rw [zero_add]; rfl
  | succ k ih =>
    rw [add_right_comm]
    exact congrArg f ih

-- A whole number of 53 or more digits loses the digits beyond, whatever it was multiplied with before.
lemma shift_whole (long : 0x10000000000000 ≤ n) : shiftToTargetExponent Format.binary64 (n * 2 ^ 53) (-53) .exact =
    (Nat.repeat ExtendedMantissa.shiftRightOne (n.log2 - 52) ⟨n,false,false⟩,((n.log2 - 52 : ℕ) : ℤ)) := by
  have length : 52 ≤ n.log2 := (Nat.le_log2 (by omega)).mpr long
  have target : Format.binary64.targetExponent (totalExponent (n * 2 ^ 53) (-53)) = ((n.log2 - 52 : ℕ) : ℤ) := by
    change max (((n * 2 ^ 53).log2 : ℤ) + 1 + -53 - 53) (3 - 2 ^ 10 - 53) = _
    rw [log2_scaled (by omega)]
    omega
  unfold shiftToTargetExponent shiftToExponent
  dsimp only
  rw [target]
  refine Prod.ext ?_ (by omega)
  exact (repeat_add _ _ _ _).trans (congrArg (Nat.repeat _ _) (shifted_back n 53))

lemma round_whole (long : 0x10000000000000 ≤ n) (bounded : n < 2 ^ 64) : ∃ M E, ∃ normal : Normal M E,
    roundWithAccuracy Format.binary64 .positive (n * 2 ^ 53) (-53) .exact = .finite .positive M E normal.positive ∧
      -52 ≤ E ∧ M * 2 ^ (E + 52).toNat = rounded n * 2 ^ 52 := by
  have length : n.log2 < 64 := (Nat.log2_lt (by omega)).mpr bounded
  obtain ⟨least,most⟩ := digits_bounds long
  have digitsEq : (Nat.repeat ExtendedMantissa.shiftRightOne (n.log2 - 52) ⟨n,false,false⟩).roundedMantissa = digits n :=
    roundedMantissa_shifted _
  have value (k : ℕ) : (((n.log2 - 52 : ℕ) : ℤ) + k + 52).toNat = n.log2 - 52 + k + 52 := by omega
  -- all digits may be ones, and rounding up then gives one digit more
  rcases lt_or_eq_of_le most with fits | carries
  · have normal : Normal (digits n) (((n.log2 - 52 : ℕ) : ℤ) + (0 : ℕ)) := ⟨least,fits,by omega,by omega⟩
    refine ⟨digits n,_,normal,?_,by omega,?_⟩
    · have still := shift_scaled normal
      rw [pow_zero,mul_one] at still
      unfold roundWithAccuracy
      simp only [shift_whole long,digitsEq,still]
      exact dif_neg normal.positive.ne'
    · rw [value,pow_add,← mul_assoc]
      rfl
  have normal : Normal 0x10000000000000 (((n.log2 - 52 : ℕ) : ℤ) + (1 : ℕ)) := ⟨by decide,by decide,by omega,by omega⟩
  refine ⟨_,_,normal,?_,by omega,?_⟩
  · have still := shift_scaled normal
    rw [show 0x10000000000000 * 2 ^ 1 = digits n from carries.symm] at still
    unfold roundWithAccuracy
    simp only [shift_whole long,digitsEq,still]
    exact dif_neg normal.positive.ne'
  · rw [value,rounded,carries,unit]
    ring

lemma unpack_ofNat (pos : 0 < n) (bounded : n < 2 ^ 64) : ∃ M E, ∃ normal : Normal M E,
    (Float.ofNat n).toModel.unpack = .finite .positive M E normal.positive ∧
      -52 ≤ E ∧ M * 2 ^ (E + 52).toNat = rounded n * 2 ^ 52 := by
  rcases lt_or_ge n 0x20000000000000 with short | long
  · rw [rounded_small short]
    have holds := holds_ofNat short
    generalize (Float.ofNat n).toModel.unpack = f at holds
    cases holds with
    | zero => exact absurd pos (lt_irrefl 0)
    | scaled n k normal own =>
      have within : k < 53 := by
        refine (Nat.pow_lt_pow_iff_right (by decide : 1 < 2)).mp (lt_of_le_of_lt ?_ normal.short)
        exact Nat.le_mul_of_pos_left _ pos
      refine ⟨_,_,normal,rfl,by omega,?_⟩
      rw [mul_assoc,← pow_add,show k + (-(k : ℤ) + 52).toNat = 52 by omega]
  obtain ⟨M,E,normal,rounds,value⟩ := round_whole (n := n) (by omega) bounded
  refine ⟨M,E,normal,?_,value⟩
  have product : UnpackedFloat.ofScientific Format.binary64 n 0 = .finite .positive M E normal.positive := by
    have small : ¬ (0 : ℤ) < -((2 ^ 11 : ℤ) + n.log2) := by omega
    unfold UnpackedFloat.ofScientific
    rw [dif_neg pos.ne',if_neg (by decide),if_neg small,if_pos (by decide)]
    simp only [UnpackedFloat.mul,Int.toNat_zero,pow_zero,mul_one,Nat.shiftLeft_eq]
    exact rounds
  change (Float.ofScientific n false 0).toModel.unpack = _
  unfold Float.ofScientific
  rw [dif_neg (by omega)]
  change (Float.Model.pack (ofScientific Format.binary64 n 0)).unpack = _
  rw [product]
  exact unpack_pack normal normal.positive

def nearest : ℤ → ℤ
  | .ofNat n => rounded n
  | .negSucc n => -rounded n.succ

lemma rounded_positive (pos : 0 < n) : 0 < rounded n :=
  (rounded_small (n := 1) (by decide) ▸ one_pos).trans_le (rounded_mono (Nat.succ_le_of_lt pos))

lemma nearest_small (small : a.natAbs ≤ 0x20000000000000) : nearest a = a := by
  have kept n (atMost : n ≤ 0x20000000000000) : rounded n = n := by
    rcases lt_or_eq_of_le atMost with short | rfl
    · exact rounded_small short
    · decide +kernel
  cases a with
  | ofNat n => exact congrArg Int.ofNat (kept n small)
  | negSucc n => exact congrArg (fun k : ℕ => -(k : ℤ)) (kept _ small)

-- Exponents come first, and full mantissas differ by less than one exponent.
lemma pair_lt_iff {M N : ℕ} {E F : ℤ} (left : Normal M E) (right : Normal N F) (low : -52 ≤ E) (low' : -52 ≤ F) :
    (E < F ∨ E = F ∧ M < N) ↔ M * 2 ^ (E + 52).toNat < N * 2 ^ (F + 52).toNat := by
  have below {M N} {E F} (left : Normal M E) (right : Normal N F) (low : -52 ≤ E) (less : E < F) :
      M * 2 ^ (E + 52).toNat < N * 2 ^ (F + 52).toNat := by
    calc M * 2 ^ (E + 52).toNat < 0x20000000000000 * 2 ^ (E + 52).toNat :=
          mul_lt_mul_of_pos_right left.short (Nat.two_pow_pos _)
      _ = 0x10000000000000 * 2 ^ ((E + 52).toNat + 1) := by ring
      _ ≤ N * 2 ^ (F + 52).toNat := Nat.mul_le_mul right.long (Nat.pow_le_pow_right (by decide) (by omega))
  rcases lt_trichotomy E F with less | rfl | more
  · simp [less,below left right low less]
  · simp [Nat.mul_lt_mul_right (Nat.two_pow_pos _)]
  · simp [more.not_gt,more.ne',(below right left low' more).le]

lemma place_ofNat {a b : ℕ} (left : a < 2 ^ 64) (right : b < 2 ^ 64) :
    (place (Float.ofNat a).toModel.unpack < place (Float.ofNat b).toModel.unpack ↔ rounded a < rounded b) ∧
      (place (Float.ofNat b).toModel.unpack.neg < place (Float.ofNat a).toModel.unpack.neg ↔ rounded a < rounded b) := by
  have zero : (Float.ofNat 0).toModel.unpack = .zero .positive := by rfl
  have none : rounded 0 = 0 := rounded_small (by decide)
  rcases eq_zero_or_pos a with rfl | pos
  · rcases eq_zero_or_pos b with rfl | pos
    · simp
    obtain ⟨M,E,normal,unpacked,_⟩ := unpack_ofNat pos right
    rw [zero,unpacked,none]
    simp [place,UnpackedFloat.neg,Prod.Lex.toLex_lt_toLex,rounded_positive pos]
  obtain ⟨M,E,normal,unpacked,low,value⟩ := unpack_ofNat pos left
  rcases eq_zero_or_pos b with rfl | pos
  · rw [zero,unpacked,none]
    simp [place,UnpackedFloat.neg,Prod.Lex.toLex_lt_toLex]
  obtain ⟨N,F,normal',unpacked',low',value'⟩ := unpack_ofNat pos right
  have order := pair_lt_iff normal normal' low low'
  rw [value,value',Nat.mul_lt_mul_right (Nat.two_pow_pos 52)] at order
  rw [unpacked,unpacked',← order]
  simp [place,UnpackedFloat.neg,Prod.Lex.toLex_lt_toLex,@eq_comm _ F E]

lemma position_negSucc (n : ℕ) (bounded : n.succ < 2 ^ 64) :
    position (.ofInt (.negSucc n)) = place (Float.ofNat n.succ).toModel.unpack.neg := by
  obtain ⟨M,E,normal,unpacked,_⟩ := unpack_ofNat n.succ_pos bounded
  change place (Float.Model.pack (Float.ofNat n.succ).toModel.unpack.neg).unpack = _
  rw [unpacked]
  exact congrArg place (unpack_pack normal normal.positive)

-- Whole numbers compare as doubles by what they are rounded to.
lemma ofInt_lt (left : a.natAbs < 2 ^ 64) (right : b.natAbs < 2 ^ 64) :
    Float.ofInt a < Float.ofInt b ↔ nearest a < nearest b := by
  rw [lt_iff (ofInt_number a) (ofInt_number b)]
  -- only zero has no sign
  have signs m n (bounded : n.succ < 2 ^ 64) : position (.ofInt (.negSucc n)) < position (.ofInt (.ofNat m)) := by
    obtain ⟨M,E,normal,unpacked,_⟩ := unpack_ofNat n.succ_pos bounded
    rw [position_negSucc n bounded,unpacked]
    have signed := ofNat_signed m
    change _ < place (Float.ofNat m).toModel.unpack
    generalize (Float.ofNat m).toModel.unpack = f at signed
    cases signed <;> simp [place,UnpackedFloat.neg,Prod.Lex.toLex_lt_toLex]
  cases a with
  | ofNat m =>
    cases b with
    | ofNat n => exact (place_ofNat left right).1.trans Int.ofNat_lt.symm
    | negSucc n =>
      have above := signs m n right
      refine iff_of_false (not_lt_of_gt above) ?_
      simp only [nearest]
      omega
  | negSucc m =>
    cases b with
    | ofNat n =>
      have := rounded_positive m.succ_pos
      refine iff_of_true (signs n m left) ?_
      simp only [nearest]
      omega
    | negSucc n =>
      rw [position_negSucc m left,position_negSucc n right,(place_ofNat (a := n.succ) (b := m.succ) right left).2]
      simp [nearest]

lemma nearest_mono (atMost : a ≤ b) : nearest a ≤ nearest b := by
  cases a with
  | ofNat m =>
    cases b with
    | ofNat n => exact Int.ofNat_le.mpr (rounded_mono (Int.ofNat_le.mp atMost))
    | negSucc n => exact absurd atMost (not_le_of_gt (Int.negSucc_lt_zero n |>.trans_le (Int.natCast_nonneg m)))
  | negSucc m =>
    cases b with
    | ofNat n => simp only [nearest]; omega
    | negSucc n => exact neg_le_neg (Int.ofNat_le.mpr (rounded_mono (by omega)))

lemma ofInt_injective (left : a.natAbs ≤ 0x20000000000000) (right : b.natAbs ≤ 0x20000000000000)
    (same : position (.ofInt a) = position (.ofInt b)) : a = b := by
  have unordered : ∀ {a b}, a.natAbs ≤ 0x20000000000000 → b.natAbs ≤ 0x20000000000000 →
      position (.ofInt a) = position (.ofInt b) → ¬ a < b := by
    intro a b left right same less
    rw [← nearest_small left,← nearest_small right,← ofInt_lt (by omega) (by omega),
      lt_iff (ofInt_number a) (ofInt_number b),same] at less
    exact lt_irrefl _ less
  exact le_antisymm (not_lt.mp (unordered right left same.symm)) (not_lt.mp (unordered left right same))
end SchemaOrder.Doubles
