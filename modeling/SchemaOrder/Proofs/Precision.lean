import SchemaOrder.Proofs.Integers
namespace SchemaOrder.Doubles
open Float.Model Float.Model.UnpackedFloat
-- Doubles hold the whole numbers below 2 ^ 53 as they are.
structure Normal (m : Nat) (e : Int) : Prop where
  long : 0x10000000000000 ≤ m
  short : m < 0x20000000000000
  low : -1074 ≤ e
  high : e ≤ 971
variable {m n k : Nat} {e : Int} {sign : Sign}
lemma Normal.positive (normal : Normal m e) : 0 < m := by
  have := normal.long
  omega

lemma Normal.log2 (normal : Normal m e) : m.log2 = 52 :=
  (Nat.log2_eq_iff normal.positive.ne').mpr ⟨normal.long,normal.short⟩

lemma log2_scaled (pos : 0 < m) (k : Nat) : (m * 2 ^ k).log2 = m.log2 + k := by
  have power : 0 < 2 ^ k := Nat.two_pow_pos k
  obtain ⟨below,above⟩ := (Nat.log2_eq_iff pos.ne').mp rfl
  refine (Nat.log2_eq_iff (mul_pos pos power).ne').mpr ⟨?_,?_⟩
  · rw [pow_add]
    exact Nat.mul_le_mul_right _ below
  rw [add_right_comm,pow_add]
  exact mul_lt_mul_of_pos_right above power

-- Rounding aims at the exponent that the number has at full length.
lemma Normal.target (normal : Normal m (e + k)) : Format.binary64.targetExponent (totalExponent (m * 2 ^ k) e) = e + k := by
  have := normal.low
  change max (((m * 2 ^ k).log2 : Int) + 1 + e - 53) (3 - 2 ^ 10 - 53) = e + k
  rw [log2_scaled normal.positive,normal.log2]
  omega

lemma shifted_back (m k : Nat) :
    (ExtendedMantissa.ofMantissaAndAccuracy (m * 2 ^ k) .exact) >>> k = ExtendedMantissa.ofMantissaAndAccuracy m .exact := by
  change Nat.repeat ExtendedMantissa.shiftRightOne k ⟨m * 2 ^ k,false,false⟩ = ⟨m,false,false⟩
  induction k generalizing m with
  | zero => rw [pow_zero,mul_one]; rfl
  | succ k ih =>
    have doubled : m * 2 ^ (k + 1) = 2 * m * 2 ^ k := by rw [pow_succ',← mul_assoc,mul_comm m]
    rw [doubled]
    change ExtendedMantissa.shiftRightOne (Nat.repeat ExtendedMantissa.shiftRightOne k ⟨2 * m * 2 ^ k,false,false⟩) = _
    rw [ih (2 * m)]
    simp [ExtendedMantissa.shiftRightOne]

lemma shift_scaled (normal : Normal m (e + k)) : shiftToTargetExponent Format.binary64 (m * 2 ^ k) e .exact =
    (ExtendedMantissa.ofMantissaAndAccuracy m .exact,e + k) := by
  unfold shiftToTargetExponent shiftToExponent
  dsimp only
  rw [normal.target,show (e + k - e).toNat = k by omega,shifted_back]

lemma shift_normal (normal : Normal m e) : shiftToTargetExponent Format.binary64 m e .exact =
    (ExtendedMantissa.ofMantissaAndAccuracy m .exact,e) := by
  have still := shift_scaled (k := 0) (show Normal m (e + (0 : Nat)) from (add_zero e).symm ▸ normal)
  rwa [pow_zero,mul_one,Int.natCast_zero,add_zero] at still

lemma round_scaled (normal : Normal m (e + k)) :
    roundWithAccuracy Format.binary64 sign (m * 2 ^ k) e .exact = .finite sign m (e + k) normal.positive := by
  have rounded : (ExtendedMantissa.ofMantissaAndAccuracy m .exact).roundedMantissa = m := rfl
  unfold roundWithAccuracy
  simp only [shift_scaled normal,rounded,shift_normal normal]
  exact dif_neg normal.positive.ne'

lemma round_normal (normal : Normal m e) :
    roundWithAccuracy Format.binary64 sign m e .exact = .finite sign m e normal.positive := by
  have rounds : roundWithAccuracy Format.binary64 sign (m * 2 ^ 0) e .exact = _ :=
    round_scaled (k := 0) ((add_zero e).symm ▸ normal)
  simpa only [pow_zero,mul_one,Int.natCast_zero,add_zero] using rounds

lemma unpack_pack (normal : Normal m e) (pos : 0 < m) :
    (Float.Model.pack (.finite sign m e pos)).unpack = .finite sign m e pos := by
  obtain ⟨long,short,low,high⟩ := id normal
  change unpack Format.binary64 (pack Format.binary64 (.finite sign m e pos)) = _
  have exponent : (e + Format.binary64.exponentBias + Format.binary64.mantissaBitsWithoutImplicit).toNat =
      (e + 1075).toNat := by
    rw [add_assoc]
    rfl
  have field : (BitVec.ofNat 11 (e + 1075).toNat).toNat = (e + 1075).toNat := Nat.mod_eq_of_lt (by omega)
  have notTop : BitVec.ofNat 11 (e + 1075).toNat ≠ -1#11 := by
    intro same
    have : (BitVec.ofNat 11 (e + 1075).toNat).toNat = 2047 := congrArg BitVec.toNat same
    omega
  have notZero : BitVec.ofNat 11 (e + 1075).toNat ≠ 0#11 := by
    intro same
    have : (BitVec.ofNat 11 (e + 1075).toNat).toNat = 0 := congrArg BitVec.toNat same
    omega
  have mantissa : (1#1 ++ BitVec.ofNat 52 m).toNat = m := by
    rw [toNat_one_append,BitVec.toNat_ofNat]
    omega
  unfold UnpackedFloat.pack
  dsimp only
  rw [exponent,normal.log2,if_neg (by omega),if_pos (by decide)]
  unfold UnpackedFloat.unpack
  simp only [unpackMantissa_packComponents,unpackExponent_packComponents,unpackSign_packComponents,Sign.ofBitVec_toBitVec]
  rw [if_neg notTop,if_neg notZero]
  congr 1
  change ((BitVec.ofNat 11 (e + 1075).toNat).toNat : Int) - (1023 + 52) = e
  omega

inductive Holds : Nat → UnpackedFloat → Prop where
  | zero : Holds 0 (.zero .positive)
  | scaled (n k : Nat) (normal : Normal (n * 2 ^ k) (-k)) (pos : 0 < n * 2 ^ k) :
      Holds n (.finite .positive (n * 2 ^ k) (-k) pos)

-- A double that holds a whole number stays as it is when it is packed and when it is multiplied by one.
lemma Holds.repacked (holds : Holds n f) : Holds n (Float.Model.pack f).unpack := by
  cases holds with
  | zero => exact .zero
  | scaled n k normal pos =>
    rw [unpack_pack normal]
    exact .scaled n k normal pos

lemma Holds.times_one (holds : Holds n f) (pos : 0 < 0x10000000000000) :
    Holds n (UnpackedFloat.mul Format.binary64 f (.finite .positive 0x10000000000000 (-52) pos)) := by
  have product {m e} (own : 0 < m) (normal : Normal m e) : UnpackedFloat.mul Format.binary64 (.finite .positive m e own)
      (.finite .positive 0x10000000000000 (-52) pos) = .finite .positive m e own := by
    have rounds : roundWithAccuracy Format.binary64 .positive (m * 2 ^ 52) (e + -52) .exact = _ :=
      round_scaled (k := 52) (by rw [add_assoc]; exact (add_zero e).symm ▸ normal)
    refine rounds.trans ?_
    congr 1
    omega
  cases holds with
  | zero => exact .zero
  | scaled n k normal own =>
    rw [product own normal]
    exact .scaled n k normal own

lemma normal_scaled (pos : 0 < n) (small : n < 0x20000000000000) :
    Normal (n * 2 ^ (52 - n.log2)) (-(52 - n.log2 : Nat)) := by
  obtain ⟨below,above⟩ := (Nat.log2_eq_iff pos.ne').mp rfl
  have length : n.log2 ≤ 52 := Nat.lt_succ_iff.mp ((Nat.log2_lt pos.ne').mpr small)
  have power : 2 ^ n.log2 * 2 ^ (52 - n.log2) = 0x10000000000000 := by
    rw [← Nat.pow_add,Nat.add_sub_cancel' length]
  refine ⟨?_,?_,by omega,by omega⟩
  · rw [← power]
    exact Nat.mul_le_mul_right _ below
  calc n * 2 ^ (52 - n.log2) < 2 ^ (n.log2 + 1) * 2 ^ (52 - n.log2) :=
        mul_lt_mul_of_pos_right above (Nat.two_pow_pos _)
    _ = 0x20000000000000 := by rw [pow_succ,Nat.mul_right_comm,power]

lemma holds_ofInt (small : n < 0x20000000000000) : Holds n (ofInt Format.binary64 n) := by
  unfold UnpackedFloat.ofInt UnpackedFloat.normalize
  split
  · next negative => rw [Int.compare_eq_lt] at negative; omega
  · next none =>
    rw [Int.compare_eq_eq] at none
    obtain rfl : n = 0 := by omega
    exact .zero
  next some =>
  have pos : 0 < n := by rw [Int.compare_eq_gt] at some; omega
  have normal := normal_scaled pos small
  have length : n.log2 ≤ 52 := Nat.lt_succ_iff.mp ((Nat.log2_lt pos.ne').mpr small)
  have target : Format.binary64.targetExponent (totalExponent n 0) = -(52 - n.log2 : Nat) := by
    change max ((n.log2 : Int) + 1 + 0 - 53) (3 - 2 ^ 10 - 53) = _
    omega
  have amount : (0 - -((52 - n.log2 : Nat) : Int)).toNat = 52 - n.log2 := by omega
  rw [Int.toNat_natCast]
  unfold UnpackedFloat.round decreaseExponent
  dsimp only
  rw [target,Nat.shiftLeft_eq,amount,zero_sub,round_normal normal]
  exact .scaled n _ normal _

-- Twice through a double and a multiplication with one.
lemma holds_ofNat (small : n < 0x20000000000000) : Holds n (Float.ofNat n).toModel.unpack := by
  have kept : Holds n (Float.Model.pack (ofInt Format.binary64 n)).unpack := (holds_ofInt small).repacked
  obtain ⟨pos,one⟩ := one_finite
  have word : n.toUInt64.toNat = n := by
    change n % 2 ^ 64 = n
    omega
  have read : (Float.ofNat n).toModel.unpack = (Float.Model.pack (mul Format.binary64
      (Float.Model.pack (ofInt Format.binary64 n)).unpack
      (.finite .positive 0x10000000000000 (-52) pos))).unpack := by
    rw [← one]
    change (Float.ofScientific n false 0).toModel.unpack = _
    unfold Float.ofScientific
    rw [dif_pos ⟨small,Nat.zero_le _⟩]
    change (Float.Model.pack (UnpackedFloat.mul Format.binary64
      (Float.Model.pack (UnpackedFloat.ofInt Format.binary64 n.toUInt64.toNat)).unpack _)).unpack = _
    rw [word]
    rfl
  rw [read]
  exact (kept.times_one pos).repacked
end SchemaOrder.Doubles
