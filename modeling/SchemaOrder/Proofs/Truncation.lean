import SchemaOrder.Proofs.Equivalence
import SchemaOrder.Proofs.Rounding
namespace SchemaOrder
namespace Doubles
open Float.Model Float.Model.UnpackedFloat
variable {x y : Float} {f : UnpackedFloat} {m n : ℕ} {e : ℤ}
-- Below the bound a double is compared with its integer part; what is close enough is truncated, what is beyond keeps
-- its spelling.
lemma unpack_neg (x : Float) : (-x).toModel.unpack = x.toModel.unpack.neg := by
  have shape : ∀ f, ∃ sign, f.neg = withSign sign f := by
    rintro (s | _ | s | ⟨s,_,_,_⟩)
    · exact ⟨-s,rfl⟩
    · exact ⟨.positive,rfl⟩
    all_goals exact ⟨-s,rfl⟩
  obtain ⟨sign,signed⟩ := shape x.toModel.unpack
  change (Float.Model.pack x.toModel.unpack.neg).unpack = _
  rw [signed,unpack_withSign]

lemma eq_of_unpack (same : x.toModel.unpack = y.toModel.unpack) : x = y := by
  obtain ⟨⟨b,v⟩⟩ := x
  obtain ⟨⟨c,w⟩⟩ := y
  have bits : b.toBitVec = c.toBitVec := by
    rw [← pack_unpack_of_valid v,← pack_unpack_of_valid w]
    exact congrArg _ same
  have same : b = c := UInt64.toBitVec_inj.mp bits
  subst same
  rfl

-- Doubles that compare equal are one double or the two zeros.
lemma eq_or_zero (same : (x == y)) : x = y ∨ (x == 0.0) ∧ (y == 0.0) := by
  have zero {z} {sign} (bits : z.toModel.toBits.toBitVec = packedZero Format.binary64 sign) : (z == 0.0) := by
    change (UnpackedFloat.unpack Format.binary64 z.toModel.toBits.toBitVec).beq (0.0 : Float).toModel.unpack
    rw [bits,unpack_packedZero]
    rfl
  obtain ⟨_,_,bits⟩ := (unpack_beq_unpack_iff x.toModel.valid y.toModel.valid).mp same
  rcases bits with equal | ⟨left,right⟩ | ⟨left,right⟩
  · exact .inl (eq_of_unpack (congrArg (unpack Format.binary64) equal))
  all_goals exact .inr ⟨zero left,zero right⟩

-- Mantissas have 53 digits, or fewer at the least exponent.
lemma unpack_finite (unpacked : x.toModel.unpack = .finite sign m e pos) :
    m < 0x20000000000000 ∧ (0x10000000000000 ≤ m ∨ e = -1074) := by
  change unpack Format.binary64 x.toBits.toBitVec = _ at unpacked
  have short := (@unpackMantissa Format.binary64 x.toBits.toBitVec).isLt
  change _ < 0x10000000000000 at short
  unfold UnpackedFloat.unpack at unpacked
  dsimp only at unpacked
  split at unpacked
  · split at unpacked <;> cases unpacked
  split at unpacked
  · next bottom =>
    split at unpacked
    · cases unpacked
    cases unpacked
    rw [bottom]
    exact ⟨by omega,.inr rfl⟩
  · cases unpacked
    have full := toNat_one_append (@unpackMantissa Format.binary64 x.toBits.toBitVec)
    exact ⟨full ▸ by omega,.inl (full ▸ by omega)⟩

lemma finite_number (unpacked : x.toModel.unpack = .finite sign m e pos) : IsNumber x := by
  unfold IsNumber
  rw [unpacked]
  rintro ⟨⟩

lemma number_of_lt (below : x < y) : IsNumber x := by
  intro none
  have compared : x.toModel.unpack.lt y.toModel.unpack := of_decide_eq_true below
  rw [none] at compared
  cases compared

-- Below the bound a double is zero, has a fraction, or counts in ones.
lemma unpack_small (small : x.abs < 9.0e15) : (x == 0.0) ∨ ∃ sign m e pos,
    x.toModel.unpack = .finite sign m e pos ∧ m < 0x20000000000000 ∧ (e < 0 ∨ e = 0 ∧ 0x10000000000000 ≤ m) := by
  obtain ⟨_,bound⟩ := bound_model
  have below := (lt_iff (number_of_lt small) (finite_number bound)).mp small
  unfold position at below
  rw [unpack_abs,bound] at below
  cases unpacked : x.toModel.unpack with
  | notANumber =>
    have := number_of_lt small
    unfold IsNumber at this
    rw [unpack_abs,unpacked] at this
    exact absurd rfl this
  | infinity =>
    rw [unpacked] at below
    simp [withSign,place,Prod.Lex.toLex_lt_toLex] at below
  | zero sign =>
    refine .inl ?_
    change x.toModel.unpack.beq (0.0 : Float).toModel.unpack
    rw [unpacked]
    rfl
  | finite sign m e pos =>
    obtain ⟨short,long⟩ := unpack_finite unpacked
    rw [unpacked] at below
    simp only [withSign,place,Prod.Lex.toLex_lt_toLex] at below
    exact .inr ⟨sign,m,e,pos,rfl,short,by omega⟩

lemma mantissa_shifted (m k : ℕ) : ((ExtendedMantissa.ofMantissaAndAccuracy m .exact) >>> k).mantissa = m / 2 ^ k := by
  change (Nat.repeat ExtendedMantissa.shiftRightOne k ⟨m,false,false⟩).mantissa = _
  cases k with
  | zero => simp [Nat.repeat]
  | succ k => rw [shifted_more]

-- The whole number toward zero.
def truncated (x : Float) : ℕ := x.abs.toUInt64.toNat

lemma truncated_finite (unpacked : x.abs.toModel.unpack = .finite .positive m e pos) (short : m < 0x20000000000000)
    (low : e ≤ 0) : truncated x = m / 2 ^ (-e).toNat := by
  have atMost : m / 2 ^ (-e).toNat ≤ m := Nat.div_le_self _ _
  have rounds : roundToInt .positive m e = (m / 2 ^ (-e).toNat : ℕ) := by
    unfold roundToInt decreaseExponent shiftToExponent
    dsimp only
    rw [show (e - 0).toNat = 0 by omega,show (0 - (e - ((0 : ℕ) : ℤ))).toNat = (-e).toNat by omega]
    exact congrArg Int.ofNat (mantissa_shifted m _)
  change (UInt64.ofNatClamp (toInt 0 (UInt64.size - 1) x.abs.toModel.unpack).toNat).toNat = _
  rw [unpacked]
  change (UInt64.ofNatClamp (roundToInt .positive m e).toNat).toNat = _
  rw [rounds,UInt64.ofNatClamp,dif_pos (by change _ < 2 ^ 64; omega)]
  rfl

lemma truncated_holds (holds : Holds n x.abs.toModel.unpack) : truncated x = n := by
  generalize unpacked : x.abs.toModel.unpack = f at holds
  cases holds with
  | zero =>
    change (UInt64.ofNatClamp (toInt 0 (UInt64.size - 1) x.abs.toModel.unpack).toNat).toNat = _
    rw [unpacked]
    rfl
  | scaled n k normal pos =>
    rw [truncated_finite unpacked normal.short (by omega),neg_neg]
    exact Nat.mul_div_cancel _ (Nat.two_pow_pos k)

lemma holds_unique {f g : UnpackedFloat} (left : Holds n f) (right : Holds n g) : f = g := by
  cases left with
  | zero =>
    cases right with
    | zero => rfl
    | scaled _ k normal => exact absurd normal.positive (by simp)
  | scaled _ k normal pos =>
    cases right with
    | zero => exact absurd pos (by simp)
    | scaled _ l other =>
      have length := normal.log2
      have otherLength := other.log2
      have some : 0 < n := Nat.pos_of_mul_pos_right pos
      rw [log2_scaled some] at length otherLength
      obtain rfl : k = l := by omega
      rfl

lemma holds_toFloat (short : n < 0x20000000000000) : Holds n (n.toUInt64.toFloat).toModel.unpack := by
  have word : n.toUInt64.toNat = n := by
    change n % 2 ^ 64 = n
    omega
  change Holds n (Float.Model.pack (UnpackedFloat.ofInt Format.binary64 n.toUInt64.toNat)).unpack
  rw [word]
  exact (holds_ofInt short).repacked

lemma Holds.unsigned (holds : Holds n f) : withSign .positive f = f ∧ withSign .positive f.neg = f := by
  cases holds <;> exact ⟨rfl,rfl⟩

lemma finite_ne_zero (unpacked : x.toModel.unpack = .finite sign m e pos) : (x == 0.0) = false := by
  change x.toModel.unpack.beq (0.0 : Float).toModel.unpack = false
  rw [unpacked]
  cases sign <;> rfl

lemma lt_zero_iff (unpacked : x.toModel.unpack = .finite sign m e pos) : x < 0.0 ↔ sign = .negative := by
  have zero : IsNumber 0.0 := by rintro ⟨⟩
  rw [lt_iff (finite_number unpacked) zero]
  unfold position
  rw [unpacked,zero_model]
  cases sign <;> simp [place,Prod.Lex.toLex_lt_toLex]

-- A magnitude with the sign of a double.
def signedAs (x z : Float) : Float := if x < 0.0 then -z else z

lemma signedAs_abs (unpacked : x.toModel.unpack = .finite sign m e pos) : signedAs x x.abs = x := by
  have below := lt_zero_iff unpacked
  apply eq_of_unpack
  unfold signedAs
  cases sign with
  | negative =>
    rw [if_pos (below.mpr rfl),unpack_neg,unpack_abs,unpacked]
    rfl
  | positive =>
    rw [if_neg fun less => (nomatch below.mp less),unpack_abs,unpacked]
    rfl

lemma abs_signedAs (holds : Holds n z.toModel.unpack) : (signedAs x z).abs = z := by
  apply eq_of_unpack
  rw [unpack_abs]
  unfold signedAs
  split
  · rw [unpack_neg]
    exact holds.unsigned.2
  · exact holds.unsigned.1

-- The integer part is the whole number toward zero.
lemma integerPart_small (unpacked : x.toModel.unpack = .finite sign m e pos) (short : m < 0x20000000000000)
    (range : e < 0 ∨ e = 0 ∧ 0x10000000000000 ≤ m) :
    ∃ z : Float, Holds (truncated x) z.toModel.unpack ∧ integerPart x = signedAs x z := by
  have magnitude : x.abs.toModel.unpack = .finite .positive m e pos := by rw [unpack_abs,unpacked]; rfl
  obtain ⟨_,limit⟩ : ∃ pos, (4503599627370496.0 : Float).toModel.unpack = .finite .positive 4503599627370496 0 pos :=
    ⟨by decide,by rfl⟩
  have below : x.abs < 4503599627370496.0 ↔ e < 0 := by
    rw [lt_iff (finite_number magnitude) (finite_number limit)]
    unfold position
    rw [magnitude,limit]
    simp only [place,Prod.Lex.toLex_lt_toLex,true_and]
    omega
  have size := truncated_finite magnitude short (by omega)
  have atMost : m / 2 ^ (-e).toNat ≤ m := Nat.div_le_self _ _
  unfold integerPart
  rcases range with negative | ⟨rfl,long⟩
  · rw [if_pos (below.mpr negative)]
    refine ⟨(truncated x).toUInt64.toFloat,holds_toFloat (by omega),?_⟩
    unfold truncated
    rw [Nat.toUInt64_eq,UInt64.ofNat_toNat]
    rfl
  rw [if_neg fun less => absurd (below.mp less) (by decide)]
  refine ⟨x.abs,?_,(signedAs_abs unpacked).symm⟩
  rw [size,magnitude]
  have normal : Normal (m * 2 ^ 0) (-(0 : ℕ)) := ⟨by omega,by omega,by decide,by decide⟩
  have holds := Holds.scaled m 0 normal normal.positive
  simpa using holds

lemma integerPart_iff (unpacked : x.toModel.unpack = .finite sign m e pos) (short : m < 0x20000000000000)
    (range : e < 0 ∨ e = 0 ∧ 0x10000000000000 ≤ m) :
    (integerPart x == x) ↔ Holds (truncated x) x.abs.toModel.unpack := by
  obtain ⟨z,holds,part⟩ := integerPart_small unpacked short range
  rw [part]
  constructor
  · intro same
    rcases eq_or_zero same with equal | ⟨_,zero⟩
    · rwa [← equal,abs_signedAs holds,equal]
    rw [finite_ne_zero unpacked] at zero
    cases zero
  · intro whole
    rw [← eq_of_unpack (holds_unique whole holds),signedAs_abs unpacked]
    exact beq_self (finite_number unpacked)

-- The whole number with its sign.
def truncatedInt (x : Float) : ℤ := if x < 0.0 then -(truncated x : ℤ) else truncated x

lemma ofInt_signed (n : ℤ) : ∃ sign, (Float.ofInt n).toModel.unpack = withSign sign (Float.ofNat n.natAbs).toModel.unpack := by
  cases n with
  | ofNat n =>
    refine ⟨.positive,?_⟩
    change (Float.ofNat n).toModel.unpack = withSign .positive (Float.ofNat n).toModel.unpack
    have signed := ofNat_signed n
    generalize (Float.ofNat n).toModel.unpack = f at signed
    cases signed <;> rfl
  | negSucc n =>
    refine ⟨.negative,?_⟩
    change (-(Float.ofNat n.succ)).toModel.unpack = withSign .negative (Float.ofNat n.succ).toModel.unpack
    rw [unpack_neg]
    have signed := ofNat_signed n.succ
    generalize (Float.ofNat n.succ).toModel.unpack = f at signed
    cases signed <;> rfl

lemma abs_ofInt (n : ℤ) : (Float.ofInt n).abs = Float.ofNat n.natAbs := by
  obtain ⟨sign,signed⟩ := ofInt_signed n
  apply eq_of_unpack
  rw [unpack_abs,signed]
  have signed := ofNat_signed n.natAbs
  generalize (Float.ofNat n.natAbs).toModel.unpack = f at signed
  cases signed <;> rfl

lemma ofInt_of_holds (unpacked : x.toModel.unpack = .finite sign m e pos) (short : n < 0x20000000000000)
    (holds : Holds n x.abs.toModel.unpack) : Float.ofInt (if x < 0.0 then -(n : ℤ) else n) = x := by
  have magnitude : x.abs = Float.ofNat n := eq_of_unpack (holds_unique holds (holds_ofNat short))
  have whole := signedAs_abs unpacked
  rw [magnitude] at whole
  refine trans ?_ whole
  unfold signedAs
  split
  · cases n with
    | zero =>
      rw [unpack_abs,unpacked] at holds
      cases holds
      exact absurd pos (by simp)
    | succ n => rfl
  · rfl

lemma ofInt_ne_zero {n : ℤ} (other : n ≠ 0) (bounded : n.natAbs < 2 ^ 64) : (Float.ofInt n == 0.0) = false := by
  obtain ⟨M,E,normal,unpacked,_⟩ := unpack_ofNat (Int.natAbs_pos.mpr other) bounded
  obtain ⟨sign,signed⟩ := ofInt_signed n
  rw [unpacked] at signed
  exact finite_ne_zero signed

lemma holds_bound : Holds 9000000000000000 (9.0e15 : Float).toModel.unpack := by
  obtain ⟨pos,bound⟩ := bound_model
  rw [bound]
  exact .scaled 9000000000000000 0 ⟨by decide,by decide,by decide,by decide⟩ pos

lemma small_of_equal {n : ℤ} (bounded : n.natAbs < 2 ^ 64) (small : (Float.ofInt n).abs < 9.0e15) : n.natAbs < 0x20000000000000 := by
  rw [abs_ofInt] at small
  have limit : (9.0e15 : Float) = Float.ofNat 9000000000000000 :=
    eq_of_unpack (holds_unique holds_bound (holds_ofNat (by decide)))
  rw [limit] at small
  have below := (@ofInt_lt n.natAbs 9000000000000000 (by omega) (by decide)).mp small
  rw [@nearest_small 9000000000000000 (by decide)] at below
  by_contra large
  have above := @nearest_mono 9000000000000000 n.natAbs (by omega)
  rw [@nearest_small 9000000000000000 (by decide)] at above
  omega

lemma one_model : ∃ pos, (1.0 : Float).toModel.unpack = .finite .positive 0x10000000000000 (-52) pos :=
  ⟨by decide,by rfl⟩

lemma div_one (unpacked : x.toModel.unpack = .finite sign m e pos) (normal : Normal m e) (low : -1073 ≤ e) : x / 1.0 = x := by
  obtain ⟨_,one⟩ := one_model
  have divided : div Format.binary64 (.finite sign m e pos) (.finite .positive 0x10000000000000 (-52) (by decide)) =
      .finite sign m e pos := by
    have target : Format.binary64.targetExponent (totalExponent m e - totalExponent 0x10000000000000 (-52)) = e - 1 := by
      have length : Nat.log2 0x10000000000000 = 52 := by rfl
      change max (m.log2 + 1 + e - ((Nat.log2 0x10000000000000 : ℕ) + 1 + -52) - 53) (3 - 2 ^ 10 - 53) = _
      rw [normal.log2]
      omega
    have sides : sign / Sign.positive = sign := by cases sign <;> rfl
    unfold UnpackedFloat.div divCore
    dsimp only
    rw [target,sides,show min (e - -52) (e - 1) = e - 1 by omega,show (e - -52 - (e - 1)).toNat = 53 by omega,Nat.shiftLeft_eq,
      show m * 2 ^ 53 = m * 2 ^ 1 * 0x10000000000000 by omega,Nat.mul_div_cancel _ (by decide),Nat.mul_mod_left]
    have rounds : roundWithAccuracy Format.binary64 sign (m * 2 ^ 1) (e - 1) .exact = _ :=
      round_scaled (k := 1) (by rw [show e - 1 + ((1 : ℕ) : ℤ) = e by omega]; exact normal)
    refine rounds.trans ?_
    congr 1
    omega
  apply eq_of_unpack
  change (Float.Model.pack (div Format.binary64 x.toModel.unpack (1.0 : Float).toModel.unpack)).unpack = _
  rw [unpacked,one,divided,unpack_pack normal]

lemma sub_self (unpacked : x.toModel.unpack = .finite sign m e pos) : x - x = 0.0 := by
  apply eq_of_unpack
  change (Float.Model.pack (UnpackedFloat.sub Format.binary64 x.toModel.unpack x.toModel.unpack)).unpack = _
  rw [unpacked]
  have none : UnpackedFloat.sub Format.binary64 (.finite sign m e pos) (.finite sign m e pos) = .zero .positive := by
    unfold UnpackedFloat.sub UnpackedFloat.normalize
    dsimp only
    rw [Int.sub_self]
    rfl
  rw [none]
  rfl

lemma isMultipleOf_one (unpacked : x.toModel.unpack = .finite sign m e pos) (normal : Normal m e) (low : -1073 ≤ e)
    (whole : integerPart x = x) : isMultipleOf x 1.0 := by
  have near : nearestInteger x = x := by
    unfold nearestInteger
    dsimp only
    rw [whole,sub_self unpacked,if_pos (by decide)]
  have finite : x.isFinite := by
    change x.toModel.unpack.isFinite
    rw [unpacked]
    rfl
  unfold isMultipleOf
  dsimp only
  rw [div_one unpacked normal low,near,sub_self unpacked,finite]
  decide

lemma zero_cases (zero : (x == 0.0)) : x = 0.0 ∨ x = -0.0 := by
  have compared : x.toModel.unpack.compare (0.0 : Float).toModel.unpack = some .eq := eq_of_beq zero
  rcases unpacked : x.toModel.unpack with (_ | _) | _ | (_ | _) | ⟨_ | _,m,e,_⟩ <;> rw [unpacked] at compared
  any_goals cases compared
  · exact .inr (eq_of_unpack unpacked)
  · exact .inl (eq_of_unpack unpacked)

lemma beq_trans (left : (x == y)) (right : (y == z)) : (x == z) := by
  rcases eq_or_zero left with rfl | ⟨first,second⟩
  · exact right
  have third : (z == 0.0) := by
    rcases eq_or_zero right with rfl | zeros
    · exact second
    · exact zeros.2
  rcases zero_cases first with rfl | rfl <;> rcases zero_cases third with rfl | rfl <;> decide +kernel

lemma truncated_small (small : x.abs < 9.0e15) : truncated (integerPart x) = truncated x ∧ truncated x < 0x20000000000000 := by
  rcases unpack_small small with zero | ⟨sign,m,e,pos,unpacked,short,range⟩
  · rcases zero_cases zero with rfl | rfl <;> decide +kernel
  have magnitude : x.abs.toModel.unpack = .finite .positive m e pos := by rw [unpack_abs,unpacked]; rfl
  obtain ⟨z,holds,part⟩ := integerPart_small unpacked short range
  refine ⟨truncated_holds ?_,?_⟩
  · rwa [part,abs_signedAs holds]
  rw [truncated_finite magnitude short (by omega)]
  exact (Nat.div_le_self _ _).trans_lt short

lemma ofInt_truncated (small : x.abs < 9.0e15) (part : (integerPart x == x)) : (Float.ofInt (truncatedInt x) == x) := by
  rcases unpack_small small with zero | ⟨sign,m,e,pos,unpacked,short,range⟩
  · rcases zero_cases zero with rfl | rfl <;> decide +kernel
  have holds := (integerPart_iff unpacked short range).mp part
  unfold truncatedInt
  rw [ofInt_of_holds unpacked (truncated_small small).2 holds]
  exact beq_self (finite_number unpacked)

lemma Holds.normal (holds : Holds n (.finite sign m e pos)) : Normal m e ∧ -52 ≤ e := by
  cases holds with
  | scaled _ k normal =>
    have within : k < 53 := by
      refine (Nat.pow_lt_pow_iff_right (by decide : 1 < 2)).mp (lt_of_le_of_lt ?_ normal.short)
      exact Nat.le_mul_of_pos_left _ (Nat.pos_of_mul_pos_right normal.positive)
    exact ⟨normal,by omega⟩

-- A double that equals a whole number is seen as that number.
lemma truncated_of_equal {n : ℤ} (bounded : n.natAbs < 2 ^ 64) (small : x.abs < 9.0e15) (same : (Float.ofInt n == x)) :
    isMultipleOf x 1.0 ∧ (integerPart x == x) ∧ truncatedInt x = n := by
  rcases unpack_small small with zero | ⟨sign,m,e,pos,unpacked,digits,range⟩
  · have none : (Float.ofInt n == 0.0) := by
      rcases eq_or_zero same with rfl | both
      · exact zero
      · exact both.1
    obtain rfl : n = 0 := by
      by_contra other
      rw [ofInt_ne_zero other bounded] at none
      cases none
    rcases zero_cases zero with rfl | rfl <;> decide +kernel
  obtain rfl : Float.ofInt n = x := by
    refine (eq_or_zero same).resolve_right fun both => ?_
    rw [finite_ne_zero unpacked] at both
    cases both.2
  have short := small_of_equal bounded small
  have holds : Holds n.natAbs (Float.ofInt n).abs.toModel.unpack := by
    rw [abs_ofInt]
    exact holds_ofNat short
  have part := (integerPart_iff unpacked digits range).mpr ((truncated_holds holds).symm ▸ holds)
  have whole : integerPart (Float.ofInt n) = Float.ofInt n := by
    refine (eq_or_zero part).resolve_right fun both => ?_
    rw [finite_ne_zero unpacked] at both
    cases both.2
  rw [unpack_abs,unpacked] at holds
  obtain ⟨normal,low⟩ := holds.normal
  refine ⟨isMultipleOf_one unpacked normal (by omega) whole,part,?_⟩
  have size := (truncated_small small).2
  refine ofInt_injective ?_ (by omega) (position_of_beq (ofInt_number _) (ofInt_number n) (ofInt_truncated small part))
  unfold truncatedInt
  split <;> omega
end Doubles
namespace Num
open Doubles Canonical
variable {x y : Float}
lemma number_near (near : isMultipleOf x 1.0) (small : x.abs < 9.0e15) :
    ∃ w : Whole, number (.double x) = .whole w ∧ w.val = truncatedInt x := by
  obtain ⟨part,short⟩ := truncated_small small
  have bounds : -0x8000000000000000 ≤ truncatedInt x ∧ truncatedInt x < 0x10000000000000000 := by
    unfold truncatedInt
    split <;> omega
  have whole : (if x < 0.0 then -((integerPart x).abs.toUInt64.toNat : ℤ) else (integerPart x).abs.toUInt64.toNat) =
      truncatedInt x := by
    unfold truncatedInt
    rw [← part]
    rfl
  have made : ofInt? (truncatedInt x) = some (.whole ⟨_,bounds.1,bounds.2⟩) := by
    unfold ofInt? Whole.ofInt?
    rw [dif_pos bounds.1,dif_pos bounds.2]
    rfl
  refine ⟨⟨_,bounds.1,bounds.2⟩,?_,rfl⟩
  unfold number
  dsimp only
  rw [near,decide_eq_true small,Bool.and_self,if_pos rfl,whole,made]

lemma number_kept (other : (isMultipleOf x 1.0 && decide (x.abs < 9.0e15)) = false) : number (.double x) = .double x := by
  unfold number
  dsimp only
  rw [other,if_neg Bool.false_ne_true]

-- A double close to a whole number, without being one.
def frayed : Num → Bool
  | .whole _ => false
  | .double x => isMultipleOf x 1.0 && x.abs < 9.0e15 && !(integerPart x == x)

-- A double beyond what canonical forms take for whole numbers.
def beyond : Num → Bool
  | .whole _ => false
  | .double x => !decide (x.abs < 9.0e15)
variable {m n : Num}
lemma number_double (x : Float) : (isMultipleOf x 1.0 ∧ x.abs < 9.0e15) ∧
    (∃ w : Whole, number (.double x) = .whole w ∧ w.val = truncatedInt x) ∨
      ¬ (isMultipleOf x 1.0 ∧ x.abs < 9.0e15) ∧ number (.double x) = .double x := by
  by_cases near : isMultipleOf x 1.0 ∧ x.abs < 9.0e15
  · exact .inl ⟨near,number_near near.1 near.2⟩
  refine .inr ⟨near,number_kept ?_⟩
  rwa [Bool.eq_false_iff,ne_eq,Bool.and_eq_true,decide_eq_true_eq]

-- A whole number and a double that equals it.
lemma number_eq_iff (same : (Float.ofInt w.val == x)) : number (.double x) = .whole w ↔ x.abs < 9.0e15 := by
  constructor
  · intro made
    rcases number_double x with ⟨⟨_,small⟩,_⟩ | ⟨_,kept⟩
    · exact small
    rw [kept] at made
    cases made
  · intro small
    obtain ⟨near,_,value⟩ := truncated_of_equal w.magnitude small same
    obtain ⟨v,made,is⟩ := number_near near small
    rw [made,Whole.eq_of_val (is.trans value)]

-- A double that is taken for a whole number.
lemma ofInt_of_number (neat : (double x).frayed = false) (made : number (.double x) = .whole w) : (Float.ofInt w.val == x) := by
  rcases number_double x with ⟨⟨near,small⟩,v,is,value⟩ | ⟨_,kept⟩
  · rw [is] at made
    cases made
    rw [value]
    refine ofInt_truncated small ?_
    simpa [frayed,near,small] using neat
  · rw [kept] at made
    cases made

lemma number_beq (same : (x == y)) : number (.double x) = number (.double y) := by
  rcases eq_or_zero same with rfl | ⟨left,right⟩
  · rfl
  have zero {z} (zero : z == 0.0) : number (.double z) = .whole ⟨0,by decide,by decide⟩ := by
    rcases zero_cases zero with rfl | rfl <;> exact (number_eq_iff (by decide +kernel)).mpr (by decide +kernel)
  rw [zero left,zero right]

lemma equal_of_number (isNumber : IsNumber m.toFloat) (left : m.frayed = false) (right : n.frayed = false)
    (same : number m = number n) : m.equal n := by
  cases m with
  | whole v =>
    cases n with
    | whole w =>
      cases same
      exact beq_self_eq_true _
    | double y => exact ofInt_of_number right same.symm
  | double x =>
    cases n with
    | whole w => exact (beq_comm _ _).trans (ofInt_of_number left same)
    | double y =>
      rcases number_double x with ⟨_,v,is,_⟩ | ⟨_,kept⟩
      · have atL := ofInt_of_number left is
        have atR := ofInt_of_number right (same ▸ is)
        exact beq_trans ((beq_comm _ _).trans atL) atR
      rw [kept] at same
      rcases number_double y with ⟨_,v,is,_⟩ | ⟨_,keptToo⟩
      · rw [is] at same
        cases same
      rw [keptToo] at same
      cases same
      exact beq_self isNumber

lemma number_of_equal (same : m.equal n) : number m = number n ↔ m.isWhole = n.isWhole ∨ m.beyond = false ∧ n.beyond = false := by
  cases m with
  | whole v =>
    cases n with
    | whole w => exact iff_of_true (congrArg whole (Whole.eq_of_val (eq_of_beq same))) (.inl rfl)
    | double y =>
      refine eq_comm.trans ((number_eq_iff same).trans ?_)
      simp [isWhole,beyond,toFloat]
  | double x =>
    cases n with
    | whole w =>
      refine (number_eq_iff ((beq_comm _ _).trans same)).trans ?_
      simp [isWhole,beyond,toFloat]
    | double y => exact iff_of_true (number_beq same) (.inl rfl)
end Num
open SchemaOrder.Num
-- The schema of one number.
def constant (n : Num) : Json := .single "const" (.num n)

lemma compare_constant (m n : Num) :
    compareSchemas (constant m) (constant n) = .eq ↔ Canonical.number m = Canonical.number n := by
  rw [compare_eq_iff]
  change Json.single "const" (.num (Canonical.number m)) = .single "const" (.num (Canonical.number n)) ↔ _
  simp [Json.single]

-- Constants that compare equal are equal numbers unless one of them is frayed. Equal numbers compare equal unless one is
-- a whole number and the other a double beyond those that are taken for whole numbers. Every frayed double compares
-- equal to a whole number that it does not equal.
theorem compare_constants_iff (m n : Num) (number : Doubles.IsNumber m.toFloat) :
    (m.frayed = false → n.frayed = false → compareSchemas (constant m) (constant n) = .eq →
      Json.deepEqual (.num m) (.num n) = true) ∧
    (Json.deepEqual (.num m) (.num n) = true → (compareSchemas (constant m) (constant n) = .eq ↔
      m.isWhole = n.isWhole ∨ m.beyond = false ∧ n.beyond = false)) ∧
    (m.frayed = true → ∃ w : Whole, compareSchemas (constant m) (constant (.whole w)) = .eq ∧
      Json.deepEqual (.num m) (.num (.whole w)) = false) := by
  refine ⟨fun left right same => ?_,fun same => ?_,fun frayed => ?_⟩
  · exact equal_of_number number left right ((compare_constant m n).mp same)
  · exact (compare_constant m n).trans (number_of_equal same)
  · cases m with
    | whole w => cases frayed
    | double x =>
      simp only [Num.frayed,Bool.and_eq_true,decide_eq_true_eq,Bool.not_eq_true'] at frayed
      obtain ⟨⟨near,small⟩,part⟩ := frayed
      obtain ⟨w,made,value⟩ := number_near near small
      refine ⟨w,(compare_constant _ _).mpr made,Bool.eq_false_iff.mpr fun same => ?_⟩
      have whole := (Doubles.truncated_of_equal w.magnitude small ((Doubles.beq_comm _ _).trans same)).2.1
      rw [part] at whole
      cases whole

theorem compare_constants_iff_one : Doubles.IsNumber (Num.whole ⟨1,by decide,by decide⟩).toFloat ∧
    compareSchemas (constant (.whole ⟨1,by decide,by decide⟩)) (constant (.double 1.0)) = .eq := by
  have number : Doubles.IsNumber (Num.whole ⟨1,by decide,by decide⟩).toFloat := Doubles.ofInt_number 1
  exact ⟨number,((compare_constants_iff _ (.double 1.0) number).2.1 (by decide +kernel)).mpr (.inr (by decide +kernel))⟩

-- A whole number and the double of the same value, and a double near a whole number.
theorem compare_tells_spellings_apart :
    compareSchemas (constant (.whole ⟨9000000000000000,by decide,by decide⟩)) (constant (.double 9.0e15)) ≠ .eq ∧
      Json.deepEqual (.num (.whole ⟨9000000000000000,by decide,by decide⟩)) (.num (.double 9.0e15)) = true ∧
    compareSchemas (constant (.double 0.9999999999)) (constant (.whole ⟨0,by decide,by decide⟩)) = .eq ∧
      Json.deepEqual (.num (.double 0.9999999999)) (.num (.whole ⟨0,by decide,by decide⟩)) = false := by
  decide +kernel
end SchemaOrder
