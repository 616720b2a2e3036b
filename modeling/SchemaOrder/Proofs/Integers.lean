import SchemaOrder.Canonical
import SchemaOrder.Proofs.Doubles
-- Integers: whole numbers, and the doubles that stand for whole values beyond their range, known by their bits.
namespace SchemaOrder
namespace Doubles
open Float.Model Float.Model.UnpackedFloat
-- Exponent and fraction of a double as its bits hold them.
def biased (x : Float) : Nat := x.toBits.toNat / 0x10000000000000 % 2048

def fraction (x : Float) : Nat := x.toBits.toNat % 0x10000000000000

-- Finite and at least `2 ^ 63` in magnitude, as the doubles are that stand for whole numbers out of range.
def isLarge (x : Float) : Bool := 1086 ≤ biased x && biased x < 2047
variable {x y : Float}
lemma isLarge_iff : isLarge x ↔ 1086 ≤ biased x ∧ biased x < 2047 := by
  simp [isLarge]

lemma toNat_unpackExponent (x : Float) : (@unpackExponent Format.binary64 x.toBits.toBitVec).toNat = biased x := by
  unfold unpackExponent biased
  rw [BitVec.toNat_cast,BitVec.extractLsb_toNat,Nat.shiftRight_eq_div_pow]
  rfl

lemma toNat_unpackMantissa (x : Float) : (@unpackMantissa Format.binary64 x.toBits.toBitVec).toNat = fraction x := by
  rfl

def signOf (x : Float) : Sign := if x.toBits.toNat < 0x8000000000000000 then .positive else .negative

lemma unpackSign_eq (x : Float) : Sign.ofBitVec (@unpackSign Format.binary64 x.toBits.toBitVec) = signOf x := by
  have bounded : x.toBits.toNat < 2 ^ 64 := x.toBits.toBitVec.isLt
  have top : (@unpackSign Format.binary64 x.toBits.toBitVec).toNat = x.toBits.toNat / 0x8000000000000000 := by
    unfold unpackSign
    rw [BitVec.toNat_cast,BitVec.extractLsb_toNat,Nat.shiftRight_eq_div_pow]
    apply Nat.mod_eq_of_lt
    change x.toBits.toNat / 0x8000000000000000 < 2
    omega
  unfold Sign.ofBitVec signOf
  congr 1
  rw [BitVec.toNat_eq,top,eq_iff_iff]
  change x.toBits.toNat / 0x8000000000000000 = 0 ↔ _
  omega

lemma toNat_one_append (m : BitVec 52) : (1#1 ++ m).toNat = 0x10000000000000 + m.toNat := by
  rw [BitVec.toNat_append,← Nat.shiftLeft_add_eq_or_of_lt m.isLt]
  rfl

lemma unpack_large (large : isLarge x) : ∃ pos,
    x.toModel.unpack = .finite (signOf x) (0x10000000000000 + fraction x) (biased x - 1075) pos := by
  obtain ⟨low,high⟩ := isLarge_iff.mp large
  refine ⟨by omega,?_⟩
  change unpack Format.binary64 x.toBits.toBitVec = _
  have exponent := toNat_unpackExponent x
  have notTop : @unpackExponent Format.binary64 x.toBits.toBitVec ≠ -1#_ := by
    intro same
    rw [same] at exponent
    change 2047 = biased x at exponent
    omega
  have notBottom : @unpackExponent Format.binary64 x.toBits.toBitVec ≠ 0#_ := by
    intro same
    rw [same] at exponent
    change 0 = biased x at exponent
    omega
  unfold UnpackedFloat.unpack
  rw [if_neg notTop,if_neg notBottom]
  congr 1
  · exact unpackSign_eq x
  · exact (toNat_one_append _).trans (congrArg _ (toNat_unpackMantissa x))
  rw [exponent]
  rfl

lemma large_number (large : isLarge x) : IsNumber x := by
  obtain ⟨pos,unpacked⟩ := unpack_large large
  unfold IsNumber
  rw [unpacked]
  nofun

def withSign (sign : Sign) : UnpackedFloat → UnpackedFloat
  | .notANumber => .notANumber
  | .infinity _ => .infinity sign
  | .zero _ => .zero sign
  | .finite _ m e pos => .finite sign m e pos

-- Another sign leaves exponent and fraction as they are.
lemma unpack_signed (spec : Format) (b : BitVec spec.numBits) (sign : Sign) :
    unpack spec (packComponents spec sign (unpackExponent b) (unpackMantissa b)) = withSign sign (unpack spec b) := by
  unfold UnpackedFloat.unpack
  simp only [unpackMantissa_packComponents,unpackExponent_packComponents,unpackSign_packComponents,Sign.ofBitVec_toBitVec]
  split_ifs <;> rfl

lemma unpack_repacked (b : BitVec Format.binary64.numBits) :
    (Float.Model.pack (unpack Format.binary64 b)).unpack = unpack Format.binary64 b := by
  change unpack Format.binary64 (pack Format.binary64 (unpack Format.binary64 b)) = _
  rw [pack_unpack]
  split
  · next none =>
    rw [unpack_packedNaN]
    obtain ⟨top,fraction⟩ := of_decide_eq_true none
    unfold UnpackedFloat.unpack
    simp only [if_pos top,if_neg fraction]
  · rfl

lemma unpack_withSign (x : Float) (sign : Sign) :
    (Float.Model.pack (withSign sign x.toModel.unpack)).unpack = withSign sign x.toModel.unpack := by
  have signed := unpack_signed Format.binary64 x.toModel.toBits.toBitVec sign
  change (Float.Model.pack (withSign sign (UnpackedFloat.unpack Format.binary64 _))).unpack =
    withSign sign (UnpackedFloat.unpack Format.binary64 _)
  rw [← signed]
  exact unpack_repacked _

lemma unpack_abs (x : Float) : x.abs.toModel.unpack = withSign .positive x.toModel.unpack := by
  have shape : x.toModel.unpack.abs = withSign .positive x.toModel.unpack := by cases x.toModel.unpack <;> rfl
  change (Float.Model.pack x.toModel.unpack.abs).unpack = _
  rw [shape,unpack_withSign]

lemma bits_abs (x : Float) : x.abs.toBits.toBitVec =
    packComponents Format.binary64 .positive (unpackExponent x.toBits.toBitVec) (unpackMantissa x.toBits.toBitVec) := by
  change pack Format.binary64 x.toModel.unpack.abs = _
  refine (congrArg _ (unpack_signed Format.binary64 x.toBits.toBitVec .positive).symm).trans ?_
  rw [pack_unpack]
  split
  · next none =>
    obtain ⟨top,rest⟩ := of_decide_eq_true none
    rw [unpackExponent_packComponents] at top
    rw [unpackMantissa_packComponents] at rest
    have only : x.toBits.toBitVec = packedNaN Format.binary64 := x.toModel.valid.eq_packedNaN top rest
    rw [only]
    unfold packedNaN
    rw [unpackExponent_packComponents,unpackMantissa_packComponents]
  · rfl

-- The magnitude keeps all bits but the sign.
lemma abs_parts (x : Float) : biased x.abs = biased x ∧ fraction x.abs = fraction x ∧ signOf x.abs = .positive := by
  rw [← toNat_unpackExponent,← toNat_unpackMantissa,← unpackSign_eq,bits_abs,unpackExponent_packComponents,
    unpackMantissa_packComponents,unpackSign_packComponents,toNat_unpackExponent]
  exact ⟨rfl,rfl,rfl⟩

lemma isLarge_abs (large : isLarge x) : isLarge x.abs := by
  rwa [isLarge_iff,(abs_parts x).1,← isLarge_iff]

lemma beq_zero_iff (x : Float) : (x == 0.0) ↔ biased x = 0 ∧ fraction x = 0 := by
  change (UnpackedFloat.unpack Format.binary64 x.toBits.toBitVec).beq (0.0 : Float).toModel.unpack ↔ _
  rw [zero_model,← toNat_unpackExponent]
  unfold UnpackedFloat.unpack
  dsimp only
  split
  · next top =>
    rw [top]
    refine iff_of_false ?_ fun zero => absurd zero.1 (by decide)
    split
    · cases Sign.ofBitVec (@unpackSign Format.binary64 x.toBits.toBitVec) <;> decide
    · decide
  split
  · next bottom =>
    rw [bottom]
    split
    · next none => exact iff_of_true rfl ⟨rfl,congrArg BitVec.toNat none⟩
    next some =>
    refine iff_of_false ?_ fun zero => some (BitVec.eq_of_toNat_eq zero.2)
    cases Sign.ofBitVec (@unpackSign Format.binary64 x.toBits.toBitVec) <;> nofun
  · next bottom =>
    refine iff_of_false ?_ fun zero => bottom (BitVec.eq_of_toNat_eq zero.1)
    cases Sign.ofBitVec (@unpackSign Format.binary64 x.toBits.toBitVec) <;> nofun

-- A double is its sign, its exponent and its fraction.
lemma eq_of_bits (sign : signOf x = signOf y) (exponent : biased x = biased y) (rest : fraction x = fraction y) : x = y := by
  have bits : x.toBits.toNat = y.toBits.toNat := by
    have boundedX : x.toBits.toNat < 2 ^ 64 := x.toBits.toBitVec.isLt
    have boundedY : y.toBits.toNat < 2 ^ 64 := y.toBits.toBitVec.isLt
    unfold signOf at sign
    unfold biased at exponent
    unfold fraction at rest
    split at sign <;> split at sign
    · omega
    · cases sign
    · cases sign
    · omega
  obtain ⟨⟨b,v⟩⟩ := x
  obtain ⟨⟨c,w⟩⟩ := y
  have same : b = c := UInt64.toNat_inj.mp bits
  subst same
  rfl

lemma bound_model : ∃ pos, (9.0e15 : Float).toModel.unpack = .finite .positive 9000000000000000 0 pos :=
  ⟨by decide,by rfl⟩

-- Large doubles lie above all that whole numbers are made of.
lemma abs_not_small (large : isLarge x) : ¬ x.abs < 9.0e15 := by
  obtain ⟨low,high⟩ := isLarge_iff.mp large
  obtain ⟨exponent,rest,sign⟩ := abs_parts x
  have absLarge := isLarge_abs large
  obtain ⟨_,unpacked⟩ := unpack_large absLarge
  obtain ⟨_,bound⟩ := bound_model
  have number : IsNumber 9.0e15 := by unfold IsNumber; rw [bound]; nofun
  rw [lt_iff (large_number absLarge) number]
  unfold position
  rw [unpacked,bound,sign]
  simp only [place,Prod.Lex.toLex_lt_toLex]
  omega
end Doubles
lemma Whole.magnitude (n : Whole) : n.val.natAbs < 2 ^ 64 := by
  have := n.low
  have := n.high
  omega

lemma Whole.eq_of_val {l r : Whole} (same : l.val = r.val) : l = r := by
  cases l
  cases same
  rfl
namespace Num
-- A literal of a whole value is an integer, whichever of the two it becomes.
def isInteger : Num → Bool
  | .whole _ => true
  | .double x => Doubles.isLarge x
variable {n : Num}
lemma integer_of_whole (whole : n.isWhole) : n.isInteger := by
  cases n with
  | whole => rfl
  | double => cases whole

lemma integer_number (integer : n.isInteger) : Doubles.IsNumber n.toFloat := by
  cases n with
  | whole n => exact Doubles.ofInt_number n.val
  | double x => exact Doubles.large_number integer

lemma canonical_integer (integer : n.isInteger) : Canonical.number n = n := by
  cases n with
  | whole => rfl
  | double x =>
    unfold Canonical.number
    dsimp only
    rw [decide_eq_false (Doubles.abs_not_small integer),Bool.and_false,if_neg Bool.false_ne_true]
end Num
end SchemaOrder
