import Mathlib
import SchemaOrder.Number
-- Doubles compare as in a linear order as long as all are numbers, as whole numbers and counts always are.
namespace SchemaOrder.Doubles
open Float.Model Float.Model.UnpackedFloat
-- Sign and class first, then exponent and mantissa; negative values run backwards.
def place : UnpackedFloat → ℤ ×ₗ ℤ ×ₗ ℤ
  | .infinity .positive => toLex (2,toLex (0,0))
  | .infinity .negative => toLex (-2,toLex (0,0))
  | .finite .positive m e _ => toLex (1,toLex (e,(m : ℤ)))
  | .finite .negative m e _ => toLex (-1,toLex (-e,-(m : ℤ)))
  | .zero _ | .notANumber => toLex (0,toLex (0,0))

def IsNumber (x : Float) : Prop := x.toModel.unpack ≠ .notANumber

def position (x : Float) : ℤ ×ₗ ℤ ×ₗ ℤ := place x.toModel.unpack

-- Comparing exponents first and mantissas second is the order of pairs.
lemma pair_lt (e f : ℤ) (m n : ℕ) : (compare e f).then (compare m n) = .lt ↔ e < f ∨ e = f ∧ m < n := by
  rcases lt_trichotomy e f with below | rfl | above
  · simp [compare_lt_iff_lt.mpr below,below]
  · simp [Nat.compare_eq_lt]
  · simp [compare_gt_iff_gt.mpr above,above.ne',above.le]

lemma pair_swap (e f : ℤ) (m n : ℕ) : ((compare e f).then (compare m n)).swap = (compare f e).then (compare n m) := by
  rw [Ordering.swap_then,Int.compare_swap,Nat.compare_swap]

lemma lt_place (left : a ≠ .notANumber) (right : b ≠ .notANumber) : a.lt b ↔ place a < place b := by
  rcases a with (_ | _) | _ | _ | ⟨_ | _,m,e,_⟩ <;> rcases b with (_ | _) | _ | _ | ⟨_ | _,n,f,_⟩
  all_goals first | exact absurd rfl left | exact absurd rfl right | skip
  all_goals dsimp only [UnpackedFloat.lt,UnpackedFloat.compare,place]
  all_goals simp [Prod.Lex.toLex_lt_toLex,pair_lt,pair_swap]
  · rfl
  · rw [@eq_comm _ f e]

-- Of two numbers one is at most the other or lies above it.
lemma le_eq_not_lt {a b : UnpackedFloat} (left : a ≠ .notANumber) (right : b ≠ .notANumber) : a.le b = !b.lt a := by
  rcases a with (_ | _) | _ | _ | ⟨_ | _,m,e,_⟩ <;> rcases b with (_ | _) | _ | _ | ⟨_ | _,n,f,_⟩
  all_goals first | exact absurd rfl left | exact absurd rfl right | rfl | skip
  all_goals dsimp only [UnpackedFloat.le,UnpackedFloat.lt,UnpackedFloat.compare,Option.any_some]
  · rw [← pair_swap e f]
    cases (compare e f).then (compare m n) <;> rfl
  rw [← pair_swap e f]
  cases (compare e f).then (compare m n) <;> rfl

lemma lt_iff (left : IsNumber x) (right : IsNumber y) : x < y ↔ position x < position y := by
  change decide (x.toModel.unpack.lt y.toModel.unpack) ↔ _
  rw [decide_eq_true_iff]
  exact lt_place left right

lemma le_iff {x y : Float} (left : IsNumber x) (right : IsNumber y) : x ≤ y ↔ position x ≤ position y := by
  have same : x ≤ y ↔ ¬ y < x := by
    change decide (x.toModel.unpack.le y.toModel.unpack) ↔ ¬ decide (y.toModel.unpack.lt x.toModel.unpack)
    simp [le_eq_not_lt left right]
  rw [same,lt_iff right left,not_lt]

lemma compare_swap (a b : UnpackedFloat) : b.compare a = (a.compare b).map Ordering.swap := by
  rcases a with (_ | _) | _ | _ | ⟨_ | _,m,e,_⟩ <;> rcases b with (_ | _) | _ | _ | ⟨_ | _,n,f,_⟩
  all_goals first | rfl | skip
  · exact congrArg (some ∘ Ordering.swap) (pair_swap e f m n).symm
  · exact congrArg some (pair_swap e f m n).symm

lemma beq_comm (x y : Float) : (x == y) = (y == x) := by
  change (x.toModel.unpack.compare y.toModel.unpack == some .eq) = (y.toModel.unpack.compare x.toModel.unpack == some .eq)
  rw [compare_swap x.toModel.unpack]
  cases x.toModel.unpack.compare y.toModel.unpack with
  | none => rfl
  | some order => cases order <;> rfl

lemma beq_self (number : IsNumber x) : (x == x) := by
  change (x.toModel.unpack.compare x.toModel.unpack == some .eq)
  unfold IsNumber at number
  generalize x.toModel.unpack = a at number
  rcases a with (_ | _) | _ | _ | ⟨_ | _,m,e,_⟩
  all_goals first | exact absurd rfl number | rfl | skip
  all_goals simp [UnpackedFloat.compare]

-- The two zeros are equal and stand in one place.
lemma position_of_beq (left : IsNumber x) (right : IsNumber y) (same : (x == y)) : position x = position y := by
  have equal : x.toModel.unpack.compare y.toModel.unpack = some .eq := eq_of_beq same
  have notBelow : ¬ position x < position y := by
    refine fun below => absurd ((lt_place left right).mpr below) ?_
    unfold UnpackedFloat.lt
    rw [equal]
    decide
  have notAbove : ¬ position y < position x := by
    refine fun above => absurd ((lt_place right left).mpr above) ?_
    unfold UnpackedFloat.lt
    rw [compare_swap x.toModel.unpack,equal]
    decide
  exact le_antisymm (not_lt.mp notAbove) (not_lt.mp notBelow)

inductive Signed (sign : Sign) : UnpackedFloat → Prop where
  | infinity : Signed sign (.infinity sign)
  | zero : Signed sign (.zero sign)
  | finite (m : Nat) (e : Int) (pos : 0 < m) : Signed sign (.finite sign m e pos)

lemma Signed.number (signed : Signed sign f) : f ≠ .notANumber := by
  rintro rfl
  cases signed

structure Packed (sign : Sign) (bits : BitVec Format.binary64.numBits) : Prop where
  sign : unpackSign bits = sign.toBitVec
  top : unpackExponent bits = -1#_ → unpackMantissa bits = 0#_

lemma packed_pack (signed : Signed sign f) : Packed sign (pack Format.binary64 f) := by
  cases signed with
  | infinity | zero => exact ⟨unpackSign_packComponents ..,fun _ => unpackMantissa_packComponents⟩
  | finite m e pos =>
    unfold UnpackedFloat.pack
    dsimp only
    split
    · exact ⟨unpackSign_packComponents ..,fun _ => unpackMantissa_packComponents⟩
    next small =>
    split
    · refine ⟨unpackSign_packComponents ..,fun top => ?_⟩
      rw [unpackExponent_packComponents] at top
      have exponents := congrArg BitVec.toNat top
      change (e + 1023 + 52).toNat % 2048 = 2047 at exponents
      change ¬ 2048 ≤ (e + 1023 + 52).toNat + 1 at small
      omega
    · refine ⟨unpackSign_packComponents ..,fun top => ?_⟩
      rw [unpackExponent_packComponents] at top
      cases congrArg BitVec.toNat top

lemma signed_unpack (signed : Signed sign f) : Signed sign (Float.Model.pack f).unpack := by
  change Signed sign (unpack Format.binary64 (pack Format.binary64 f))
  obtain ⟨bits,top⟩ := packed_pack signed
  unfold UnpackedFloat.unpack
  dsimp only
  rw [bits,Sign.ofBitVec_toBitVec]
  split
  · next special =>
    rw [if_pos (top special)]
    exact .infinity
  split
  · split
    · exact .zero
    · exact .finite _ _ _
  · exact .finite _ _ _

lemma signed_round (spec : Format) (sign : Sign) (m : Nat) (e : Int) (accuracy : Accuracy) :
    Signed sign (roundWithAccuracy spec sign m e accuracy) := by
  unfold roundWithAccuracy
  dsimp only
  split
  · exact .zero
  · exact .finite _ _ _

-- A number times a finite one is a number.
lemma signed_mul (signed : Signed sign f) (factor : Sign) (m : Nat)
    (e : Int) (pos : 0 < m) : Signed (sign * factor) (mul spec f (.finite factor m e pos)) := by
  cases signed with
  | infinity => exact .infinity
  | zero => exact .zero
  | finite => exact signed_round _ _ _ _ _

lemma signed_ofNat (spec : Format) (n : Nat) : Signed .positive (UnpackedFloat.ofInt spec n) := by
  unfold UnpackedFloat.ofInt UnpackedFloat.normalize
  split
  · next negative => rw [Int.compare_eq_lt] at negative; omega
  · exact .zero
  · exact signed_round _ _ _ _ _

lemma one_finite : ∃ pos, (Float.ofBits 0x3FF0000000000000).toModel.unpack =
    .finite .positive 4503599627370496 (-52) pos :=
  ⟨by decide,by rfl⟩

lemma ofNat_signed (n : Nat) : Signed .positive (Float.ofNat n).toModel.unpack := by
  change Signed .positive (Float.ofScientific n false 0).toModel.unpack
  unfold Float.ofScientific
  split
  · change Signed .positive (Float.Model.pack (mul Format.binary64
      (Float.Model.pack (ofInt Format.binary64 n.toUInt64.toNat)).unpack
      (Float.ofBits 0x3FF0000000000000).toModel.unpack)).unpack
    exact signed_unpack (signed_mul (signed_unpack (signed_ofNat _ _)) .positive _ _ _)
  apply signed_unpack
  change Signed .positive (ofScientific Format.binary64 n 0)
  unfold UnpackedFloat.ofScientific
  split
  · exact .zero
  have small : ¬ (0 : Int) < -((2 ^ 11 : Int) + (n.log2 : Int)) := by omega
  rw [if_neg (by decide),if_neg small,if_pos (by decide)]
  exact signed_mul (show Signed .positive _ from .finite _ _ _) .positive _ _ _

lemma ofNat_number (n : Nat) : IsNumber (Float.ofNat n) := (ofNat_signed n).number

lemma ofInt_number (n : Int) : IsNumber (Float.ofInt n) := by
  cases n with
  | ofNat n => exact ofNat_number n
  | negSucc n =>
    have opposite {f : UnpackedFloat} (signed : Signed .positive f) : Signed .negative (UnpackedFloat.neg f) := by
      cases signed with
      | infinity => exact .infinity
      | zero => exact .zero
      | finite => exact .finite _ _ _
    exact (signed_unpack (opposite (ofNat_signed n.succ))).number

lemma zero_model : (0.0 : Float).toModel.unpack = .zero .positive := by rfl

-- Nothing compares with the value that is no number.
lemma number_of_le (atMost : x ≤ y) : IsNumber x := by
  intro none
  have compared : x.toModel.unpack.le y.toModel.unpack := of_decide_eq_true atMost
  rw [none] at compared
  cases compared

-- A count is not below zero.
lemma admits_count (atMost : x ≤ 0.0) (n : Nat) : x ≤ Float.ofNat n := by
  have number : IsNumber x := number_of_le atMost
  have zero : IsNumber 0.0 := by rintro ⟨⟩
  have count : position 0.0 ≤ position (Float.ofNat n) := by
    have signed := ofNat_signed n
    unfold position
    rw [zero_model]
    generalize (Float.ofNat n).toModel.unpack = f at signed
    cases signed <;> simp [place,Prod.Lex.toLex_le_toLex]
  rw [le_iff number zero] at atMost
  rw [le_iff number (ofNat_number n)]
  exact le_trans atMost count
end SchemaOrder.Doubles
