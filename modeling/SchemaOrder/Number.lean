
namespace SchemaOrder
-- A literal without fraction and exponent that fits a 64-bit word is kept as a whole number, every other one as a
-- double. So `1` and `1.0` stay apart in documents while `Num.equal` identifies them.
structure Whole where
  val : Int
  low : -0x8000000000000000 ≤ val
  high : val < 0x10000000000000000
namespace Whole
def ofInt? (n : Int) : Option Whole :=
  if low : -0x8000000000000000 ≤ n then
    if high : n < 0x10000000000000000 then some ⟨n,low,high⟩ else none
  else none

def ofNat? (n : Nat) : Option Whole :=
  ofInt? n

theorem ofInt?_val {n : Int} {w : Whole} (made : ofInt? n = some w) : w.val = n := by
  unfold ofInt? at made
  split at made
  · split at made
    · cases made; rfl
    · cases made
  · cases made
end Whole
instance : DecidableEq Whole := fun a b =>
  if same : a.val = b.val then
    isTrue (by cases a; cases b; cases same; rfl)
  else isFalse (fun eq => same (by rw [eq]))

inductive Num where
  | whole (n : Whole)
  | double (x : Float)

-- The integer part, toward zero. From `2 ^ 52` on a double has no fraction.
def integerPart (x : Float) : Float :=
  if x.abs < 4503599627370496.0 then
    let whole := x.abs.toUInt64.toFloat
    if x < 0.0 then -whole else whole
  else x

def nearestInteger (x : Float) : Float :=
  let base := integerPart x
  if (x - base).abs < 0.5 then base
  else if x < 0.0 then base - 1.0 else base + 1.0
namespace Num
def ofInt? (n : Int) : Option Num :=
  (Whole.ofInt? n).map .whole

def toFloat : Num → Float
  | .whole n => .ofInt n.val
  | .double x => x

def unsigned? : Num → Option Nat
  | .whole n => if 0 ≤ n.val then some n.val.toNat else none
  | .double _ => none

def isWhole : Num → Bool
  | .whole _ => true
  | .double _ => false

def equal : Num → Num → Bool
  | .whole a,.whole b => a.val == b.val
  | x,y => x.toFloat == y.toFloat

def isIntegral : Num → Bool
  | .whole _ => true
  | .double x => x.isFinite && (x - integerPart x).abs < 2.220446049250313e-16
end Num
-- `value` is a whole multiple of `divisor` up to floating noise. A divisor that is not positive divides nothing.
def isMultipleOf (value divisor : Float) : Bool :=
  if divisor ≤ 0.0 then false
  else
    let ratio := value / divisor
    ratio.isFinite && (ratio - nearestInteger ratio).abs < 1e-9
end SchemaOrder
