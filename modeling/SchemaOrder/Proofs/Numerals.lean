import SchemaOrder.Proofs.Decimals
import SchemaOrder.Proofs.Integers
namespace SchemaOrder
open List Bool
namespace Numeral
open Shortest Doubles
variable {ds fs front tail body : List Char} {a b m : Nat} {x y : Float}
-- The text of a number determines it. The text of a double has a point or an exponent, and the decimal it stands for
-- rounds to that double and to no other.
lemma digits_all (m : Nat) : ∀ c ∈ Nat.toDigits 10 m, c.isDigit := fun _ mem =>
  Nat.isDigit_of_mem_toDigits (by decide) (by decide) mem

lemma digits_front (m : Nat) : ∃ front rest, Nat.toDigits 10 m = front :: rest ∧ front.isDigit := by
  cases digits : Nat.toDigits 10 m with
  | nil => exact absurd digits Nat.toDigits_ne_nil
  | cons c rest => exact ⟨c,rest,rfl,digits_all m c (digits ▸ .head _)⟩

def isNumeral (c : Char) : Bool :=
  c.isDigit || ['-','.','e','+'].contains c

lemma isNumeral_digit (digit : c.isDigit) : isNumeral c := by
  unfold isNumeral
  rw [digit,Bool.true_or]

-- A sign, and what begins with a digit.
def signed (negative : Bool) (body : List Char) : List Char :=
  if negative then '-' :: body else body

lemma signed_cancel (left : ∃ front rest, body = front :: rest ∧ front.isDigit)
    (right : ∃ front rest, tail = front :: rest ∧ front.isDigit) (same : signed p body = signed q tail) : p = q ∧ body = tail := by
  obtain ⟨c,s,rfl,left⟩ := left
  obtain ⟨d,t,rfl,right⟩ := right
  cases p <;> cases q
  · exact ⟨rfl,same⟩
  · rw [(cons.inj same).1] at left
    cases left
  · rw [← (cons.inj same).1] at right
    cases right
  · exact ⟨rfl,(cons.inj same).2⟩

lemma signed_front (opens : ∃ front rest, body = front :: rest ∧ front.isDigit) :
    ∃ front rest, signed negative body = front :: rest ∧ (front = '-' ∨ front.isDigit) := by
  obtain ⟨front,rest,rfl,digit⟩ := opens
  cases negative
  · exact ⟨front,rest,rfl,.inr digit⟩
  · exact ⟨'-',_,rfl,.inl rfl⟩

lemma signed_numeral (numeral : ∀ c ∈ body, isNumeral c) : ∀ c ∈ signed negative body, isNumeral c := by
  cases negative
  · exact numeral
  · exact forall_mem_cons.mpr ⟨by decide,numeral⟩

lemma wholeText_eq (n : Int) : wholeText n = signed (n < 0) (Nat.toDigits 10 n.natAbs) := by
  unfold wholeText signed
  by_cases negative : n < 0 <;> simp [negative]

def power : List Char → ℤ
  | 'e' :: '-' :: ds => -(Nat.ofDigitChars 10 ds 0 : ℤ)
  | 'e' :: '+' :: ds => Nat.ofDigitChars 10 ds 0
  | _ => 0

-- What a decimal stands for: digits, a point that shifts them, and a power of ten.
def reading (body : List Char) : ℚ :=
  let front := body.takeWhile (· != 'e')
  let places := ((front.dropWhile (· != '.')).drop 1).length
  Nat.ofDigitChars 10 (front.filter Char.isDigit) 0 * 10 ^ (power (body.dropWhile (· != 'e')) - places)

lemma digit_ne (digits : ∀ c ∈ ds, c.isDigit) (other : mark.isDigit = false) : ∀ c ∈ ds, (c != mark) := by
  intro c mem
  rw [bne_iff_ne]
  rintro rfl
  exact absurd (digits _ mem) (by simp [other])

-- The exponent begins where the digits and the point end.
lemma reading_split (within : ∀ c ∈ front, (c != 'e')) (mark : tail.takeWhile (· != 'e') = []) :
    reading (front ++ tail) = Nat.ofDigitChars 10 (front.filter Char.isDigit) 0 *
      10 ^ (power tail - ((front.dropWhile (· != '.')).drop 1).length) := by
  have rest : tail.dropWhile (· != 'e') = tail := by
    have whole := takeWhile_append_dropWhile (p := (· != 'e')) (l := tail)
    rwa [mark] at whole
  unfold reading
  rw [takeWhile_append_of_pos within,dropWhile_append_of_pos within,mark,rest,append_nil]

lemma reading_pointed (left : ∀ c ∈ ds, c.isDigit) (right : ∀ c ∈ fs, c.isDigit) (mark : tail.takeWhile (· != 'e') = []) :
    reading (ds ++ '.' :: fs ++ tail) = Nat.ofDigitChars 10 (ds ++ fs) 0 * 10 ^ (power tail - fs.length) := by
  have within : ∀ c ∈ ds ++ '.' :: fs, (c != 'e') := forall_mem_append.mpr
    ⟨digit_ne left (by decide),forall_mem_cons.mpr ⟨by decide,digit_ne right (by decide)⟩⟩
  have digits : (ds ++ '.' :: fs).filter Char.isDigit = ds ++ fs := by
    rw [filter_append,filter_cons_of_neg (by decide),filter_eq_self.mpr left,filter_eq_self.mpr right]
  have places : ((ds ++ '.' :: fs).dropWhile (· != '.')).drop 1 = fs := by
    rw [dropWhile_append_of_pos (digit_ne left (by decide))]
    rfl
  rw [reading_split within mark,digits,places]

lemma zeros_all (count : Nat) : ∀ c ∈ replicate count '0', c.isDigit := by
  intro c mem
  rw [eq_of_mem_replicate mem]
  decide

-- Digits before which zeros stand, digits around the point, and digits behind which zeros stand.
lemma reading_below (digits : ∀ c ∈ ds, c.isDigit) (count : Nat) :
    reading ('0' :: '.' :: (replicate count '0' ++ ds)) = Nat.ofDigitChars 10 ds 0 * 10 ^ (-(count + ds.length : ℤ)) := by
  have read : reading (['0'] ++ '.' :: (replicate count '0' ++ ds) ++ []) = _ :=
    reading_pointed (all_eq_true.mp (by decide)) (forall_mem_append.mpr ⟨zeros_all count,digits⟩) rfl
  rw [append_nil] at read
  refine read.trans ?_
  rw [singleton_append,Nat.ofDigitChars_cons,Nat.ofDigitChars_append]
  simp [power]

lemma reading_around (digits : ∀ c ∈ ds, c.isDigit) (lead : Nat) :
    reading (ds.take lead ++ replicate (lead - ds.length) '0' ++ '.' :: (if (ds.drop lead).isEmpty then ['0'] else ds.drop lead)) =
      Nat.ofDigitChars 10 ds 0 * 10 ^ ((lead : ℤ) - ds.length) := by
  have left : ∀ c ∈ ds.take lead ++ replicate (lead - ds.length) '0', c.isDigit :=
    forall_mem_append.mpr ⟨fun c mem => digits c (mem_of_mem_take mem),zeros_all _⟩
  split
  · next none =>
    have short : ds.length ≤ lead := drop_eq_nil_iff.mp (isEmpty_iff.mp none)
    have read : reading (_ ++ '.' :: ['0'] ++ []) = _ := reading_pointed left (all_eq_true.mp (by decide)) rfl
    rw [append_nil] at read
    refine read.trans ?_
    rw [take_of_length_le short,Nat.ofDigitChars_append,Nat.ofDigitChars_append,show lead - ds.length = ((lead - ds.length : ℕ) : ℤ) by omega]
    simp [power,Nat.ofDigitChars_cons]
    ring
  · next some =>
    have long : lead < ds.length := by simpa using some
    have read : reading (_ ++ '.' :: ds.drop lead ++ []) = _ :=
      reading_pointed left (fun c mem => digits c (mem_of_mem_drop mem)) rfl
    rw [append_nil] at read
    refine read.trans ?_
    rw [show lead - ds.length = 0 by omega,replicate_zero,append_nil,take_append_drop,length_drop,
      show power [] - ((ds.length - lead : ℕ) : ℤ) = lead - ds.length by simp only [power]; omega]

lemma power_mark (exponent : ℤ) :
    power ((if exponent < 0 then ['e','-'] else ['e','+']) ++ Nat.toDigits 10 exponent.natAbs) = exponent := by
  split
  · change -((Nat.ofDigitChars 10 (Nat.toDigits 10 exponent.natAbs) 0 : ℕ) : ℤ) = exponent
    rw [Nat.ofDigitChars_ten_toDigits]
    omega
  change ((Nat.ofDigitChars 10 (Nat.toDigits 10 exponent.natAbs) 0 : ℕ) : ℤ) = exponent
  rw [Nat.ofDigitChars_ten_toDigits]
  omega

-- However the digits are laid out, they stand for the same number.
lemma reading_layDecimal (layout : DecimalLayout) (m : Nat) (exponent : ℤ) :
    reading (layDecimal layout (Nat.toDigits 10 m) exponent) = m * 10 ^ (exponent + 1 - (Nat.toDigits 10 m).length) := by
  have digits := digits_all m
  have value : Nat.ofDigitChars 10 (Nat.toDigits 10 m) 0 = m := Nat.ofDigitChars_ten_toDigits
  obtain ⟨d,rest,written,_⟩ := digits_front m
  unfold layDecimal
  split
  · split
    · rw [reading_below digits]
      congr 2
      omega
    rw [reading_around digits]
    congr 2
    omega
  dsimp only
  generalize marked : (if exponent < 0 then ['e','-'] else ['e','+']) ++ Nat.toDigits 10 exponent.natAbs = tail
  have scale : power tail = exponent := marked ▸ power_mark exponent
  have mark : tail.takeWhile (· != 'e') = [] := by
    rw [← marked]
    split <;> rfl
  rw [written] at digits value ⊢
  cases rest with
  | nil =>
    have read : reading ([d] ++ tail) = _ := reading_split (digit_ne digits (by decide)) mark
    rw [filter_eq_self.mpr digits,dropWhile_eq_nil_iff.mpr (digit_ne digits (by decide)),value,scale] at read
    refine read.trans ?_
    simp
  | cons c rest =>
    obtain ⟨first,others⟩ := forall_mem_cons.mp digits
    have read : reading ([d] ++ '.' :: (c :: rest) ++ tail) = _ := reading_pointed (forall_mem_singleton.mpr first) others mark
    refine read.trans ?_
    congr 2
    simp only [length_cons]
    omega

lemma layDecimal_front (digit : d.isDigit) (layout : DecimalLayout) (rest : List Char) (exponent : Int) :
    ∃ front tail, layDecimal layout (d :: rest) exponent = front :: tail ∧ front.isDigit := by
  unfold layDecimal
  split
  · split
    · exact ⟨'0',_,rfl,by decide⟩
    · exact ⟨d,_,rfl,digit⟩
  · cases rest with
    | nil | cons => exact ⟨d,_,rfl,digit⟩

lemma layDecimal_numeral (digits : ∀ c ∈ ds, c.isDigit) (layout : DecimalLayout) (exponent : Int) :
    ∀ c ∈ layDecimal layout ds exponent, isNumeral c := by
  have numeral c mem : isNumeral c := isNumeral_digit (digits c mem)
  have zeros count c (mem : c ∈ replicate count '0') : isNumeral c := by
    rw [eq_of_mem_replicate mem]
    decide
  have power : ∀ c ∈ (if exponent < 0 then ['e','-'] else ['e','+']) ++ Nat.toDigits 10 exponent.natAbs, isNumeral c := by
    refine forall_mem_append.mpr ⟨?_,fun c mem => isNumeral_digit (digits_all _ c mem)⟩
    split <;> exact all_eq_true.mp (by decide)
  unfold layDecimal
  split
  · split
    · simp only [forall_mem_cons,forall_mem_append]
      exact ⟨by decide,by decide,zeros _,numeral⟩
    simp only [forall_mem_cons,forall_mem_append]
    refine ⟨⟨fun c mem => numeral c (mem_of_mem_take mem),zeros _⟩,by decide,?_⟩
    split
    · exact all_eq_true.mp (by decide)
    · exact fun c mem => numeral c (mem_of_mem_drop mem)
  · rcases ds with _ | ⟨d,_ | ⟨c,rest⟩⟩
    · exact power
    · exact forall_mem_cons.mpr ⟨numeral d mem_cons_self,power⟩
    obtain ⟨first,others⟩ := forall_mem_cons.mp numeral
    refine forall_mem_cons.mpr ⟨first,forall_mem_cons.mpr ⟨by decide,?_⟩⟩
    exact forall_mem_append.mpr ⟨others,power⟩


-- Whole numbers have digits only.
lemma layDecimal_marked (front : ds = d :: rest) (layout : DecimalLayout) (exponent : ℤ) :
    ∃ c ∈ layDecimal layout ds exponent, c.isDigit = false := by
  have mark digits : 'e' ∈ (if exponent < 0 then ['e','-'] else ['e','+']) ++ digits := by
    split <;> exact .head _
  unfold layDecimal
  split
  · split
    · exact ⟨'.',.tail _ mem_cons_self,by decide⟩
    · exact ⟨'.',mem_append_right _ mem_cons_self,by decide⟩
  refine ⟨'e',?_,by decide⟩
  subst front
  cases rest with
  | nil => exact .tail _ (mark _)
  | cons => exact .tail _ (.tail _ (mem_append_right _ (mark _)))

lemma parts_eq (x : Float) : parts x =
    if biased x = 0 then ⟨fraction x,-1074,false⟩ else ⟨fraction x + 0x10000000000000,(biased x : Int) - 1075,fraction x = 0 && biased x > 1⟩ := rfl

lemma abs_ne_zero (nonzero : (x == 0.0) = false) : (x.abs == 0.0) = false := by
  obtain ⟨exponent,rest,_⟩ := abs_parts x
  rwa [eq_false_iff,ne_eq,beq_zero_iff,exponent,rest,← beq_zero_iff,← ne_eq,← eq_false_iff]

lemma parts_valid (nonzero : (x == 0.0) = false) : (parts x).Valid := by
  have some : ¬ (biased x = 0 ∧ fraction x = 0) := by rw [← beq_zero_iff,nonzero]; decide
  have below : fraction x < 0x10000000000000 := Nat.mod_lt _ (by decide)
  rw [parts_eq]
  split
  · exact ⟨by dsimp only; omega,by dsimp only; omega,le_refl _,fun _ => rfl,by simp⟩
  refine ⟨by dsimp only; omega,by dsimp only; omega,by dsimp only; omega,fun _ => by dsimp only at *; omega,?_⟩
  simp only [and_eq_true,decide_eq_true_eq]
  omega

lemma parts_injective (mantissa : (parts x).mantissa = (parts y).mantissa) (exponent : (parts x).exponent = (parts y).exponent) :
    biased x = biased y ∧ fraction x = fraction y := by
  have shape z : fraction z < 0x10000000000000 ∧ (biased z = 0 ∧ (parts z).mantissa = fraction z ∨ (parts z).mantissa =
      fraction z + 0x10000000000000 ∧ (parts z).exponent = biased z - 1075) := by
    refine ⟨Nat.mod_lt _ (by decide),?_⟩
    rw [parts_eq]
    split
    · next short => exact .inl ⟨short,rfl⟩
    · exact .inr ⟨rfl,rfl⟩
  have left := shape x
  have right := shape y
  omega

structure Body (x : Float) (body : List Char) : Prop where
  front : ∃ front rest, body = front :: rest ∧ front.isDigit
  numeral : ∀ c ∈ body, isNumeral c
  marked : ∃ c ∈ body, c.isDigit = false
  zero : (x == 0.0) → reading body = 0
  rounds : (x == 0.0) = false → 0 < reading body ∧ Rounds (parts x.abs) (reading body)

lemma doubleText_eq (x : Float) : ∃ body, doubleText x = signed (!decide (x.toBits.toNat < 0x8000000000000000)) body ∧ Body x body := by
  have sign : ∀ body, (if x.toBits.toNat < 0x8000000000000000 then [] else ['-']) ++ body = signed (!decide (x.toBits.toNat < 0x8000000000000000)) body := by
    by_cases pos : x.toBits.toNat < 0x8000000000000000 <;> simp [pos,signed]
  unfold doubleText
  dsimp only
  split
  · next zero =>
    refine ⟨_,sign _,⟨'0',_,rfl,by decide⟩,all_eq_true.mp (by decide),⟨'.',by decide,by decide⟩,fun _ => ?_,?_⟩
    · have read : reading (['0'] ++ '.' :: ['0'] ++ []) = _ :=
        reading_pointed (all_eq_true.mp (by decide)) (all_eq_true.mp (by decide)) rfl
      exact read.trans (by simp [Nat.ofDigitChars_cons])
    · rw [zero]
      nofun
  next nonzero =>
  rw [not_eq_true] at nonzero
  obtain ⟨n,k,found,pos,rounds⟩ := decimal_spec (parts_valid (abs_ne_zero nonzero))
  obtain ⟨m,j,trimmed,some,same⟩ := trim_spec 20 pos
  rw [found,trimmed]
  obtain ⟨d,others,written,digit⟩ := digits_front m
  have read := reading_layDecimal documentLayout m (j + (Nat.toDigits 10 m).length - 1)
  rw [show j + ((Nat.toDigits 10 m).length : ℤ) - 1 + 1 - (Nat.toDigits 10 m).length = j by omega] at read
  refine ⟨_,sign _,?_,layDecimal_numeral (digits_all m) _ _,layDecimal_marked written _ _,?_,fun _ => ?_⟩
  · rw [written]
    exact layDecimal_front digit _ _ _
  · rw [nonzero]
    nofun
  · rw [read]
    exact ⟨mul_pos (Nat.cast_pos.mpr some) (zpow_pos (by norm_num) _),same ▸ rounds⟩

-- Only one double has a given sign and a given decimal that rounds to its magnitude.
lemma doubleText_injective (same : doubleText x = doubleText y) : x = y := by
  obtain ⟨body,written,left⟩ := doubleText_eq x
  obtain ⟨other,otherWritten,right⟩ := doubleText_eq y
  rw [written,otherWritten] at same
  obtain ⟨sign,rfl⟩ := signed_cancel left.front right.front same
  have bits : biased x = biased y ∧ fraction x = fraction y := by
    cases zero : x == 0.0 <;> cases other : y == 0.0
    · obtain ⟨exponent,mantissa⟩ := rounds_unique (parts_valid (abs_ne_zero zero)) (parts_valid (abs_ne_zero other)) (left.rounds zero).2 (right.rounds other).2
      have parts := parts_injective mantissa exponent
      obtain ⟨xBiased,xFraction,_⟩ := abs_parts x
      obtain ⟨yBiased,yFraction,_⟩ := abs_parts y
      omega
    · exact absurd (right.zero other) (left.rounds zero).1.ne'
    · exact absurd (left.zero zero) (right.rounds other).1.ne'
    · rw [beq_zero_iff] at zero other
      omega
  refine eq_of_bits ?_ bits.1 bits.2
  rw [not_inj_iff,decide_eq_decide] at sign
  unfold signOf
  simp only [sign]
end Numeral
namespace Num
open Numeral
variable {m n : Num}
lemma text_front (n : Num) : ∃ front rest, n.text = front :: rest ∧ (front = '-' ∨ front.isDigit) := by
  cases n with
  | whole n =>
    change ∃ front rest, wholeText n.val = front :: rest ∧ _
    rw [wholeText_eq]
    exact signed_front (digits_front _)
  | double x =>
    obtain ⟨body,written,spec⟩ := doubleText_eq x
    change ∃ front rest, doubleText x = front :: rest ∧ _
    rw [written]
    exact signed_front spec.front

lemma text_numeral (n : Num) : ∀ c ∈ n.text, isNumeral c := by
  cases n with
  | whole n =>
    change ∀ c ∈ wholeText n.val, isNumeral c
    rw [wholeText_eq]
    exact signed_numeral fun c mem => isNumeral_digit (digits_all _ c mem)
  | double x =>
    obtain ⟨body,written,spec⟩ := doubleText_eq x
    change ∀ c ∈ doubleText x, isNumeral c
    rw [written]
    exact signed_numeral spec.numeral

lemma whole_ne_double (n : Whole) (x : Float) : wholeText n.val ≠ doubleText x := by
  intro same
  obtain ⟨body,written,spec⟩ := doubleText_eq x
  rw [wholeText_eq,written] at same
  obtain ⟨c,mem,other⟩ := spec.marked
  rw [← (signed_cancel (digits_front _) spec.front same).2] at mem
  exact absurd (digits_all _ c mem) (by simp [other])

lemma text_injective (same : m.text = n.text) : m = n := by
  cases m with
  | whole m =>
    cases n with
    | whole n =>
      change wholeText m.val = wholeText n.val at same
      rw [wholeText_eq,wholeText_eq] at same
      obtain ⟨sign,digits⟩ := signed_cancel (digits_front _) (digits_front _) same
      have size := congrArg (Nat.ofDigitChars 10 · 0) digits
      simp only [Nat.ofDigitChars_ten_toDigits] at size
      rw [decide_eq_decide] at sign
      obtain ⟨m,_,_⟩ := m
      obtain ⟨n,_,_⟩ := n
      obtain rfl : m = n := by
        dsimp only at sign size
        omega
      rfl
    | double y => exact absurd same (whole_ne_double m y)
  | double x =>
    cases n with
    | whole n => exact absurd same.symm (whole_ne_double n x)
    | double y => exact congrArg double (doubleText_injective same)
end Num
end SchemaOrder
