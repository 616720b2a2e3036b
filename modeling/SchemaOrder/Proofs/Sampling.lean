import Mathlib
import SchemaOrder.Pattern.Sampler
namespace SchemaOrder.Pattern
open Unicode (CharSet Range lastPoint)
open List
namespace Expr
-- A sample is a whole word: the walk breaks off only at a text of more bytes than the longest sample can have. Each
-- code point of a class is drawn at exactly one offset.
mutual
-- Assertions read as the empty word, and rounds are counted as the sampler counts them.
def words (maxRepeat : Nat) : Expr → Language Char
  | .empty => 1
  | .look _ => 1
  | .literal text => {text}
  | .cls _ points => {word | ∃ c, points.contains c.toNat ∧ word = [c]}
  | .repetition least most _ body =>
    {word | ∃ n, least ≤ n ∧ n ≤ least + maxRepeat ∧ (∀ m ∈ most, n ≤ m) ∧ word ∈ words maxRepeat body ^ n}
  | .capture _ body => words maxRepeat body
  | .concat parts => wordsAll maxRepeat parts
  | .alternation bs => wordsAny maxRepeat bs

def wordsAll (maxRepeat : Nat) : List Expr → Language Char
  | [] => 1
  | e :: rest => words maxRepeat e * wordsAll maxRepeat rest

def wordsAny (maxRepeat : Nat) : List Expr → Language Char
  | [] => 0
  | e :: rest => words maxRepeat e + wordsAny maxRepeat rest
end
def isScalar (r : Range) : Bool :=
  r.lo ≤ r.hi && (r.hi < 0xd800 || (0xdfff < r.lo && r.hi < 0x110000))
mutual
-- What every expression that was read satisfies, but for classes that are empty or hold surrogates.
def isDrawable : Expr → Bool
  | .cls _ points => !points.isEmpty && points.all isScalar
  | .repetition least most _ body => most.all (least ≤ ·) && isDrawable body
  | .capture _ body => isDrawable body
  | .concat parts => areDrawable parts
  | .alternation bs => !bs.isEmpty && areDrawable bs
  | _ => true

def areDrawable : List Expr → Bool
  | [] => true
  | e :: rest => isDrawable e && areDrawable rest
end
end Expr
section Points
variable {ranges : CharSet} {p : Nat}
-- The code points in the order of the offsets that draw them.
def enumerate (ranges : CharSet) : List Nat :=
  ranges.flatMap (·.points 1)

lemma length_enumerate (ranges : CharSet) : (enumerate ranges).length = pointCount ranges := by
  induction ranges with
  | nil => rfl
  | cons r rest ih =>
    change (r.points 1 ++ enumerate rest).length = _ + pointCount rest
    rw [length_append,ih]
    simp [Range.points]

lemma pointAt_eq (ranges : CharSet) (offset : Nat) : pointAt ranges offset = (enumerate ranges)[offset]? := by
  induction ranges generalizing offset with
  | nil => rfl
  | cons r rest ih =>
    have width : (r.points 1).length = r.hi - r.lo + 1 := by simp [Range.points]
    change ite .. = (r.points 1 ++ enumerate rest)[offset]?
    split
    · next inside =>
      rw [getElem?_append_left (by omega)]
      simp [Range.points,inside]
    · rw [getElem?_append_right (by omega),width,ih]

lemma mem_points {r : Range} (ordered : r.lo ≤ r.hi) : p ∈ r.points 1 ↔ r.lo ≤ p ∧ p ≤ r.hi := by
  simp only [Range.points,Nat.div_one,Nat.mul_one,mem_map,mem_range]
  exact ⟨by omega,fun _ => ⟨p - r.lo,by omega,by omega⟩⟩

lemma contains_iff : ranges.contains p ↔ ∃ r ∈ ranges, r.lo ≤ p ∧ p ≤ r.hi := by
  simp [CharSet.contains]

lemma mem_enumerate (ordered : ∀ r ∈ ranges, r.lo ≤ r.hi) : p ∈ enumerate ranges ↔ ranges.contains p := by
  rw [contains_iff,enumerate,mem_flatMap]
  exact exists_congr fun r => and_congr_right fun mem => mem_points (ordered r mem)

def Apart (r s : Range) : Prop := r.hi < s.lo ∨ s.hi < r.lo

lemma nodup_enumerate (ordered : ∀ r ∈ ranges, r.lo ≤ r.hi) (apart : ranges.Pairwise Apart) :
    (enumerate ranges).Nodup := by
  refine nodup_flatMap.mpr ⟨fun r _ => nodup_range.map fun i j same => by simpa using same,?_⟩
  refine apart.imp_of_mem fun {r s} left right apart p first second => ?_
  have := (mem_points (ordered r left)).mp first
  have := (mem_points (ordered s right)).mp second
  unfold Apart at apart
  omega

lemma meet_bounds {a b r : Range} (met : CharSet.meet a b = some r) :
    r.lo ≤ r.hi ∧ r.lo = max a.lo b.lo ∧ r.hi = min a.hi b.hi := by
  unfold CharSet.meet at met
  dsimp only at met
  split at met
  · cases met
    exact ⟨‹_›,rfl,rfl⟩
  · cases met

lemma preferred_cases (ranges : CharSet) : preferredRanges ranges = ranges ∧ ranges.filterMap (CharSet.meet printable) = [] ∨
    preferredRanges ranges = ranges.filterMap (CharSet.meet printable) ∧ preferredRanges ranges ≠ [] := by
  unfold preferredRanges
  dsimp only
  split
  · next clipped => exact .inl ⟨rfl,by simpa using clipped⟩
  · next clipped => exact .inr ⟨rfl,by simpa using clipped⟩

lemma preferred_ne_nil (some : ranges ≠ []) : preferredRanges ranges ≠ [] := by
  obtain ⟨is,_⟩ | ⟨_,clipped⟩ := preferred_cases ranges
  · rwa [is]
  · exact clipped

lemma preferred_ordered (ordered : ∀ r ∈ ranges, r.lo ≤ r.hi) : ∀ r ∈ preferredRanges ranges, r.lo ≤ r.hi := by
  obtain ⟨is,_⟩ | ⟨is,_⟩ := preferred_cases ranges <;> rw [is]
  · exact ordered
  intro r mem
  obtain ⟨_,_,met⟩ := mem_filterMap.mp mem
  exact (meet_bounds met).1

lemma preferred_apart (apart : ranges.Pairwise Apart) : (preferredRanges ranges).Pairwise Apart := by
  obtain ⟨is,_⟩ | ⟨is,_⟩ := preferred_cases ranges <;> rw [is]
  · exact apart
  refine apart.filterMap _ fun r s apart r' met s' met' => ?_
  have := meet_bounds met
  have := meet_bounds met'
  unfold Apart at apart ⊢
  omega

lemma clipped_contains :
    CharSet.contains (ranges.filterMap (CharSet.meet printable)) p ↔ ranges.contains p ∧ 0x20 ≤ p ∧ p ≤ 0x7e := by
  simp only [contains_iff,mem_filterMap]
  constructor
  · rintro ⟨r,⟨s,mem,met⟩,_,_⟩
    obtain ⟨_,low,high⟩ := meet_bounds met
    simp only [printable] at low high
    exact ⟨⟨s,mem,by omega,by omega⟩,by omega,by omega⟩
  · rintro ⟨⟨s,mem,_,_⟩,_,_⟩
    refine ⟨⟨max 0x20 s.lo,min 0x7e s.hi⟩,⟨s,mem,if_pos ?_⟩,?_,?_⟩ <;> simp only [printable] <;> omega

lemma preferred_within (inside : (preferredRanges ranges).contains p) : ranges.contains p := by
  obtain ⟨is,_⟩ | ⟨is,_⟩ := preferred_cases ranges <;> rw [is] at inside
  · exact inside
  · exact (clipped_contains.mp inside).1

lemma preferred_contains (meets : ∃ q, ranges.contains q ∧ 0x20 ≤ q ∧ q ≤ 0x7e) :
    (preferredRanges ranges).contains p ↔ ranges.contains p ∧ 0x20 ≤ p ∧ p ≤ 0x7e := by
  obtain ⟨_,none⟩ | ⟨is,_⟩ := preferred_cases ranges
  · obtain ⟨q,inside⟩ := meets
    have found := clipped_contains.mpr inside
    rw [none] at found
    cases found
  · rw [is]
    exact clipped_contains
end Points
namespace Sampler
variable {σ : Type} {source : Random.Source σ} {maxRepeat maxLength wider : Nat} {d : Draft σ}
namespace Draft
lemma length_succ {ranges : CharSet} (some : ranges ≠ []) : ∃ limit, (enumerate ranges).length = limit + 1 := by
  cases ranges with
  | nil => exact absurd rfl some
  | cons r rest => exact ⟨_,by rw [length_enumerate,pointCount,foldr_cons,Nat.add_right_comm]⟩

lemma drawPoint_eq {ranges : CharSet} {limit : Nat} (is : (enumerate ranges).length = limit + 1) (source : Random.Source σ)
    (state : σ) : drawPoint source ranges state =
      (some ((enumerate ranges).get ((source.wide limit state).1.cast is.symm)),(source.wide limit state).2) := by
  have counted := (length_enumerate ranges).symm.trans is
  rw [drawPoint,counted]
  simp only [pointAt_eq]
  rw [getElem?_eq_getElem (lt_of_lt_of_eq (Fin.isLt _) is.symm)]
  rfl

lemma drawChar_within (source : Random.Source σ) {ranges points : CharSet} (some : ranges ≠ [])
    (ordered : ∀ r ∈ ranges, r.lo ≤ r.hi) (within : ∀ {p}, ranges.contains p → points.contains p)
    (scalar : ∀ r ∈ points, Expr.isScalar r) (tries : Nat) (state : σ) :
    ∃ c, (drawChar source ranges (tries + 1) state).1 = Option.some c ∧ points.contains c.toNat := by
  obtain ⟨limit,is⟩ := length_succ some
  obtain ⟨p,drawn,mem⟩ : ∃ p, drawPoint source ranges state = (Option.some p,_) ∧ p ∈ enumerate ranges :=
    ⟨_,drawPoint_eq is source state,get_mem _ _⟩
  have inside := within ((mem_enumerate ordered).mp mem)
  have valid : p.isValidChar := by
    obtain ⟨r,among,_,_⟩ := contains_iff.mp inside
    have := scalar r among
    unfold Expr.isScalar at this
    simp only [Bool.and_eq_true,Bool.or_eq_true,decide_eq_true_eq] at this
    unfold Nat.isValidChar
    omega
  refine ⟨Char.ofNat p,?_,by rwa [Char.toNat_ofNat,if_pos valid]⟩
  rw [drawChar,drawn]
  simp only [charOfPoint?,Option.bind_some,if_pos valid]

-- Offsets are below what the code points are below, so they fit into as many bits.
theorem drawPoint_bijective {ranges : CharSet} (nonempty : ranges ≠ []) (ordered : ∀ r ∈ ranges, r.lo ≤ r.hi)
    (apart : ranges.Pairwise Apart) : ∃ (limit : Nat) (point : Fin (limit + 1) → Nat),
      pointCount (preferredRanges ranges) = limit + 1 ∧
      (∀ (σ : Type) (source : Random.Source σ) (state : σ), drawPoint source (preferredRanges ranges) state =
        (some (point (source.wide limit state).1),(source.wide limit state).2)) ∧
      point.Injective ∧ Set.range point = {p | (preferredRanges ranges).contains p} ∧
      (∀ bound, (∀ r ∈ ranges, r.hi < bound) → limit < bound) ∧ (∀ offset, ranges.contains (point offset)) ∧
      ((∃ q, ranges.contains q ∧ 0x20 ≤ q ∧ q ≤ 0x7e) →
        Set.range point = {p | ranges.contains p ∧ 0x20 ≤ p ∧ p ≤ 0x7e}) := by
  obtain ⟨limit,is⟩ := length_succ (preferred_ne_nil nonempty)
  have ordered := preferred_ordered ordered
  have once := nodup_enumerate ordered (preferred_apart apart)
  let point (offset : Fin (limit + 1)) := (enumerate (preferredRanges ranges)).get (offset.cast is.symm)
  have yields : Set.range point = {p | (preferredRanges ranges).contains p} :=
    calc Set.range point
      _ = Set.range (enumerate (preferredRanges ranges)).get := (finCongr is.symm).surjective.range_comp (get _)
      _ = {p | p ∈ enumerate (preferredRanges ranges)} := Set.range_list_get _
      _ = {p | (preferredRanges ranges).contains p} := Set.ext fun p => mem_enumerate ordered
  have injective : point.Injective := once.injective_get.comp (Fin.cast_injective _)
  have inside offset : ranges.contains (point offset) := preferred_within ((Set.ext_iff.mp yields _).mp ⟨offset,rfl⟩)
  refine ⟨limit,point,(length_enumerate _).symm.trans is,fun σ => drawPoint_eq is,injective,yields,fun bound below => ?_,
    inside,fun meets => yields.trans (Set.ext fun p => preferred_contains meets)⟩
  have small offset : point offset < bound := by
    obtain ⟨r,member,_,high⟩ := contains_iff.mp (inside offset)
    exact high.trans_lt (below r member)
  simpa using Fintype.card_le_of_injective (fun offset => (⟨point offset,small offset⟩ : Fin bound))
    fun a b same => injective (Fin.mk.inj same)

-- Controls up to `%`, the letter `A`, and all from `}` on: both outer ranges lose an end, and 9 points are left.
def mixed : CharSet := [⟨0x9,0x25⟩,⟨0x41,0x41⟩,⟨0x7d,lastPoint⟩]

theorem drawPoint_bijective_mixed :
    (mixed ≠ [] ∧ (∀ r ∈ mixed, r.lo ≤ r.hi) ∧ mixed.Pairwise Apart) ∧ ∃ point : Fin 9 → Nat,
      (∀ (σ : Type) (source : Random.Source σ) (state : σ), drawPoint source (preferredRanges mixed) state =
        (some (point (source.wide 8 state).1),(source.wide 8 state).2)) ∧
      point.Injective ∧ Set.range point = {p | mixed.contains p ∧ 0x20 ≤ p ∧ p ≤ 0x7e} := by
  have ordered : ∀ r ∈ mixed, r.lo ≤ r.hi := by decide
  have apart : mixed.Pairwise Apart := by
    unfold Apart
    decide
  refine ⟨⟨by decide,ordered,apart⟩,?_⟩
  obtain ⟨limit,point,counted,drawn,injective,_,_,_,printed⟩ := drawPoint_bijective (by decide) ordered apart
  cases counted
  exact ⟨point,drawn,injective,printed ⟨0x41,by decide⟩⟩

lemma utf8ByteSize_le (text : String) : text.utf8ByteSize ≤ text.length * 4 := by
  suffices all : ∀ cs : List Char, (String.ofList cs).utf8ByteSize ≤ cs.length * 4 by
    simpa [← String.length_toList] using all text.toList
  intro cs
  induction cs with
  | nil => exact le_rfl
  | cons c cs ih =>
    have := c.utf8Size_le_four
    rw [String.ofList_cons,String.utf8ByteSize_append,length_cons]
    simp only [String.utf8ByteSize_singleton]
    omega

-- The text of `made` has a word more than that of `d`, unless the walk broke off; a later end changes nothing.
def Adds (maxLength : Nat) (language : Language Char) (d made later : Draft σ) : Prop :=
  ¬ made.isOverlong maxLength → later = made ∧ ∃ word ∈ language, made.text = d.text ++ String.ofList word

lemma not_overlong (wide : maxLength ≤ wider) (short : ¬ d.isOverlong maxLength) : ¬ d.isOverlong wider := by
  unfold isOverlong at short ⊢
  rw [decide_eq_true_eq] at short ⊢
  omega

lemma times_overlong {step : Draft σ → Draft σ} (overlong : d.isOverlong maxLength) (n : Nat) :
    times maxLength step n d = d := by
  cases n with
  | zero => rfl
  | succ n => rw [times,if_pos overlong]

lemma times_adds {step later : Draft σ → Draft σ} {language : Language Char} (wide : maxLength ≤ wider)
    (adds : ∀ d, Adds maxLength language d (step d) (later d)) (n : Nat) (d : Draft σ) :
    Adds maxLength (language ^ n) d (times maxLength step n d) (times wider later n d) := by
  induction n generalizing d with
  | zero => exact fun _ => ⟨rfl,[],(Language.mem_one _).mpr rfl,by simp [times]⟩
  | succ n ih =>
    intro fits
    rw [times] at fits
    split at fits
    · next overlong => exact absurd overlong fits
    next short =>
    rw [times,times,if_neg short,if_neg (not_overlong wide short)]
    have stepFits : ¬ (step d).isOverlong maxLength := fun overlong => by
      rw [times_overlong overlong] at fits
      exact fits overlong
    obtain ⟨same,first,inFirst,wrote⟩ := adds d stepFits
    obtain ⟨all,more,inMore,rest⟩ := ih (step d) fits
    refine ⟨same ▸ all,first ++ more,?_,by rw [rest,wrote,String.ofList_append,String.append_assoc]⟩
    rw [pow_succ']
    exact Language.mem_mul.mpr ⟨first,inFirst,more,inMore,rfl⟩
end Draft
open Draft SchemaOrder.Pattern.Expr
lemma emit_overlong (overlong : d.isOverlong maxLength) (e : Expr) : emit source maxRepeat maxLength e d = d := by
  rw [emit.eq_def]
  exact if_pos overlong

lemma emitAll_overlong (overlong : d.isOverlong maxLength) (parts : List Expr) :
    emitAll source maxRepeat maxLength parts d = d := by
  induction parts with
  | nil => rfl
  | cons e rest ih => rw [emitAll,emit_overlong overlong,ih]

lemma writeMember_adds (drawable : (cls kind points).isDrawable) (d : Draft σ) : ∃ word ∈ words maxRepeat (.cls kind points),
    (d.writeMember source kind points).text = d.text ++ String.ofList word := by
  obtain ⟨some,scalar⟩ := Bool.and_eq_true_iff.mp drawable
  have scalar := all_eq_true.mp scalar
  have ordered : ∀ r ∈ points, r.lo ≤ r.hi := fun r mem =>
    of_decide_eq_true (Bool.and_eq_true_iff.mp (scalar r mem)).1
  obtain ⟨tries,is⟩ : ∃ tries, classTries kind = tries + 1 := by
    cases kind with
    | points => exact ⟨7,rfl⟩
    | bytes => exact ⟨0,rfl⟩
  obtain ⟨c,drawn,inside⟩ := drawChar_within source (preferred_ne_nil (by simpa using some))
    (preferred_ordered ordered) preferred_within scalar tries d.state
  refine ⟨[c],⟨c,inside,rfl⟩,?_⟩
  change d.text ++ String.ofList (drawChar _ _ (classTries kind) _).1.toList = _
  rw [is,drawn]
  rfl

lemma rounds_within {most : Option Nat} (ordered : most.all (least ≤ ·))
    (extra : Fin (mostRounds maxRepeat least most - least + 1)) :
    least + extra ≤ least + maxRepeat ∧ ∀ m ∈ most, least + extra ≤ m := by
  have bound := extra.isLt
  unfold mostRounds at bound
  cases most with
  | none =>
    simp only at bound
    exact ⟨by omega,nofun⟩
  | some m =>
    have := of_decide_eq_true ordered
    simp only at bound
    refine ⟨by omega,?_⟩
    rintro _ ⟨⟩
    omega
mutual
lemma emit_adds (wide : maxLength ≤ wider) (e : Expr) (drawable : e.isDrawable) (d : Draft σ) :
    Adds maxLength (words maxRepeat e) d (emit source maxRepeat maxLength e d) (emit source maxRepeat wider e d) := by
  intro fits
  by_cases overlong : d.isOverlong maxLength
  · rw [emit_overlong overlong] at fits
    exact absurd overlong fits
  rw [emit.eq_def] at fits ⊢
  rw [emit.eq_def]
  dsimp only at fits ⊢
  rw [if_neg overlong] at fits ⊢
  rw [if_neg (not_overlong wide overlong)]
  cases e with
  | empty | look l => exact ⟨rfl,[],rfl,by simp⟩
  | literal text => exact ⟨rfl,text,rfl,rfl⟩
  | cls kind points => exact ⟨rfl,writeMember_adds drawable d⟩
  | repetition least most greedy body =>
    obtain ⟨ordered,inside⟩ := Bool.and_eq_true_iff.mp drawable
    obtain ⟨same,word,mem,wrote⟩ := times_adds wide (emit_adds wide body inside) _ _ fits
    obtain ⟨few,bounded⟩ := rounds_within ordered _
    exact ⟨same,word,⟨_,Nat.le_add_right _ _,few,bounded,mem⟩,wrote⟩
  | capture i body => exact emit_adds wide body drawable d fits
  | concat parts => exact emitAll_adds wide parts drawable d fits
  | alternation bs =>
    obtain ⟨some,inside⟩ := Bool.and_eq_true_iff.mp drawable
    have nonempty : bs.length ≠ 0 := by simpa using some
    exact emitAt_adds wide bs inside _ (lt_of_lt_of_eq (Fin.isLt _) (Nat.sub_one_add_one nonempty)) _ fits

lemma emitAll_adds (wide : maxLength ≤ wider) (parts : List Expr) (drawable : areDrawable parts) (d : Draft σ) :
    Adds maxLength (wordsAll maxRepeat parts) d (emitAll source maxRepeat maxLength parts d)
      (emitAll source maxRepeat wider parts d) := by
  intro fits
  cases parts with
  | nil => exact ⟨rfl,[],rfl,by simp [emitAll]⟩
  | cons e rest =>
    obtain ⟨here,later⟩ := Bool.and_eq_true_iff.mp drawable
    rw [emitAll] at fits ⊢
    have firstFits : ¬ (emit source maxRepeat maxLength e d).isOverlong maxLength := fun overlong => by
      rw [emitAll_overlong overlong] at fits
      exact fits overlong
    obtain ⟨same,first,inFirst,wrote⟩ := emit_adds wide e here d firstFits
    obtain ⟨all,more,inMore,wroteMore⟩ := emitAll_adds wide rest later _ fits
    rw [emitAll,same]
    exact ⟨all,first ++ more,Language.mem_mul.mpr ⟨first,inFirst,more,inMore,rfl⟩,
      by rw [wroteMore,wrote,String.ofList_append,String.append_assoc]⟩

lemma emitAt_adds (wide : maxLength ≤ wider) (bs : List Expr) (drawable : areDrawable bs) (i : Nat)
    (inside : i < bs.length) (d : Draft σ) : Adds maxLength (wordsAny maxRepeat bs) d
      (emitAt source maxRepeat maxLength bs i d) (emitAt source maxRepeat wider bs i d) := by
  intro fits
  cases bs with
  | nil => cases inside
  | cons e rest =>
    obtain ⟨here,later⟩ := Bool.and_eq_true_iff.mp drawable
    cases i with
    | zero =>
      obtain ⟨same,word,mem,wrote⟩ := emit_adds wide e here d fits
      exact ⟨same,word,.inl mem,wrote⟩
    | succ i =>
      obtain ⟨same,word,mem,wrote⟩ := emitAt_adds wide rest later i (Nat.lt_of_succ_lt_succ inside) d fits
      exact ⟨same,word,.inr mem,wrote⟩
end
theorem sample_mem_words (source : Random.Source σ) (s : Sampler) (state : σ) (word : String)
    (drawable : s.expr.isDrawable = true) (drawn : (s.sample source state).1 = some word) :
    word.length ≤ s.maxLength ∧ word.toList ∈ s.expr.words s.maxRepeat ∧
      ∀ wider, s.maxLength ≤ wider → ({ s with maxLength := wider }.sample source state).1 = some word := by
  unfold sample at drawn ⊢
  dsimp only at drawn ⊢
  split at drawn
  · next short =>
    cases drawn
    have fits : ¬ (emit source s.maxRepeat s.maxLength s.expr ⟨"",state⟩).isOverlong s.maxLength := fun overlong => by
      have bytes := utf8ByteSize_le (emit source s.maxRepeat s.maxLength s.expr ⟨"",state⟩).text
      have := of_decide_eq_true overlong
      omega
    refine ⟨short,?_,fun wider wide => ?_⟩
    · obtain ⟨_,word,member,wrote⟩ := emit_adds le_rfl s.expr drawable _ fits
      rw [wrote]
      simpa using member
    · rw [(emit_adds wide s.expr drawable _ fits).1,if_pos (short.trans wide)]
  · cases drawn

-- Every draw is the largest: one round more than asked for, the last branch and the last letter of the class.
def greatest : Random.Source Unit where
  narrow limit state := (Fin.last limit,state)
  wide limit state := (Fin.last limit,state)

def orders : Sampler where
  expr := .concat [.look .start,.repetition 1 none true (.capture 1 (.cls .points [⟨97,99⟩])),
    .alternation [.literal ['x'],.literal ['é','y']]]
  maxRepeat := 1
  maxLength := 4

theorem sample_mem_words_orders :
    (orders.expr.isDrawable ∧ (orders.sample greatest ()).1 = some "ccéy") ∧
      "ccéy".length ≤ 4 ∧ "ccéy".toList ∈ orders.expr.words 1 ∧
        ∀ wider, 4 ≤ wider → ({ orders with maxLength := wider }.sample greatest ()).1 = some "ccéy" :=
  have drawn : (orders.sample greatest ()).1 = some "ccéy" := by decide +kernel
  ⟨⟨by decide,drawn⟩,sample_mem_words greatest orders () "ccéy" (by decide) drawn⟩
end Sampler
end SchemaOrder.Pattern
