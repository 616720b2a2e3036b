import Mathlib
import SchemaOrder.Json
namespace SchemaOrder.Fields
open List
variable {fs : Fields} {key other : String} {value : Json}
-- Writing one key leaves all others alone and keeps the order; where keys are in order a field is found if it is
-- there.
lemma key_above {a b : String} (notBelow : ¬ b < a) (ne : a ≠ b) : a < b := by
  have atMost := not_lt.mp notBelow
  apply Classical.byContradiction
  intro notAbove
  exact ne (le_antisymm atMost (not_lt.mp notAbove))

@[simp] lemma get?_nil (key : String) : get? [] key = none := rfl

lemma get?_cons (k : String) (v : Json) (rest : Fields) (key : String) :
    get? ((k,v) :: rest) key = if k = key then some v else get? rest key := rfl

lemma get?_put (fs : Fields) (key : String) (value : Json) (other : String) :
    (put fs key value).get? other = if key = other then some value else fs.get? other := by
  induction fs with
  | nil => rfl
  | cons field rest ih =>
    obtain ⟨k,v⟩ := field
    unfold put
    split
    · next same => subst same; simp only [get?_cons]; split <;> rfl
    next ne =>
    split
    · simp only [get?_cons]
    simp only [get?_cons,ih]
    split
    · next hit => subst hit; rw [if_neg (Ne.symm ne)]
    · rfl

@[simp] lemma get?_put_self (fs : Fields) (key : String) (value : Json) : (put fs key value).get? key = some value := by
  rw [get?_put,if_pos rfl]

lemma get?_put_other (ne : key ≠ other) : (put fs key value).get? other = fs.get? other := by
  rw [get?_put,if_neg ne]

lemma get?_erase_other (ne : key ≠ other) : (erase fs key).get? other = fs.get? other := by
  induction fs with
  | nil => rfl
  | cons field rest ih =>
    unfold erase
    split
    · next same => subst same; rw [get?_cons,if_neg ne]
    · rw [get?_cons,get?_cons,ih]

lemma get?_filter (keep : String → Bool) (fs : Fields) (key : String) :
    get? (fs.filter fun field => keep field.1) key = if keep key then fs.get? key else none := by
  induction fs with
  | nil => simp
  | cons field rest ih =>
    obtain ⟨k,v⟩ := field
    rw [filter_cons,get?_cons]
    by_cases kept : keep k
    · rw [if_pos kept,get?_cons,ih]
      split
      · next same => subst same; rw [if_pos kept]
      · rfl
    rw [if_neg kept,ih]
    split
    · next pass =>
      rw [if_neg]
      rintro rfl
      exact kept pass
    · rfl

lemma get?_without (fs : Fields) (keys : List String) (key : String) :
    get? (fs.without keys) key = if keys.contains key then none else fs.get? key := by
  unfold without
  rw [get?_filter (fun k => !keys.contains k)]
  cases keys.contains key <;> rfl

lemma get?_pick (fs : Fields) (keys : List String) (key : String) :
    get? (fs.pick keys) key = if keys.contains key then fs.get? key else none :=
  get?_filter (fun k => keys.contains k) fs key

lemma has_iff : fs.has key ↔ ∃ value, fs.get? key = some value := Option.isSome_iff_exists

lemma mem_of_get? (found : fs.get? key = some value) : (key,value) ∈ fs := by
  induction fs with
  | nil => cases found
  | cons field rest ih =>
    rw [get?_cons] at found
    split at found
    · next same => subst same; cases found; exact .head _
    · exact mem_cons_of_mem _ (ih found)

lemma get?_of_mem (sorted : fs.Sorted) (mem : (key,value) ∈ fs) : fs.get? key = some value := by
  induction fs with
  | nil => cases mem
  | cons field rest ih =>
    obtain ⟨least,tail⟩ := pairwise_cons.mp sorted
    rw [get?_cons]
    rcases mem_cons.mp mem with same | later
    · cases same; rw [if_pos rfl]
    have below := least _ later
    rw [if_neg,ih tail later]
    rintro rfl
    exact lt_irrefl _ below

-- No key stands twice.
lemma get?_tail (sorted : Sorted ((key,value) :: rest)) : get? rest key = none := by
  cases found : get? rest key with
  | none => rfl
  | some _ => exact absurd ((pairwise_cons.mp sorted).1 _ (mem_of_get? found)) (lt_irrefl key)

lemma get?_later (sorted : Sorted ((key,value) :: rest)) (found : get? rest other = some v) :
    get? ((key,value) :: rest) other = some v := by
  rw [get?_cons,if_neg]
  · exact found
  rintro rfl
  rw [get?_tail sorted] at found
  cases found

lemma get?_iff_mem (sorted : fs.Sorted) : fs.get? key = some value ↔ (key,value) ∈ fs := ⟨mem_of_get?,get?_of_mem sorted⟩

lemma mem_put (mem : field ∈ put fs key value) : field = (key,value) ∨ field ∈ fs := by
  induction fs with
  | nil => exact .inl (mem_singleton.mp mem)
  | cons head rest ih =>
    unfold put at mem
    split at mem
    · rcases mem_cons.mp mem with same | later
      · exact .inl same
      · exact .inr (.tail _ later)
    split at mem
    · rcases mem_cons.mp mem with same | later
      · exact .inl same
      · exact .inr later
    rcases mem_cons.mp mem with same | later
    · exact .inr (same ▸ .head _)
    rcases ih later with same | old
    · exact .inl same
    · exact .inr (.tail _ old)

lemma mem_erase (mem : field ∈ erase fs key) : field ∈ fs := by
  induction fs with
  | nil => cases mem
  | cons head rest ih =>
    unfold erase at mem
    split at mem
    · exact .tail _ mem
    rcases mem_cons.mp mem with same | later
    · exact same ▸ .head _
    · exact mem_cons_of_mem _ (ih later)

lemma sorted_nil : Sorted [] := Pairwise.nil

lemma sorted_single (key : String) (value : Json) : Sorted [(key,value)] := pairwise_singleton _ _

lemma sorted_put (sorted : fs.Sorted) : (put fs key value).Sorted := by
  induction fs with
  | nil => exact sorted_single key value
  | cons head rest ih =>
    obtain ⟨least,tail⟩ := pairwise_cons.mp sorted
    unfold put
    split
    · next same => subst same; exact pairwise_cons.mpr ⟨least,tail⟩
    next ne =>
    split
    · next below =>
      refine pairwise_cons.mpr ⟨?_,sorted⟩
      intro field mem
      rcases mem_cons.mp mem with rfl | later
      · exact below
      · exact lt_trans below (least _ later)
    next notBelow =>
    refine pairwise_cons.mpr ⟨?_,ih tail⟩
    intro field mem
    rcases mem_put mem with rfl | old
    · exact key_above notBelow ne
    · exact least _ old

lemma sorted_erase (sorted : fs.Sorted) : (erase fs key).Sorted := by
  induction fs with
  | nil => exact sorted
  | cons head rest ih =>
    obtain ⟨least,tail⟩ := pairwise_cons.mp sorted
    unfold erase
    split
    · exact tail
    · exact pairwise_cons.mpr ⟨fun field mem => least _ (mem_erase mem),ih tail⟩

lemma sorted_filter (keep : String × Json → Bool) (sorted : fs.Sorted) : Sorted (fs.filter keep) :=
  Pairwise.filter keep sorted

lemma get?_filter_value (sorted : fs.Sorted) (keep : Json → Bool) (key : String) :
    get? (fs.filter fun field => keep field.2) key = (fs.get? key).filter keep := by
  refine Option.ext fun value => ?_
  rw [get?_iff_mem (sorted_filter _ sorted),mem_filter,Option.filter_eq_some_iff,get?_iff_mem sorted]

lemma get?_erase_self (sorted : fs.Sorted) : (erase fs key).get? key = none := by
  induction fs with
  | nil => rfl
  | cons head rest ih =>
    obtain ⟨least,tail⟩ := pairwise_cons.mp sorted
    unfold erase
    split
    · next same =>
      subst same
      exact get?_tail sorted
    · next ne => rw [get?_cons,if_neg ne,ih tail]

lemma get?_erase (sorted : fs.Sorted) (key other : String) :
    (erase fs key).get? other = if key = other then none else fs.get? other := by
  split
  · next same => subst same; exact get?_erase_self sorted
  · next ne => exact get?_erase_other ne
end SchemaOrder.Fields
