import SchemaOrder.Intersection
import SchemaOrder.Proofs.Acceptance
namespace SchemaOrder
open List Fields Json
-- A measure of schemas under which an intersection is no heavier than its two sides together.
def total (f : Json → Nat) (l : List Json) : Nat := (l.map f).sum

def most (f : Json → Nat) (l : List Json) : Nat := (l.map f).foldr max 0
section Lists
variable {f g : Json → Nat} {l other : List Json} {v : Json} {n : Nat}
@[simp] lemma total_nil : total f [] = 0 := rfl

@[simp] lemma total_cons : total f (v :: l) = f v + total f l := by simp [total]

@[simp] lemma total_append : total f (l ++ other) = total f l + total f other := by simp [total]

lemma total_congr (same : ∀ v ∈ l, f v = g v) : total f l = total g l := by
  rw [total,total,map_congr_left same]

lemma total_mono (less : ∀ v ∈ l, f v ≤ g v) : total f l ≤ total g l := sum_le_sum less

lemma total_sublist (part : l.Sublist other) : total f l ≤ total f other :=
  (part.map f).sum_le_sum fun _ _ => Nat.zero_le _

lemma total_member (mem : v ∈ l) : f v ≤ total f l := single_le_sum (fun _ _ => Nat.zero_le _) _ (mem_map_of_mem mem)

lemma most_congr (same : ∀ v ∈ l, f v = g v) : most f l = most g l := by
  rw [most,most,map_congr_left same]

lemma most_le_iff : most f l ≤ n ↔ ∀ v ∈ l, f v ≤ n := by
  induction l with
  | nil => simp [most]
  | cons v rest ih =>
    rw [forall_mem_cons,← ih]
    exact Nat.max_le

lemma le_most (mem : v ∈ l) : f v ≤ most f l := most_le_iff.mp (le_rfl) v mem
end Lists
def Json.values (v : Json) : List Json := (v.fields?.getD []).map Prod.snd
namespace Heft
def entriesAt (fs : Fields) (key : String) : List Json := ((fs.get? key).map values).getD []

def listAt (fs : Fields) (key : String) : List Json := ((fs.get? key).map itemsOrNone).getD []

def singles (fs : Fields) : List Json :=
  entriesAt fs "properties" ++ (fs.get? "items").toList ++ (fs.get? "additionalItems").toList ++
    (fs.get? "propertyNames").toList ++ entriesAt fs "dependencies"

def rules (fs : Fields) : List Json :=
  entriesAt fs "patternProperties" ++ (fs.get? "additionalProperties").toList

def placed : List String := ["allOf","properties","items","additionalItems"]

def loose (fs : Fields) : Finset String := ((fs.map Prod.fst).filter fun key => !placed.contains key).toFinset

def reach (heft : Json → Nat) (fs : Fields) : Nat := max (most heft (singles fs)) (total heft (rules fs))

def step (heft : Json → Nat) : Json → Nat
  | .obj fs => max 1 (loose fs).card + total heft (listAt fs "allOf") + reach heft fs
  | .arr xs => 1 + most heft xs
  | _ => 1
end Heft
def Json.heft (v : Json) : Nat := recurse Heft.step 1 v
namespace Heft
variable {fs : Fields} {key : String} {v : Json}
lemma mem_entriesAt : v ∈ entriesAt fs key ↔ ∃ map name, fs.get? key = some (.obj map) ∧ (name,v) ∈ map := by
  unfold entriesAt
  cases fs.get? key with
  | none => simp
  | some w => cases w <;> simp [values,fields?]

lemma mem_listAt : v ∈ listAt fs key ↔ ∃ list, fs.get? key = some (.arr list) ∧ v ∈ list := by
  unfold listAt
  cases fs.get? key with
  | none => simp
  | some w => cases w <;> simp [itemsOrNone,items?]

lemma mem_singles : v ∈ singles fs ↔ v ∈ entriesAt fs "properties" ∨ fs.get? "items" = some v ∨
    fs.get? "additionalItems" = some v ∨ fs.get? "propertyNames" = some v ∨ v ∈ entriesAt fs "dependencies" := by
  simp [singles]

lemma mem_rules : v ∈ rules fs ↔ v ∈ entriesAt fs "patternProperties" ∨ fs.get? "additionalProperties" = some v := by
  simp [rules]

lemma mem_loose : key ∈ loose fs ↔ fs.has key ∧ key ∉ placed := by
  have held : key ∈ fs.map Prod.fst ↔ fs.has key := by
    induction fs with
    | nil => simp [has]
    | cons field rest ih =>
      rw [map_cons,mem_cons,ih]
      unfold has
      rw [get?_cons]
      by_cases same : field.1 = key
      · simp [same]
      · simp [same,Ne.symm same]
  simp [loose,held]

lemma card_loose (fs : Fields) : (loose fs).card ≤ fs.length := by
  refine le_trans (toFinset_card_le _) (le_trans (length_filter_le _ _) ?_)
  rw [length_map]

lemma depth_entriesAt (mem : v ∈ entriesAt fs key) : v.depth < (obj fs).depth := by
  obtain ⟨map,name,found,inside⟩ := mem_entriesAt.mp mem
  exact lt_trans (depth_field inside) (depth_get? found)

lemma depth_listAt (mem : v ∈ listAt fs key) : v.depth < (obj fs).depth := by
  obtain ⟨list,found,inside⟩ := mem_listAt.mp mem
  exact lt_trans (depth_item inside) (depth_get? found)

lemma depth_singles (mem : v ∈ singles fs) : v.depth < (obj fs).depth := by
  rcases mem_singles.mp mem with inside | found | found | found | inside
  · exact depth_entriesAt inside
  · exact depth_get? found
  · exact depth_get? found
  · exact depth_get? found
  · exact depth_entriesAt inside

lemma depth_rules (mem : v ∈ rules fs) : v.depth < (obj fs).depth := by
  rcases mem_rules.mp mem with inside | found
  · exact depth_entriesAt inside
  · exact depth_get? found

lemma step_descends : Descends step := by
  intro v f g agree
  cases v with
  | obj fs =>
    have entries : total f (listAt fs "allOf") = total g (listAt fs "allOf") :=
      total_congr fun w mem => agree w (depth_listAt mem)
    have alone : most f (singles fs) = most g (singles fs) := most_congr fun w mem => agree w (depth_singles mem)
    have together : total f (rules fs) = total g (rules fs) := total_congr fun w mem => agree w (depth_rules mem)
    simp only [step,reach,entries,alone,together]
  | arr xs =>
    have inside : most f xs = most g xs := most_congr fun w mem => agree w (depth_item mem)
    simp only [step,inside]
  | _ => rfl

lemma heft_eq (v : Json) : v.heft = step heft v := recurse_eq step_descends v

lemma heft_obj (fs : Fields) : (obj fs).heft = max 1 (loose fs).card + total heft (listAt fs "allOf") + reach heft fs :=
  heft_eq _

lemma heft_arr (xs : List Json) : (arr xs).heft = 1 + most heft xs := heft_eq _

lemma heft_bool (b : Bool) : (bool b).heft = 1 := heft_eq _

lemma heft_pos (v : Json) : 1 ≤ v.heft := by
  rw [heft_eq]
  cases v with
  | obj fs =>
    simp only [step]
    omega
  | arr xs => exact Nat.le_add_right 1 _
  | _ => exact le_refl 1

def opened : List String := placed ++ ["propertyNames","dependencies","patternProperties","additionalProperties"]

-- A schema that has only keywords of another one is no heavier, where those looked into are the same.
lemma heft_mono {small big : Fields} (each : ∀ key v, small.get? key = some v →
    ∃ w, big.get? key = some w ∧ (key ∈ opened → v = w)) : (obj small).heft ≤ (obj big).heft := by
  have keys : loose small ⊆ loose big := by
    intro key mem
    obtain ⟨held,free⟩ := mem_loose.mp mem
    obtain ⟨v,found⟩ := has_iff.mp held
    obtain ⟨w,there,_⟩ := each key v found
    exact mem_loose.mpr ⟨has_iff.mpr ⟨w,there⟩,free⟩
  have same {key v} (looked : key ∈ opened) (found : small.get? key = some v) : big.get? key = some v := by
    obtain ⟨w,there,equal⟩ := each key v found
    rw [there,equal looked]
  have mapped {key} (looked : key ∈ opened) v (mem : v ∈ entriesAt small key) : v ∈ entriesAt big key := by
    obtain ⟨map,name,found,inside⟩ := mem_entriesAt.mp mem
    exact mem_entriesAt.mpr ⟨map,name,same looked found,inside⟩
  have entries : total heft (listAt small "allOf") ≤ total heft (listAt big "allOf") := by
    cases found : small.get? "allOf" with
    | none => rw [listAt,found]; exact Nat.zero_le _
    | some v => rw [listAt,listAt,found,same (by decide) found]
  have alone : most heft (singles small) ≤ most heft (singles big) := by
    refine most_le_iff.mpr fun v mem => le_most (mem_singles.mpr ?_)
    rcases mem_singles.mp mem with inside | found | found | found | inside
    · exact .inl (mapped (by decide) v inside)
    · exact .inr (.inl (same (by decide) found))
    · exact .inr (.inr (.inl (same (by decide) found)))
    · exact .inr (.inr (.inr (.inl (same (by decide) found))))
    · exact .inr (.inr (.inr (.inr (mapped (by decide) v inside))))
  have together : total heft (rules small) ≤ total heft (rules big) := by
    rw [rules,rules,total_append,total_append]
    refine add_le_add ?_ ?_
    · cases found : small.get? "patternProperties" with
      | none => rw [entriesAt,found]; exact Nat.zero_le _
      | some v => rw [entriesAt,entriesAt,found,same (by decide) found]
    cases found : small.get? "additionalProperties" with
    | none => exact Nat.zero_le _
    | some v => rw [same (by decide) found]
  have count := Finset.card_le_card keys
  rw [heft_obj,heft_obj,reach,reach]
  omega

-- Two schemas that differ in `allOf` only differ by the heft of its entries.
lemma heft_besides {some other : Fields} (same : ∀ key, "allOf" ≠ key → some.get? key = other.get? key) :
    (obj some).heft + total heft (listAt other "allOf") = (obj other).heft + total heft (listAt some "allOf") := by
  have keys : loose some = loose other := by
    ext key
    rw [mem_loose,mem_loose,has,has]
    refine and_congr_left fun free => ?_
    rw [same key fun equal => free (equal ▸ by decide)]
  have reached : reach heft some = reach heft other := by
    unfold reach singles rules entriesAt
    rw [same "properties" (by decide),same "items" (by decide),same "additionalItems" (by decide),
      same "propertyNames" (by decide),same "dependencies" (by decide),same "patternProperties" (by decide),
      same "additionalProperties" (by decide)]
  rw [heft_obj,heft_obj,keys]
  omega

-- A schema of closed keywords weighs as much as it has of them.
lemma heft_closed (closed : ∀ key, fs.has key → key ∉ opened) : (obj fs).heft = max 1 (loose fs).card := by
  have absent key (looked : key ∈ opened) : fs.get? key = none := by
    cases found : fs.get? key with
    | none => rfl
    | some v => exact absurd looked (closed key (has_iff.mpr ⟨v,found⟩))
  have entries : listAt fs "allOf" = [] := by rw [listAt,absent _ (by decide)]; rfl
  have alone : singles fs = [] := by
    simp [singles,entriesAt,absent "properties" (by decide),absent "items" (by decide),
      absent "additionalItems" (by decide),absent "propertyNames" (by decide),absent "dependencies" (by decide)]
  have together : rules fs = [] := by
    simp [rules,entriesAt,absent "patternProperties" (by decide),absent "additionalProperties" (by decide)]
  rw [heft_obj,reach,entries,alone,together]
  rfl

lemma heft_single (closed : key ∉ opened) : (single key v).heft = 1 := by
  have only name (held : has [(key,v)] name) : name = key := by
    by_cases same : key = name
    · exact same.symm
    · simp [has,get?_cons,same] at held
  have count : (loose [(key,v)]).card ≤ 1 := card_loose _
  unfold single
  rw [heft_closed fun name held => only name held ▸ closed,max_eq_left count]

def sizeAt (fs : Fields) (key : String) : Nat := ((fs.get? key).map size).getD 0

-- Values under different keywords are different parts of an object.
lemma sizes_le (fs : Fields) {keys : List String} (ne : keys.Nodup) :
    (keys.map (sizeAt fs)).sum + fs.length ≤ sizeFields fs := by
  induction fs with
  | nil =>
    have none : sizeAt [] = fun _ => 0 := rfl
    simp [none,sizeFields]
  | cons field rest ih =>
    obtain ⟨name,v⟩ := field
    have first : (keys.map (sizeAt ((name,v) :: rest))).sum ≤ v.size + (keys.map (sizeAt rest)).sum := by
      clear ih
      induction keys with
      | nil => simp
      | cons key others ih =>
        obtain ⟨fresh,ne⟩ := nodup_cons.mp ne
        rw [map_cons,map_cons,sum_cons,sum_cons]
        by_cases same : name = key
        · subst same
          have later : others.map (sizeAt ((name,v) :: rest)) = others.map (sizeAt rest) := by
            refine map_congr_left fun other mem => ?_
            have differs : name ≠ other := fun same => fresh (same ▸ mem)
            rw [sizeAt,sizeAt,get?_cons,if_neg differs]
          have here : sizeAt ((name,v) :: rest) name = v.size := by
            rw [sizeAt,get?_cons,if_pos rfl]
            rfl
          rw [later]
          omega
        · have here : sizeAt ((name,v) :: rest) key = sizeAt rest key := by
            rw [sizeAt,sizeAt,get?_cons,if_neg same]
          have := ih ne
          omega
    have sum : sizeFields ((name,v) :: rest) = v.size + sizeFields rest + 1 := rfl
    rw [length_cons]
    omega

lemma total_size (xs : List Json) : total size xs = sizeItems xs := by
  induction xs with
  | nil => rfl
  | cons v rest ih => rw [total_cons,ih]; rfl

lemma total_values (map : Fields) : total size (map.map Prod.snd) ≤ sizeFields map := by
  induction map with
  | nil => exact le_refl 0
  | cons entry rest ih =>
    have sum : sizeFields (entry :: rest) = entry.2.size + sizeFields rest + 1 := rfl
    rw [map_cons,total_cons]
    omega

lemma size_listAt (fs : Fields) (key : String) : total size (listAt fs key) ≤ sizeAt fs key := by
  unfold listAt sizeAt
  cases fs.get? key with
  | none => exact le_refl 0
  | some w =>
    cases w with
    | arr xs => exact le_trans (le_of_eq (total_size xs)) (Nat.le_succ _)
    | _ => exact Nat.zero_le _

lemma size_entriesAt (fs : Fields) (key : String) : total size (entriesAt fs key) ≤ sizeAt fs key := by
  unfold entriesAt sizeAt
  cases fs.get? key with
  | none => exact le_refl 0
  | some w =>
    cases w with
    | obj map => exact le_trans (total_values map) (Nat.le_succ _)
    | _ => exact Nat.zero_le _

lemma size_get? (found : fs.get? key = some v) : v.size ≤ sizeAt fs key := by
  rw [sizeAt,found]
  exact le_rfl

lemma size_singles (mem : v ∈ singles fs) : ∃ key, "allOf" ≠ key ∧ v.size ≤ sizeAt fs key := by
  rcases mem_singles.mp mem with inside | found | found | found | inside
  · exact ⟨_,by decide,le_trans (total_member inside) (size_entriesAt fs "properties")⟩
  · exact ⟨_,by decide,size_get? found⟩
  · exact ⟨_,by decide,size_get? found⟩
  · exact ⟨_,by decide,size_get? found⟩
  · exact ⟨_,by decide,le_trans (total_member inside) (size_entriesAt fs "dependencies")⟩

lemma size_rules (fs : Fields) : total size (rules fs) ≤
    sizeAt fs "patternProperties" + sizeAt fs "additionalProperties" := by
  rw [rules,total_append]
  refine add_le_add (size_entriesAt fs _) ?_
  cases found : fs.get? "additionalProperties" with
  | none => exact Nat.zero_le _
  | some w => simpa using size_get? found

lemma heft_le_size (v : Json) : v.heft ≤ v.size := by
  induction v using byDepth with
  | step v ih =>
    cases v with
    | obj fs =>
      have entries : total heft (listAt fs "allOf") ≤ sizeAt fs "allOf" :=
        le_trans (total_mono fun w mem => ih w (depth_listAt mem)) (size_listAt fs _)
      have together := le_trans (total_mono fun w mem => ih w (depth_rules mem)) (size_rules fs)
      have alone : most heft (singles fs) + sizeAt fs "allOf" + length fs ≤ sizeFields fs := by
        have rest := sizes_le fs (nodup_singleton "allOf")
        simp only [map_cons,sum_cons] at rest
        suffices most heft (singles fs) ≤ sizeFields fs - sizeAt fs "allOf" - length fs by omega
        refine most_le_iff.mpr fun w mem => ?_
        obtain ⟨key,differs,below⟩ := size_singles mem
        have sizes := sizes_le fs (nodup_cons.mpr ⟨fun same => differs (mem_singleton.mp same),nodup_singleton key⟩)
        simp only [map_cons,sum_cons] at sizes
        have := ih w (depth_singles mem)
        omega
      have sizes : (["allOf","patternProperties","additionalProperties"].map (sizeAt fs)).sum + length fs ≤
          sizeFields fs := sizes_le fs (by decide)
      simp only [map_cons,sum_cons] at sizes
      have count := card_loose fs
      rw [heft_obj,reach]
      change _ ≤ sizeFields fs + 1
      omega
    | arr xs =>
      have inside : most heft xs ≤ sizeItems xs := by
        refine most_le_iff.mpr fun w mem => le_trans (ih w (depth_item mem)) ?_
        exact le_trans (total_member mem) (le_of_eq (total_size xs))
      rw [heft_arr]
      change _ ≤ sizeItems xs + 1
      omega
    | _ =>
      exact Nat.succ_le_of_lt (Nat.succ_pos _)
end Heft
end SchemaOrder
