import SchemaOrder.Position
import SchemaOrder.Proofs.SubSchemas
namespace SchemaOrder
open Acceptance Schemas List Fields Json Vocabulary Option Paired
namespace Slot
-- Changing the schema at one position matters only to the parts of a value that this position reaches.
@[simp] def keyword : Slot → String
  | .keyed keyword _ => keyword
  | .single keyword => keyword
  | .indexed _ => "items"

inductive Apart : Slot → Slot → Prop where
  | keywords {a b : Slot} (ne : a.keyword ≠ b.keyword) : Apart a b
  | keys {keyword key other : String} (ne : key ≠ other) : Apart (.keyed keyword key) (.keyed keyword other)
  | indices {i other : Nat} (ne : i ≠ other) : Apart (.indexed i) (.indexed other)
variable {fs : Fields} {slot other : Slot} {value : Json}
lemma get?_place_keyword (ne : slot.keyword ≠ key) : (place fs slot value).get? key = fs.get? key := by
  unfold place
  split
  · split
    · split
      · exact get?_put_other ne
      · rfl
    · rfl
  · split
    · exact get?_put_other ne
    · rfl
  · split
    · exact get?_put_other ne
    · rfl

lemma get?_eq_of_keyword (same : fs.get? slot.keyword = others.get? slot.keyword) : slot.get? fs = slot.get? others := by
  cases slot <;> simp only [keyword] at same <;> simp only [get?,same]

lemma get?_place_other (apart : Apart slot other) : other.get? (place fs slot value) = other.get? fs := by
  cases apart with
  | keywords ne => exact get?_eq_of_keyword (get?_place_keyword ne)
  | keys ne =>
    unfold place get?
    dsimp only
    split
    · next es found =>
      split
      · rw [get?_put_self,found]
        exact get?_put_other ne
      · rfl
    · rfl
  | indices ne =>
    unfold place get?
    dsimp only
    split
    · next es found =>
      rw [get?_put_self,found]
      exact getElem?_set_ne ne
    · rfl

inductive Settling : Slot → Prop where
  | member (name : String) : Settling (.keyed "properties" name)
  | extra : Settling (.single "additionalProperties")
  | item : Settling (.single "items")
  | entry (i : Nat) : Settling (.indexed i)

lemma Settling.keyword_grouped (settling : Settling slot) : slot.keyword ∈ grouped := by
  cases settling <;> simp [grouped]

inductive Reaches (fs : Fields) : Slot → Json → Json → Prop where
  | member {name : String} {ms : Fields} {x : Json} (held : (name,x) ∈ ms) :
    Reaches fs (.keyed "properties" name) (.obj ms) x
  | extra {name : String} {ms : Fields} {x : Json} (held : (name,x) ∈ ms)
    (undeclared : (declared fs).get? name = none) : Reaches fs (.single "additionalProperties") (.obj ms) x
  | item {xs : List Json} {x : Json} (held : x ∈ xs) : Reaches fs (.single "items") (.arr xs) x
  | entry {i : Nat} {xs : List Json} {x : Json} (held : xs[i]? = some x) :
    Reaches fs (.indexed i) (.arr xs) x

lemma Reaches.exact (reaches : Reaches fs slot v x) (exact : v.isExact) : x.isExact := by
  cases reaches with
  | member held | extra held _ => exact (exact_obj.mp exact).2 _ held
  | item held => exact exact_item exact held
  | entry held => exact exact_item exact (mem_of_getElem? held)
section Governing
variable {ts : Texts} {vocab : Vocabulary} {v x s : Json}
lemma get?_member : get? fs (.keyed "properties" name) = (declared fs).get? name := by
  unfold declared
  change ((fs.get? "properties").bind fun map => map.field? name) = _
  cases fs.get? "properties" with
  | none => rfl
  | some map => cases map <;> rfl

lemma get?_entry (found : get? fs (.indexed i) = some s) :
    ∃ tuple, fs.get? "items" = some (.arr tuple) ∧ tuple[i]? = some s := by
  obtain ⟨xs,atItems,rest⟩ := bind_eq_some_iff.mp found
  obtain ⟨tuple,isTuple,at_⟩ := bind_eq_some_iff.mp rest
  cases xs with
  | arr es => cases isTuple; exact ⟨_,atItems,at_⟩
  | _ => cases isTuple

-- What a slot reaches in an accepted value is accepted by the schema at the slot.
lemma Reaches.accepted (reaches : Reaches fs slot v x) (plain : fs.get? "patternProperties" = none)
    (obeys : Obeys ts fs v) (found : slot.get? fs = some s) (schema : s.isSchema vocab) : s.accepts ts x := by
  cases reaches with
  | member held =>
    rw [get?_member] at found
    refine obeys.memberRule plain held ?_
    unfold memberRule?
    rw [found]
    rfl
  | extra held undeclared =>
    refine obeys.memberRule plain held ?_
    unfold memberRule?
    rw [undeclared]
    exact found
  | item held =>
    obtain ⟨i,at_⟩ := mem_iff_getElem?.mp held
    refine obeys.item _ rfl i x at_ s ?_
    unfold itemRule?
    rw [show fs.get? "items" = some s from found]
    cases s with
    | arr es => cases schema
    | _ => rfl
  | entry held =>
    obtain ⟨tuple,atItems,at_⟩ := get?_entry found
    refine obeys.item _ rfl _ x held s ?_
    unfold itemRule?
    rw [atItems]
    change tuple[_]?.or _ = _
    rw [at_]
    rfl

lemma declared_place_member (found : (declared fs).get? name = some old) (other : String) :
    (declared (place fs (.keyed "properties" name) value)).get? other =
      if name = other then some value else (declared fs).get? other := by
  unfold declared at found ⊢
  unfold place
  dsimp only
  cases at_ : fs.get? "properties" with
  | none => rw [at_] at found; cases found
  | some map =>
    rw [at_] at found
    cases map with
    | obj es =>
      change Fields.get? es name = some old at found
      dsimp only
      rw [if_pos (has_iff.mpr ⟨old,found⟩),get?_put_self]
      exact get?_put es name value other
    | _ => cases found

lemma declared_place (ne : slot.keyword ≠ "properties") : declared (place fs slot value) = declared fs := by
  unfold declared
  rw [get?_place_keyword ne]

lemma declared_place_none (settling : Settling slot) (found : slot.get? fs = some old) :
    (declared (place fs slot value)).get? name = none ↔ (declared fs).get? name = none := by
  cases settling with
  | member own =>
    rw [get?_member] at found
    rw [declared_place_member found]
    split
    · next same =>
      subst same
      rw [found]
      simp
    · exact Iff.rfl
  | extra | item | entry i => rw [declared_place (by simp)]

lemma get?_place_single (found : fs.get? key = some old) : (place fs (.single key) value).get? key = some value := by
  unfold place
  dsimp only
  rw [if_pos (has_iff.mpr ⟨old,found⟩)]
  exact get?_put_self _ _ _

lemma get?_place_indexed (found : fs.get? "items" = some (.arr tuple)) :
    (place fs (.indexed i) value).get? "items" = some (.arr (tuple.set i value)) := by
  unfold place
  rw [found]
  exact get?_put_self _ _ _

-- A member is governed as before, or by the new schema in place of the old one.
lemma memberRule?_place (settling : Settling slot) (found : slot.get? fs = some old) (held : (name,x) ∈ ms) :
    memberRule? (place fs slot value) name = memberRule? fs name ∨
      (Reaches fs slot (.obj ms) x ∧ memberRule? fs name = some old ∧
        memberRule? (place fs slot value) name = some value) := by
  unfold memberRule?
  cases settling with
  | member own =>
    rw [get?_member] at found
    rw [declared_place_member found,get?_place_keyword (by simp)]
    split
    · next same =>
      subst same
      rw [found]
      exact .inr ⟨.member held,rfl,rfl⟩
    · exact .inl rfl
  | extra =>
    rw [declared_place (by simp),get?_place_single found]
    cases at_ : (declared fs).get? name with
    | some s => exact .inl rfl
    | none => exact .inr ⟨.extra held at_,found,rfl⟩
  | item | entry i => rw [declared_place (by simp),get?_place_keyword (by simp)]; exact .inl rfl

lemma itemRule?_place (settling : Settling slot) (found : slot.get? fs = some old)
    (oldSchema : old.isSchema vocab) (schema : value.isSchema vocab) (held : xs[i]? = some x) :
    itemRule? (place fs slot value) i = itemRule? fs i ∨ (Reaches fs slot (.arr xs) x ∧ itemRule? fs i = some old ∧
        itemRule? (place fs slot value) i = some value) := by
  unfold itemRule?
  cases settling with
  | member own | extra => rw [get?_place_keyword (by simp),get?_place_keyword (by simp)]; exact .inl rfl
  | item =>
    have atItems : fs.get? "items" = some old := found
    rw [get?_place_single atItems,entryRule?_single schema,atItems,entryRule?_single oldSchema]
    exact .inr ⟨.item (mem_of_getElem? held),rfl,rfl⟩
  | entry own =>
    obtain ⟨tuple,atItems,at_⟩ := get?_entry found
    rw [get?_place_indexed atItems,get?_place_keyword (by simp),atItems]
    change (tuple.set own value)[i]?.or _ = tuple[i]?.or _ ∨
      (_ ∧ tuple[i]?.or _ = _ ∧ (tuple.set own value)[i]?.or _ = _)
    by_cases same : own = i
    · subst same
      rw [getElem?_set_self (List.getElem?_eq_some_iff.mp at_).1,at_]
      exact .inr ⟨.entry held,rfl,rfl⟩
    · rw [getElem?_set_ne same]
      exact .inl rfl

lemma formed_place (formed : Formed vocab fs) (settling : Settling slot)
    (found : slot.get? fs = some old) (schema : value.isSchema vocab)
    (open_ : vocab.describesExtra) : Formed vocab (place fs slot value) := by
  cases settling with
  | member name =>
    obtain ⟨map,atProperties,_⟩ := bind_eq_some_iff.mp found
    obtain ⟨es,rfl,sorted,schemas⟩ := (formed_map rfl).mp (formed.formed _ _ atProperties)
    unfold place
    dsimp only
    rw [atProperties]
    dsimp only
    split
    · refine formed.put (by decide) (allows_plain (has_of_allows (formed.allowed _ _ atProperties))
        (by decide) _) ((formed_map rfl).mpr ⟨_,rfl,sorted_put sorted,fun entry mem => ?_⟩)
      rcases mem_put mem with rfl | kept
      · exact schema
      · exact schemas entry kept
    · exact formed
  | extra =>
    have atExtra : fs.get? "additionalProperties" = some old := found
    have known := has_of_allows (formed.allowed _ _ atExtra)
    unfold place
    dsimp only
    split
    · exact formed.put (by decide) (allows_extra.mpr ⟨known,.inl open_⟩) schema
    · exact formed
  | item =>
    have atItems : fs.get? "items" = some old := found
    unfold place
    dsimp only
    split
    · exact formed.put (by decide) (allows_plain (has_of_allows (formed.allowed _ _ atItems))
        (by decide) _) ((formed_items rfl).mpr (.inl schema))
    · exact formed
  | entry i =>
    obtain ⟨tuple,atItems,at_⟩ := get?_entry found
    have schemas : ∀ t ∈ tuple, t.isSchema vocab := by
      rcases (formed_items rfl).mp (formed.formed _ _ atItems) with single | ⟨es,same,schemas⟩
      · cases single
      · cases same; exact schemas
    unfold place
    rw [atItems]
    refine formed.put (by decide) (allows_plain (has_of_allows (formed.allowed _ _ atItems))
      (by decide) _) ((formed_items rfl).mpr (.inr ⟨_,rfl,fun t mem => ?_⟩))
    rcases mem_or_eq_of_mem_set mem with kept | rfl
    · exact schemas t kept
    · exact schema

lemma accepts_place (formed : Formed vocab fs) (placed : Formed vocab (place fs slot value))
    (settling : Settling slot) (plain : fs.get? "patternProperties" = none)
    (found : slot.get? fs = some old) (oldSchema : old.isSchema vocab) (schema : value.isSchema vocab)
    (alike : ∀ x, Reaches fs slot v x → value.accepts ts x = old.accepts ts x) :
    (obj (place fs slot value)).accepts ts v = (obj fs).accepts ts v := by
  have same key (other : key ∉ ["properties","additionalProperties","items"]) :
      (place fs slot value).get? key = fs.get? key := by
    refine get?_place_keyword fun isKey => other (isKey ▸ ?_)
    cases settling <;> simp
  have mem : ∀ ms, v = .obj ms → ∀ name x, (name,x) ∈ ms →
      (memberRule? (place fs slot value) name).all (·.accepts ts x) = (memberRule? fs name).all (·.accepts ts x) := by
    rintro ms rfl name x held
    rcases memberRule?_place settling found held with kept | ⟨reaches,before,after⟩
    · rw [kept]
    rw [before,after]
    exact alike x reaches
  have item : ∀ xs, v = .arr xs → ∀ i x, xs[i]? = some x → (itemRule? (place fs slot value) i).all (·.accepts ts x) =
        (itemRule? fs i).all (·.accepts ts x) := by
    rintro xs rfl i x held
    rcases itemRule?_place settling found oldSchema schema held with kept | ⟨reaches,before,after⟩
    · rw [kept]
    rw [before,after]
    exact alike x reaches
  have keyword {now later : Fields} (same : ∀ key, key ∉ ["properties","additionalProperties","items"] →
      later.get? key = now.get? key) (obeys : Obeys ts now v) key s (at_ :
      later.get? key = some s) : keywordHolds ts (accepts ts) key s v := by
    by_cases special : key ∈ ["properties","additionalProperties","items"]
    · refine keywordHolds_grouped ?_
      fin_cases special <;> decide
    · exact obeys.keyword key s ((same key special).symm.trans at_)
  have conditional key (cond : key ∈ Keyword.conditional) : (place fs slot value).get? key = fs.get? key := by
    refine same key fun special => ?_
    fin_cases cond <;> exact absurd special (by decide)
  have placedPlain := (same "patternProperties" (by decide)).trans plain
  rw [Bool.eq_iff_iff,accepts_obj placed.sorted,accepts_obj formed.sorted]
  refine ⟨fun obeys => ?_,fun obeys => ?_⟩
  · exact obeys.by_parts placedPlain plain (fun key cond => (conditional key cond).symm)
      (keyword (fun key other => (same key other).symm) obeys)
      (fun ms shape name x held => (mem ms shape name x held).symm)
      fun xs shape i x held => (item xs shape i x held).symm
  · exact obeys.by_parts plain placedPlain conditional (keyword same obeys) mem item
end Governing
end Slot
namespace Paired
variable {vocab other : Vocabulary} {left right : Fields} {path : String} {p : Paired}
lemma mem_ofTuples (mem : p ∈ ofTuples path start ls rs) :
    ∃ i, p.slot = .indexed (start + i) ∧ ls[i]? = some p.left ∧ rs[i]? = some p.right := by
  induction ls generalizing start rs with
  | nil => cases mem
  | cons l ls ih =>
    cases rs with
    | nil => cases mem
    | cons r rs =>
      rcases mem_cons.mp mem with rfl | later
      · exact ⟨0,rfl,rfl,rfl⟩
      obtain ⟨i,slot,atL,atR⟩ := ih later
      exact ⟨i + 1,by rw [slot,add_right_comm]; rfl,atL,atR⟩

lemma apart_ofTuples (ls rs : List Json) (start : Nat) :
    (ofTuples path start ls rs).Pairwise fun p q => p.slot.Apart q.slot := by
  induction ls generalizing start rs with
  | nil => exact .nil
  | cons l ls ih =>
    cases rs with
    | nil => exact .nil
    | cons r rs =>
      refine .cons (fun q later => ?_) (ih rs (start + 1))
      obtain ⟨i,slot,_⟩ := mem_ofTuples later
      rw [slot]
      exact .indices (by omega)

lemma mem_ofMaps (mem : p ∈ ofMaps keyword path l r) :
    ∃ key, p.slot = .keyed keyword key ∧ (key,p.left) ∈ l ∧ r.get? key = some p.right := by
  obtain ⟨⟨key,s⟩,atL,made⟩ := mem_filterMap.mp mem
  obtain ⟨t,atR,rfl⟩ := map_eq_some_iff.mp made
  exact ⟨key,rfl,atL,atR⟩

lemma apart_ofMaps (sorted : l.Sorted) : (ofMaps keyword path l r).Pairwise fun p q => p.slot.Apart q.slot := by
  refine Pairwise.filterMap _ ?_ sorted
  intro a b before p atL q atR
  obtain ⟨_,_,rfl⟩ := map_eq_some_iff.mp atL
  obtain ⟨_,_,rfl⟩ := map_eq_some_iff.mp atR
  exact .keys (ne_of_lt before)

lemma keyword_ofKeyword (mem : p ∈ ofKeyword keyword path l r) : p.slot.keyword = keyword := by
  unfold ofKeyword at mem
  split at mem
  · obtain ⟨key,slot,_⟩ := mem_ofMaps mem
    rw [slot]
    rfl
  · cases mem
  · next shape =>
    obtain ⟨i,slot,_⟩ := mem_ofTuples mem
    rw [slot,Keyword.shape_items shape]
    rfl
  · cases mem
  · cases mem
  · cases mem_singleton.mp mem
    rfl

lemma apart_ofKeyword (sorted : ∀ es : Fields, l = .obj es → Keyword.shape keyword = .schemaMap → es.Sorted) :
    (ofKeyword keyword path l r).Pairwise fun p q => p.slot.Apart q.slot := by
  unfold ofKeyword
  split
  · next shape => exact apart_ofMaps (sorted _ rfl shape)
  · exact .nil
  · exact apart_ofTuples _ _ _
  · exact .nil
  · exact .nil
  · exact pairwise_singleton _ _

lemma apart_positions (sorted : ∀ keyword (es : Fields), left.get? keyword = some (.obj es) →
    Keyword.shape keyword = .schemaMap → es.Sorted) (right : Fields) (path : String) (walk : Walk) :
    (pairedPositions left right path walk).Pairwise fun p q => p.slot.Apart q.slot := by
  have ne : walk.keywords.Pairwise fun a b => a ≠ b := by cases walk <;> decide
  refine pairwise_flatMap.mpr ⟨fun keyword _ => ?_,ne.imp fun {a b} differ p first q second => ?_⟩
  · split
    · next l r atL _ => exact apart_ofKeyword fun es same => sorted keyword es (same ▸ atL)
    · exact .nil
  split at first
  · split at second
    · refine .keywords ?_
      rw [keyword_ofKeyword first,keyword_ofKeyword second]
      exact differ
    · cases second
  · cases first

lemma sorted_map (formed : Formed vocab left) (keyword : String) (es : Fields)
    (found : left.get? keyword = some (.obj es)) (shape : Keyword.shape keyword = .schemaMap) : es.Sorted := by
  obtain ⟨_,isMap,sorted,_⟩ := (formed_map shape).mp (formed.formed _ _ found)
  cases isMap
  exact sorted

structure Shared (vocab other : Vocabulary) (left right : Fields) (p : Paired) : Prop where
  settling : p.slot.Settling
  atLeft : p.slot.get? left = some p.left
  atRight : p.slot.get? right = some p.right
  leftSchema : p.left.isSchema vocab
  rightSchema : p.right.isSchema other
section
variable (formed : Formed vocab left) (otherFormed : Formed other right)
include formed otherFormed
lemma shared_properties (atL : left.get? "properties" = some l) (atR : right.get? "properties" = some r)
    (mem : p ∈ ofKeyword "properties" path l r) : Shared vocab other left right p := by
  obtain ⟨ls,rfl,sorted,schemas⟩ := (formed_map rfl).mp (formed.formed _ _ atL)
  obtain ⟨rs,rfl,_,otherSchemas⟩ := (formed_map rfl).mp (otherFormed.formed _ _ atR)
  obtain ⟨key,slot,inLeft,inRight⟩ := mem_ofMaps (show p ∈ ofMaps "properties" path ls rs from mem)
  refine ⟨slot ▸ .member key,?_,?_,schemas _ inLeft,otherSchemas _ (mem_of_get? inRight)⟩
  · rw [slot,Slot.get?_member]
    unfold declared
    rw [atL]
    exact get?_of_mem sorted inLeft
  rw [slot,Slot.get?_member]
  unfold declared
  rw [atR]
  exact inRight

lemma shared_items (atL : left.get? "items" = some l) (atR : right.get? "items" = some r)
    (mem : p ∈ ofKeyword "items" path l r) : Shared vocab other left right p := by
  have lForm := (formed_items rfl).mp (formed.formed _ _ atL)
  have rForm := (formed_items rfl).mp (otherFormed.formed _ _ atR)
  rcases lForm with schema | ⟨ls,rfl,schemas⟩
  · rcases rForm with otherSchema | ⟨rs,rfl,otherSchemas⟩
    · have single : p = ⟨.single "items",l,r,path⟩ := by
        rcases isSchema_cases schema with ⟨b,rfl⟩ | ⟨fs,rfl,_⟩ <;>
          rcases isSchema_cases otherSchema with ⟨c,rfl⟩ | ⟨others,rfl,_⟩ <;> exact mem_singleton.mp mem
      subst single
      exact ⟨.item,atL,atR,schema,otherSchema⟩
    · rcases isSchema_cases schema with ⟨b,rfl⟩ | ⟨fs,rfl,_⟩ <;> cases mem
  rcases rForm with otherSchema | ⟨rs,rfl,otherSchemas⟩
  · rcases isSchema_cases otherSchema with ⟨c,rfl⟩ | ⟨others,rfl,_⟩ <;> cases mem
  obtain ⟨i,slot,inLeft,inRight⟩ := mem_ofTuples (show p ∈ ofTuples path 0 ls rs from mem)
  rw [zero_add] at slot
  refine ⟨slot ▸ .entry i,?_,?_,schemas _ (mem_of_getElem? inLeft),otherSchemas _ (mem_of_getElem? inRight)⟩
  · rw [slot]
    change (left.get? "items").bind _ = _
    rw [atL]
    exact inLeft
  · rw [slot]
    change (right.get? "items").bind _ = _
    rw [atR]
    exact inRight

lemma shared_positions
    (plain : left.get? "patternProperties" = none) (mem : p ∈ pairedPositions left right path .settling) :
    Shared vocab other left right p := by
  obtain ⟨keyword,visited,mem⟩ := mem_flatMap.mp mem
  split at mem
  · next l r atL atR =>
    fin_cases visited
    · exact shared_properties formed otherFormed atL atR mem
    · rw [plain] at atL; cases atL
    · exact shared_items formed otherFormed atL atR mem
    · cases mem_singleton.mp mem
      exact ⟨.extra,atL,atR,formed.formed _ _ atL,otherFormed.formed _ _ atR⟩
  · cases mem
end
end Paired
lemma Paired.depth_left {f h : Fields} {path : String} {p : Paired} {walk : Walk} (mem : p ∈ pairedPositions f h path walk) :
    p.left.depth < (obj f).depth := by
  obtain ⟨keyword,_,inside⟩ := mem_flatMap.mp mem
  split at inside
  · next l r atL _ =>
    have below := depth_get? atL
    unfold ofKeyword at inside
    split at inside
    · obtain ⟨key,_,entry,_⟩ := mem_ofMaps inside
      exact lt_trans (depth_field entry) below
    · cases inside
    · obtain ⟨i,_,entry,_⟩ := mem_ofTuples inside
      exact lt_trans (depth_item (mem_of_getElem? entry)) below
    · cases inside
    · cases inside
    · rw [mem_singleton.mp inside]
      exact below
  · cases inside

structure Paired.Same (p q : Paired) : Prop where
  slot : p.slot = q.slot
  left : p.left = q.left
  right : p.right = q.right

lemma ofTuples_path (path path' : String) (l r : List Json) (i : Nat) :
    Forall₂ Same (ofTuples path i l r) (ofTuples path' i l r) := by
  induction l generalizing r i with
  | nil => exact .nil
  | cons a l ih =>
    cases r with
    | nil => exact .nil
    | cons b r => exact .cons ⟨rfl,rfl,rfl⟩ (ih r (i + 1))

lemma ofMaps_path (keyword path path' : String) (l r : Fields) :
    Forall₂ Same (ofMaps keyword path l r) (ofMaps keyword path' l r) := by
  unfold ofMaps
  induction l with
  | nil => exact .nil
  | cons entry l ih =>
    obtain ⟨key,a⟩ := entry
    cases found : r.get? key with
    | none => simpa [found] using ih
    | some b => simpa [found] using ⟨⟨rfl,rfl,rfl⟩,ih⟩

lemma ofKeyword_path (keyword path path' : String) (l r : Json) :
    Forall₂ Same (ofKeyword keyword path l r) (ofKeyword keyword path' l r) := by
  unfold ofKeyword
  split
  · exact ofMaps_path _ _ _ _ _
  · exact .nil
  · exact ofTuples_path _ _ _ _ _
  · exact .nil
  · exact .nil
  · exact .cons ⟨rfl,rfl,rfl⟩ .nil

lemma pairedPositions_path (f h : Fields) (path path' : String) (walk : Walk) :
    Forall₂ Same (pairedPositions f h path walk) (pairedPositions f h path' walk) := by
  unfold pairedPositions
  induction walk.keywords with
  | nil => exact .nil
  | cons key rest ih =>
    rw [flatMap_cons,flatMap_cons]
    refine rel_append ?_ ih
    split
    · exact ofKeyword_path _ _ _ _ _
    · exact .nil
end SchemaOrder
