import SchemaOrder.Proofs.Checks
-- Positions that two schemas share are apart, so writing to one leaves the others, and settling changes nothing else.
namespace SchemaOrder
open List Fields Json Option Paired
namespace Slot
variable {fs : Fields} {slot other a b : Slot} {value u v x old : Json}
-- What a slot finds in the value of its keyword, and what it leaves of it when something is written there.
def read : Slot → Json → Option Json
  | .keyed _ key,map => map.field? key
  | .single _,v => some v
  | .indexed i,xs => xs.items?.bind fun es => es[i]?

def write (value : Json) : Slot → Json → Json
  | .keyed _ key,.obj es => if Fields.has es key then .obj (Fields.put es key value) else .obj es
  | .single _,_ => value
  | .indexed i,.arr es => .arr (es.set i value)
  | _,v => v

lemma get?_eq (slot : Slot) (fs : Fields) : slot.get? fs = (fs.get? slot.keyword).bind slot.read := by
  cases slot with
  | single key => exact (bind_fun_some _).symm
  | _ => rfl

lemma get?_place_own (fs : Fields) (slot : Slot) (value : Json) :
    (place fs slot value).get? slot.keyword = (fs.get? slot.keyword).map (slot.write value) := by
  unfold place
  cases slot with
  | keyed keyword key =>
    change Fields.get? (match fs.get? keyword with | _ => _) keyword = (fs.get? keyword).map _
    cases found : fs.get? keyword with
    | none => exact found
    | some map =>
      cases map with
      | obj es =>
        rw [map_some,write]
        dsimp only
        split
        · exact get?_put_self _ _ _
        · exact found
      | _ => exact found
  | single keyword =>
    change Fields.get? (if fs.has keyword then _ else _) keyword = (fs.get? keyword).map _
    cases found : fs.get? keyword with
    | none => rw [if_neg (by simp [has,found])]; exact found
    | some old => rw [if_pos (has_iff.mpr ⟨old,found⟩)]; exact get?_put_self _ _ _
  | indexed i =>
    change Fields.get? (match fs.get? "items" with | _ => _) "items" = (fs.get? "items").map _
    cases found : fs.get? "items" with
    | none => exact found
    | some xs =>
      cases xs with
      | arr es => exact get?_put_self _ _ _
      | _ => exact found

lemma Apart.symm (apart : Apart a b) : Apart b a := by
  cases apart with
  | keywords ne => exact .keywords ne.symm
  | keys ne => exact .keys ne.symm
  | indices ne => exact .indices ne.symm

lemma Apart.ne (apart : Apart a b) : a ≠ b := by
  rintro rfl
  cases apart with
  | keywords distinct | keys distinct | indices distinct => exact distinct rfl

lemma read_write (found : slot.read v = some old) : slot.read (slot.write value v) = some value := by
  cases slot with
  | keyed keyword key =>
    cases v with
    | obj es =>
      rw [write,if_pos (has_iff.mpr ⟨old,found⟩)]
      exact get?_put_self _ _ _
    | _ => cases found
  | single keyword => rfl
  | indexed i =>
    cases v with
    | arr es => exact getElem?_set_self (List.getElem?_eq_some_iff.mp found).1
    | _ => cases found

lemma get?_place_self (found : slot.get? fs = some old) : slot.get? (place fs slot value) = some value := by
  rw [get?_eq] at found
  obtain ⟨v,at_,here⟩ := bind_eq_some_iff.mp found
  rw [get?_eq,get?_place_own,at_]
  exact read_write here

lemma put_comm (sorted : fs.Sorted) (ne : key ≠ name) : (fs.put key u).put name v = (fs.put name v).put key u := by
  refine ext (sorted_put (sorted_put sorted)) (sorted_put (sorted_put sorted)) fun k => ?_
  simp only [get?_put]
  split
  · next is => rw [if_neg (is ▸ ne)]
  · rfl

lemma write_comm (apart : Apart a b) (same : a.keyword = b.keyword) (ord : x.Orderly) :
    b.write v (a.write u x) = a.write u (b.write v x) := by
  cases apart with
  | keywords ne => exact absurd same ne
  | @keys _ key other ne =>
    cases x with
    | obj es =>
      have keeps {k l : String} {w : Json} (apart : k ≠ l) : has (put es k w) l = has es l := by
        unfold has
        rw [get?_put_other apart]
      by_cases first : has es key <;> by_cases second : has es other <;>
        simp [write,first,second,keeps ne,keeps ne.symm,put_comm (orderly_obj.mp ord).1 ne]
    | _ => rfl
  | indices ne =>
    cases x with
    | arr es => exact congrArg arr (set_comm _ _ ne)
    | _ => rfl

lemma place_comm (apart : Apart a b) (ord : (obj fs).Orderly) (uOrd : u.Orderly) (vOrd : v.Orderly) :
    b.place (a.place fs u) v = a.place (b.place fs v) u := by
  refine ext (orderly_obj.mp (b.orderly_place (a.orderly_place ord uOrd) vOrd)).1
    (orderly_obj.mp (a.orderly_place (b.orderly_place ord vOrd) uOrd)).1 fun key => ?_
  have at_ : ∀ (slot : Slot) (fs : Fields) (value : Json), (place fs slot value).get? key =
      if slot.keyword = key then (fs.get? key).map (slot.write value) else fs.get? key := by
    intro slot fs value
    split
    · next same => exact same ▸ get?_place_own _ _ _
    · next ne => exact get?_place_keyword ne
  simp only [at_]
  split
  · next isB =>
    split
    · next isA =>
      cases found : fs.get? key with
      | none => rfl
      | some x => exact congrArg some (write_comm apart (isA.trans isB.symm) (orderly_get? ord found))
    · rfl
  · rfl

def placeAll (values : Slot → Json) (fs : Fields) (slots : List Slot) : Fields :=
  slots.foldl (fun fs slot => slot.place fs (values slot)) fs
variable {values : Slot → Json} {slots order : List Slot}
lemma placeAll_perm (good : ∀ slot, (values slot).Orderly) (perm : slots.Perm order) (apart : slots.Pairwise Apart)
    (ord : (obj fs).Orderly) : placeAll values fs slots = placeAll values fs order := by
  induction perm generalizing fs with
  | nil => rfl
  | cons slot _ ih => exact ih apart.of_cons (slot.orderly_place ord (good slot))
  | swap a b rest =>
    exact congrArg (placeAll values · rest) (place_comm
      ((pairwise_cons.mp apart).1 _ mem_cons_self) ord (good b) (good a))
  | trans first _ ih later =>
    exact (ih apart ord).trans (later ((first.pairwise_iff Apart.symm).mp apart) ord)

lemma get?_placeAll_other (each : ∀ slot ∈ slots, Apart slot other) :
    other.get? (placeAll values fs slots) = other.get? fs := by
  induction slots generalizing fs with
  | nil => rfl
  | cons slot rest ih =>
    exact (ih fun later mem => each later (.tail _ mem)).trans (get?_place_other (each slot mem_cons_self))

lemma get?_placeAll (apart : slots.Pairwise Apart) (present : ∀ slot ∈ slots, ∃ old, slot.get? fs = some old)
    (mem : slot ∈ slots) : slot.get? (placeAll values fs slots) = some (values slot) := by
  induction slots generalizing fs with
  | nil => cases mem
  | cons first rest ih =>
    obtain ⟨away,later⟩ := pairwise_cons.mp apart
    rcases mem_cons.mp mem with rfl | inside
    · obtain ⟨old,found⟩ := present slot mem_cons_self
      exact (get?_placeAll_other fun other mem => (away other mem).symm).trans (get?_place_self found)
    refine ih later (fun other mem => ?_) inside
    rw [get?_place_other (away other mem)]
    exact present other (.tail _ mem)
end Slot
namespace Paired
variable {left right : Fields} {l r : Json} {keyword path : String} {walk : Walk} {p : Paired}
def swap (p : Paired) : Paired := ⟨p.slot,p.right,p.left,p.path⟩

lemma get?_ofKeyword (lOrd : l.Orderly) (atL : left.get? keyword = some l) (atR : right.get? keyword = some r)
    (mem : p ∈ ofKeyword keyword path l r) : p.slot.get? left = some p.left ∧ p.slot.get? right = some p.right := by
  simp only [Slot.get?_eq,keyword_ofKeyword mem,atL,atR,bind_some]
  unfold ofKeyword at mem
  split at mem
  · obtain ⟨key,slot,inLeft,inRight⟩ := mem_ofMaps mem
    rw [slot]
    exact ⟨get?_of_mem (orderly_obj.mp lOrd).1 inLeft,inRight⟩
  · cases mem
  · obtain ⟨i,slot,inLeft,inRight⟩ := mem_ofTuples mem
    rw [slot,zero_add]
    exact ⟨inLeft,inRight⟩
  · cases mem
  · cases mem
  · rw [mem_singleton.mp mem]
    exact ⟨rfl,rfl⟩

lemma get?_positions (lOrd : (obj left).Orderly) (mem : p ∈ pairedPositions left right path walk) :
    p.slot.get? left = some p.left ∧ p.slot.get? right = some p.right := by
  obtain ⟨keyword,_,inside⟩ := mem_flatMap.mp mem
  split at inside
  · next atL atR => exact get?_ofKeyword (orderly_get? lOrd atL) atL atR inside
  · cases inside

lemma swap_ofTuples (i : Nat) (ls rs : List Json) : ofTuples path i rs ls = (ofTuples path i ls rs).map swap := by
  induction ls generalizing rs i with
  | nil => cases rs <;> rfl
  | cons l ls ih =>
    cases rs with
    | nil => rfl
    | cons r rs => exact congrArg (⟨.indexed i,r,l,indexPath path i⟩ :: ·) (ih (i + 1) rs)

lemma mem_ofMaps_iff {ls rs : Fields} (sorted : ls.Sorted) : p ∈ ofMaps keyword path ls rs ↔
    ∃ key, ls.get? key = some p.left ∧ rs.get? key = some p.right ∧ p.slot = .keyed keyword key ∧
      p.path = joinPath path key := by
  unfold ofMaps
  rw [mem_filterMap]
  constructor
  · rintro ⟨⟨key,l⟩,inLeft,made⟩
    obtain ⟨r,inRight,rfl⟩ := map_eq_some_iff.mp made
    exact ⟨key,get?_of_mem sorted inLeft,inRight,rfl,rfl⟩
  rintro ⟨key,inLeft,inRight,slot,at_⟩
  obtain ⟨_,l,r,_⟩ := p
  subst slot at_
  exact ⟨(key,l),mem_of_get? inLeft,map_eq_some_iff.mpr ⟨r,inRight,rfl⟩⟩

def mapKey (p : Paired) : String :=
  match p.slot with
  | .keyed _ key => key
  | _ => ""

lemma sorted_ofMaps {ls : Fields} (rs : Fields) (sorted : ls.Sorted) :
    (ofMaps keyword path ls rs).Pairwise fun p q => p.mapKey < q.mapKey := by
  refine Pairwise.filterMap _ ?_ sorted
  intro a b before p atL q atR
  obtain ⟨_,_,rfl⟩ := map_eq_some_iff.mp atL
  obtain ⟨_,_,rfl⟩ := map_eq_some_iff.mp atR
  exact before

-- Whichever map comes first, the common keys are listed in ascending order.
lemma swap_ofMaps {ls rs : Fields} (lSorted : ls.Sorted) (rSorted : rs.Sorted) :
    ofMaps keyword path rs ls = (ofMaps keyword path ls rs).map swap := by
  have : Std.Irrefl fun p q : Paired => p.mapKey < q.mapKey := ⟨fun _ => lt_irrefl _⟩
  have : Std.Antisymm fun p q : Paired => p.mapKey < q.mapKey := ⟨fun _ _ below above => absurd above (lt_asymm below)⟩
  refine (sorted_ofMaps ls rSorted).eq_of_mem_iff (pairwise_map.mpr (sorted_ofMaps rs lSorted)) fun p => ?_
  rw [mem_ofMaps_iff rSorted,List.mem_map]
  constructor
  · rintro ⟨key,inRight,inLeft,slot,at_⟩
    exact ⟨p.swap,(mem_ofMaps_iff lSorted).mpr ⟨key,inLeft,inRight,slot,at_⟩,rfl⟩
  rintro ⟨q,mem,rfl⟩
  obtain ⟨key,inLeft,inRight,slot,at_⟩ := (mem_ofMaps_iff lSorted).mp mem
  exact ⟨key,inRight,inLeft,slot,at_⟩

lemma swap_ofKeyword (lOrd : l.Orderly) (rOrd : r.Orderly) :
    ofKeyword keyword path r l = (ofKeyword keyword path l r).map swap := by
  unfold ofKeyword
  cases Keyword.shape keyword with
  | schemaMap =>
    cases l <;> cases r
    case obj.obj => exact swap_ofMaps (orderly_obj.mp lOrd).1 (orderly_obj.mp rOrd).1
    all_goals rfl
  | items =>
    cases l <;> cases r
    case arr.arr => exact swap_ofTuples _ _ _
    all_goals rfl
  | _ => rfl

lemma swap_positions (lOrd : (obj left).Orderly) (rOrd : (obj right).Orderly) :
    pairedPositions right left path walk = (pairedPositions left right path walk).map swap := by
  unfold pairedPositions
  rw [map_flatMap]
  congr 1
  funext keyword
  cases atL : left.get? keyword with
  | none => cases right.get? keyword <;> rfl
  | some l =>
    cases atR : right.get? keyword with
    | none => rfl
    | some r => exact swap_ofKeyword (orderly_get? lOrd atL) (orderly_get? rOrd atR)
end Paired
theorem pairedPositions_fit (left right : Fields) (path : String) (walk : Walk) (leftOrderly : (obj left).Orderly)
    (rightOrderly : (obj right).Orderly) :
    ((pairedPositions left right path walk).map Paired.slot).Nodup ∧
      (∀ p ∈ pairedPositions left right path walk, p.slot.get? left = some p.left ∧ p.slot.get? right = some p.right) ∧
      pairedPositions right left path walk = (pairedPositions left right path walk).map Paired.swap ∧
      ∀ values : Slot → Json, (∀ slot, (values slot).Orderly) → ∀ order : List Slot,
        order.Perm ((pairedPositions left right path walk).map Paired.slot) → Slot.placeAll values right order =
            Slot.placeAll values right ((pairedPositions left right path walk).map Paired.slot) ∧
          (∀ slot ∈ order, slot.get? (Slot.placeAll values right order) = some (values slot)) ∧
          ∀ other : Slot, (∀ slot ∈ order, slot.Apart other) →
            other.get? (Slot.placeAll values right order) = other.get? right := by
  have apart : ((pairedPositions left right path walk).map Paired.slot).Pairwise Slot.Apart :=
    pairwise_map.mpr (apart_positions (fun _ _ found _ => (orderly_obj.mp (orderly_get? leftOrderly found)).1) ..)
  have reads : ∀ p ∈ pairedPositions left right path walk, _ := fun p => get?_positions leftOrderly
  refine ⟨apart.imp Slot.Apart.ne,reads,swap_positions leftOrderly rightOrderly,fun values good order perm => ?_⟩
  refine ⟨(Slot.placeAll_perm good perm.symm apart rightOrderly).symm,fun slot => ?_,fun other => Slot.get?_placeAll_other⟩
  refine Slot.get?_placeAll ((perm.pairwise_iff Slot.Apart.symm).mpr apart) fun slot member => ?_
  obtain ⟨p,inside,rfl⟩ := List.mem_map.mp (perm.mem_iff.mp member)
  exact ⟨_,(reads p inside).2⟩

def narrowPair : Fields :=
  [("items",.arr [.null,.null]),("properties",.obj [("a",.null),("b",.obj [("format",.str "uri")])])]

def widePair : Fields :=
  [("items",.arr [.null]),("not",.bool true),("properties",.obj [("b",.obj [("format",.str "iri")])])]

theorem pairedPositions_fit_reversed :
    (pairedPositions narrowPair widePair "" .settling).map Paired.slot = [.keyed "properties" "b",.indexed 0] ∧
      Slot.placeAll (fun _ => .null) widePair [.indexed 0,.keyed "properties" "b"] =
        Slot.placeAll (fun _ => .null) widePair [.keyed "properties" "b",.indexed 0] := by
  have listed : (pairedPositions narrowPair widePair "" .settling).map Paired.slot =
      [.keyed "properties" "b",.indexed 0] := by decide
  have fit := (pairedPositions_fit narrowPair widePair "" .settling (by decide) (by decide)).2.2.2
    (fun _ => .null) fun _ => rfl
  rw [listed] at fit
  exact ⟨listed,(fit _ (.swap ..)).1⟩
namespace Engine
variable {σ : Type} {e : Engine (StateM σ)} {sub sup own : Fields} {path : String}
-- What settling the keywords of one object may do: `pattern` and `format` give way to those of `sub`, `not` is dropped.
structure OwnSettled (sub sup own : Fields) : Prop where
  orderly : (obj own).Orderly
  keywords : ∀ key, own.get? key = sup.get? key ∨
    key ∈ ["pattern","format","not"] ∧ sup.has key ∧ own.get? key = if key = "not" then none else sub.get? key

-- Each shared position holds what settling made of its two sides, and outside of them nothing else has changed.
inductive Frames : Json → Json → Json → Prop where
  | kept (sub sup : Json) : Frames sub sup sup
  | settled {sub sup own out : Fields} (path : String) (settles : OwnSettled sub sup own) (ord : (obj out).Orderly)
    (present : ∀ p ∈ pairedPositions sub sup path .settling, (p.slot.get? out).isSome)
    (inside : ∀ p ∈ pairedPositions sub sup path .settling, ∀ v, p.slot.get? out = some v → Frames p.left p.right v)
    (outside : ∀ slot, (∀ p ∈ pairedPositions sub sup path .settling, p.slot.Apart slot) → slot.get? out = slot.get? own) :
    Frames (.obj sub) (.obj sup) (.obj out)

lemma OwnSettled.decide {s : Settled} (settles : OwnSettled sub sup s.sup) (subOrd : (obj sub).Orderly)
    (settling : key ∈ ["pattern","format","not"]) (has : s.sup.has key)
    (is : replacement = if key = "not" then none else sub.get? key) (verdict : Option Bool) (d : Difference) :
    OwnSettled sub sup (s.decide verdict key replacement d).sup := by
  refine ⟨orderly_decide settles.orderly (fun v found => ?_) verdict key d,fun other => ?_⟩
  · rw [is] at found
    split at found
    · cases found
    · exact orderly_get? subOrd found
  unfold Settled.decide
  split
  · have now : (s.settle key replacement).sup.get? other = if key = other then replacement else s.sup.get? other := by
      cases replacement with
      | none => exact get?_erase (orderly_obj.mp settles.orderly).1 key other
      | some v => exact get?_put ..
    rw [now]
    split
    · next same =>
      subst same
      refine .inr ⟨settling,?_,is⟩
      rcases settles.keywords key with same | ⟨_,held,_⟩
      · exact (congrArg isSome same).symm.trans has
      · exact held
    · exact settles.keywords other
  all_goals exact settles.keywords other

lemma ensures_ownSettled (subOrd : (obj sub).Orderly) (supOrd : (obj sup).Orderly) :
    Always (e.settlePattern sub path { sup := sup,failures := [] })
      fun s => OwnSettled sub sup (settleNegation sub path (settleFormat sub path s)).sup := by
  have present {fs : Fields} {key text : String} (found : (fs.get? key).bind str? = some text) : fs.has key := by
    obtain ⟨v,at_,_⟩ := bind_eq_some_iff.mp found
    exact has_iff.mpr ⟨v,at_⟩
  have start : OwnSettled sub sup sup := ⟨supOrd,fun _ => .inl rfl⟩
  have pat : Always (e.settlePattern sub path { sup := sup,failures := [] }) fun s => OwnSettled sub sup s.sup := by
    unfold settlePattern
    split
    · exact .pure start
    · next found => exact .bind (ensures_any _) fun _ _ => .pure (start.decide subOrd (by decide) (present found) rfl _ _)
  refine pat.mono fun s settles => ?_
  have format : OwnSettled sub sup (settleFormat sub path s).sup := by
    unfold settleFormat
    split
    · exact settles
    · next found => exact settles.decide subOrd (by decide) (present found) rfl _ _
  unfold settleNegation
  split
  · exact format
  next found =>
  split
  · exact format
  · exact format.decide subOrd (by decide) (has_iff.mpr ⟨_,found⟩) rfl _ _

lemma OwnSettled.get?_slot (settles : OwnSettled sub sup own) (subOrd : (obj sub).Orderly)
    (mem : p ∈ pairedPositions sub sup path .settling) : p.slot.get? own = some p.right := by
  rw [← (get?_positions subOrd mem).2]
  refine Slot.get?_eq_of_keyword ((settles.keywords _).resolve_right fun ⟨settling,_⟩ => ?_)
  obtain ⟨keyword,walked,inside⟩ := mem_flatMap.mp mem
  split at inside
  · rw [keyword_ofKeyword inside] at settling
    exact absurd settling ((by decide : ∀ key ∈ Walk.keywords .settling, key ∉ ["pattern","format","not"]) keyword walked)
  · cases inside

lemma ensures_frames (depth : Nat) (sub sup : Json) (path : String) (subOrd : sub.Orderly) (supOrd : sup.Orderly) :
    Always (e.reconcileWithin depth sub sup path) fun made => made.1.Orderly ∧ Frames sub sup made.1 := by
  induction depth generalizing sub sup path with
  | zero => exact .pure ⟨supOrd,.kept ..⟩
  | succ depth ih =>
    match sub,sup with
    | .obj sub,.obj sup =>
      have apart := apart_positions (fun _ _ found _ => (orderly_obj.mp (orderly_get? subOrd found)).1) sup path .settling
      refine .bind (ensures_ownSettled subOrd supOrd) fun s settles => ?_
      -- the positions already visited hold framed values, and nothing apart from them has changed
      refine .bind (.foldlM (motive := fun rest (now : Settled) => (obj now.sup).Orderly ∧
        ∃ done, done ++ rest = pairedPositions sub sup path .settling ∧
          (∀ p ∈ done, ∃ v, p.slot.get? now.sup = some v ∧ Frames p.left p.right v) ∧
          ∀ slot, (∀ p ∈ done, p.slot.Apart slot) →
            slot.get? now.sup = slot.get? (settleNegation sub path (settleFormat sub path s)).sup)
        ?_ _ _ ⟨settles.orderly,[],rfl,nofun,fun _ _ => rfl⟩) ?_
      · rintro p rest now ⟨ord,done,split,framed,same⟩
        have mem : p ∈ pairedPositions sub sup path .settling := split ▸ mem_append_right _ mem_cons_self
        rw [← split] at apart
        obtain ⟨_,_,across⟩ := pairwise_append.mp apart
        obtain ⟨lOrd,rOrd⟩ := orderly_positions subOrd supOrd mem
        refine .bind (ih p.left p.right p.path lOrd rOrd) ?_
        rintro ⟨settled,failures⟩ ⟨good,frame⟩
        have here : p.slot.get? now.sup = some p.right :=
          (same p.slot fun q before => across q before p mem_cons_self).trans (settles.get?_slot subOrd mem)
        refine .pure ⟨p.slot.orderly_place ord good,done ++ [p],by rw [append_assoc]; exact split,?_,fun slot away => ?_⟩
        · intro q visited
          rcases mem_append.mp visited with before | last
          · obtain ⟨v,found,framed⟩ := framed q before
            exact ⟨v,(Slot.get?_place_other (across q before p mem_cons_self).symm).trans found,framed⟩
          cases mem_singleton.mp last
          exact ⟨settled,Slot.get?_place_self here,frame⟩
        · exact (Slot.get?_place_other (away p (mem_append_right _ mem_cons_self))).trans
            (same slot fun q before => away q (mem_append_left _ before))
      · rintro now ⟨ord,done,all,framed,same⟩
        rw [append_nil] at all
        subst all
        refine .pure ⟨ord,.settled path settles ord (fun p mem => ?_) (fun p mem v found => ?_) same⟩
        · obtain ⟨v,found,_⟩ := framed p mem
          exact isSome_of_eq_some found
        obtain ⟨w,held,frame⟩ := framed p mem
        cases found.symm.trans held
        exact frame
    | .obj _,.null | .obj _,.bool _ | .obj _,.num _ | .obj _,.str _ | .obj _,.arr _ => exact .pure ⟨supOrd,.kept ..⟩
    | .null,_ | .bool _,_ | .num _,_ | .str _,_ | .arr _,_ => exact .pure ⟨supOrd,.kept ..⟩
end Engine
theorem reconcile_frames {σ : Type} (e : Engine (StateM σ)) (sub sup : Json) (path : String) (state : σ)
    (subOrderly : sub.Orderly) (supOrderly : sup.Orderly) :
    Engine.Frames sub sup ((e.reconcile sub sup path).run state).1.1 :=
  (Engine.ensures_frames sub.depth sub sup path subOrderly supOrderly state trivial).2.2

theorem reconcile_frames_pair : Engine.Frames (.obj narrowPair) (.obj widePair)
    (((Memory.engine {} : Engine (StateM Memory)).reconcile (.obj narrowPair) (.obj widePair) "").run {}).1.1 :=
  reconcile_frames (Memory.engine {} : Engine (StateM Memory)) (.obj narrowPair) (.obj widePair) "" {} (by decide) (by decide)
end SchemaOrder
