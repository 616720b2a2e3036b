import SchemaOrder.Proofs.Intersection.Combinable
namespace SchemaOrder
open Schemas Canonical List Fields Json Doubles Attempt Keyword
namespace Attempt
variable {α β γ : Type} {x y : Attempt (StateM Unit) α} {good : α → Prop} {related : α → α → Prop}
-- Where all keywords combine, two schemas have an intersection in both orders or in neither, and both come to one
-- form.
def Echoed (good : α → Prop) (related : α → α → Prop) (x y : Attempt (StateM Unit) α) : Prop :=
  Yields (fun _ => True) x fun a => good a ∧ Settles (fun _ => True) False y (related a)
namespace Echoed
lemma yields (echoed : Echoed good related x y) : Yields (fun _ => True) x good := echoed.mono fun _ holds => holds.1

lemma pure (holds : good a) (same : related a b) : Echoed good related (pure a : Attempt (StateM Unit) α) (pure b) :=
  Runs.pure ⟨holds,.pure same⟩

lemma conflict : Echoed good related (conflict c) y := Runs.conflict trivial

-- Both sides run the same attempt.
lemma self (yields : Yields (fun _ => True) x good) (refl : ∀ a, related a a) : Echoed good related x x := by
  intro s valid
  have holds := (yields s valid).2
  refine ⟨trivial,?_⟩
  generalize same : (x.run.run.run s).1 = result at holds ⊢
  match result, holds with
  | none, _ | some (.error _), _ => trivial
  | some (.ok a), holds =>
    refine ⟨holds,fun t _ => ⟨trivial,?_⟩⟩
    rw [same]
    exact refl a

-- A conflict on one side is one on the other, or else that side would have its echo here.
lemma orElse {f g : Conflict → Attempt (StateM Unit) α} (forth : Echoed good related x y)
    (back : Echoed good (fun a b => related b a) y x) (second : ∀ c d, Echoed good related (f c) (g d)) :
    Echoed good related (x.orElse f) (y.orElse g) := by
  have outcome : Always x.run.run fun result => result = (x.run.run.run ()).1 := fun _ _ => ⟨trivial,rfl⟩
  unfold Echoed Yields Runs Attempt.orElse
  rw [ExceptT.run_tryCatch,OptionT.run_bind]
  refine .bind outcome fun result is => ?_
  have first := (forth () trivial).2
  match result, is with
  | none, _ => exact .pure trivial
  | some (.ok a), is =>
    rw [← is] at first
    exact .pure ⟨first.1,.orElse first.2 fun impossible => impossible.elim⟩
  | some (.error c), is =>
    have refused : ∀ a, Settles (fun _ => True) True y (related a) := by
      intro a t _
      have echo := (back t trivial).2
      refine ⟨trivial,?_⟩
      generalize (y.run.run.run t).1 = other at echo
      match other, echo with
      | none, _ | some (.error _), _ => trivial
      | some (.ok b), ⟨_,settles⟩ =>
        have impossible := (settles () trivial).2
        rw [← is] at impossible
        exact impossible.elim
    intro t _
    have echo := fun d => ((second c d) t trivial).2
    refine ⟨trivial,?_⟩
    change Admits _ _ _ ((f c).run.run.run t).1
    generalize ((f c).run.run.run t).1 = result at echo
    match result, echo with
    | none, _ | some (.error _), _ => trivial
    | some (.ok a), echo => exact ⟨(echo c).1,.orElse (refused a) fun _ d => (echo d).2⟩

lemma map {good' : β → Prop} {related' : β → β → Prop} {f : α → β} (echoed : Echoed good related x y)
    (keeps : ∀ a, good a → good' (f a)) (same : ∀ a b, related a b → related' (f a) (f b)) :
    Echoed good' related' (do return f (← x)) (do return f (← y)) :=
  .bind echoed fun a holds => .pure ⟨keeps a holds.1,.bind holds.2 fun b related => .pure (same a b related)⟩

-- Two attempts that do not depend on each other.
lemma pair {fine : β → Prop} {alike : β → β → Prop} {good' : γ → Prop}
    {related' : γ → γ → Prop} {f : α → β → γ} (first : Echoed good related x y) (second : Echoed fine alike u v)
    (keeps : ∀ a b, good a → fine b → good' (f a b)) (same : ∀ a a' b b', related a a' → alike b b' → related' (f a b) (f a' b')) :
    Echoed good' related' (do let a ← x; let b ← u; return f a b) (do let a ← y; let b ← v; return f a b) :=
  .bind first fun a ⟨aGood,aSame⟩ => .bind second fun b ⟨bGood,bSame⟩ => .pure
    ⟨keeps a b aGood bGood,.bind aSame fun a' aRelated => .bind bSame fun b' bRelated =>
      .pure (same a a' b b' aRelated bRelated)⟩

-- Two attempts of which each side runs both, in its own order.
lemma crossed {good' : β → Prop} {related' : β → β → Prop}
    {f g : α → α → Attempt (StateM Unit) β} (first : Yields (fun _ => True) x good) (second : Yields (fun _ => True) u good)
    (next : ∀ a b, good a → good b → Echoed good' related' (f a b) (g b a)) :
    Echoed good' related' (do let a ← x; let b ← u; f a b) (do let b ← u; let a ← x; g b a) := by
  refine .bind (self first Eq.refl) fun a ⟨aGood,again⟩ => ?_
  refine .bind (self second Eq.refl) fun b ⟨bGood,anew⟩ => ?_
  refine Runs.mono (next a b aGood bGood) fun c ⟨holds,settles⟩ => ⟨holds,?_⟩
  refine .bind anew fun b' sameB => .bind again fun a' sameA => ?_
  rw [← sameA,← sameB]
  exact settles

lemma mono {good' : α → Prop} {related' : α → α → Prop} (echoed : Echoed good related x y)
    (keeps : ∀ a, good a → good' a) (same : ∀ a b, related a b → related' a b) : Echoed good' related' x y :=
  Runs.mono echoed fun a ⟨holds,settles⟩ => ⟨keeps a holds,settles.mono (same a)⟩
end Echoed
end Attempt
namespace Intersection
def Swaps (recur : Step (StateM Unit)) : Prop := ∀ a b path, a.isCombinable → b.isCombinable →
  Echoed (fun m => m.isCombinable) SameForm (recur a b path) (recur b a path)
variable {recur : Step (StateM Unit)} {lookup : Lookup (StateM Unit)} {left right : Fields} {l r : Json}
  {key path : String}

lemma commonType?_comm (a b : String) : commonType? a b = commonType? b a := by
  unfold commonType?
  split
  · next ab =>
    split
    · next ba =>
      rcases typeWithin_iff.mp ab with rfl | ⟨rfl,rfl⟩
      · rfl
      · exact absurd ba (by decide)
    · rfl
  · rfl

lemma mem_commonTypes_comm (ls rs : List String) (t : String) : t ∈ commonTypes ls rs ↔ t ∈ commonTypes rs ls := by
  rw [mem_commonTypes,mem_commonTypes]
  constructor
  · rintro ⟨a,inLeft,b,inRight,common⟩
    exact ⟨b,inRight,a,inLeft,(commonType?_comm b a).trans common⟩
  rintro ⟨a,inRight,b,inLeft,common⟩
  exact ⟨b,inLeft,a,inRight,(commonType?_comm b a).trans common⟩

lemma types_ok : (∃ m, types l r path = .ok m) ↔ ∃ t, t ∈ commonTypes (typeNames l) (typeNames r) := by
  unfold types
  split
  · next none => simp [none]
  · next only => exact ⟨fun _ => ⟨_,only ▸ mem_singleton_self _⟩,fun _ => ⟨_,rfl⟩⟩
  next some _ =>
  refine ⟨fun _ => ?_,fun _ => ⟨_,rfl⟩⟩
  exact exists_mem_of_ne_nil _ some

lemma echoed_types : Echoed (fun m => unites isCombinable "type" m) (Congruent "type")
    (.ofExcept (types l r path)) (.ofExcept (types r l path)) := by
  refine .ofAny fun m made => ⟨?_,.ofExcept (fun n there => ?_) fun c there => ?_⟩
  · exact unites_formed (by decide) (by decide) (by decide) (formed_types made)
  · refine .of_form (by decide) (congrArg (fun ns => some (strings ns)) (sortNames_congr fun t => ?_))
    rw [typeNames_types made,typeNames_types there]
    exact mem_commonTypes_comm _ _ t
  obtain ⟨t,common⟩ := types_ok.mp ⟨m,made⟩
  obtain ⟨n,other⟩ := types_ok.mpr ⟨t,(mem_commonTypes_comm _ _ t).mp common⟩
  rw [there] at other
  cases other

lemma enums_ok (lefts : ∀ v ∈ ls, v.isExact) (rights : ∀ v ∈ rs, v.isExact) :
    (∃ m, enums (.arr ls) (.arr rs) path = .ok m) ↔ ∃ v, v ∈ ls ∧ v ∈ rs := by
  constructor
  · rintro ⟨m,made⟩
    obtain ⟨common,rfl,ms⟩ := mem_enums lefts rights made
    unfold enums at made
    dsimp only at made
    split at made <;> cases made
    next some =>
      obtain ⟨v,mem⟩ := exists_mem_of_ne_nil _ some
      exact ⟨v,(ms v).mp mem⟩
  rintro ⟨v,inLeft,inRight⟩
  unfold enums
  dsimp only
  split
  · next none =>
    have mem : v ∈ ls.filter fun l => rs.any fun r => l.deepEqual r :=
      mem_filter.mpr ⟨inLeft,any_eq_true.mpr ⟨v,inRight,(deepEqual_iff (lefts v inLeft) (lefts v inLeft)).mpr rfl⟩⟩
    rw [none] at mem
    cases mem
  · exact ⟨_,rfl⟩

lemma echoed_enums (lFormed : keywordFormed isCombinable "enum" l) (rFormed : keywordFormed isCombinable "enum" r) :
    Echoed (fun m => unites isCombinable "enum" m) (Congruent "enum") (.ofExcept (enums l r path))
      (.ofExcept (enums r l path)) := by
  obtain ⟨ls,rfl,lefts⟩ := members_of_enum lFormed
  obtain ⟨rs,rfl,rights⟩ := members_of_enum rFormed
  refine .ofAny fun m made => ?_
  obtain ⟨common,rfl,ms⟩ := mem_enums lefts rights made
  have exacts v (mem : v ∈ common) : v.isExact := lefts v ((ms v).mp mem).1
  refine ⟨unites_formed (by decide) (by decide) (by decide) (formed_enum.mpr exacts),
    .ofExcept (fun n there => ?_) fun c there => ?_⟩
  · obtain ⟨others,rfl,theirs⟩ := mem_enums rights lefts there
    refine CongruentFields.congruent_enum exacts (fun v mem => rights v ((theirs v).mp mem).1) fun v => ?_
    rw [ms,theirs,and_comm]
  obtain ⟨v,inLeft,inRight⟩ := (enums_ok lefts rights).mp ⟨_,made⟩
  obtain ⟨n,other⟩ : ∃ n, enums (.arr rs) (.arr ls) path = .ok n := (enums_ok rights lefts).mpr ⟨v,inRight,inLeft⟩
  rw [there] at other
  cases other

lemma congruent_names (same : ∀ name, name ∈ ns ↔ name ∈ others) :
    Congruent "required" (.strings ns) (.strings others) := by
  have treated : ∀ v, treatment "required" v = .nameSet := fun _ => rfl
  refine .of_form (by decide) ?_
  unfold formKeyword
  rw [treated,treated]
  rw [listedStrings_strings,listedStrings_strings,sortNames_congr same]

lemma congruent_required (ls rs : List Json) :
    Congruent "required" (.arr (unionStrings ls rs)) (.arr (unionStrings rs ls)) := by
  obtain ⟨ns,made,ms⟩ := unionStrings_eq ls rs
  obtain ⟨others,there,theirs⟩ := unionStrings_eq rs ls
  rw [made,there]
  exact congruent_names fun name => by rw [ms,theirs,or_comm]

lemma form_anyOf (ls : List Json) : form (.single "anyOf" (.arr ls)) = .obj [("anyOf",.arr (sortSet (ls.map form)))] := by
  rw [← forms_eq]
  rfl

lemma congruent_not (l r : Json) : Congruent "not" (.single "anyOf" (.arr [l,r])) (.single "anyOf" (.arr [r,l])) := by
  have sets : sortSet ([l,r].map form) = sortSet ([r,l].map form) := sortSet_congr fun v => by simp [or_comm]
  refine .of_form (by decide) (congrArg some ?_)
  rw [form_anyOf,form_anyOf,sets]

lemma unites_not (left : l.isExact ∧ l.isSchemaWithout []) (right : r.isExact ∧ r.isSchemaWithout []) :
    unites isCombinable "not" (.single "anyOf" (.arr [l,r])) := by
  refine unites_iff.mpr ⟨by decide,rfl,fun _ => ⟨?_,?_⟩,fun other => absurd rfl other⟩
  · refine exact_obj.mpr ⟨sorted_single _ _,fun field mem => ?_⟩
    rw [mem_singleton.mp mem]
    exact exact_arr.mpr (by simp [left.1,right.1])
  refine isSchemaWithout_obj.mpr ⟨⟨?_,fun key s found => ?_⟩,nofun⟩
  · refine orderly_single (orderly_arr.mpr ?_)
    simp [orderly_of_exact left.1,orderly_of_exact right.1]
  rw [get?_cons] at found
  split at found
  · next same =>
    subst same
    cases found
    exact places_of_formed ((formed_list rfl).mpr ⟨_,rfl,by simp [left.2,right.2]⟩)
  · cases found

lemma congruent_allOf (lefts : ∀ s ∈ ls, s.isCombinable) (rights : ∀ s ∈ rs, s.isCombinable) :
    Congruent "allOf" (.arr (appendNew ls rs)) (.arr (appendNew rs ls)) := by
  have ms := mem_appendNew ls rs fun v mem =>
    (mem_append.mp mem).elim (fun at_ => exact_combinable (lefts v at_)) fun at_ => exact_combinable (rights v at_)
  have theirs := mem_appendNew rs ls fun v mem =>
    (mem_append.mp mem).elim (fun at_ => exact_combinable (rights v at_)) fun at_ => exact_combinable (lefts v at_)
  refine .of_form (by decide) (congrArg (fun l => some (arr l)) ?_)
  rw [forms_eq,forms_eq]
  refine sortSet_congr fun v => ?_
  simp only [mem_map,ms,theirs,or_comm]

-- Neither of two bounds is tighter only if they are equal.
lemma bound_comm (side : Side) (left : m.val.natAbs ≤ 0x20000000000000) (right : n.val.natAbs ≤ 0x20000000000000) :
    bound side (.num (.whole m)) (.num (.whole n)) = bound side (.num (.whole n)) (.num (.whole m)) := by
  have lt := fun a b : Whole => lt_iff (ofInt_number a.val) (ofInt_number b.val)
  change (if Bound.tighter side (.ofInt n.val) (.ofInt m.val) then num (.whole n) else .num (.whole m)) =
    if Bound.tighter side (.ofInt m.val) (.ofInt n.val) then num (.whole m) else .num (.whole n)
  rcases lt_trichotomy (position (.ofInt m.val)) (position (.ofInt n.val)) with below | same | above
  · cases side <;> simp [Bound.tighter,lt,below,below.not_gt]
  · obtain ⟨m,_,_⟩ := m
    obtain ⟨n,_,_⟩ := n
    obtain rfl : m = n := ofInt_injective left right same
    rfl
  · cases side <;> simp [Bound.tighter,lt,above,above.not_gt]

structure GoodFields (good : Json → Prop) (fs : Fields) : Prop where
  sorted : fs.Sorted
  each : ∀ name s, fs.get? name = some s → good s

structure RelatedFields (related : Json → Json → Prop) (f g : Fields) : Prop where
  left : f.Sorted
  right : g.Sorted
  each : ∀ name, Option.Rel related (f.get? name) (g.get? name)

-- A name that stems from one side stems from that side in the other order too.
lemma Stems.related {forth back : Json → Json → Json → Prop} {related : Json → Json → Prop}
    (refl : ∀ s, related s s) (here : Stems forth a b m) (there : Stems back b a n)
    (both : ∀ l r x y, a = some l → b = some r → m = some x → n = some y → forth l r x → back r l y → related x y) :
    Option.Rel related m n := by
  cases here with
  | neither => cases there; exact .none
  | left l => cases there; exact .some (refl l)
  | right r => cases there; exact .some (refl r)
  | both l r x holds =>
    cases there with
    | both _ _ y also => exact .some (both l r x y rfl rfl rfl rfl holds also)

lemma echoed_joinMaps {good : Json → Prop} {related : Json → Json → Prop}
    (refl : ∀ s, related s s) (combined : ∀ l r path, good l → good r →
      Echoed good related (combine l r path) (combine r l path)) (lefts : GoodFields good ls)
    (rights : GoodFields good rs) (path : String) :
    Echoed (GoodFields good) (RelatedFields related) (joinMaps combine ls rs path) (joinMaps combine rs ls path) := by
  let forth : String → Json → Json → Json → Prop := fun name l r m =>
    good m ∧ Settles (fun _ => True) False (combine r l (joinPath path name)) (related m)
  refine Runs.mono (runs_joinMaps forth lefts.sorted rights.sorted fun name l r atL atR =>
    combined l r _ (lefts.each name l atL) (rights.each name r atR)) ?_
  rintro out ⟨outSorted,here⟩
  refine ⟨⟨outSorted,fun name m found => ?_⟩,?_⟩
  · have stems := here name
    rw [found] at stems
    generalize atL : ls.get? name = a at stems
    generalize atR : rs.get? name = b at stems
    cases stems with
    | left => exact lefts.each name m atL
    | right => exact rights.each name m atR
    | both _ _ _ holds => exact holds.1
  let back : String → Json → Json → Json → Prop := fun name _ _ n => ∀ m, out.get? name = some m → related m n
  refine .mono (runs_joinMaps back rights.sorted lefts.sorted fun name r l atR atL => ?_) ?_
  · have stems := here name
    rw [atL,atR] at stems
    generalize made : out.get? name = m at stems
    cases stems with
    | both _ _ m holds =>
      refine holds.2.mono fun n same m' found => ?_
      rw [made] at found
      cases found
      exact same
  · rintro other ⟨otherSorted,there⟩
    refine ⟨outSorted,otherSorted,fun name => (here name).related refl (there name) ?_⟩
    intro l r m n _ _ atOut _ _ same
    exact same m atOut

lemma Swaps.yields (swaps : Swaps recur) (left : a.isCombinable) (right : b.isCombinable)
    (path : String) : Yields (fun _ => True) (recur a b path) fun m => m.isCombinable :=
  (swaps a b path left right).yields

-- Schemas that combine have more in common than their form.
lemma Swaps.relate (swaps : Swaps recur) {related : Json → Json → Prop} (left : a.isCombinable)
    (right : b.isCombinable) (path : String) (imp : ∀ m n, m.isCombinable → n.isCombinable → SameForm m n → related m n) :
    Echoed (fun m => m.isCombinable) related (recur a b path) (recur b a path) := by
  refine Runs.mono (swaps a b path left right) fun m ⟨good,echo⟩ => ⟨good,?_⟩
  exact (echo.and (swaps.yields right left path)).mono fun n ⟨same,fine⟩ => imp m n good fine same

lemma Swaps.entry (swaps : Swaps recur) (left : a.isCombinable) (right : b.isCombinable)
    (path : String) : Echoed (fun m => m.isCombinable) SameEntry (recur a b path) (recur b a path) :=
  swaps.relate left right path fun _ _ good fine same =>
    (formEntry_combinable good).trans (same.trans (formEntry_combinable fine).symm)

lemma goodFields_map (shape : shape key = .schemaMap) (formed : keywordFormed isCombinable key l) :
    ∃ es : Fields, l = .obj es ∧ GoodFields (fun s => s.isCombinable) es := by
  obtain ⟨es,rfl,sorted,each⟩ := (formed_map shape).mp formed
  exact ⟨es,rfl,sorted,fun name s found => each (name,s) (mem_of_get? found)⟩

lemma GoodFields.formed {es : Fields} (good : GoodFields (fun s => s.isCombinable) es)
    (shape : shape key = .schemaMap) : keywordFormed isCombinable key (.obj es) :=
  (formed_map shape).mpr ⟨es,rfl,good.sorted,fun _ mem => good.each _ _ (get?_of_mem good.sorted mem)⟩

lemma echoed_schemaMaps (swaps : Swaps recur) (left : unites isCombinable "patternProperties" l)
    (right : unites isCombinable "patternProperties" r) :
    Echoed (fun m => unites isCombinable "patternProperties" m) (Congruent "patternProperties")
      (schemaMaps recur l r path) (schemaMaps recur r l path) := by
  obtain ⟨ls,rfl,lefts⟩ := goodFields_map rfl (formed_of_unites left (by decide))
  obtain ⟨rs,rfl,rights⟩ := goodFields_map rfl (formed_of_unites right (by decide))
  rw [schemaMaps_eq]
  refine (echoed_joinMaps SameEntry.refl (fun l r path left right => ?_) lefts rights path).map (fun out good => ?_)
    fun out other related => ?_
  · exact Echoed.orElse (swaps.entry left right path)
      ((swaps.entry right left path).mono (fun _ good => good) fun _ _ same => Eq.symm same)
      fun _ _ => Echoed.pure (isCombinable_bool false) rfl
  · exact unites_formed (by decide) (by decide) (by decide) (good.formed rfl)
  · exact .of_form (by decide) (congrArg unlessEmpty (entries_congruent related.left related.right related.each))

lemma isCombinable_required (ns : List String) : (single "required" (.strings ns)).isCombinable := by
  refine isCombinable_obj.mpr ⟨sorted_single _ _,fun key s found => ?_⟩
  rw [get?_cons] at found
  split at found
  · next same =>
    subst same
    cases found
    exact unites_formed (by decide) (by decide) (by decide) (isNames_iff.mpr ⟨ns,rfl⟩)
  · cases found

lemma sameEntry_union (ls rs : List Json) : SameEntry (.arr (unionStrings ls rs)) (.arr (unionStrings rs ls)) := by
  obtain ⟨ns,made,ms⟩ := unionStrings_eq ls rs
  obtain ⟨others,there,theirs⟩ := unionStrings_eq rs ls
  have ord : ∀ ns : List String, ∀ v ∈ ns.map str, v.isOrderly Num.isInteger := fun ns =>
    orderly_arr.mp (orderly_strings ns)
  rw [made,there]
  change arr (sortSet (valueItems (ns.map str))) = .arr (sortSet (valueItems (others.map str)))
  rw [valueItems_orderly (ord ns),valueItems_orderly (ord others),sortSet_congr fun v => ?_]
  simp only [mem_map,ms,theirs,or_comm]

lemma echoed_dependency (swaps : Swaps recur) (left : isNames l ∨ l.isCombinable) (right : isNames r ∨ r.isCombinable) :
    Echoed (fun d => isNames d ∨ d.isCombinable) SameEntry (dependency recur l r path) (dependency recur r l path) := by
  -- a list of names beside a schema is merged into the schema in both orders
  have mixed {s} ns (good : s.isCombinable) :
      dependency recur (.strings ns) s path = recur s (.single "required" (.strings ns)) path ∧
      dependency recur s (.strings ns) path = recur s (.single "required" (.strings ns)) path := by
    rcases isCombinable_cases good with ⟨b,rfl⟩ | ⟨fs,rfl,_⟩ <;> exact ⟨rfl,rfl⟩
  have merged : ∀ {s} ns, s.isCombinable → Echoed (fun d => isNames d ∨ d.isCombinable) SameEntry
        (recur s (.single "required" (.strings ns)) path) (recur s (.single "required" (.strings ns)) path) :=
    fun ns good => Echoed.self ((swaps.yields good (isCombinable_required ns) path).mono fun _ => .inr) fun _ => rfl
  rcases left with lNames | lGood
  · obtain ⟨ls,rfl⟩ := isNames_iff.mp lNames
    rcases right with rNames | rGood
    · obtain ⟨rs,rfl⟩ := isNames_iff.mp rNames
      obtain ⟨ns,made,_⟩ := unionStrings_eq (ls.map str) (rs.map str)
      exact Echoed.pure (.inl (isNames_iff.mpr ⟨ns,made⟩)) (sameEntry_union _ _)
    · rw [(mixed ls rGood).1,(mixed ls rGood).2]
      exact merged ls rGood
  rcases right with rNames | rGood
  · obtain ⟨rs,rfl⟩ := isNames_iff.mp rNames
    rw [(mixed rs lGood).1,(mixed rs lGood).2]
    exact merged rs lGood
  have plain {s t} (one : s.isCombinable) (two : t.isCombinable) : dependency recur s t path = recur s t path := by
    rcases isCombinable_cases one with ⟨b,rfl⟩ | ⟨fs,rfl,_⟩ <;>
      rcases isCombinable_cases two with ⟨c,rfl⟩ | ⟨others,rfl,_⟩ <;> rfl
  rw [plain lGood rGood,plain rGood lGood]
  exact (swaps.entry lGood rGood path).mono (fun _ => .inr) fun _ _ => id

lemma echoed_dependencies (swaps : Swaps recur) (left : unites isCombinable "dependencies" l)
    (right : unites isCombinable "dependencies" r) :
    Echoed (fun m => unites isCombinable "dependencies" m) (Congruent "dependencies")
      (dependencies recur l r path) (dependencies recur r l path) := by
  have es {s} (holds : unites isCombinable "dependencies" s) : ∃ es, s = .obj es ∧ GoodFields (fun d => isNames d ∨ d.isCombinable) es := by
    obtain ⟨es,rfl,sorted,each⟩ := (formed_dependencies rfl).mp (formed_of_unites holds (by decide))
    exact ⟨es,rfl,sorted,fun name d found => each (name,d) (mem_of_get? found)⟩
  obtain ⟨ls,rfl,lefts⟩ := es left
  obtain ⟨rs,rfl,rights⟩ := es right
  refine (echoed_joinMaps SameEntry.refl (fun l r path left right => ?_) lefts rights path).map (fun out good => ?_)
    fun out other related => ?_
  · exact echoed_dependency swaps left right
  · refine unites_formed (by decide) (by decide) (by decide) ((formed_dependencies rfl).mpr ⟨out,rfl,good.sorted,?_⟩)
    exact fun _ mem => good.each _ _ (get?_of_mem good.sorted mem)
  · exact .of_form (by decide) (congrArg unlessEmpty (entries_congruent related.left related.right related.each))

def United (key : String) (made : Json × List Json) : Prop := made.2 = [] ∧ unites isCombinable key made.1

def SameUnited (key : String) (made other : Json × List Json) : Prop := other.2 = [] ∧ Congruent key made.1 other.1

lemma echoed_alone (echoed : Echoed (fun m => unites isCombinable key m) (Congruent key) x y) :
    Echoed (United key) (SameUnited key) (do return ((← x),([] : List Json))) (do return ((← y),([] : List Json))) :=
  echoed.map (fun _ good => ⟨rfl,good⟩) fun _ _ same => ⟨rfl,same⟩
section Keywords
variable {m : Type → Type} [Monad m] {recur : Step m}
lemma keyword_self (exact : l.isExact) : keyword recur key l l path = pure (l,[]) :=
  if_pos ((deepEqual_iff exact exact).mpr rfl)

lemma keyword_lower (shape : shape key = .lowerBound) (apart : l.deepEqual r = false) :
    keyword recur key l r path = pure (bound .lower l r,[]) := by
  unfold keyword
  rw [if_neg (by rw [apart]; decide)]
  split
  case h_10 => rw [shape]
  all_goals cases shape

lemma keyword_upper (shape : shape key = .upperBound) (apart : l.deepEqual r = false) :
    keyword recur key l r path = pure (bound .upper l r,[]) := by
  unfold keyword
  rw [if_neg (by rw [apart]; decide)]
  split
  case h_10 => rw [shape]
  all_goals cases shape
end Keywords
-- The keywords that are combined in place, by name or by shape.
lemma inPlace_cases (known : combinable.has key) (inPlace : setAside false key = false) :
    key ∈ ["type","const","enum","uniqueItems","required","patternProperties","additionalProperties","propertyNames",
      "dependencies","not","allOf"] ∨ shape key = .note ∨ shape key = .lowerBound ∨ shape key = .upperBound := by
  simp [Vocabulary.has,combinable,setAside] at known inPlace ⊢
  tauto

lemma unites_bound (side : Side) (left : unites isCombinable key l) (right : unites isCombinable key r) :
    unites isCombinable key (bound side l r) := by
  unfold bound
  split
  · split
    · exact right
    · exact left
  · exact left

lemma formKeyword_note (note : shape key = .note) (s : Json) : formKeyword key s = none := by
  have inert : isInert key s := by
    unfold isInert
    split
    case h_5 => exact beq_iff_eq.mpr note
    all_goals cases note
  have dropped : treatment key s = .drop := if_pos inert
  unfold formKeyword
  rw [dropped]

-- A single sub-schema may be left out of a form where it accepts everything.
lemma echoed_subSchema (swaps : Swaps recur) (left : unites isCombinable key l)
    (right : unites isCombinable key r) (shape : shape key = .subSchema)
    (optional : key ∈ ["additionalProperties","additionalItems","propertyNames"]) :
    Echoed (fun m => unites isCombinable key m) (Congruent key) (recur l r path) (recur r l path) := by
  have other : key ≠ "not" := by rintro rfl; exact absurd optional (by decide)
  have good := fun {s} (holds : unites isCombinable key s) =>
    (formed_subSchema shape).symm.trans (formed_of_unites holds other)
  refine (swaps l r path (good left) (good right)).mono (fun m fine => ?_) fun m n same => ?_
  · exact unites_formed (known_of_unites left) other (by simp [shape]) ((formed_subSchema shape).trans fine)
  refine .of_form (by simp [shape]) ?_
  fin_cases optional <;> exact congrArg unlessTrivial same

lemma echoed_keyword (swaps : Swaps recur) (left : unites isCombinable key l)
    (right : unites isCombinable key r) (lExact : l.isExact) (rExact : r.isExact)
    (inPlace : setAside false key = false) :
    Echoed (United key) (SameUnited key) (keyword recur key l r path) (keyword recur key r l path) := by
  by_cases same : l = r
  · subst same
    rw [keyword_self lExact]
    exact .pure ⟨rfl,left⟩ ⟨rfl,.refl key l⟩
  have forth : ¬ l.deepEqual r := fun equal => same ((deepEqual_iff lExact rExact).mp equal)
  have back : ¬ r.deepEqual l := fun equal => same ((deepEqual_iff rExact lExact).mp equal).symm
  have bounds side (bounded : shape key ∈ [.lowerBound,.upperBound]) :
      Echoed (United key) (SameUnited key) (pure (bound side l r,[])) (pure (bound side r l,[])) := by
    obtain ⟨m,rfl,lSmall⟩ := small_of_bound left bounded
    obtain ⟨n,rfl,rSmall⟩ := small_of_bound right bounded
    rw [bound_comm side rSmall lSmall]
    exact .pure ⟨rfl,unites_bound side left right⟩ ⟨rfl,.refl key _⟩
  rcases inPlace_cases (known_of_unites left) inPlace with named | note | lower | upper
  · simp only [mem_cons,not_mem_nil,or_false] at named
    unfold keyword
    rw [if_neg forth,if_neg back]
    rcases named with rfl | rfl | rfl | rfl | rfl | rfl | rfl | rfl | rfl | rfl | rfl
    · exact (echoed_alone echoed_types)
    · exact .conflict
    · exact (echoed_alone (echoed_enums (formed_of_unites left (by decide)) (formed_of_unites right (by decide))))
    · refine (.pure ⟨rfl,rfl⟩ ⟨rfl,?_⟩)
      rw [Bool.or_comm]
      exact .refl _ _
    · obtain ⟨ns,made,_⟩ := unionStrings_eq l.itemsOrNone r.itemsOrNone
      exact (.pure ⟨rfl,unites_formed (by decide) (by decide) (by decide)
        (isNames_iff.mpr ⟨ns,made⟩)⟩ ⟨rfl,congruent_required _ _⟩)
    · exact (echoed_alone (echoed_schemaMaps swaps left right))
    · exact (echoed_alone (echoed_subSchema swaps left right (by decide) (by decide)))
    · exact (echoed_alone (echoed_subSchema swaps left right (by decide) (by decide)))
    · exact (echoed_alone (echoed_dependencies swaps left right))
    · have negated := fun {s} (holds : unites isCombinable "not" s) => (unites_iff.mp holds).2.2.1 rfl
      exact (.pure ⟨rfl,unites_not (negated left) (negated right)⟩ ⟨rfl,congruent_not _ _⟩)
    · obtain ⟨ls,rfl,lefts⟩ := (formed_list rfl).mp (formed_of_unites left (by decide))
      obtain ⟨rs,rfl,rights⟩ := (formed_list rfl).mp (formed_of_unites right (by decide))
      refine (.pure ⟨rfl,?_⟩ ⟨rfl,congruent_allOf lefts rights⟩)
      refine unites_formed (by decide) (by decide) (by decide) ((formed_list rfl).mpr ⟨_,rfl,fun s mem => ?_⟩)
      exact (mem_of_appendNew mem).elim (lefts s) (rights s)
  · rw [keyword_note note,keyword_note note]
    refine .pure ⟨rfl,left⟩ ⟨rfl,.of_form (by simp [note]) ?_⟩
    rw [formKeyword_note note,formKeyword_note note]
  · rw [keyword_lower lower (Bool.not_eq_true _ ▸ forth),keyword_lower lower (Bool.not_eq_true _ ▸ back)]
    exact bounds .lower (by simp [lower])
  · rw [keyword_upper upper (Bool.not_eq_true _ ▸ forth),keyword_upper upper (Bool.not_eq_true _ ▸ back)]
    exact bounds .upper (by simp [upper])
end Intersection
end SchemaOrder
