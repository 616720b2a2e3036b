import SchemaOrder.Proofs.Intersection.Merge
namespace SchemaOrder.Intersection
open Acceptance Schemas List Json Option Attempt
variable {σ : Type} {inv : σ → Prop} {recur : Step (StateM σ)} {lookup : Lookup (StateM σ)}
  {nums : Num → Bool} {left right : Fields} {l r : Json} {path key : String}

-- Intersection keeps values orderly, whatever they hold: schemas or anything else.
structure KeepsOrder (nums : Num → Bool) (inv : σ → Prop) (recur : Step (StateM σ)) : Prop where
  whole : ∀ w, nums (.whole w)
  merged : ∀ a b path, a.isOrderly nums → b.isOrderly nums →
    Yields inv (recur a b path) fun m => m.isOrderly nums

lemma orderly_types (made : types l r path = .ok m) : m.isOrderly nums := by
  unfold types at made
  split at made
  · cases made
  · cases made; rfl
  · cases made; exact orderly_strings _

lemma orderly_enums (ord : l.isOrderly nums) (made : enums l r path = .ok m) : m.isOrderly nums := by
  unfold enums at made
  split at made
  · split at made
    · cases made
    cases made
    exact orderly_arr.mpr fun v mem => orderly_item ord (mem_filter.mp mem).1
  · cases made; exact ord

lemma orderly_multipleOf? (whole : ∀ w, nums (.whole w)) (left : l.isOrderly nums)
    (right : r.isOrderly nums) (made : multipleOf? l r = some m) : m.isOrderly nums := by
  simp only [multipleOf?,bind_eq_bind,bind_eq_some_iff] at made
  obtain ⟨a,_,b,_,made⟩ := made
  split at made
  · cases made
  split at made
  · cases made; exact left
  split at made
  · cases made; exact right
  obtain ⟨_,_,made⟩ := bind_eq_some_iff.mp made
  obtain ⟨_,_,made⟩ := bind_eq_some_iff.mp made
  obtain ⟨lcm,fits,made⟩ := bind_eq_some_iff.mp made
  obtain ⟨w,_,rfl⟩ := map_eq_some_iff.mp fits
  cases made
  exact whole w

lemma orderly_bound (side : Side) (left : l.isOrderly nums) (right : r.isOrderly nums) : (bound side l r).isOrderly nums := by
  unfold bound
  split
  · split
    · exact right
    · exact left
  · exact left

lemma mem_of_appendNew (mem : v ∈ appendNew ls rs) : v ∈ ls ∨ v ∈ rs := by
  unfold appendNew at mem
  induction rs generalizing ls with
  | nil => exact .inl mem
  | cons entry rest ih =>
    rw [foldl_cons] at mem
    split at mem
    · exact (ih mem).imp_right (mem_cons_of_mem _)
    rcases ih mem with old | new
    · rcases mem_append.mp old with older | here
      · exact .inl older
      · exact .inr (mem_singleton.mp here ▸ .head _)
    · exact .inr (.tail _ new)

lemma orderly_appendNew (lefts : ∀ v ∈ ls, v.isOrderly nums)
    (rights : ∀ v ∈ rs, v.isOrderly nums) : ∀ v ∈ appendNew ls rs, v.isOrderly nums :=
  fun v mem => (mem_of_appendNew mem).elim (lefts v) (rights v)

lemma orderly_definitions (left : l.isOrderly nums) (right : r.isOrderly nums) : (definitions l r).isOrderly nums := by
  unfold definitions
  have each := (orderly_obj.mp (orderly_fields? left)).2
  have start := orderly_fields? right
  generalize l.fields?.getD [] = es at each
  generalize r.fields?.getD [] = out at start
  induction es generalizing out with
  | nil => exact start
  | cons entry rest ih =>
    exact ih (fun e mem => each e (.tail _ mem)) _ (orderly_put start (each entry mem_cons_self))

-- Writing orderly entries one by one.
lemma yields_foldOrderly {f : Fields → String × Json → Attempt (StateM σ) Fields}
    (ord : (obj es).isOrderly nums) (startOrderly : (obj start).isOrderly nums)
    (each : ∀ out entry, (obj out).isOrderly nums → entry.2.isOrderly nums →
      Yields inv (f out entry) fun next => (obj next).isOrderly nums) :
    Yields inv (es.foldlM f start) fun out => (obj out).isOrderly nums := by
  refine .mono (.foldlM (motive := fun rest out => (∀ e ∈ rest, e.2.isOrderly nums) ∧
    (obj out).isOrderly nums) ?_ es start ⟨(orderly_obj.mp ord).2,startOrderly⟩)
    fun _ holds => holds.2
  rintro entry rest out ⟨toCome,soFar⟩
  exact (each out entry soFar (toCome entry mem_cons_self)).mono fun next holds =>
    ⟨fun e mem => toCome e (.tail _ mem),holds⟩

lemma yields_joinMaps (combined : ∀ a b path, a.isOrderly nums → b.isOrderly nums →
    Yields inv (combine a b path) fun m => m.isOrderly nums)
    (left : (obj ls).isOrderly nums) (right : (obj rs).isOrderly nums) :
    Yields inv (joinMaps combine ls rs path) fun out => (obj out).isOrderly nums := by
  refine yields_foldOrderly right left fun out entry soFar own => ?_
  dsimp only
  split
  · next found =>
    exact .bind (combined _ _ _ (orderly_get? left found) own) fun m good => .pure (orderly_put soFar good)
  · exact .pure (orderly_put soFar own)

lemma yields_schemaMaps (keeps : KeepsOrder nums inv recur) (left : l.isOrderly nums) (right : r.isOrderly nums) :
    Yields inv (schemaMaps recur l r path) fun m => m.isOrderly nums := by
  unfold schemaMaps
  split
  · next ls rs =>
    change Yields inv (schemaMaps recur (.obj ls) (.obj rs) path) _
    rw [schemaMaps_eq]
    refine .bind (yields_joinMaps (fun a b path aOrd bOrd => ?_) left right) fun _ holds => .pure holds
    exact .orElse (keeps.merged a b path aOrd bOrd) fun _ _ => .pure rfl
  · exact .pure left

lemma yields_dependencyOrderly (keeps : KeepsOrder nums inv recur) (left : l.isOrderly nums)
    (right : r.isOrderly nums) : Yields inv (dependency recur l r path) fun m => m.isOrderly nums := by
  unfold dependency
  split
  · exact .pure (orderly_strings _)
  · exact keeps.merged _ _ _ right (orderly_single left)
  · exact keeps.merged _ _ _ left (orderly_single right)
  · exact keeps.merged _ _ _ left right

lemma yields_dependenciesOrderly (keeps : KeepsOrder nums inv recur) (left : l.isOrderly nums)
    (right : r.isOrderly nums) : Yields inv (dependencies recur l r path) fun m => m.isOrderly nums := by
  unfold dependencies
  split
  · exact .bind (yields_joinMaps (fun _ _ _ => yields_dependencyOrderly keeps) left right) fun _ holds => .pure holds
  · exact .pure left

def orderlyRule (nums : Num → Bool) : Rule := fun _ _ _ m extra =>
  m.isOrderly nums ∧ ∀ e ∈ extra, e.isOrderly nums

lemma orderlyRule_alone (ord : m.isOrderly nums) : orderlyRule nums key l r m [] := ⟨ord,nofun⟩

lemma orderlyRule_residual (left : l.isOrderly nums) (right : r.isOrderly nums) : orderlyRule nums key l r l [.single key r] :=
  ⟨left,fun _ mem => mem_singleton.mp mem ▸ orderly_single right⟩

lemma yields_keywordOrderly (keeps : KeepsOrder nums inv recur) (left : l.isOrderly nums) (right : r.isOrderly nums) :
    Yields inv (keyword recur key l r path) fun made => orderlyRule nums key l r made.1 made.2 := by
  have alone : ∀ {x}, Yields inv x (fun m => m.isOrderly nums) →
      Yields inv (do return ((← x),([] : List Json))) fun made => orderlyRule nums key l r made.1 made.2 :=
    fun yields => .bind yields fun m good => .pure (orderlyRule_alone good)
  unfold keyword
  split
  · exact .pure (orderlyRule_alone left)
  split
  · exact alone (.ofAny fun m made => orderly_types made)
  · exact .conflict trivial
  · exact alone (.ofAny fun m made => orderly_enums left made)
  · exact .pure (orderlyRule_alone (orderly_strings _))
  · exact .pure (orderlyRule_alone rfl)
  · split
    · next made => exact .pure (orderlyRule_alone (orderly_multipleOf? keeps.whole left right made))
    · exact .pure (orderlyRule_residual left right)
  · refine .pure (orderlyRule_alone (orderly_single (orderly_arr.mpr ?_)))
    simp [left,right]
  · exact .pure (orderlyRule_alone (orderly_arr.mpr
      (orderly_appendNew (orderly_itemsOrNone left) (orderly_itemsOrNone right))))
  · exact .pure (orderlyRule_alone (orderly_definitions left right))
  · split
    · exact .pure (orderlyRule_alone (orderly_bound _ left right))
    · exact .pure (orderlyRule_alone (orderly_bound _ left right))
    · split
      · exact .pure (orderlyRule_residual left right)
      · exact alone (keeps.merged _ _ _ left right)
    · exact alone (yields_schemaMaps keeps left right)
    · exact alone (yields_dependenciesOrderly keeps left right)
    · exact .pure (orderlyRule_alone left)
    · exact .pure (orderlyRule_residual left right)

structure Ruled (post : Json → Prop) (fs : Fields) : Prop where
  sorted : (declared fs).Sorted
  entries : ∀ key, key = "properties" ∨ key = "patternProperties" → ∀ e ∈ ((fs.get? key).bind fields?).getD [], post e.2
  further : ∀ s, fs.get? "additionalProperties" = some s → post s

-- What holds of all schemas for properties on either side holds of the merged ones, if merging keeps it.
lemma yields_ruledProperties (post : Json → Prop) (met : ∀ a b path, post a → post b → Yields inv (recur a b path) post)
    (empty : ∀ s, post s → post (.bool false)) (steady : Lasting inv lookup) (lefts : Ruled post left) (rights : Ruled post right) :
    Yields inv (properties lookup recur left right path) fun made => ∀ m, made = some m →
      ∃ out : Fields, m = .obj out ∧ out.Sorted ∧ ∀ e ∈ out, post e.2 := by
  have own {fs name s} (ruled : Ruled post fs) (found : (declared fs).get? name = some s) : post s :=
    ruled.entries _ (.inl rfl) _ (Fields.mem_of_get? found)
  have governed {s owner} (good : post s) (ruled : Ruled post owner) name path :
      Yields inv (constrainUndeclared lookup recur s owner name path) post :=
    .bind (.ask (ensures_eachConstraint steady (ruled.entries _ (.inr rfl)) ruled.further name)) fun _ each =>
      runs_mergedInto good fun m c inside soFar => met m c path soFar (each c inside)
  exact runs_eachProperty post lefts.sorted rights.sorted (fun name s held => empty s (held.elim (own lefts) (own rights)))
    (fun name l r atL atR path => met l r path (own lefts atL) (own rights atR))
    (fun name l atL => governed (own lefts atL) rights name)
    (fun name r atR => governed (own rights atR) lefts name) path

lemma ruled_orderly {fs : Fields} (ord : (obj fs).isOrderly nums) : Ruled (fun m => m.isOrderly nums) fs where
  sorted := (orderly_obj.mp (orderly_declared ord)).1
  entries key _ := by
    cases found : fs.get? key with
    | none => exact nofun
    | some map => exact (orderly_obj.mp (orderly_fields? (orderly_get? ord found))).2
  further _ := orderly_get? ord

lemma ensures_constraints (steady : Lasting inv lookup) {owner : Fields}
    (ord : (obj owner).isOrderly nums) (name : String) :
    Ensures inv (constraints lookup owner name) fun governing => ∀ c ∈ governing, c.isOrderly nums :=
  ensures_eachConstraint steady ((ruled_orderly ord).entries _ (.inr rfl)) (ruled_orderly ord).further name
section
variable (keeps : KeepsOrder nums inv recur)
include keeps
lemma yields_propertiesOrderly (steady : Lasting inv lookup)
    (lOrd : (obj left).isOrderly nums) (rOrd : (obj right).isOrderly nums) :
    Yields inv (properties lookup recur left right path) fun made => ∀ m, made = some m → m.isOrderly nums := by
  refine .mono (yields_ruledProperties _ keeps.merged (fun _ _ => rfl) steady (ruled_orderly lOrd) (ruled_orderly rOrd))
    fun made each m same => ?_
  obtain ⟨out,rfl,sorted,orderlies⟩ := each m same
  exact orderly_obj.mpr ⟨sorted,orderlies⟩

lemma yields_itemsOrderly (lOrd : (obj left).isOrderly nums)
    (rOrd : (obj right).isOrderly nums) : Yields inv (items recur left right path) fun made =>
      (∀ m, made.1 = some m → m.isOrderly nums) ∧ ∀ m, made.2 = some m → m.isOrderly nums := by
  have itemed {fields : Fields} (orderly : (obj fields).isOrderly nums) :
      Itemed (fun s => s.isOrderly nums) (fun s => s.isOrderly nums) fields :=
    ⟨fun _ => orderly_get? orderly,fun _ => orderly_get? orderly,fun _ found => ⟨rfl,orderly_arr.mp (orderly_get? orderly found)⟩⟩
  exact runs_items _ (itemed lOrd) (itemed rOrd) keeps.merged
    (fun a b path held => keeps.merged a b path (by tauto) (by tauto)) (fun _ held => held.elim id id) fun _ _ _ => orderly_arr.mpr
end
lemma orderly_of_get? {fs : Fields} (sorted : fs.Sorted)
    (each : ∀ key s, fs.get? key = some s → s.isOrderly nums) : (obj fs).isOrderly nums :=
  orderly_obj.mpr ⟨sorted,fun field mem => each field.1 field.2 (Fields.get?_of_mem sorted mem)⟩
section Assembled
variable {clash : Bool} {shared : Fields} {extra : String → List Json} {props xs more : Option Json}
lemma orderly_assembled (drawn : Gathered (orderlyRule nums) clash left right [] shared extra)
    (lOrd : (obj left).isOrderly nums) (rOrd : (obj right).isOrderly nums)
    (propertiesOrderly : ∀ m, props = some m → m.isOrderly nums) (itemsOrderly : ∀ m, xs = some m → m.isOrderly nums)
    (furtherOrderly : ∀ m, more = some m → m.isOrderly nums) :
    (obj (assembled clash left right shared props xs more)).isOrderly nums := by
  have rSorted := (orderly_obj.mp rOrd).1
  refine orderly_of_get? drawn.sorted_assembled fun key s found => ?_
  cases away : setAside clash key with
  | true =>
    rw [drawn.get?_aside rSorted away] at found
    split at found
    · exact propertiesOrderly s found
    split at found
    · exact itemsOrderly s found
    split at found
    · exact furtherOrderly s found
    · exact orderly_get? lOrd found
  | false =>
    rcases drawn.sources rSorted away found with atL | atR | ⟨_,_,_,_,ruled⟩
    · exact orderly_get? lOrd atL
    · exact orderly_get? rOrd atR
    · exact ruled.1

lemma orderly_extra (drawn : Gathered (orderlyRule nums) clash left right [] shared extra)
    (mem : e ∈ extra key) : e.isOrderly nums := by
  obtain ⟨l,r,m,atL,atR,inPlace,ruled⟩ := drawn.ruled (ne_nil_of_mem mem)
  exact ruled.2 e mem
end Assembled
lemma orderly_addResidual {out : Fields} {residual : List Json} (ord : (obj out).isOrderly nums)
    (orderlies : ∀ e ∈ residual, e.isOrderly nums) : (obj (addResidual out residual)).isOrderly nums := by
  unfold addResidual
  split
  · exact ord
  refine orderly_put ord (orderly_arr.mpr (orderly_appendNew ?_ orderlies))
  cases found : out.get? "allOf" with
  | none => exact nofun
  | some s => exact orderly_itemsOrNone (orderly_get? ord found)

lemma orderly_reconcileValues (ord : (obj fs).isOrderly nums)
    (made : reconcileValues fs path = .ok out) : (obj out).isOrderly nums := by
  rcases reconcileValues_cases made with rfl | ⟨_,_,found,rfl⟩
  · exact ord
  refine orderly_put ord (orderly_arr.mpr fun v mem => ?_)
  exact orderly_item (orderly_get? ord found) (mem_filter.mp mem).1

lemma yields_objectsOrderly (keeps : KeepsOrder nums inv recur) (steady : Lasting inv lookup)
    (lOrd : (obj left).isOrderly nums) (rOrd : (obj right).isOrderly nums) :
    Yields inv (objects lookup recur left right path) fun made => (obj made).isOrderly nums := by
  refine .bind (runs_sharedKeywords (orderlyRule nums) (orderly_obj.mp lOrd).1 path
    (fun key l r atLeft atRight _ => (yields_keywordOrderly keeps
      (orderly_get? lOrd atLeft) (orderly_get? rOrd atRight))) _).yields ?_
  rintro ⟨shared,residual⟩ ⟨extra,rfl,drawn⟩
  refine .bind (yields_propertiesOrderly keeps steady lOrd rOrd) fun props propertiesOrderly => ?_
  refine .bind (yields_itemsOrderly keeps lOrd rOrd) ?_
  rintro ⟨items,further⟩ ⟨itemsOrderly,furtherOrderly⟩
  refine .bind (.ofAny fun out reconciled => orderly_reconcileValues
    (orderly_addResidual (orderly_assembled drawn lOrd rOrd propertiesOrderly itemsOrderly
      furtherOrderly) ?_) reconciled) fun out orderly => ?_
  · intro e member
    rcases mem_append.mp member with apart | spare
    · split at apart
      · rw [mem_singleton.mp apart]
        exact orderly_filter rOrd _
      · cases apart
    · obtain ⟨field,_,inside⟩ := mem_flatMap.mp spare
      exact orderly_extra drawn inside
  · exact .bind (.ofAny fun _ _ => trivial) fun _ (_ : True) =>
      .pure (Bound.orderly_fold orderly)
end SchemaOrder.Intersection
