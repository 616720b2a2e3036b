import SchemaOrder.Proofs.Intersection.Heft
import SchemaOrder.Proofs.Intersection.Roots
import SchemaOrder.Proofs.Simulation
namespace SchemaOrder.Intersection
open Acceptance Heft List Fields Json Attempt Keyword Option
variable {σ : Type} {inv : σ → Prop} {nums : Num → Bool} {recur : Step (StateM σ)}
  {lookup : Lookup (StateM σ)} {n : Nat} {left right : Fields} {l r : Json} {path key : String} {fs : Fields}
  {bound : Nat}

-- Intersection comes to an end, although the entries of `allOf` that are folded in leave new residual entries behind.
structure Ending (nums : Num → Bool) (inv : σ → Prop) (n : Nat) (recur : Step (StateM σ)) : Prop
    extends KeepsOrder nums inv recur where
  ends : ∀ a b path, a.isOrderly nums → b.isOrderly nums → a.heft + b.heft ≤ n →
    Ends inv (recur a b path) fun m => m.heft ≤ a.heft + b.heft

lemma Ending.meets (ending : Ending nums inv n recur) (path : String) (aOrd : a.isOrderly nums)
    (bOrd : b.isOrderly nums) (light : a.heft + b.heft ≤ n) :
    Ends inv (recur a b path) fun m => m.heft ≤ a.heft + b.heft ∧ m.isOrderly nums :=
  (ending.ends a b path aOrd bOrd light).and (ending.merged a b path aOrd bOrd)

lemma total_put (sorted : fs.Sorted) (f : Json → Nat) (key : String) (v : Json) :
    total f ((fs.put key v).map Prod.snd) + ((fs.get? key).map f).getD 0 = total f (fs.map Prod.snd) + f v := by
  induction fs with
  | nil => simp [put]
  | cons field rest ih =>
    unfold put
    rw [get?_cons]
    split
    · simp
      omega
    split
    · next above =>
      have absent : get? rest key = none := by
        cases found : get? rest key with
        | none => rfl
        | some u =>
          have below := (pairwise_cons.mp sorted).1 _ (mem_of_get? found)
          exact absurd above (lt_asymm below)
      simp [absent]
      omega
    · have later := ih (pairwise_cons.mp sorted).2
      simp only [map_cons,total_cons]
      omega

lemma values_obj (map : Fields) : (obj map).values = map.map Prod.snd := rfl

lemma ends_schemaMaps (ending : Ending nums inv n recur) (lOrd : l.isOrderly nums)
    (rOrd : r.isOrderly nums) (light : total heft l.values + total heft r.values ≤ n) :
    Ends inv (schemaMaps recur l r path) fun m =>
      total heft m.values ≤ total heft l.values + total heft r.values := by
  unfold schemaMaps
  split
  · next ls rs =>
    obtain ⟨lSorted,lefts⟩ := orderly_obj.mp lOrd
    obtain ⟨rSorted,rights⟩ := orderly_obj.mp rOrd
    rw [values_obj,values_obj] at light ⊢
    -- the entries to come have met nobody yet
    refine .bind (.foldlM (motive := fun rest (out : Fields) => out.Sorted ∧ Sorted rest ∧
      (∀ e ∈ rest, e ∈ rs ∧ out.get? e.1 = get? ls e.1) ∧
      total heft (out.map Prod.snd) + total heft (map Prod.snd rest) ≤
        total heft (map Prod.snd ls) + total heft (map Prod.snd rs)) ?_ rs ls
      ⟨lSorted,rSorted,fun e mem => ⟨mem,rfl⟩,le_rfl⟩) fun out holds => ?_
    · rintro ⟨name,schema⟩ rest out ⟨sorted,restSorted,fresh,count⟩
      obtain ⟨inside,unmet⟩ := fresh _ mem_cons_self
      obtain ⟨least,tail⟩ := pairwise_cons.mp restSorted
      have next m (below : m.heft ≤ ((out.get? name).map heft).getD 0 + schema.heft) :
          (out.put name m).Sorted ∧ Fields.Sorted rest ∧
          (∀ e ∈ rest, e ∈ rs ∧ (out.put name m).get? e.1 = get? ls e.1) ∧
          total heft ((out.put name m).map Prod.snd) + total heft (map Prod.snd rest) ≤
          total heft (map Prod.snd ls) + total heft (map Prod.snd rs) := by
        refine ⟨sorted_put sorted,tail,fun e mem => ?_,?_⟩
        · obtain ⟨known,same⟩ := fresh e (.tail _ mem)
          have differs : name ≠ e.1 := ne_of_lt (least e mem)
          exact ⟨known,(get?_put_other differs).trans same⟩
        have put := total_put sorted heft name m
        simp only [map_cons,total_cons] at count
        omega
      dsimp only
      split
      · next own found =>
        have ownLight : own.heft ≤ total heft (map Prod.snd ls) := total_member (mem_map_of_mem (mem_of_get? found))
        have otherLight : schema.heft ≤ total heft (map Prod.snd rs) := total_member (mem_map_of_mem inside)
        rw [unmet,found] at next
        refine .bind (.orElse (ending.ends own schema _ (lefts _ (mem_of_get? found))
          (rights _ inside) (by omega)) fun _ _ => .pure ?_) fun m below => .pure (next m below)
        rw [heft_bool]
        have := heft_pos own
        omega
      · exact .bind (.pure rfl) fun m same =>
          .pure (next m (same ▸ Nat.le_add_left _ _))
    · obtain ⟨_,_,_,count⟩ := holds
      exact .pure (by simpa [values_obj] using count)
  · exact .pure (Nat.le_add_right _ _)

-- Writing entries of bounded heft one by one.
lemma ends_foldBounded {f : Fields → String × Json → Attempt (StateM σ) Fields} {es start : Fields}
    (bound : Nat) (light : ∀ e ∈ start, e.2.heft ≤ bound) (each : ∀ out entry, entry ∈ es → (∀ e ∈ out, e.2.heft ≤ bound) →
      Ends inv (f out entry) fun next => ∀ e ∈ next, e.2.heft ≤ bound) :
    Ends inv (es.foldlM f start) fun out => ∀ e ∈ out, e.2.heft ≤ bound := by
  refine .mono (.foldlM (motive := fun rest out => (∀ e ∈ rest, e ∈ es) ∧
    ∀ e ∈ out, e.2.heft ≤ bound) ?_ es start ⟨fun _ mem => mem,light⟩) fun _ holds => holds.2
  rintro entry rest out ⟨within,soFar⟩
  exact (each out entry (within entry mem_cons_self) soFar).mono fun next holds =>
    ⟨fun e mem => within e (.tail _ mem),holds⟩

lemma bounded_put {name : String} {m : Json} (soFar : ∀ e ∈ fs, e.2.heft ≤ bound)
    (below : m.heft ≤ bound) : ∀ e ∈ fs.put name m, e.2.heft ≤ bound := by
  intro e mem
  rcases mem_put mem with rfl | old
  · exact below
  · exact soFar e old

lemma ends_dependency (ending : Ending nums inv n recur) (lOrd : l.isOrderly nums)
    (rOrd : r.isOrderly nums) (light : l.heft + r.heft ≤ n) :
    Ends inv (dependency recur l r path) fun m => m.heft ≤ l.heft + r.heft := by
  have required : ∀ ns, (single "required" (.arr ns)).heft ≤ (arr ns).heft := fun ns =>
    le_trans (le_of_eq (heft_single (by decide))) (heft_pos _)
  unfold dependency
  split
  · next ls rs =>
    have flat : most heft (unionStrings ls rs) ≤ 1 := by
      refine most_le_iff.mpr fun v mem => ?_
      obtain ⟨text,_,rfl⟩ := mem_map.mp mem
      exact le_of_eq (heft_eq _)
    rw [heft_arr,heft_arr]
    exact .pure (by rw [heft_arr]; omega)
  · next ns _ =>
    have := required ns
    exact (ending.ends _ _ _ rOrd (orderly_single lOrd) (by omega)).mono fun m below => by omega
  · next ns _ =>
    have := required ns
    exact (ending.ends _ _ _ lOrd (orderly_single rOrd) (by omega)).mono fun m below => by omega
  · exact ending.ends _ _ _ lOrd rOrd light

lemma ends_dependencies (ending : Ending nums inv n recur) (lOrd : l.isOrderly nums)
    (rOrd : r.isOrderly nums) (light : most heft l.values + most heft r.values ≤ n) :
    Ends inv (dependencies recur l r path) fun m => ∀ v ∈ m.values, v.heft ≤ most heft l.values + most heft r.values := by
  unfold dependencies
  split
  · next ls rs =>
    have lefts := (orderly_obj.mp lOrd).2
    have rights := (orderly_obj.mp rOrd).2
    refine .bind (ends_foldBounded (most heft (obj ls).values + most heft (obj rs).values)
      (fun e mem => ?_) ?_) fun out holds => .pure fun v mem => ?_
    · exact le_trans (le_most (mem_map_of_mem (f := Prod.snd) mem)) (Nat.le_add_right _ _)
    · rintro out ⟨name,own⟩ inside soFar
      have ownLight : own.heft ≤ most heft (obj rs).values := le_most (mem_map_of_mem (f := Prod.snd) inside)
      dsimp only
      split
      · next other found =>
        have otherLight : other.heft ≤ most heft (obj ls).values :=
          le_most (mem_map_of_mem (f := Prod.snd) (mem_of_get? found))
        exact .bind (ends_dependency ending (lefts _ (mem_of_get? found)) (rights _ inside) (by omega))
          fun m below => .pure (bounded_put soFar (by omega))
      · exact .bind (.pure rfl) fun m same =>
          .pure (bounded_put soFar (by subst same; omega))
    · obtain ⟨e,inside,rfl⟩ := mem_map.mp mem
      exact holds e inside
  · exact .pure fun v mem => le_trans (le_most mem) (Nat.le_add_right _ _)

structure HeftRule (key : String) (l r m : Json) (extra : List Json) : Prop where
  spare : extra = [] ∨ (extra = [.single key r] ∧ key ∉ opened)
  allOf : key = "allOf" → total heft m.itemsOrNone ≤ total heft l.itemsOrNone + total heft r.itemsOrNone
  one : key = "propertyNames" ∨ key = "additionalProperties" → m.heft ≤ l.heft + r.heft
  patterns : key = "patternProperties" → total heft m.values ≤ total heft l.values + total heft r.values
  dependencies : key = "dependencies" → ∀ v ∈ m.values, v.heft ≤ most heft l.values + most heft r.values

lemma HeftRule.kept : HeftRule key l r l [] where
  spare := .inl rfl
  allOf _ := Nat.le_add_right _ _
  one _ := Nat.le_add_right _ _
  patterns _ := Nat.le_add_right _ _
  dependencies _ _ mem := le_trans (le_most mem) (Nat.le_add_right _ _)

-- Keywords whose values nobody looks into weigh the same whatever they hold.
lemma HeftRule.closed (closed : key ∉ opened) (spare : extra = [] ∨ extra = [.single key r]) : HeftRule key l r m extra where
  spare := spare.imp_right fun same => ⟨same,closed⟩
  allOf same := absurd (same ▸ by decide) closed
  one same := absurd (by rcases same with rfl | rfl <;> decide) closed
  patterns same := absurd (same ▸ by decide) closed
  dependencies same := absurd (same ▸ by decide) closed

lemma total_appendNew (f : Json → Nat) (ls rs : List Json) : total f (appendNew ls rs) ≤ total f ls + total f rs := by
  unfold appendNew
  induction rs generalizing ls with
  | nil => exact le_rfl
  | cons entry rest ih =>
    rw [foldl_cons,total_cons]
    split
    · have := ih ls
      omega
    have := ih (ls ++ [entry])
    rw [total_append,total_cons,total_nil] at this
    omega

lemma closed_of_shape (other : shape key ∉ [.subSchema,.items,.schemaList,.schemaMap,.dependencies]) : key ∉ opened := by
  intro mem
  fin_cases mem <;> exact other (by decide)

structure Light (n : Nat) (key : String) (l r : Json) : Prop where
  one : key = "propertyNames" ∨ key = "additionalProperties" → l.heft + r.heft ≤ n
  patterns : key = "patternProperties" → total heft l.values + total heft r.values ≤ n
  dependencies : key = "dependencies" → most heft l.values + most heft r.values ≤ n

lemma ends_keyword (ending : Ending nums inv n recur) (lOrd : l.isOrderly nums)
    (rOrd : r.isOrderly nums) (inPlace : key ∉ ["properties","items","additionalItems"]) (light : Light n key l r) :
    Ends inv (keyword recur key l r path) fun made => HeftRule key l r made.1 made.2 := by
  have alone : ∀ {x} {post}, Ends inv x post → (∀ m, post m → HeftRule key l r m []) →
      Ends inv (do return ((← x),([] : List Json))) fun made => HeftRule key l r made.1 made.2 :=
    fun ends imp => .bind ends fun m holds => .pure (imp m holds)
  unfold keyword
  split
  · exact .pure .kept
  split
  · exact alone (.ofAny fun _ _ => trivial) fun _ (_ : True) => .closed (by decide) (.inl rfl)
  · exact .conflict trivial
  · exact alone (.ofAny fun _ _ => trivial) fun _ (_ : True) => .closed (by decide) (.inl rfl)
  iterate 2 exact .pure (.closed (by decide) (.inl rfl))
  · split
    · exact .pure (.closed (by decide) (.inl rfl))
    · exact .pure (.closed (by decide) (.inr rfl))
  · exact .pure (.closed (by decide) (.inl rfl))
  · refine .pure ⟨.inl rfl,fun _ => total_appendNew _ _ _,fun same => ?_,fun same => ?_,fun same => ?_⟩
    all_goals exact absurd same (by decide)
  · exact .pure (.closed (by decide) (.inl rfl))
  next notNot notAllOf notDefinitions =>
  split
  · next shape => exact .pure (.closed (closed_of_shape (by rw [shape]; decide)) (.inl rfl))
  · next shape => exact .pure (.closed (closed_of_shape (by rw [shape]; decide)) (.inl rfl))
  · next shape =>
    split
    · next residual =>
      refine .pure (.closed (fun mem => ?_) (.inr rfl))
      exact absurd residual (by fin_cases mem <;> decide)
    next ordinary =>
    have isOne : key = "propertyNames" ∨ key = "additionalProperties" := by
      have keys := shape_subSchema shape
      simp only [residualSubSchemas,contains_eq_mem,decide_eq_true_eq,mem_cons,not_or] at keys ordinary inPlace
      tauto
    refine alone (ending.ends l r _ lOrd rOrd (light.one isOne)) fun m below =>
      ⟨.inl rfl,fun same => absurd same notAllOf,fun _ => below,fun same => ?_,fun same => ?_⟩
    · rcases isOne with rfl | rfl <;> exact absurd same (by decide)
    · rcases isOne with rfl | rfl <;> exact absurd same (by decide)
  · next shape =>
    have isPatterns : key = "patternProperties" := by
      have keys := shape_schemaMap shape
      simp only [mem_cons] at keys inPlace
      tauto
    subst isPatterns
    refine alone (ends_schemaMaps ending lOrd rOrd (light.patterns rfl)) fun m below =>
      ⟨.inl rfl,(absurd · (by decide)),(absurd · (by decide)),fun _ => below,(absurd · (by decide))⟩
  · next shape =>
    obtain rfl := shape_dependencies shape
    refine alone (ends_dependencies ending lOrd rOrd (light.dependencies rfl)) fun m below =>
      ⟨.inl rfl,(absurd · (by decide)),(absurd · (by decide)),(absurd · (by decide)),fun _ => below⟩
  · exact .pure .kept
  · next notBelow notMap notDependencies _ =>
    refine .pure (.closed (fun mem => ?_) (.inr rfl))
    simp only [opened,placed,cons_append,nil_append,mem_cons,not_mem_nil,or_false] at mem inPlace
    rcases mem with rfl | rfl | rfl | rfl | rfl | rfl | rfl | rfl
    · exact notAllOf rfl
    · exact inPlace (.inl rfl)
    · exact inPlace (.inr (.inl rfl))
    · exact inPlace (.inr (.inr rfl))
    · exact notBelow rfl
    · exact notDependencies rfl
    · exact notMap rfl
    · exact notBelow rfl

lemma entriesAt_eq (fs : Fields) (key : String) :
    entriesAt fs key = (((fs.get? key).bind fields?).getD []).map Prod.snd := by
  unfold entriesAt
  cases fs.get? key <;> rfl

lemma ensures_lightGoverning (steady : Lasting inv lookup) (owner : Fields) (name : String) :
    Ensures inv (constraints lookup owner name) fun governing => total heft governing ≤ total heft (rules owner) := by
  rw [rules,total_append,entriesAt_eq]
  refine .bind (Ensures.sublist_filterM (fun entry => ?_) _) fun governing part => ?_
  · refine .bind (steady entry.1) fun found _ => ?_
    cases found <;> exact .pure trivial
  split
  · exact .pure (Nat.le_add_left _ _)
  · exact .pure (le_trans (total_sublist (part.map Prod.snd)) (Nat.le_add_right _ _))

lemma ends_constrainUndeclared (ending : Ending nums inv n recur) (steady : Lasting inv lookup)
    (ord : schema.isOrderly nums) (ownerOrderly : (obj owner).isOrderly nums)
    (light : schema.heft + total heft (rules owner) ≤ n) (name path : String) :
    Ends inv (constrainUndeclared lookup recur schema owner name path) fun m =>
      m.heft ≤ schema.heft + total heft (rules owner) := by
  refine .bind (.ask (.and (ensures_lightGoverning steady owner name)
    (ensures_constraints steady ownerOrderly name))) fun governing ⟨bounded,orderlies⟩ => ?_
  refine .mono (.foldlM (motive := fun rest m => (∀ c ∈ rest, c.isOrderly nums) ∧
    m.isOrderly nums ∧ m.heft + total heft rest ≤ schema.heft + total heft (rules owner)) ?_ governing
    schema ⟨orderlies,ord,Nat.add_le_add_left bounded _⟩) fun m holds => by simpa using holds.2.2
  rintro c rest m ⟨toCome,mOrderly,count⟩
  rw [total_cons] at count
  refine (ending.meets path mOrderly (toCome c mem_cons_self) (by omega)).mono fun next ⟨below,nextOrderly⟩ =>
    ⟨fun e mem => toCome e (.tail _ mem),nextOrderly,by omega⟩

lemma reach_singles (mem : v ∈ singles fs) : v.heft ≤ reach heft fs := le_trans (le_most mem) (le_max_left _ _)

lemma reach_rules (fs : Fields) : total heft (rules fs) ≤ reach heft fs := le_max_right _ _
section
variable (ending : Ending nums inv n recur)
include ending
lemma ends_properties (steady : Lasting inv lookup)
    (lOrd : (obj left).isOrderly nums) (rOrd : (obj right).isOrderly nums)
    (light : reach heft left + reach heft right ≤ n) :
    Ends inv (properties lookup recur left right path) fun made => ∀ m, made = some m →
      ∀ v ∈ m.values, v.heft ≤ reach heft left + reach heft right := by
  have own {fs : Fields} (ord : (obj fs).isOrderly nums) {name s}
      (found : (declared fs).get? name = some s) : s.isOrderly nums ∧ s.heft ≤ reach heft fs := by
    refine ⟨orderly_get? (orderly_declared ord) found,reach_singles (mem_singles.mpr (.inl ?_))⟩
    rw [entriesAt_eq]
    exact mem_map_of_mem (mem_of_get? found)
  have lRules := reach_rules left
  have rRules := reach_rules right
  refine .mono (runs_eachProperty (fun m => m.heft ≤ reach heft left + reach heft right)
    (orderly_obj.mp (orderly_declared lOrd)).1 (orderly_obj.mp (orderly_declared rOrd)).1 ?_ ?_ ?_ ?_ path) fun made each m same v mem => ?_
  · intro name s held
    have := heft_pos s
    have := held.imp (fun found => (own lOrd found).2) fun found => (own rOrd found).2
    rw [heft_bool]
    omega
  · intro name l r atL atR path
    obtain ⟨lOrderly,lLight⟩ := own lOrd atL
    obtain ⟨rOrderly,rLight⟩ := own rOrd atR
    exact (ending.ends l r path lOrderly rOrderly (by omega)).mono fun m below => by omega
  · intro name l atL path
    obtain ⟨ord,lLight⟩ := own lOrd atL
    exact (ends_constrainUndeclared ending steady ord rOrd (by omega) _ _).mono fun m below => by omega
  · intro name r atR path
    obtain ⟨ord,rLight⟩ := own rOrd atR
    exact (ends_constrainUndeclared ending steady ord lOrd (by omega) _ _).mono fun m below => by omega
  · obtain ⟨out,rfl,_,below⟩ := each m same
    obtain ⟨e,inside,rfl⟩ := mem_map.mp mem
    exact below e inside

lemma ends_items (lOrd : (obj left).isOrderly nums)
    (rOrd : (obj right).isOrderly nums) (light : reach heft left + reach heft right ≤ n) :
    Ends inv (items recur left right path) fun made =>
      (∀ m, made.1 = some m → m.heft ≤ reach heft left + reach heft right) ∧
        ∀ m, made.2 = some m → m.heft ≤ reach heft left + reach heft right := by
  -- a tuple counts one more than its entries
  have itemed {fields : Fields} (orderly : (obj fields).isOrderly nums) :
      Itemed (fun s => s.isOrderly nums ∧ s.heft ≤ reach heft fields) (fun s => s.isOrderly nums ∧ s.heft < reach heft fields)
        fields := by
    have single s (found : fields.get? "items" = some s) : s.isOrderly nums ∧ s.heft ≤ reach heft fields :=
      ⟨orderly_get? orderly found,reach_singles (mem_singles.mpr (.inr (.inl found)))⟩
    refine ⟨single,fun s found => ⟨orderly_get? orderly found,reach_singles (mem_singles.mpr (.inr (.inr (.inl found))))⟩,
      fun list found => ?_⟩
    obtain ⟨listOrderly,below⟩ := single _ found
    rw [heft_arr] at below
    refine ⟨⟨rfl,by rw [heft_bool]; omega⟩,fun t inside => ⟨orderly_item listOrderly inside,?_⟩⟩
    have : t.heft ≤ most heft list := le_most inside
    omega
  refine runs_items (fun m => m.heft < reach heft left + reach heft right) (itemed lOrd) (itemed rOrd)
    (fun a b path aGood bGood => ?_) (fun a b path held => ?_) (fun s held => by omega) fun s list good each => ?_
  · exact (ending.ends a b path aGood.1 bGood.1 (by omega)).mono fun m below => by omega
  · have goods : a.isOrderly nums ∧ b.isOrderly nums := by tauto
    have less : a.heft + b.heft < reach heft left + reach heft right := by omega
    exact (ending.ends a b path goods.1 goods.2 (by omega)).mono fun m below => lt_of_le_of_lt below less
  · have := heft_pos s
    have : most heft list ≤ reach heft left + reach heft right - 1 :=
      most_le_iff.mpr fun m inside => Nat.le_sub_one_of_lt (each m inside)
    rw [heft_arr]
    omega
end
section Assembled
variable {clash : Bool} {shared : Fields} {props xs more : Option Json} {extra : String → List Json}
lemma Stems.le {combined : Json → Json → Json → Prop} {l r o : Option Json} (stems : Stems combined l r o)
    (measure : Option Json → Nat) (both : ∀ l r m, combined l r m → measure (some m) ≤ measure (some l) + measure (some r)) :
    measure o ≤ measure l + measure r := by
  cases stems with
  | neither | left => exact Nat.le_add_right _ _
  | right => exact Nat.le_add_left _ _
  | both l r m ruled => exact both l r m ruled

lemma reach_assembled (drawn : Gathered HeftRule clash left right [] shared extra) (rSorted : right.Sorted)
    (propertiesLight : ∀ m, props = some m → ∀ v ∈ m.values, v.heft ≤ reach heft left + reach heft right)
    (itemsLight : ∀ m, xs = some m → m.heft ≤ reach heft left + reach heft right)
    (furtherLight : ∀ m, more = some m → m.heft ≤ reach heft left + reach heft right) :
    reach heft (assembled clash left right shared props xs more) ≤ reach heft left + reach heft right := by
  have aside : ∀ {key}, key ∈ ["properties","items","additionalItems"] →
      (assembled clash left right shared props xs more).get? key =
        if key = "properties" then props else if key = "items" then xs
          else if key = "additionalItems" then more else left.get? key :=
    fun mem => drawn.get?_aside rSorted (setAside_iff.mpr (.inl mem))
  have stems key inPlace : Stems (fun l r m => HeftRule key l r m (extra key)) (left.get? key) (right.get? key)
      ((assembled clash left right shared props xs more).get? key) := drawn.stems rSorted inPlace _ _ _
  have named := (stems "propertyNames" (by cases clash <;> decide)).le (fun o => (o.map heft).getD 0)
    fun l r m ruled => ruled.one (.inl rfl)
  have dependents := (stems "dependencies" (by cases clash <;> decide)).le (fun o => most heft ((o.map values).getD []))
    fun l r m ruled => most_le_iff.mpr (ruled.dependencies rfl)
  have patterns := (stems "patternProperties" (by cases clash <;> decide)).le
    (fun o => total heft ((o.map values).getD [])) fun l r m ruled => ruled.patterns rfl
  have further := (stems "additionalProperties" (by cases clash <;> decide)).le (fun o => total heft o.toList)
    fun l r m ruled => by simpa using ruled.one (.inr rfl)
  have alone {fs} : ((fs.get? "propertyNames").map heft).getD 0 ≤ reach heft fs := by
    cases found : fs.get? "propertyNames" with
    | none => exact Nat.zero_le _
    | some v => exact reach_singles (mem_singles.mpr (.inr (.inr (.inr (.inl found)))))
  have dependent : ∀ {fs}, most heft (entriesAt fs "dependencies") ≤ reach heft fs :=
    most_le_iff.mpr fun v mem => reach_singles (mem_singles.mpr (.inr (.inr (.inr (.inr mem)))))
  refine Nat.max_le.mpr ⟨most_le_iff.mpr fun v mem => ?_,?_⟩
  · rcases mem_singles.mp mem with inside | found | found | found | inside
    · obtain ⟨map,name,found,entry⟩ := mem_entriesAt.mp inside
      rw [aside (by decide)] at found
      exact propertiesLight _ found v (mem_map_of_mem (f := Prod.snd) entry)
    · rw [aside (by decide)] at found
      exact itemsLight v found
    · rw [aside (by decide)] at found
      exact furtherLight v found
    · rw [found] at named
      exact le_trans named (add_le_add alone alone)
    · exact le_trans (le_most inside) (le_trans dependents (add_le_add dependent dependent))
  · have lRules := reach_rules left
    have rRules := reach_rules right
    rw [rules,total_append] at lRules rRules ⊢
    unfold entriesAt at lRules rRules ⊢
    omega

def staying (clash : Bool) (right : Fields) : Finset String := (loose right).filter fun key => setAside clash key = false

lemma loose_assembled (drawn : Gathered HeftRule clash left right [] shared extra) (rSorted : right.Sorted) :
    loose (assembled clash left right shared props xs more) ⊆ loose left ∪ staying clash right := by
  intro key mem
  obtain ⟨held,free⟩ := mem_loose.mp mem
  rw [Finset.mem_union,staying,Finset.mem_filter,mem_loose,mem_loose]
  cases away : setAside clash key with
  | true =>
    have conditional : ¬ key = "properties" ∧ ¬ key = "items" ∧ ¬ key = "additionalItems" := by
      refine ⟨?_,?_,?_⟩ <;> rintro rfl <;> exact free (by decide)
    rw [has,drawn.get?_aside rSorted away,if_neg conditional.1,if_neg conditional.2.1,if_neg conditional.2.2] at held
    exact .inl ⟨held,free⟩
  | false =>
    obtain ⟨v,found⟩ := has_iff.mp held
    rcases drawn.sources rSorted away found with atL | atR | ⟨l,r,atL,_⟩
    · exact .inl ⟨has_iff.mpr ⟨_,atL⟩,free⟩
    · exact .inr ⟨⟨has_iff.mpr ⟨_,atR⟩,free⟩,rfl⟩
    · exact .inl ⟨has_iff.mpr ⟨_,atL⟩,free⟩

-- Each keyword that leaves something over stands on both sides.
lemma total_extra (drawn : Gathered HeftRule clash left right [] shared extra) (lSorted : left.Sorted) :
    total heft (left.flatMap fun field => extra field.1) ≤ (loose left ∩ staying clash right).card := by
  have spared key (some : extra key ≠ []) : key ∈ loose left ∩ staying clash right ∧ total heft (extra key) = 1 := by
    obtain ⟨l,r,m,atL,atR,inPlace,ruled⟩ := drawn.ruled some
    obtain ⟨same,closed⟩ := ruled.spare.resolve_left some
    have free : key ∉ placed := fun mem => closed (mem_append_left _ mem)
    rw [Finset.mem_inter,staying,Finset.mem_filter,mem_loose,mem_loose,same,total_cons,heft_single closed]
    exact ⟨⟨⟨has_iff.mpr ⟨l,atL⟩,free⟩,⟨has_iff.mpr ⟨r,atR⟩,free⟩,inPlace⟩,rfl⟩
  have count (fs : Fields) : total heft (fs.flatMap fun field => extra field.1) =
      ((fs.map Prod.fst).filter fun key => !(extra key).isEmpty).length := by
    induction fs with
    | nil => rfl
    | cons field rest ih =>
      rw [flatMap_cons,total_append,ih,map_cons,filter_cons]
      by_cases none : extra field.1 = []
      · simp [none]
      · rw [(spared _ none).2,if_pos (by simpa using none),length_cons,add_comm]
  have ne : (left.map Prod.fst).Nodup := pairwise_map.mpr (lSorted.imp fun below => ne_of_lt below)
  rw [count left,← toFinset_card_of_nodup (ne.filter _)]
  refine Finset.card_le_card fun key mem => ?_
  have kept := (mem_filter.mp (mem_toFinset.mp mem)).2
  exact (spared key (by simpa using kept)).1
end Assembled
lemma heft_addResidual (fs : Fields) (residual : List Json) :
    (obj (addResidual fs residual)).heft ≤ (obj fs).heft + total heft residual := by
  have other : ∀ key, "allOf" ≠ key → (addResidual fs residual).get? key = fs.get? key := fun key differs =>
    get?_addResidual (symm differs)
  have besides := heft_besides other
  have entries : total heft (listAt (addResidual fs residual) "allOf") ≤
      total heft (listAt fs "allOf") + total heft residual := by
    have own : ((fs.get? "allOf").bind items?).getD [] = listAt fs "allOf" := by
      unfold listAt
      cases fs.get? "allOf" <;> rfl
    unfold addResidual
    split
    · exact Nat.le_add_right _ _
    rw [own,listAt,get?_put_self]
    exact total_appendNew _ _ _
  omega

lemma heft_reconcileValues (sorted : fs.Sorted) (made : reconcileValues fs path = .ok out) :
    out.Sorted ∧ (obj out).heft ≤ (obj fs).heft := by
  rcases reconcileValues_cases made with rfl | ⟨_,_,found,rfl⟩
  · exact ⟨sorted,le_rfl⟩
  refine ⟨sorted_put sorted,heft_mono fun key v at_ => ?_⟩
  by_cases same : "enum" = key
  · subst same
    exact ⟨_,found,(absurd · (by decide))⟩
  · exact ⟨v,(get?_put_other same).symm.trans at_,fun _ => rfl⟩

lemma heft_erase (sorted : fs.Sorted) (key : String) : (obj (fs.erase key)).heft ≤ (obj fs).heft :=
  heft_mono fun _ v found => ⟨v,get?_of_mem sorted (mem_erase (mem_of_get? found)),fun _ => rfl⟩

lemma heft_fold (sorted : fs.Sorted) : (obj (Bound.fold fs)).heft ≤ (obj fs).heft := by
  have dropped : ∀ {fs} (side soft strict), fs.Sorted → (Bound.dropImplied side soft strict fs).Sorted ∧
        (obj (Bound.dropImplied side soft strict fs)).heft ≤ (obj fs).heft :=
    fun {fs} _ _ _ sorted => Bound.dropImplied_cases (motive := fun out => out.Sorted ∧ (obj out).heft ≤ _) ⟨sorted,le_rfl⟩
      ⟨sorted_erase sorted,heft_erase sorted _⟩ ⟨sorted_erase sorted,heft_erase sorted _⟩
  obtain ⟨lowerSorted,lower⟩ := dropped .lower "minimum" "exclusiveMinimum" sorted
  exact le_trans (dropped .upper "maximum" "exclusiveMaximum" lowerSorted).2 lower

lemma light_of_reach (atL : left.get? key = some l) (atR : right.get? key = some r)
    (light : reach heft left + reach heft right ≤ n) : Light n key l r := by
  have one : ∀ {fs} {v}, fs.get? key = some v → key = "propertyNames" ∨ key = "additionalProperties" →
      v.heft ≤ reach heft fs := by
    rintro fs v found (rfl | rfl)
    · exact reach_singles (mem_singles.mpr (.inr (.inr (.inr (.inl found)))))
    · exact le_trans (total_member (mem_rules.mpr (.inr found))) (reach_rules fs)
  have patterns : ∀ {fs} {v}, fs.get? key = some v → key = "patternProperties" →
      total heft v.values ≤ reach heft fs := by
    rintro fs v found rfl
    refine le_trans ?_ (reach_rules fs)
    rw [rules,total_append,entriesAt,found]
    exact Nat.le_add_right _ _
  have dependencies : ∀ {fs} {v}, fs.get? key = some v → key = "dependencies" → most heft v.values ≤ reach heft fs := by
    rintro fs v found rfl
    refine most_le_iff.mpr fun w mem => reach_singles (mem_singles.mpr (.inr (.inr (.inr (.inr ?_)))))
    rw [entriesAt,found]
    exact mem
  exact ⟨fun named => le_trans (add_le_add (one atL named) (one atR named)) light,
    fun named => le_trans (add_le_add (patterns atL named) (patterns atR named)) light,
    fun named => le_trans (add_le_add (dependencies atL named) (dependencies atR named)) light⟩

lemma ends_sharedKeywords (ending : Ending nums inv n recur) (lOrd : (obj left).isOrderly nums)
    (rOrd : (obj right).isOrderly nums) (light : reach heft left + reach heft right ≤ n)
    (clash : Bool) (residual : List Json) : Ends inv (sharedKeywords recur clash left right path residual) fun made =>
      ∃ extra : String → List Json, made.2 = residual ++ left.flatMap (fun field => extra field.1) ∧
        Gathered HeftRule clash left right [] made.1 extra := by
  have lSorted := (orderly_obj.mp lOrd).1
  refine runs_sharedKeywords HeftRule lSorted path (fun key l r atL atR inPlace => ?_) residual
  refine ends_keyword ending (orderly_get? lOrd atL) (orderly_get? rOrd atR)
    (fun mem => ?_) (light_of_reach atL atR light)
  exact Bool.false_ne_true (inPlace.symm.trans (setAside_iff.mpr (.inl mem)))

-- The conditional that goes to the residual entries is counted among the keywords of the right side.
lemma heft_residual (residual : List Json) (clash : Bool)
    (same : residual = if clash then [obj (right.pick conditional)] else []) (held : clash → right.has "if") :
    total heft residual + (staying clash right).card ≤ (loose right).card := by
  cases clash with
  | false =>
    rw [same,if_neg (by decide),total_nil,zero_add]
    exact Finset.card_le_card (Finset.filter_subset _ _)
  | true =>
    have picked key : (right.pick conditional).has key ↔ key ∈ conditional ∧ right.has key := by
      rw [has,get?_pick,has]
      split
      · next mem => simp [contains_iff_mem.mp mem]
      · next mem => simp [mt contains_iff_mem.mpr mem]
    have closed : ∀ key ∈ conditional, key ∉ opened := by decide
    have weight : (obj (right.pick conditional)).heft = (loose (right.pick conditional)).card := by
      rw [heft_closed fun key held => closed key ((picked key).mp held).1,Nat.max_eq_right]
      refine Finset.card_pos.mpr ⟨"if",mem_loose.mpr ⟨(picked "if").mpr ⟨by decide,held rfl⟩,by decide⟩⟩
    have apart : Disjoint (loose (right.pick conditional)) (staying true right) := by
      refine Finset.disjoint_left.mpr fun key mem stays => ?_
      have inside := ((picked key).mp (mem_loose.mp mem).1).1
      exact Bool.false_ne_true ((Finset.mem_filter.mp stays).2.symm.trans (setAside_iff.mpr (.inr ⟨rfl,inside⟩)))
    have within : loose (right.pick conditional) ∪ staying true right ⊆ loose right := by
      refine Finset.union_subset (fun key mem => ?_) (Finset.filter_subset _ _)
      obtain ⟨held,free⟩ := mem_loose.mp mem
      exact mem_loose.mpr ⟨((picked key).mp held).2,free⟩
    rw [same,if_pos rfl,total_cons,total_nil,add_zero,weight,← Finset.card_union_of_disjoint apart]
    exact Finset.card_le_card within

lemma heft_assembled {clash : Bool} {shared : Fields} {props xs more : Option Json}
    {extra : String → List Json} (drawn : Gathered HeftRule clash left right [] shared extra) (lSorted : left.Sorted)
    (rSorted : right.Sorted) (reached : reach heft (assembled clash left right shared props xs more) ≤
      reach heft left + reach heft right) (lHeld : clash → left.has "if") (rHeld : clash → right.has "if") :
    (obj (assembled clash left right shared props xs more)).heft +
        total heft ((if clash then [obj (right.pick conditional)] else []) ++
          left.flatMap fun field => extra field.1) ≤ (obj left).heft + (obj right).heft := by
  have entries := (drawn.stems rSorted (by cases clash <;> decide) props xs more : Stems
    (fun l r m => HeftRule "allOf" l r m (extra "allOf")) _ _ _).le
    (fun o => total heft ((o.map itemsOrNone).getD [])) fun l r m ruled => ruled.allOf rfl
  have keys : (loose (assembled clash left right shared props xs more)).card ≤
      (loose left ∪ staying clash right).card := Finset.card_le_card (loose_assembled drawn rSorted)
  have spare := total_extra drawn lSorted
  have apart := heft_residual _ clash rfl rHeld
  have inclusion := Finset.card_union_add_card_inter (loose left) (staying clash right)
  have lWithin : (loose left).card ≤ (loose left ∪ staying clash right).card :=
    Finset.card_le_card Finset.subset_union_left
  -- a clash leaves at least the left condition in place
  rw [heft_obj,heft_obj,heft_obj,total_append]
  unfold listAt
  omega

lemma ends_objects (ending : Ending nums inv n recur) (steady : Lasting inv lookup)
    (lOrd : (obj left).isOrderly nums) (rOrd : (obj right).isOrderly nums)
    (light : reach heft left + reach heft right ≤ n) : Ends inv (objects lookup recur left right path) fun made =>
      (obj made).heft ≤ (obj left).heft + (obj right).heft := by
  have leftSorted := (orderly_obj.mp lOrd).1
  have rightSorted := (orderly_obj.mp rOrd).1
  have rHeld : conditionalsClash left right → right.has "if" := by
    unfold conditionalsClash
    simp only [Bool.and_eq_true]
    exact fun clash => clash.1.2
  refine .bind (ends_sharedKeywords ending lOrd rOrd light _ _) ?_
  rintro ⟨shared,residual⟩ ⟨extra,rfl,drawn⟩
  refine .bind (ends_properties ending steady lOrd rOrd light) fun props propertiesLight => ?_
  refine .bind (ends_items ending lOrd rOrd light) ?_
  rintro ⟨items,further⟩ ⟨itemsLight,furtherLight⟩
  have assembledLight := heft_assembled drawn leftSorted rightSorted
    (reach_assembled drawn rightSorted propertiesLight itemsLight furtherLight) clash_left rHeld
  refine .bind (.ofAny fun out reconciled => heft_reconcileValues
    (sorted_addResidual drawn.sorted_assembled _) reconciled) fun out ⟨sorted,below⟩ => ?_
  refine .bind (.ofAny fun _ _ => trivial) fun _ (_ : True) => .pure ?_
  exact le_trans (heft_fold sorted) (le_trans below (le_trans (heft_addResidual _ _) assembledLight))

lemma ends_foldAllOf (ending : Ending nums inv n recur) (ord : schema.isOrderly nums) (light : schema.heft ≤ n) :
    Ends inv (foldAllOf recur schema path) fun m => m.heft ≤ schema.heft ∧ m.isOrderly nums := by
  unfold foldAllOf
  split
  · next fs =>
    split
    · next es found =>
      have entriesOrderly := orderly_arr.mp (orderly_get? ord found)
      have start : (obj (erase fs "allOf")).heft + total heft es = (obj fs).heft := by
        have other key differs : (erase fs "allOf").get? key = get? fs key := get?_erase_other differs
        have besides := heft_besides other
        have none : listAt (erase fs "allOf") "allOf" = [] := by
          rw [listAt,get?_erase_self (orderly_obj.mp ord).1]
          rfl
        have own : listAt fs "allOf" = es := by rw [listAt,found]; rfl
        rwa [none,own,total_nil,add_zero] at besides
      -- what has been folded in and what is still to come weigh no more than the whole
      refine .mono (.foldlM (motive := fun rest m => (∀ e ∈ rest, e ∈ es) ∧
        m.isOrderly nums ∧ m.heft + total heft rest ≤ (obj fs).heft) ?_ es _
        ⟨fun _ mem => mem,orderly_erase ord,le_of_eq start⟩) fun m holds => ⟨holds.2.2,holds.2.1⟩
      rintro entry rest m ⟨within,mOrderly,count⟩
      rw [total_cons] at count
      refine (ending.meets path mOrderly (entriesOrderly entry (within entry mem_cons_self)) (by omega)).mono
        fun next facts => ⟨fun e mem => within e (.tail _ mem),facts.2,by omega⟩
    · exact .pure ⟨le_rfl,ord⟩
  · exact .pure ⟨le_rfl,ord⟩

lemma ends_step (ending : Ending nums inv n recur) (steady : Lasting inv lookup)
    (aOrd : a.isOrderly nums) (bOrd : b.isOrderly nums) (light : a.heft + b.heft ≤ n + 1) :
    Ends inv (step lookup recur a b path) fun m => m.heft ≤ a.heft + b.heft := by
  have aPositive := heft_pos a
  have bPositive := heft_pos b
  refine .bind (ends_foldAllOf ending aOrd (by omega)) ?_
  rintro a' ⟨aBelow,aOrd⟩
  refine .bind (ends_foldAllOf ending bOrd (by omega)) ?_
  rintro b' ⟨bBelow,bOrd⟩
  split
  · exact .pure (by omega)
  · exact .pure (by omega)
  · exact .pure (by omega)
  · exact .pure (by omega)
  · next left right =>
    have inner : reach heft left + reach heft right ≤ n := by
      rw [heft_obj] at aBelow bBelow
      omega
    exact .bind (ends_objects ending steady aOrd bOrd inner) fun made below =>
      .pure (by omega)
  all_goals exact .conflict trivial

lemma ending_mergeWithin (whole : ∀ w, nums (.whole w)) (steady : Lasting inv lookup) (fuel : Nat) :
    Ending nums inv fuel (mergeWithin lookup fuel) := by
  induction fuel with
  | zero =>
    refine ⟨(meeting_mergeRoot whole steady 0).keepsOrder,fun a b path _ _ light => ?_⟩
    have := heft_pos a
    omega
  | succ fuel ih =>
    exact ⟨(meeting_mergeRoot whole steady (fuel + 1)).keepsOrder,fun a b path aOrd bOrd light =>
      ends_step ih steady aOrd bOrd light⟩

def mergeOr {m : Type → Type} [Monad m] (lookup : Lookup m) (fuel : Nat) (fallback : Except Conflict Json)
    (a b : Json) : m (Except Conflict Json) := do
  match ← (mergeWithin lookup fuel a b "").run.run with
  | some result => return result
  | none => return fallback

lemma run_mergeOr (fallback : Except Conflict Json)
    (answered : (mergeWithin lookup fuel a b "").run.run.run s = (some result,t)) :
    (mergeOr lookup fuel fallback a b).run s = (result,t) := by
  unfold mergeOr
  rw [StateT.run_bind,answered]
  rfl

lemma budget_enough (a b : Json) : a.heft + b.heft ≤ budget a b := by
  have := heft_le_size a
  have := heft_le_size b
  have : a.size + b.size + 1 ≤ budget a b := Nat.le_self_pow (by decide) _
  omega

lemma ensures_mergeMeets (whole : ∀ w, nums (.whole w)) (steady : Lasting inv lookup) (aOrd : a.isOrderly nums)
    (bOrd : b.isOrderly nums) : Ensures inv (merge lookup a b) fun result => ∀ m, result = .ok m → RootMeets nums a b m := by
  have ends := (ending_mergeWithin whole steady (budget a b)).ends a b "" aOrd bOrd (budget_enough a b)
  have meets := (meeting_mergeRoot whole steady (budget a b)).merged a b "" aOrd bOrd
  exact .mono (ensures_merge_of_runs (ends.and meets) False.elim) fun _ facts m made => (facts.1 m made).2

-- The answer is there at the heft of both sides, and more fuel does not change it.
lemma answered_mergeWithin (lookup : Lookup (StateM σ))
    (aOrd : a.isOrderly (fun _ => true)) (bOrd : b.isOrderly (fun _ => true)) (path : String) (s : σ) :
    ∃ result t, ∀ fuel, a.heft + b.heft ≤ fuel → (mergeWithin lookup fuel a b path).run.run.run s = (some result,t) := by
  have steady : ∀ pat, Always (lookup pat) fun _ => True := fun _ _ _ => ⟨trivial,trivial⟩
  have ending : Ending (fun _ => true) (fun _ => True) (a.heft + b.heft) (mergeWithin lookup (a.heft + b.heft)) :=
    ending_mergeWithin (fun _ => rfl) steady _
  obtain ⟨result,answered⟩ := (ending.ends a b path aOrd bOrd (le_rfl)).answers (s := s) trivial
  refine ⟨result,((mergeWithin lookup (a.heft + b.heft) a b path).run.run.run s).2,fun fuel enough => ?_⟩
  rcases outlasted_mergeWithin lookup enough a b path s with none | same
  · rw [answered] at none
    cases none
  rw [← same]
  exact Prod.ext answered rfl

lemma mergeOr_eq_merge (lookup : Lookup (StateM σ))
    (aOrd : a.isOrderly (fun _ => true)) (bOrd : b.isOrderly (fun _ => true))
    (enough : a.heft + b.heft ≤ fuel) (fallback : Except Conflict Json) : mergeOr lookup fuel fallback a b = merge lookup a b := by
  funext s
  obtain ⟨result,t,answered⟩ := answered_mergeWithin lookup aOrd bOrd "" s
  exact (run_mergeOr fallback (answered fuel enough)).trans (run_mergeOr _ (answered _ (budget_enough a b))).symm

theorem mergeWithin_settled (lookup : String → StateM σ (Option Matcher)) (a b : Json)
    (aOrderly : a.isOrderly (fun _ => true) = true) (bOrderly : b.isOrderly (fun _ => true) = true) (path : String) (s : σ) :
    ∃ result t, (∀ fuel, a.heft + b.heft ≤ fuel → (mergeWithin lookup fuel a b path).run.run.run s = (some result,t)) ∧
      (path = "" → (merge lookup a b).run s = (result,t)) := by
  obtain ⟨result,t,answered⟩ := answered_mergeWithin lookup aOrderly bOrderly path s
  refine ⟨result,t,answered,?_⟩
  rintro rfl
  exact run_mergeOr _ (answered _ (budget_enough a b))

def mixedEntries : Json :=
  .obj [("allOf",.arr [.single "contains" (.single "type" (.str "string")),.single "contains" (.single "type" (.str "number"))]),
    ("contains",.single "type" (.str "boolean"))]

theorem mergeWithin_settled_mixedEntries : ∃ result, (mergeWithin (fun _ => (pure none : StateM Unit (Option Matcher))) 6
    mixedEntries mixedEntries "").run.run.run () = (some result,()) := by
  have orderly : mixedEntries.isOrderly (fun _ => true) = true := by decide
  have light : mixedEntries.heft + mixedEntries.heft ≤ 6 := by decide
  obtain ⟨result,_,settled,_⟩ := mergeWithin_settled (fun _ => (pure none : StateM Unit (Option Matcher))) mixedEntries mixedEntries
    orderly orderly "" ()
  exact ⟨result,settled 6 light⟩
end SchemaOrder.Intersection
