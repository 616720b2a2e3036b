import SchemaOrder.Proofs.Annotations.Stripping
import SchemaOrder.Proofs.Folding
namespace SchemaOrder
open List Fields Json Memory Keyword Nesting Acceptance
open Heft (listAt)
namespace Memory
variable {settings : Settings} {memory : Memory}
-- A branch is folded in after the entries of `allOf` were decided and before `if`, `then` and `else` are left out. So
-- its own conditional is left out with them, and conditionals among its `allOf` stay as they are.
lemma holds_forgetful (faithful : memory.Faithful settings) (cond data : Json) :
    (((engine settings : Engine (StateM Memory)).holds cond data).run memory).1 =
      (((Engine.forgetful settings).holds cond data).run ()).1 :=
  ((forgetting_engines settings memory).holds cond data memory ⟨faithful,extends_refl memory⟩).2

lemma resolveWithin_forgetful (faithful : memory.Faithful settings) (levels : Nat) (schema data : Json) :
    ((Resolution.resolveWithin (engine settings : Engine (StateM Memory)) levels schema data).run memory).1 =
      ((Resolution.resolveWithin (Engine.forgetful settings) levels schema data).run ()).1 :=
  ((forgetting_engines settings memory).resolveWithin levels schema data memory ⟨faithful,extends_refl memory⟩).2
end Memory
namespace Resolution
-- Neither a conditional at the root nor one among the entries of `allOf`. An empty `allOf` would be left out.
def isSettledRoot (fs : Fields) : Bool :=
  conditional.all (fun key => !fs.has key) &&
    match fs.get? "allOf" with
    | some (.arr es) => !es.isEmpty && es.all fun entry => (entry.field? "if").isNone
    | _ => true

section Properties
variable {resolve : Json → Json → StateM Unit Resolution} {data : Json}
def resolvedProperty (resolve : Json → Json → StateM Unit Resolution) (data : Json) (prop : String × Json) : String × Json :=
  (prop.1,if hasConditional prop.2 then ((resolve prop.2 (nestedData data prop.1)).run ()).1.resolved
    else prop.2)

def withProperties (resolve : Json → Json → StateM Unit Resolution) (data : Json) (fs : Fields) : Fields :=
  match fs.get? "properties" with
  | some (.obj props) =>
    if props.any fun prop => hasConditional prop.2 then
      fs.put "properties" (.obj (props.map (resolvedProperty resolve data)))
    else fs
  | _ => fs

lemma schema_foldlM {step : State → String × Json → StateM Unit State} {f : String × Json → String × Json}
    (each : ∀ r prop, ((step r prop).run ()).1.schema = r.schema ++ [f prop]) (props : Fields) (r : State) :
    ((props.foldlM step r).run ()).1.schema = r.schema ++ props.map f := by
  induction props generalizing r with
  | nil => exact (append_nil _).symm
  | cons prop rest ih =>
    change ((rest.foldlM step ((step r prop).run ()).1).run ()).1.schema = _
    rw [ih,each,append_assoc]
    rfl

lemma schema_resolveProperties (s : State) :
    ((resolveProperties resolve data s).run ()).1.schema = withProperties resolve data s.schema := by
  have each : ∀ (r : State) prop, ((if hasConditional prop.2 then do
        let nested ← resolve prop.2 (nestedData data prop.1)
        pure { schema := r.schema ++ [(prop.1,nested.resolved)]
               discriminant := addBelow prop.1 r.discriminant nested.discriminant : State }
      else pure { r with schema := r.schema ++ [prop] } : StateM Unit State).run ()).1.schema =
      r.schema ++ [resolvedProperty resolve data prop] := by
    intro r prop
    unfold resolvedProperty
    cases hasConditional prop.2 <;> rfl
  unfold resolveProperties withProperties
  cases s.schema.get? "properties" with
  | none => rfl
  | some found =>
    cases found with
    | obj props =>
      dsimp only
      split
      · exact congrArg (fun list => s.schema.put "properties" (.obj list)) (schema_foldlM each props _)
      · rfl
    | _ => rfl

lemma get?_withProperties (other : key ≠ "properties") (fs : Fields) :
    (withProperties resolve data fs).get? key = fs.get? key := by
  unfold withProperties
  split
  · split
    · exact get?_put_other (Ne.symm other)
    · rfl
  · rfl

lemma properties_withProperties (same : f.get? "properties" = g.get? "properties") :
    (withProperties resolve data f).get? "properties" = (withProperties resolve data g).get? "properties" := by
  unfold withProperties
  rw [same]
  split
  · split
    · rw [get?_put_self,get?_put_self]
    · exact same
  · exact same

lemma withProperties_other (other : key ≠ "allOf") (fs : Fields) : (withProperties resolve data (fs.without conditional)).get? key =
    (withProperties resolve data (fs.without ("allOf" :: conditional))).get? key := by
  have same : (fs.without conditional).get? key = (fs.without ("allOf" :: conditional)).get? key := by
    rw [get?_without,get?_without,contains_cons,beq_false_of_ne other,Bool.false_or]
  by_cases isProperties : key = "properties"
  · subst isProperties
    exact properties_withProperties same
  · rw [get?_withProperties isProperties,get?_withProperties isProperties,same]

lemma withProperties_congr {resolve' : Json → Json → StateM Unit Resolution} {fs : Fields}
    (same : ∀ prop ∈ declared fs, resolvedProperty resolve data prop = resolvedProperty resolve' data prop) :
    withProperties resolve data fs = withProperties resolve' data fs := by
  unfold declared at same
  unfold withProperties
  split
  · next props found =>
    rw [found] at same
    rw [show props.map _ = props.map _ from map_congr_left same]
  · rfl
end Properties
section Roots
variable {e : Engine (StateM Unit)} {data : Json} {fs : Fields}
def chosen (e : Engine (StateM Unit)) (data s : Json) : Option Json :=
  (s.field? "if").bind fun cond => s.field? (Branch.ofCondition ((e.holds cond data).run ()).1).keyword

-- An entry of `allOf` without its conditional, if there is more to it.
def unconditional? (entry : Json) : Option Json :=
  match entry,entry.field? "if" with
  | .obj fs,some _ => if (without fs conditional).isEmpty then none else some (.obj (without fs conditional))
  | _,_ => some entry

def sifted (fs : Fields) : Fields :=
  match fs.get? "allOf" with
  | some (.arr es) =>
    if (es.filterMap unconditional?).isEmpty then fs.erase "allOf"
    else fs.put "allOf" (.arr (es.filterMap unconditional?))
  | _ => fs

def entryBranches (e : Engine (StateM Unit)) (data : Json) (fs : Fields) : List Json :=
  (listAt fs "allOf").filterMap (chosen e data)

-- The branches in the order they are merged in. Those of the entries can bring or change the conditional of the schema.
def branches (e : Engine (StateM Unit)) (data : Json) (fs : Fields) : List Json :=
  entryBranches e data fs ++ (chosen e data (.obj (merged e (sifted fs) (entryBranches e data fs)))).toList

-- The schema after the passes over its entries and its own conditional.
def passes (e : Engine (StateM Unit)) (data : Json) (fs : Fields) : Fields :=
  ((resolveOwn e data ((resolveAllOf e data ⟨fs,[]⟩).run ()).1).run ()).1.2.schema

lemma run_resolveEntry (e : Engine (StateM Unit)) (data : Json) (s : Entries) (entry : Json) :
    ((resolveEntry e data s entry).run ()).1.kept = s.kept ++ (unconditional? entry).toList ∧
      ((resolveEntry e data s entry).run ()).1.taken = s.taken ++ (chosen e data entry).toList := by
  have kept : s.taken = s.taken ++ [] := (append_nil _).symm
  cases entry with
  | obj fs =>
    unfold resolveEntry unconditional? chosen
    dsimp only [Json.field?]
    cases get? fs "if" with
    | none => exact ⟨rfl,kept⟩
    | some cond =>
      refine ⟨?_,rfl⟩
      change (if _ then _ else _) = _
      dsimp only
      split
      · exact (append_nil _).symm
      · rfl
  | _ => exact ⟨rfl,kept⟩

lemma run_entries (e : Engine (StateM Unit)) (data : Json) (es : List Json) (s : Entries) :
    ((es.foldlM (resolveEntry e data) s).run ()).1.kept = s.kept ++ es.filterMap unconditional? ∧
      ((es.foldlM (resolveEntry e data) s).run ()).1.taken = s.taken ++ es.filterMap (chosen e data) := by
  induction es generalizing s with
  | nil => exact ⟨(append_nil _).symm,(append_nil _).symm⟩
  | cons entry rest ih =>
    obtain ⟨kept,taken⟩ := run_resolveEntry e data s entry
    obtain ⟨keptAll,takenAll⟩ := ih ((resolveEntry e data s entry).run ()).1
    rw [kept,append_assoc] at keptAll
    rw [taken,append_assoc] at takenAll
    rw [foldlM_cons,answer_bind,filterMap_cons,filterMap_cons]
    refine ⟨keptAll.trans (congrArg _ ?_),takenAll.trans (congrArg _ ?_)⟩
    · cases unconditional? entry <;> rfl
    · cases chosen e data entry <;> rfl

lemma schema_resolveAllOf : ((resolveAllOf e data ⟨fs,[]⟩).run ()).1.schema =
    merged e (sifted fs) (entryBranches e data fs) := by
  unfold resolveAllOf sifted entryBranches listAt
  cases fs.get? "allOf" with
  | none => rfl
  | some list => cases list with
    | arr es =>
      obtain ⟨kept,taken⟩ := run_entries e data es ⟨[],[],[]⟩
      dsimp only
      rw [answer_bind]
      change merged e (if _ then _ else _) _ = _
      rw [kept,taken]
      rfl
    | _ => rfl

lemma schema_resolveOwn (s : State) : ((resolveOwn e data s).run ()).1.2.schema =
    let all := merged e s.schema (chosen e data (.obj s.schema)).toList
    if (s.schema.get? "if").isSome then all.without conditional else all := by
  unfold resolveOwn chosen
  dsimp only [field?]
  cases s.schema.get? "if" with
  | none => rfl
  | some cond =>
    have decided : ((decideBranch e cond data s.discriminant).run ()).1.1 =
        Branch.ofCondition ((e.holds cond data).run ()).1 := rfl
    rw [answer_bind,decided]
    dsimp only [Option.bind_some]
    cases s.schema.get? (Branch.ofCondition ((e.holds cond data).run ()).1).keyword <;> rfl

lemma passes_eq (e : Engine (StateM Unit)) (data : Json) (fs : Fields) : passes e data fs =
    let all := merged e (sifted fs) (branches e data fs)
    if (get? (merged e (sifted fs) (entryBranches e data fs)) "if").isSome then all.without conditional else all := by
  rw [passes,schema_resolveOwn,schema_resolveAllOf,branches,merged_append]

lemma run_resolveWithin (levels : Nat) : ((resolveWithin e (levels + 1) (.obj fs) data).run ()).1.resolved =
    .obj (withProperties (resolveWithin e levels) data (passes e data fs)) := by
  rw [passes,← schema_resolveProperties]
  rfl

lemma get?_passes (other : key ∉ conditional) :
    (passes e data fs).get? key = (merged e (sifted fs) (branches e data fs)).get? key := by
  rw [passes_eq]
  dsimp only
  split
  · rw [get?_without,if_neg fun listed => other (contains_iff_mem.mp listed)]
  · rfl

lemma if_passes : (passes e data fs).get? "if" = none := by
  rw [passes_eq]
  dsimp only
  split
  · rw [get?_without]
    rfl
  next unasked =>
  have none := Option.not_isSome_iff_eq_none.mp unasked
  have own : branches e data fs = entryBranches e data fs := by
    rw [branches,chosen,show field? (.obj _) "if" = _ from none]
    exact append_nil _
  rwa [own]
section Fits
variable {nums : Num → Bool} {n : Nat} {entry s branch : Json}
lemma fits_entry (fits : Fits nums n (.obj fs)) (mem : entry ∈ listAt fs "allOf") : Fits nums n entry := by
  obtain ⟨list,found,inside⟩ := Heft.mem_listAt.mp mem
  obtain ⟨ord,under⟩ := (fits_obj.mp fits).2 _ _ found
  exact ⟨orderly_arr.mp ord entry inside,under_allOf.mp under entry inside⟩

lemma fits_declared (fits : Fits nums n (.obj fs)) (mem : prop ∈ declared fs) :
    prop.2.isOrderly nums ∧ prop.2.nesting < n := by
  obtain ⟨props,found,inside⟩ := declared_source mem
  obtain ⟨ord,under⟩ := (fits_obj.mp fits).2 _ _ found
  exact ⟨(orderly_obj.mp (orderly_fields? ord)).2 _ inside,(under_map (.inl rfl)).mp under _ (mem_map_of_mem inside)⟩

lemma fits_unconditional (fits : Fits nums n entry) (rest : unconditional? entry = some s) :
    Fits nums n s ∧ s.field? "if" = none := by
  unfold unconditional? at rest
  split at rest
  · split at rest
    · cases rest
    cases rest
    refine ⟨⟨orderly_filter fits.orderly _,nesting_filter fits.nests _⟩,?_⟩
    change get? (without _ _) _ = _
    rw [get?_without]
    rfl
  next unasked =>
  cases rest
  refine ⟨fits,?_⟩
  cases s with
  | obj fs => exact Option.eq_none_iff_forall_ne_some.mpr fun cond => unasked fs cond rfl
  | _ => rfl

lemma fits_sifted (fits : Fits nums n (.obj fs)) :
    Fits nums n (.obj (sifted fs)) ∧ ((sifted fs).get? "allOf").any asksAmong = false := by
  obtain ⟨sorted,each⟩ := fits_obj.mp fits
  unfold sifted
  split
  · next es found =>
    have kept rest (mem : rest ∈ es.filterMap unconditional?) : Fits nums n rest ∧ rest.field? "if" = none := by
      obtain ⟨entry,inside,is⟩ := mem_filterMap.mp mem
      exact fits_unconditional (fits_entry fits (Heft.mem_listAt.mpr ⟨es,found,inside⟩)) is
    split
    · refine ⟨fits_obj.mpr ⟨sorted_erase sorted,fun key v here => ?_⟩,by rw [get?_erase_self sorted]; rfl⟩
      rw [get?_erase sorted] at here
      split at here
      · cases here
      · exact each key v here
    · refine ⟨fits_obj.mpr ⟨sorted_put sorted,fun key v here => ?_⟩,?_⟩
      · rw [get?_put] at here
        split at here
        · next isAllOf =>
          cases here
          exact isAllOf ▸ ⟨orderly_arr.mpr fun rest mem => (kept rest mem).1.orderly,
            under_allOf.mpr fun rest mem => (kept rest mem).1.nests⟩
        · exact each key v here
      · rw [get?_put_self]
        exact any_eq_false.mpr fun rest mem => by simp [(kept rest mem).2]
  next other =>
  refine ⟨fits,?_⟩
  cases found : fs.get? "allOf" with
  | none => rfl
  | some list => cases list with
    | arr es => exact absurd found (other es)
    | _ => rfl

lemma fits_chosen (fits : Fits nums n s) (is : chosen e data s = some branch) : Fits nums n branch := by
  obtain ⟨cond,_,found⟩ := Option.bind_eq_some_iff.mp is
  cases s with
  | obj fs =>
    obtain ⟨ord,under⟩ := (fits_obj.mp fits).2 _ _ found
    refine ⟨ord,under.beside branch ?_⟩
    cases Branch.ofCondition ((e.holds cond data).run ()).1 <;> exact mem_singleton_self branch
  | _ => cases found
section Steady
variable (whole : ∀ w, nums (.whole w)) (steady : Engine.Steady (fun _ => True) e) (fits : Fits nums n (.obj fs))
include whole steady fits
lemma fits_branches (data : Json) : ∀ branch ∈ branches e data fs, Fits nums n branch := by
  have es branch (mem : branch ∈ entryBranches e data fs) : Fits nums n branch := by
    obtain ⟨entry,inside,is⟩ := mem_filterMap.mp mem
    exact fits_chosen (fits_entry fits inside) is
  obtain ⟨sifts,unasked⟩ := fits_sifted fits
  intro branch mem
  rcases mem_append.mp mem with entry | own
  · exact es branch entry
  · exact fits_chosen (fits_merged whole steady sifts unasked _ es).1 (Option.mem_toList.mp own)

-- No entry with a conditional stays of those that the schema had before.
lemma fits_passes (data : Json) : Fits nums n (.obj (passes e data fs)) ∧
    hasConditional (.obj (passes e data fs)) = (brought (branches e data fs)).any asksAmong := by
  obtain ⟨sifts,unasked⟩ := fits_sifted fits
  obtain ⟨merges,asks⟩ := fits_merged whole steady sifts unasked _ (fits_branches whole steady fits data)
  refine ⟨?_,?_⟩
  · rw [passes_eq]
    dsimp only
    split
    · exact ⟨orderly_filter merges.orderly _,nesting_filter merges.nests _⟩
    · exact merges
  · rw [hasConditional_obj,if_passes,get?_passes (by decide)]
    exact asks

-- More levels than properties lie within one another change nothing.
lemma withProperties_stable (data : Json) (enough : n ≤ levels) :
    withProperties (resolveWithin e levels) data fs = withProperties (resolveWithin e n) data fs := by
  induction n generalizing levels data fs with
  | zero => exact withProperties_congr fun prop mem => absurd (fits_declared fits mem).2 (Nat.not_lt_zero _)
  | succ n ih =>
    refine withProperties_congr fun ⟨name,s⟩ mem => ?_
    obtain ⟨levels,rfl⟩ := Nat.exists_eq_succ_of_ne_zero (Nat.ne_zero_of_lt enough)
    unfold resolvedProperty
    split
    · next conditional =>
      obtain ⟨ord,nests⟩ := fits_declared fits mem
      cases s with
      | obj inner =>
        rw [run_resolveWithin,run_resolveWithin,
          ih (fits_passes whole steady ⟨ord,Nat.le_of_lt_succ nests⟩ _).1 _ (Nat.le_of_succ_le_succ enough)]
      | _ => rfl
    · rfl
end Steady
end Fits

lemma unconditional_of_settled (settled : isSettledRoot fs) (key : String) (conditional : key ∈ conditional) :
    fs.get? key = none := by
  have absent := all_eq_true.mp ((Bool.and_eq_true _ _).mp settled).1 key conditional
  simpa [has] using absent

lemma without_of_settled (sorted : fs.Sorted) (settled : isSettledRoot fs) : fs.without conditional = fs := by
  refine ext (sorted_filter _ sorted) sorted fun key => ?_
  rw [get?_without]
  split
  · next conditional => exact (unconditional_of_settled settled key (by simpa using conditional)).symm
  · rfl

lemma settled_without (fs : Fields) : isSettledRoot (fs.without ("allOf" :: conditional)) := by
  have absent key (gone : key ∈ "allOf" :: conditional) : (fs.without ("allOf" :: conditional)).get? key = none := by
    rw [get?_without,if_pos (contains_iff_mem.mpr gone)]
  refine (Bool.and_eq_true _ _).mpr ⟨all_eq_true.mpr fun key conditional => ?_,?_⟩
  · rw [has,absent key (.tail _ conditional)]
    rfl
  · rw [absent "allOf" mem_cons_self]

lemma passes_settled (sorted : fs.Sorted) (settled : isSettledRoot fs) : passes e data fs = fs := by
  have es := ((Bool.and_eq_true _ _).mp settled).2
  have unsifted : sifted fs = fs ∧ entryBranches e data fs = [] := by
    unfold sifted entryBranches listAt
    cases found : fs.get? "allOf" with
    | none => exact ⟨rfl,rfl⟩
    | some list => cases list with
      | arr list =>
        rw [found] at es
        obtain ⟨some,plain⟩ := (Bool.and_eq_true _ _).mp es
        have unasked entry (mem : entry ∈ list) : entry.field? "if" = none :=
          Option.isNone_iff_eq_none.mp (all_eq_true.mp plain entry mem)
        have kept : list.filterMap unconditional? = list := by
          refine (filterMap_congr fun entry mem => ?_).trans filterMap_some
          unfold unconditional?
          rw [unasked entry mem]
          cases entry <;> rfl
        refine ⟨?_,filterMap_eq_nil_iff.mpr fun entry mem => ?_⟩
        · dsimp only
          rw [kept,if_neg (by simpa using some),put_same sorted found]
        · rw [chosen,unasked entry mem]
          rfl
      | _ => exact ⟨rfl,rfl⟩
  rw [passes_eq,branches,unsifted.1,unsifted.2]
  change (if (fs.get? "if").isSome then _ else merged e fs (Option.bind (fs.get? "if") _).toList) = fs
  rw [unconditional_of_settled settled "if" (by decide)]
  rfl

-- The branch is folded into a schema of conditional keywords only, and those are left out in the end.
lemma passes_conditional (sorted : fs.Sorted) (holds : ((e.holds c data).run ()).1) :
    passes e data [("if",c),("then",.obj fs)] = fs.without conditional := by
  set own : Fields := [("if",c),("then",.obj fs)]
  have bare key (other : key ∉ conditional) : get? own key = none := by
    simp only [conditional,mem_cons,not_or] at other
    rw [get?_cons,if_neg (Ne.symm other.1),get?_cons,if_neg (Ne.symm other.2.1)]
    rfl
  have wrapped : Sorted own := by
    refine pairwise_cons.mpr ⟨fun field mem => ?_,sorted_single _ _⟩
    rw [mem_singleton.mp mem]
    exact (by decide : "if" < "then")
  have taken : chosen e data (.obj own) = some (.obj fs) := by
    change own.get? (Branch.ofCondition ((e.holds c data).run ()).1).keyword = _
    rw [holds]
    rfl
  have resolved : passes e data own = without ((mergeBranch e own (.obj fs)).run ()).1 conditional := by
    rw [passes_eq,branches]
    change without (merged e own (chosen e data (.obj own)).toList) conditional = _
    rw [taken]
    rfl
  have merges : Always (mergeBranch e own (.obj fs)) _ :=
    ensures_mergeBranch (fun _ _ _ _ => True) sorted wrapped fun _ _ _ _ _ => ensures_any _
  obtain ⟨mergedSorted,stems⟩ := (merges () trivial).2
  rw [resolved]
  refine ext (sorted_filter _ mergedSorted) (sorted_filter _ sorted) fun key => ?_
  rw [get?_without,get?_without]
  split
  · rfl
  next other =>
  have stem := stems key
  rw [bare key (by simpa using other)] at stem
  change Intersection.Stems _ none (fs.get? key) _ at stem
  generalize get? ((mergeBranch e own (.obj fs)).run ()).1 key = m at stem ⊢
  generalize fs.get? key = r at stem ⊢
  cases stem <;> rfl
end Roots
def outcome (settings : Settings) (memory : Memory) (levels : Nat) (schema data : Json) : Json :=
  ((resolveWithin (engine settings : Engine (StateM Memory)) (levels + 1) schema data).run memory).1.resolved

theorem outcome_conditional (settings : Settings) (memory : Memory) (faithful : memory.Faithful settings) (c d : Json)
    (x : Fields) (sorted : x.Sorted) (holds : (((Memory.engine settings : Engine (StateM Memory)).holds c d).run memory).1 = true) :
    (∀ levels key, (outcome settings memory levels (.obj [("if",c),("then",.obj x)]) d).field? key =
      if key = "allOf" then x.get? "allOf"
        else (outcome settings memory levels (.obj (x.without ("allOf" :: Keyword.conditional))) d).field? key) ∧
      (isSettledRoot x = true → ∀ levels, outcome settings memory levels (.obj [("if",c),("then",.obj x)]) d =
        outcome settings memory levels (.obj x) d) ∧ (isSettledRoot x = true → (Json.obj x).Orderly →
        (((Memory.engine settings : Engine (StateM Memory)).resolve (.obj [("if",c),("then",.obj x)]) d).run memory).1.resolved =
          (((Memory.engine settings : Engine (StateM Memory)).resolve (.obj x) d).run memory).1.resolved) := by
  rw [Memory.holds_forgetful faithful] at holds
  have taken : ∀ levels, outcome settings memory levels (.obj [("if",c),("then",.obj x)]) d =
      .obj (withProperties (resolveWithin (Engine.forgetful settings) levels) d (x.without Keyword.conditional)) := by
    intro levels
    rw [outcome,Memory.resolveWithin_forgetful faithful,run_resolveWithin,passes_conditional sorted holds]
  have plain : ∀ levels (fields : Fields), fields.Sorted → isSettledRoot fields → outcome settings memory levels (.obj fields) d =
      .obj (withProperties (resolveWithin (Engine.forgetful settings) levels) d fields) := by
    intro levels fields fieldsSorted settled
    rw [outcome,Memory.resolveWithin_forgetful faithful,run_resolveWithin,passes_settled fieldsSorted settled]
  refine ⟨fun levels key => ?_,fun settled levels => ?_,fun settled orderly => ?_⟩
  · rw [taken,plain levels (x.without ("allOf" :: Keyword.conditional)) (Fields.sorted_filter _ sorted) (settled_without x)]
    change Fields.get? _ key = if key = "allOf" then x.get? "allOf" else Fields.get? _ key
    split
    · next isAllOf =>
      rw [isAllOf,get?_withProperties (by decide),Fields.get?_without]
      rfl
    · next other => exact withProperties_other other x
  · rw [taken,plain levels x sorted settled,without_of_settled sorted settled]
  · have stable {levels} (deeper : (Json.obj x).depth ≤ levels) := withProperties_stable (e := Engine.forgetful settings)
      (fun _ => rfl) ⟨rfl,fun _ => ensures_any _⟩ ⟨orderly,nesting_le_depth _⟩ d deeper
    have inner : (Json.obj x).depth < (Json.obj [("if",c),("then",.obj x)]).depth :=
      depth_field (show ("then",Json.obj x) ∈ _ from .tail _ (mem_singleton_self _))
    refine (taken _).trans (.trans ?_ (plain _ x sorted settled).symm)
    rw [without_of_settled sorted settled,stable inner.le]

def conditionalText : Json :=
  .obj [("if",.bool true),("then",.single "type" (.str "string"))]

theorem outcome_conditional_text : let x : Fields := [("properties",.single "a" conditionalText)]
    isSettledRoot x = true ∧
      (((Memory.engine {} : Engine (StateM Memory)).resolve (.obj [("if",.bool true),("then",.obj x)]) .emptyObj).run {}).1.resolved =
        (((Memory.engine {} : Engine (StateM Memory)).resolve (.obj x) .emptyObj).run {}).1.resolved ∧
      (outcome {} {} 2 (.obj [("if",.bool true),("then",.single "allOf" (.arr [conditionalText]))]) .emptyObj).field? "allOf" =
        some (.arr [conditionalText]) := by
  have settled : isSettledRoot [("properties",.single "a" conditionalText)] = true := by decide
  have first := outcome_conditional {} {} Memory.faithful_empty (.bool true) .emptyObj [("properties",.single "a" conditionalText)]
    (Fields.sorted_single _ _) rfl
  have second := outcome_conditional {} {} Memory.faithful_empty (.bool true) .emptyObj [("allOf",.arr [conditionalText])]
    (Fields.sorted_single _ _) rfl
  exact ⟨settled,first.2.2 settled (by decide +kernel),second.1 2 "allOf"⟩

-- A branch that is itself a conditional leaves nothing behind, although its own condition holds.
theorem nested_conditional_lost : (((Memory.engine {} : Engine (StateM Memory)).holds (.bool true) .emptyObj).run {}).1 = true ∧
    (((Memory.engine {} : Engine (StateM Memory)).resolve (.obj [("if",.bool true),("then",conditionalText)]) .emptyObj).run
      {}).1.resolved = .emptyObj ∧
    (((Memory.engine {} : Engine (StateM Memory)).resolve conditionalText .emptyObj).run {}).1.resolved =
      .single "type" (.str "string") :=
  ⟨by rfl,by rfl,by rfl⟩
end Resolution
end SchemaOrder
