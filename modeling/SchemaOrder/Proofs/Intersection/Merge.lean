import SchemaOrder.Memory
import SchemaOrder.Proofs.Intersection.Groups
-- Intersection as a whole: every value of the schema that two schemas are merged to is a value of both.
namespace SchemaOrder.Intersection
open Acceptance Schemas List Fields Vocabulary Option Json Keyword
variable {ts : Texts} {vocab : Vocabulary} {σ : Type} {inv : σ → Prop} {recur : Step (StateM σ)}
  {lookup : Lookup (StateM σ)} {left right out : Fields} {key : String} {residual : List Json}

-- Without a clash the conditionals of the two sides are one.
lemma conditional_same (lFormed : Formed vocab left) (rFormed : Formed vocab right)
    (noClash : conditionalsClash left right = false) (mem : key ∈ conditional)
    (atL : left.get? key = some l) (atR : right.get? key = some r) : l = r := by
  have hasIf {fs} {s} (formed : Formed vocab fs) (found : fs.get? key = some s) : fs.has "if" := by
    apply Classical.byContradiction
    intro absent
    have none : fs.get? "if" = none := not_isSome_iff_eq_none.mp absent
    obtain ⟨noThen,noElse⟩ := formed.conditional none
    fin_cases mem
    · rw [none] at found; cases found
    · rw [noThen] at found; cases found
    · rw [noElse] at found; cases found
  unfold conditionalsClash at noClash
  rw [hasIf lFormed atL,hasIf rFormed atR,Bool.true_and,Bool.true_and,List.any_eq_false] at noClash
  have same := noClash key mem
  rw [atL,atR] at same
  simp only [sameOption,Bool.not_eq_true',Bool.not_eq_false] at same
  exact (deepEqual_iff (exact_formed lFormed atL) (exact_formed rFormed atR)).mp same

-- What is set aside is left to the rules for groups of keywords.
lemma yields_partners (closed : vocab.Closed) (meeting : Meeting ts vocab inv recur)
    (lFormed : Formed vocab left) (rFormed : Formed vocab right)
    (atL : left.get? key = some l) (atR : right.get? key = some r)
    (inPlace : setAside (conditionalsClash left right) key = false) (path : String) :
    Attempt.Yields inv (keyword recur key l r path) fun made => Combines ts vocab key l r made.1 made.2 := by
  have outside : ¬ (key ∈ ["properties","items","additionalItems"] ∨
      (conditionalsClash left right ∧ key ∈ conditional)) := by
    rw [← setAside_iff,inPlace]
    decide
  refine yields_keyword closed meeting (lFormed.allowed _ _ atL) (rFormed.allowed _ _ atR)
    (lFormed.formed _ _ atL) (rFormed.formed _ _ atR) (fun single => outside (.inl single))
    (fun mem => ?_) path
  have noClash := Bool.eq_false_iff.mpr fun clash => outside (.inr ⟨clash,mem⟩)
  exact conditional_same lFormed rFormed noClash mem atL atR

structure Covers (ts : Texts) (target out : Fields) (residual : List Json) : Prop where
  keyword : ∀ key s, target.get? key = some s → key ∉ grouped → ∀ v, v.isExact →
    (∀ e ∈ residual, e.accepts ts v) →
    (∀ m, out.get? key = some m → keywordHolds ts (accepts ts) key m v) →
    keywordHolds ts (accepts ts) key s v
  member : ∀ name s, memberRule? target name = some s → ∃ m, memberRule? out name = some m ∧ Below ts m s
  item : ∀ i s, itemRule? target i = some s → ∃ m, itemRule? out i = some m ∧ Below ts m s
  condition : (∀ key ∈ conditional, ∀ s, target.get? key = some s → out.get? key = some s) ∨
    obj (target.pick conditional) ∈ residual

lemma conditional_branch (b : Bool) : (if b then "then" else "else") ∈ conditional := by cases b <;> decide

lemma Covers.obeys {target : Fields} {v : Json} (covers : Covers ts target out residual)
    (sorted : target.Sorted) (plain : target.get? "patternProperties" = none)
    (outPlain : out.get? "patternProperties" = none) (exact : v.isExact) (obeys : Obeys ts out v)
    (acc : ∀ e ∈ residual, e.accepts ts v) : Obeys ts target v where
  keyword key s found := by
    by_cases mem : key ∈ grouped
    · exact keywordHolds_grouped mem
    · exact covers.keyword key s found mem v exact acc (obeys.keyword key)
  member ms shape name x held rule governs := by
    subst shape
    rw [memberRules_eq plain,mem_toList] at governs
    obtain ⟨m,at_,below⟩ := covers.member name rule governs
    have exactX : x.isExact := (exact_obj.mp exact).2 _ held
    exact below x exactX (obeys.memberRule outPlain held at_)
  item xs shape i x held rule governs := by
    subst shape
    obtain ⟨m,at_,below⟩ := covers.item i rule governs
    exact below x (exact_item exact (mem_of_getElem? held)) (obeys.item xs rfl i x held m at_)
  condition c found branch selected := by
    rcases covers.condition with same | apart
    · exact obeys.condition c (same "if" (by decide) c found) branch (same _ (conditional_branch _) branch selected)
    have inside : Obeys ts (target.pick conditional) v :=
      (accepts_obj (sorted_filter _ sorted)).mp (acc _ apart)
    have picked key (mem : key ∈ conditional) s (at_ : target.get? key = some s) :
        (target.pick conditional).get? key = some s := by
      rw [get?_pick,if_pos (contains_iff_mem.mpr mem)]
      exact at_
    exact inside.condition c (picked "if" (by decide) c found) branch (picked _ (conditional_branch _) branch selected)
section Assembled
variable {clash : Bool} {shared : Fields} {extra : String → List Json} {props xs more : Option Json}
lemma Gathered.declared_assembled {rule : Rule} (drawn : Gathered rule clash left right [] shared extra)
    (rSorted : right.Sorted) :
    declared (assembled clash left right shared props xs more) = (props.bind fields?).getD [] := by
  unfold declared
  rw [drawn.get?_properties rSorted]

lemma within_residual (drawn : Gathered (Combines ts vocab) clash left right [] shared extra)
    (mem : e ∈ extra key) : e ∈ left.flatMap fun field => extra field.1 := by
  obtain ⟨l,_,_,atL,_⟩ := drawn.ruled (ne_nil_of_mem mem)
  exact mem_flatMap.mpr ⟨(key,l),mem_of_get? atL,mem⟩

lemma schemas_residual (drawn : Gathered (Combines ts vocab) clash left right [] shared extra)
    (mem : e ∈ left.flatMap fun field => extra field.1) : e.isSchema vocab := by
  obtain ⟨field,_,inside⟩ := mem_flatMap.mp mem
  obtain ⟨_,_,_,_,_,_,combined⟩ := drawn.ruled (ne_nil_of_mem inside)
  exact combined.schemas e inside

lemma unclashed (mem : key ∈ conditional) : setAside false key = false := by
  fin_cases mem <;> decide

lemma formed_assembled (lFormed : Formed vocab left) (rFormed : Formed vocab right)
    (closed : vocab.Closed) (drawn : Gathered (Combines ts vocab) clash left right [] shared extra)
    (someIf : clash → left.has "if") (propertiesGood : ∀ s, props = some s →
      vocab.has "properties" ∧ keywordFormed (isSchema vocab) "properties" s)
    (itemsGood : ∀ s, xs = some s → vocab.has "items" ∧ keywordFormed (isSchema vocab) "items" s)
    (furtherGood : ∀ s, more = some s → s.isSchema vocab) :
    Formed vocab (assembled clash left right shared props xs more) := by
  have sorted := rFormed.sorted
  have each key s (found : (assembled clash left right shared props xs more).get? key = some s) :
      vocab.allows key s ∧ keywordFormed (isSchema vocab) key s := by
    cases aside : setAside clash key with
    | false =>
      rcases drawn.sources sorted aside found with atL | atR | ⟨_,_,_,_,combined⟩
      · exact ⟨lFormed.allowed _ _ atL,lFormed.formed _ _ atL⟩
      · exact ⟨rFormed.allowed _ _ atR,rFormed.formed _ _ atR⟩
      · exact ⟨combined.allowed,combined.formed⟩
    | true =>
      rcases setAside_iff.mp aside with special | ⟨rfl,mem⟩
      · fin_cases special
        · obtain ⟨known,good⟩ := propertiesGood s ((drawn.get?_properties sorted).symm.trans found)
          exact ⟨allows_plain known (by decide) s,good⟩
        · obtain ⟨known,good⟩ := itemsGood s ((drawn.get?_items sorted).symm.trans found)
          exact ⟨allows_plain known (by decide) s,good⟩
        · exact ⟨allows_plain closed.additionalItems (by decide) s,
            furtherGood s ((drawn.get?_further sorted).symm.trans found)⟩
      · rw [drawn.get?_conditional sorted mem] at found
        exact ⟨lFormed.allowed _ _ found,lFormed.formed _ _ found⟩
  refine ⟨drawn.sorted_assembled,fun key s found => (each key s found).1,fun key s found => (each key s found).2,?_⟩
  intro noIf
  cases clash with
  | true =>
    rw [drawn.get?_conditional sorted (by decide)] at noIf
    exact absurd (someIf rfl) (not_isSome_iff_eq_none.mpr noIf)
  | false =>
    have none_iff key (mem : key ∈ conditional) : (assembled false left right shared props xs more).get?
        key = none ↔ left.get? key = none ∧ right.get? key = none := by
      have stems := drawn.stems sorted (unclashed mem) props xs more
      generalize left.get? key = l at stems ⊢
      generalize right.get? key = r at stems ⊢
      generalize (assembled false left right shared props xs more).get? key = o at stems ⊢
      cases stems <;> simp
    obtain ⟨noLeft,noRight⟩ := (none_iff "if" (by decide)).mp noIf
    obtain ⟨lThen,lElse⟩ := lFormed.conditional noLeft
    obtain ⟨rThen,rElse⟩ := rFormed.conditional noRight
    exact ⟨(none_iff "then" (by decide)).mpr ⟨lThen,rThen⟩,(none_iff "else" (by decide)).mpr ⟨lElse,rElse⟩⟩

def PropertiesMade (ts : Texts) (vocab : Vocabulary) (left right : Fields) (props : Option Json) : Prop :=
  (props = none ∧ left.get? "properties" = none ∧ right.get? "properties" = none) ∨
    ∃ out, props = some (.obj out) ∧ Governs ts vocab left right out

lemma PropertiesMade.formed (made : PropertiesMade ts vocab left right (some s)) :
    vocab.has "properties" ∧ keywordFormed (isSchema vocab) "properties" s := by
  rcases made with ⟨absent,_⟩ | ⟨out,same,governs⟩
  · cases absent
  cases same
  exact ⟨governs.known,(formed_map rfl).mpr ⟨out,rfl,governs.sorted,fun entry mem =>
    governs.schemas entry.1 entry.2 (get?_of_mem governs.sorted mem)⟩⟩

lemma assembled_member (rSorted : right.Sorted) (drawn : Gathered (Combines ts vocab) clash left right [] shared extra)
    (made : PropertiesMade ts vocab left right props) (name : String)
    (source : memberRule? left name = some s ∨ memberRule? right name = some s) :
    ∃ m, memberRule? (assembled clash left right shared props xs more) name = some m ∧ Below ts m s := by
  have inPlace : setAside clash "additionalProperties" = false := by cases clash <;> decide
  have stems := drawn.stems rSorted inPlace props xs more
  set out := assembled clash left right shared props xs more
  have declaredOut : declared out = _ := drawn.declared_assembled rSorted
  -- a member that neither side declares is governed by what both say about additional ones
  have undeclared : (declared left).get? name = none → (declared right).get? name = none →
      (declared out).get? name = none → ∃ m, memberRule? out name = some m ∧ Below ts m s := by
    intro noLeft noRight noOut
    rw [memberRule?_undeclared noLeft,memberRule?_undeclared noRight] at source
    rw [memberRule?_undeclared noOut]
    rcases stems.of_source source with same | ⟨a,b,m,atL,atR,made,combined⟩
    · exact ⟨s,same,Below.refl ts s⟩
    refine ⟨m,made,?_⟩
    rw [atL,atR] at source
    obtain ⟨onLeft,onRight⟩ := combined.below rfl
    rcases source with same | same <;> cases same
    · exact onLeft
    · exact onRight
  rcases made with ⟨rfl,noLeft,noRight⟩ | ⟨out,rfl,governs⟩
  · refine undeclared ?_ ?_ ?_
    · unfold declared; rw [noLeft]; rfl
    · unfold declared; rw [noRight]; rfl
    · rw [declaredOut]; rfl
  by_cases held : ((declared left).get? name).isSome ∨ ((declared right).get? name).isSome
  · obtain ⟨m,at_,onLeft,onRight⟩ := governs.below name held
    refine ⟨m,memberRule?_declared (declaredOut ▸ at_),?_⟩
    exact source.elim (onLeft s) (onRight s)
  · simp only [not_or,not_isSome_iff_eq_none] at held
    exact undeclared held.1 held.2 (declaredOut ▸ governs.undeclared name held.1 held.2)

lemma assembled_item (rSorted : right.Sorted) (drawn : Gathered (Combines ts vocab) clash left right [] shared extra)
    (es : Entries ts vocab left right xs more) (i : Nat)
    (source : itemRule? left i = some s ∨ itemRule? right i = some s) :
    ∃ m, itemRule? (assembled clash left right shared props xs more) i = some m ∧ Below ts m s := by
  unfold itemRule?
  rw [drawn.get?_items rSorted,drawn.get?_further rSorted]
  exact es.below i s source

lemma inPlace_of_ungrouped (plain : key ∉ grouped) : setAside clash key = false := by
  rw [Bool.eq_false_iff,ne_eq,setAside_iff]
  rintro (mem | ⟨_,mem⟩)
  · fin_cases mem <;> exact plain (by decide)
  · fin_cases mem <;> exact plain (by decide)

lemma assembled_keyword (rSorted : right.Sorted)
    (drawn : Gathered (Combines ts vocab) clash left right [] shared extra) (plain : key ∉ grouped)
    (source : left.get? key = some s ∨ right.get? key = some s) (exact : v.isExact)
    (acc : ∀ e ∈ left.flatMap fun field => extra field.1, e.accepts ts v)
    (holds : ∀ m, (assembled clash left right shared props xs more).get? key = some m →
      keywordHolds ts (accepts ts) key m v) : keywordHolds ts (accepts ts) key s v := by
  rcases (drawn.stems rSorted (inPlace_of_ungrouped plain) props xs more).of_source source with
    same | ⟨a,b,m,atL,atR,made,combined⟩
  · exact holds s same
  obtain ⟨onLeft,onRight⟩ := combined.narrows v exact (fun e mem => acc e (within_residual drawn mem)) (holds m made)
  rw [atL,atR] at source
  rcases source with same | same <;> cases same
  · exact onLeft
  · exact onRight

lemma covers_both (lFormed : Formed vocab left) (rFormed : Formed vocab right)
    (isClash : conditionalsClash left right = clash)
    (drawn : Gathered (Combines ts vocab) clash left right [] shared extra)
    (within : ∀ e ∈ left.flatMap fun field => extra field.1, e ∈ residual)
    (apart : clash → obj (right.pick conditional) ∈ residual) (made : PropertiesMade ts vocab left right props)
    (es : Entries ts vocab left right xs more) :
    Covers ts left (assembled clash left right shared props xs more) residual ∧
      Covers ts right (assembled clash left right shared props xs more) residual := by
  have sorted := rFormed.sorted
  have same : clash = false → ∀ key ∈ conditional, ∀ s, left.get? key = some s ∨ right.get? key = some s →
      (assembled clash left right shared props xs more).get? key = some s := by
    rintro rfl key mem s source
    rcases (drawn.stems sorted (unclashed mem) props xs more).of_source source with
      same | ⟨a,b,m,atL,atR,made,combined⟩
    · exact same
    obtain rfl := conditional_same lFormed rFormed isClash mem atL atR
    rw [made,combined.same rfl,← atL]
    exact source.elim id fun found => atL.trans (atR.symm.trans found)
  constructor
  · refine ⟨fun key s found plain v exact acc holds => ?_,fun name s governs => ?_,fun i s governs => ?_,.inl ?_⟩
    · exact assembled_keyword sorted drawn plain (.inl found) exact (fun e mem => acc e (within e mem)) holds
    · exact assembled_member sorted drawn made name (.inl governs)
    · exact assembled_item sorted drawn es i (.inl governs)
    intro key mem s found
    cases clash with
    | true => rw [drawn.get?_conditional sorted mem]; exact found
    | false => exact same rfl key mem s (.inl found)
  · refine ⟨fun key s found plain v exact acc holds => ?_,fun name s governs => ?_,fun i s governs => ?_,?_⟩
    · exact assembled_keyword sorted drawn plain (.inr found) exact (fun e mem => acc e (within e mem)) holds
    · exact assembled_member sorted drawn made name (.inr governs)
    · exact assembled_item sorted drawn es i (.inr governs)
    cases clash with
    | true => exact .inr (apart rfl)
    | false => exact .inl fun key mem s found => same rfl key mem s (.inr found)
end Assembled
lemma addResidual_narrows (ts : Texts) (closed : vocab.Closed) (formed : Formed vocab out)
    (schemas : ∀ e ∈ residual, e.isSchema vocab) :
    Formed vocab (addResidual out residual) ∧ ∀ v, v.isExact → (obj (addResidual out residual)).accepts ts v →
        (obj out).accepts ts v ∧ ∀ e ∈ residual, e.accepts ts v := by
  unfold addResidual
  split
  · next empty =>
    rw [isEmpty_iff.mp empty]
    exact ⟨formed,fun v _ acc => ⟨acc,nofun⟩⟩
  have own : ∃ es, ((out.get? "allOf").bind items?).getD [] = es ∧
      (∀ e ∈ es, e.isSchema vocab) ∧ ∀ s, out.get? "allOf" = some s → s = .arr es := by
    cases found : out.get? "allOf" with
    | none => exact ⟨[],rfl,nofun,nofun⟩
    | some s =>
      obtain ⟨es,rfl,goods⟩ := (formed_list rfl).mp (formed.formed _ _ found)
      exact ⟨es,rfl,goods,fun _ same => (some.inj same).symm⟩
  obtain ⟨es,is,goods,same⟩ := own
  rw [is]
  have ms := mem_appendNew es residual fun v mem =>
    (mem_append.mp mem).elim (fun at_ => exact_schema (goods v at_)) fun at_ => exact_schema (schemas v at_)
  refine ⟨formed.put (by decide) (allows_plain closed.allOf (by decide) _) ?_,fun v exact acc => ?_⟩
  · exact (formed_list rfl).mpr ⟨_,rfl,fun e mem => ((ms e).mp mem).elim (goods e) (schemas e)⟩
  obtain ⟨rest,holds⟩ := (accepts_put formed.sorted (by decide)).mp acc
  have all := all_eq_true.mp holds
  refine ⟨(accepts_erase formed.sorted (by decide)).mpr ⟨rest,fun s found => ?_⟩,
    fun e mem => all e ((ms e).mpr (.inr mem))⟩
  rw [same s found]
  exact all_eq_true.mpr fun e mem => all e ((ms e).mpr (.inl mem))

lemma formed_conditional (formed : Formed vocab right) : Formed vocab (right.pick conditional) := by
  have picked key s (found : (right.pick conditional).get? key = some s) : right.get? key = some s := by
    rw [get?_pick] at found
    split at found
    · exact found
    · cases found
  have keeps key (mem : key ∈ conditional) : (right.pick conditional).get? key = right.get? key := by
    rw [get?_pick,if_pos (contains_iff_mem.mpr mem)]
  refine ⟨sorted_filter _ formed.sorted,fun key s found => formed.allowed key s (picked key s found),
    fun key s found => formed.formed key s (picked key s found),fun absent => ?_⟩
  rw [keeps "if" (by decide)] at absent
  rw [keeps "then" (by decide),keeps "else" (by decide)]
  exact formed.conditional absent

lemma clash_left (clash : conditionalsClash left right) : left.has "if" := by
  unfold conditionalsClash at clash
  simp only [Bool.and_eq_true] at clash
  exact clash.1.1

lemma yields_objects (closed : vocab.Closed) (meeting : Meeting ts vocab inv recur)
    (lFormed : Formed vocab left) (rFormed : Formed vocab right) (path : String) :
    Attempt.Yields inv (objects lookup recur left right path) fun made =>
      Formed vocab made ∧ Below ts (.obj made) (.obj left) ∧ Below ts (.obj made) (.obj right) := by
  let clash := conditionalsClash left right
  have setApart e (mem : e ∈ (if clash then [obj (right.pick conditional)] else [])) : e.isSchema vocab := by
    split at mem
    · rw [mem_singleton.mp mem]
      exact isSchema_obj.mpr (formed_conditional rFormed)
    · cases mem
  refine .bind (runs_sharedKeywords (Combines ts vocab) lFormed.sorted path (fun key l r atL atR inPlace =>
    yields_partners closed meeting lFormed rFormed atL atR inPlace path) _) ?_
  rintro ⟨shared,residual⟩ ⟨extra,rfl,drawn⟩
  refine .bind (yields_properties closed meeting lFormed rFormed path) fun props made => ?_
  refine .bind (yields_items meeting lFormed rFormed path) ?_
  rintro ⟨xs,further⟩ es
  generalize residue : _ ++ left.flatMap (fun field => extra field.1) = residual
  have within : ∀ e ∈ left.flatMap fun field => extra field.1, e ∈ residual := fun e mem =>
    residue ▸ mem_append_right _ mem
  have apart : clash → obj (right.pick conditional) ∈ residual := fun clashing =>
    residue ▸ mem_append_left _ (by rw [if_pos clashing]; exact mem_singleton_self _)
  have schemas : ∀ e ∈ residual, e.isSchema vocab := fun e mem =>
    (mem_append.mp (residue ▸ mem)).elim (setApart e) (schemas_residual drawn)
  have good : Formed vocab (assembled clash left right shared props xs further) :=
    formed_assembled lFormed rFormed closed drawn clash_left (fun s is => PropertiesMade.formed (is ▸ made)) es.items
      es.further
  obtain ⟨coversLeft,coversRight⟩ := covers_both lFormed rFormed rfl drawn within apart made es
  obtain ⟨residualFormed,residualBelow⟩ := addResidual_narrows ts closed good schemas
  have below : ∀ target, Covers ts target (assembled clash left right shared props xs further) residual →
      Formed vocab target →
      Below ts (.obj (addResidual (assembled clash left right shared props xs further) residual)) (.obj target) := by
    intro target covers formed v exact acc
    obtain ⟨inner,entriesHold⟩ := residualBelow v exact acc
    exact (accepts_obj formed.sorted).mpr (covers.obeys formed.sorted (formed.ungrouped closed) (good.ungrouped closed) exact
      ((accepts_obj good.sorted).mp inner) entriesHold)
  refine .bind (.ofAny fun out reconciled => reconcileValues_narrows ts residualFormed reconciled) ?_
  rintro out ⟨outFormed,outBelow⟩
  refine .bind (.ofAny fun _ _ => trivial) fun _ (_ : True) => .pure ?_
  have folded : Below ts (.obj (Bound.fold out)) (.obj out) := fun v exact => (Bound.accepts_fold outFormed exact).mp
  exact ⟨Bound.formed_fold outFormed,(folded.trans outBelow).trans (below left coversLeft lFormed),
    (folded.trans outBelow).trans (below right coversRight rFormed)⟩

-- The entries of `allOf` meet the rest one by one.
lemma yields_foldAllOf (meeting : Meeting ts vocab inv recur) (good : schema.isSchema vocab) (path : String) :
    Attempt.Yields inv (foldAllOf recur schema path) fun m => m.isSchema vocab ∧ Below ts m schema ∧
      (schema.bool?.isSome → m.bool?.isSome) := by
  rcases isSchema_cases good with ⟨b,rfl⟩ | ⟨fs,rfl,formed⟩
  · exact .pure ⟨good,Below.refl ts _,id⟩
  cases found : fs.get? "allOf" with
  | none =>
    unfold foldAllOf
    dsimp only
    rw [found]
    exact .pure ⟨good,Below.refl ts _,id⟩
  | some s =>
    obtain ⟨es,rfl,goods⟩ := (formed_list rfl).mp (formed.formed _ _ found)
    unfold foldAllOf
    dsimp only
    rw [found]
    refine .mono (.foldlM (motive := fun rest m => m.isSchema vocab ∧
      (∀ e ∈ rest, e ∈ es) ∧ Below ts m (.obj (fs.erase "allOf")) ∧
      ∀ e ∈ es, e ∈ rest ∨ Below ts m e) ?_ es _ ?_) ?_
    · rintro entry rest m ⟨schema,within,below,each⟩
      refine .mono (meeting m entry path schema (goods entry (within entry mem_cons_self))) ?_
      intro n meets
      refine ⟨meets.schema,fun e later => within e (.tail _ later),meets.left.trans below,fun e mem => ?_⟩
      rcases each e mem with toCome | done
      · rcases mem_cons.mp toCome with rfl | later
        · exact .inr meets.right
        · exact .inl later
      · exact .inr (meets.left.trans done)
    · exact ⟨isSchema_obj.mpr (formed.erase (by decide)),fun _ mem => mem,Below.refl ts _,fun e mem => .inl mem⟩
    · rintro m ⟨schema,_,below,each⟩
      refine ⟨schema,fun v exact acc => ?_,nofun⟩
      refine (accepts_erase formed.sorted (by decide)).mpr ⟨below v exact acc,fun s same => ?_⟩
      rw [found] at same
      cases same
      exact all_eq_true.mpr fun e mem =>
        (each e mem).resolve_left nofun v exact acc

lemma meeting_step (closed : vocab.Closed) (meeting : Meeting ts vocab inv recur) :
    Meeting ts vocab inv (step lookup recur) := by
  intro a b path aGood bGood
  refine .bind (yields_foldAllOf meeting aGood path) ?_
  rintro a' ⟨aSchema,aBelow,aFlat⟩
  refine .bind (yields_foldAllOf meeting bGood path) ?_
  rintro b' ⟨bSchema,bBelow,bFlat⟩
  have lift : ∀ {m}, Meets ts vocab a' b' m → Meets ts vocab a b m := fun meets =>
    ⟨meets.schema,meets.left.trans aBelow,meets.right.trans bBelow,fun aBool bBool => meets.flat (aFlat aBool) (bFlat bBool)⟩
  have nothing : Meets ts vocab a' b' (.bool false) := ⟨isSchema_bool _,below_false ts _,below_false ts _,fun _ _ => rfl⟩
  rcases isSchema_cases aSchema with ⟨x,rfl⟩ | ⟨left,rfl,lFormed⟩
  · cases x with
    | false => exact .pure (lift nothing)
    | true =>
      rcases isSchema_cases bSchema with ⟨y,rfl⟩ | ⟨right,rfl,rFormed⟩
      · cases y with
        | false => exact .pure (lift nothing)
        | true => exact .pure (lift ⟨isSchema_bool _,Below.refl ts _,Below.refl ts _,fun _ _ => rfl⟩)
      · exact .pure (lift ⟨bSchema,below_true ts _,Below.refl ts _,nofun⟩)
  · rcases isSchema_cases bSchema with ⟨y,rfl⟩ | ⟨right,rfl,rFormed⟩
    · cases y with
      | false => exact .pure (lift nothing)
      | true => exact .pure (lift ⟨aSchema,Below.refl ts _,below_true ts _,nofun⟩)
    refine .bind (yields_objects closed meeting lFormed rFormed path) ?_
    rintro out ⟨formed,onLeft,onRight⟩
    exact .pure (lift ⟨isSchema_obj.mpr formed,onLeft,onRight,nofun⟩)

lemma meeting_mergeWithin (ts : Texts) (closed : vocab.Closed) (fuel : Nat) :
    Meeting ts vocab inv (mergeWithin lookup fuel) := by
  induction fuel with
  | zero => exact fun _ _ _ _ _ => .outOfFuel trivial
  | succ fuel ih => exact meeting_step closed ih

-- Two schemas left side by side under `allOf` are their intersection.
lemma accepts_allOf (a b v : Json) : (single "allOf" (.arr [a,b])).accepts ts v ↔ a.accepts ts v ∧ b.accepts ts v := by
  rw [accepts_single (by decide)]
  change ([a,b].all fun entry => entry.accepts ts v) ↔ _
  simp

lemma ensures_merge (ts : Texts) (closed : vocab.Closed) (aGood : a.isSchema vocab)
    (bGood : b.isSchema vocab) : Ensures inv (merge lookup a b) fun result => ∀ m, result = .ok m →
      m.isSchema vocab ∧ Below ts m a ∧ Below ts m b := by
  refine .mono (ensures_merge_of_runs (.mono (meeting_mergeWithin ts closed (budget a b) a b "" aGood bGood)
    fun m meets => ⟨meets.schema,meets.left,meets.right⟩) fun _ => ⟨?_,fun v _ acc => ?_,fun v _ acc => ?_⟩)
      fun _ facts => facts.1
  · refine isSchema_single (allows_plain closed.allOf (by decide) _) ?_ (by decide)
    exact (formed_list rfl).mpr ⟨_,rfl,by simp [aGood,bGood]⟩
  · exact ((accepts_allOf a b v).mp acc).1
  · exact ((accepts_allOf a b v).mp acc).2

theorem merge_accepts_both (texts : Texts) (memory : Memory) (a b m v : Json)
    (left : a.isSchema .mergeable = true) (right : b.isSchema .mergeable = true) (exact : v.isExact = true)
    (merged : ((merge Memory.matcher a b : StateM Memory _).run memory).1 = .ok m)
    (accepted : m.accepts texts v = true) : a.accepts texts v = true ∧ b.accepts texts v = true := by
  have meets : Ensures (fun _ => True) (merge Memory.matcher a b : StateM Memory _) _ :=
    ensures_merge texts Vocabulary.mergeable_closed left right
  obtain ⟨_,onLeft,onRight⟩ := (meets memory trivial).2 m merged
  exact ⟨onLeft v exact accepted,onRight v exact accepted⟩

def numericMember : Json :=
  .obj [("properties",.obj [("a",.obj [("type",.str "number")])]),("required",.strings ["a"])]

def largeMembers : Json :=
  .obj [("additionalProperties",.obj [("minimum",.digit 3)])]

-- A declared property takes on what the other side says about undeclared ones.
def largeNumericMember : Json :=
  .obj [("additionalProperties",.obj [("minimum",.digit 3)]),
    ("properties",.obj [("a",.obj [("minimum",.digit 3),("type",.str "number")])]),
    ("required",.strings ["a"])]

theorem merge_accepts_both_largeNumericMember :
    ((merge Memory.matcher numericMember largeMembers : StateM Memory _).run {}).1 = .ok largeNumericMember ∧
      numericMember.accepts ⟨fun _ _ => true,fun _ _ => true⟩ (.obj [("a",.digit 5)]) = true ∧
      largeMembers.accepts ⟨fun _ _ => true,fun _ _ => true⟩ (.obj [("a",.digit 5)]) = true :=
  ⟨rfl,merge_accepts_both _ {} numericMember largeMembers largeNumericMember _ (by decide) (by decide) (by decide) rfl
    (by decide)⟩
end SchemaOrder.Intersection
