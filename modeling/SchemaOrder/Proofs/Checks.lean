import SchemaOrder.Proofs.Containment
import SchemaOrder.Proofs.Engines
import SchemaOrder.Proofs.Intersection.Termination
namespace SchemaOrder
open List Fields Json Intersection Engine Option SchemaOrder.Normal
variable {nums : Num → Bool}
namespace Json
variable {fs : Fields} {key : String} {s : Json}
-- A check comes to an end. Every union taken apart leaves fewer of them, a list of types is cut down to single names in
-- two steps, and the intersections on the way are of orderly schemas, for which fuel lasts.
lemma root_unsettled (root : key ∈ rootLists) : key ∉ ["const","enum","type"] ∧ Keyword.shape key = .schemaList := by
  fin_cases root <;> exact ⟨by decide,rfl⟩

-- The lists at the root keep their entries, each in normal form.
lemma root_normalize (root : key ∈ rootLists) : (settle (mapFields normalize fs)).get? key = (fs.get? key).map fun v =>
      match v with
      | .arr es => .arr (es.map normalize)
      | v => v := by
  obtain ⟨unsettled,shape⟩ := root_unsettled root
  rw [get?_settle unsettled,Replacement.get?_mapFields]
  refine congrArg (fun f => (fs.get? key).map f) (funext fun v => ?_)
  unfold mapKeyword
  rw [shape]
  cases v <;> rfl

lemma splits_normalize (ord : s.isOrderly nums) : s.normalize.splits ≤ s.splits := by
  induction s using byDepth with
  | step s ih =>
    cases s with
    | obj fs =>
      have normalOrderly := orderly_normalize ord
      rw [Schemas.normalize_obj] at normalOrderly ⊢
      have under key (root : key ∈ rootLists) : splitsAt (settle (mapFields normalize fs)) key ≤ splitsAt fs key := by
        unfold splitsAt
        rw [root_normalize root]
        cases found : get? fs key with
        | none => exact le_rfl
        | some v =>
          cases v with
          | arr es =>
            have fewer : splitsItems (es.map normalize) ≤ splitsItems es := by
              have each : ∀ e ∈ es, e.normalize.splits ≤ e.splits := fun e mem =>
                ih e (lt_trans (depth_item mem) (depth_get? found)) (orderly_item (orderly_get? ord found) mem)
              clear found
              induction es with
              | nil => exact le_rfl
              | cons e rest rest_ih =>
                have first := each e mem_cons_self
                have later := rest_ih fun w mem => each w (.tail _ mem)
                simp only [map_cons,splitsItems]
                omega
            simp only [map_some,getD_some,splitsUnder]
            split
            · omega
            split
            · exact fewer
            · exact le_rfl
          | _ => exact le_rfl
      rw [splits_eq (orderly_obj.mp normalOrderly).1,splits_eq (orderly_obj.mp ord).1]
      have atAllOf := under "allOf" (by decide)
      have atAnyOf := under "anyOf" (by decide)
      have atOneOf := under "oneOf" (by decide)
      omega
    | _ => exact le_rfl

lemma type_settle : ∀ t, (settle fs).get? "type" = some t → fs.get? "type" = some t ∨ ∃ name, t = .str name := by
  intro t found
  have kept : (dropEnum (collapseEnum fs)).get? "type" = fs.get? "type" := by
    have collapsed : (collapseEnum fs).get? "type" = fs.get? "type" := by
      unfold collapseEnum
      split
      · exact (get?_put_other (by decide)).trans (get?_erase_other (by decide))
      · rfl
    rw [← collapsed]
    unfold dropEnum
    split
    · split
      · exact get?_erase_other (by decide)
      · rfl
    · rfl
  rw [← kept]
  unfold settle at found
  unfold inferType at found
  split at found
  · rw [get?_put_self] at found
    cases found
    exact .inr ⟨_,rfl⟩
  · exact .inl found

lemma type_normalize (found : s.normalize.field? "type" = some t) : s.field? "type" = some t ∨ ∃ name, t = .str name := by
  cases s with
  | obj fs =>
    rw [Schemas.normalize_obj] at found
    rcases type_settle t found with own | named
    · rw [Replacement.get?_mapFields] at own
      obtain ⟨u,atU,rfl⟩ := map_eq_some_iff.mp own
      exact .inl atU
    · exact .inr named
  | _ => cases found

lemma apart_normalize (ord : s.isOrderly nums) (apart : s.typesApart) : s.normalize.typesApart := by
  induction s using byDepth with
  | step s ih =>
    cases s with
    | obj fs =>
      have normalOrderly := orderly_normalize ord
      have own := (typesApart_obj (orderly_obj.mp ord).1).mp apart
      have type t (found : (obj fs).normalize.field? "type" = some t) :
          namesApart t ∧ ∀ inner ∈ t.itemsOrNone, namesApart inner := by
        rcases type_normalize found with same | ⟨name,rfl⟩
        · exact own.type t same
        · exact ⟨namesApart_str name,nofun⟩
      rw [Schemas.normalize_obj] at normalOrderly type ⊢
      refine (typesApart_obj (orderly_obj.mp normalOrderly).1).mpr ⟨type,fun key root list found => ?_⟩
      rw [root_normalize root] at found
      obtain ⟨v,atV,made⟩ := map_eq_some_iff.mp found
      cases v with
      | arr es =>
        cases made
        intro e mem
        obtain ⟨t,inside,rfl⟩ := mem_map.mp mem
        exact ih t (lt_trans (depth_item inside) (depth_get? atV)) (orderly_item (orderly_get? ord atV) inside)
          (own.entries key root es atV t inside)
      | _ => cases made
    | _ => exact apart
end Json
namespace Paired
variable {left right : Fields} {path : String} {p : Paired}
lemma orderly_ofKeyword {keyword : String} {l r : Json} (lOrd : l.isOrderly nums) (rOrd : r.isOrderly nums)
    (mem : p ∈ ofKeyword keyword path l r) : p.left.isOrderly nums ∧ p.right.isOrderly nums := by
  unfold ofKeyword at mem
  split at mem
  · obtain ⟨key,_,atL,atR⟩ := mem_ofMaps mem
    exact ⟨(orderly_obj.mp lOrd).2 _ atL,orderly_get? rOrd atR⟩
  · cases mem
  · obtain ⟨i,_,atL,atR⟩ := mem_ofTuples mem
    exact ⟨orderly_item lOrd (mem_of_getElem? atL),orderly_item rOrd (mem_of_getElem? atR)⟩
  · cases mem
  · cases mem
  · rw [mem_singleton.mp mem]
    exact ⟨lOrd,rOrd⟩

lemma orderly_positions (lOrd : (obj left).isOrderly nums) (rOrd : (obj right).isOrderly nums)
    (mem : p ∈ pairedPositions left right path walk) : p.left.isOrderly nums ∧ p.right.isOrderly nums := by
  obtain ⟨keyword,_,inside⟩ := mem_flatMap.mp mem
  split at inside
  · next atL atR =>
    exact orderly_ofKeyword (orderly_get? lOrd atL) (orderly_get? rOrd atR) inside
  · cases inside
end Paired
lemma Slot.orderly_place (slot : Slot) (ord : (obj fs).isOrderly nums)
    (good : value.isOrderly nums) : (obj (slot.place fs value)).isOrderly nums := by
  unfold place
  split
  · split
    · next found =>
      split
      · exact orderly_put ord (orderly_put (orderly_get? ord found) good)
      · exact ord
    · exact ord
  · split
    · exact orderly_put ord good
    · exact ord
  · split
    · next found =>
      refine orderly_put ord (orderly_arr.mpr fun v mem => ?_)
      rcases mem_or_eq_of_mem_set mem with old | rfl
      · exact orderly_item (orderly_get? ord found) old
      · exact good
    · exact ord
namespace Engine
variable {σ : Type} {e : Engine (StateM σ)} {sub sup : Json} {path : String}
lemma orderly_decide {s : Settled} {replacement : Option Json} (ord : (obj s.sup).isOrderly nums)
    (good : ∀ v, replacement = some v → v.isOrderly nums) (verdict : Option Bool) (keyword : String) (d : Difference) :
    (obj (s.decide verdict keyword replacement d).sup).isOrderly nums := by
  unfold Settled.decide
  split
  · cases replacement with
    | none => exact orderly_erase ord
    | some v => exact orderly_put ord (good v rfl)
  all_goals exact ord

lemma orderly_settleFormat {sub : Fields} {s : Settled} (subOrderly : (obj sub).isOrderly nums)
    (ord : (obj s.sup).isOrderly nums) : (obj (settleFormat sub path s).sup).isOrderly nums := by
  unfold settleFormat
  split
  · exact ord
  · exact orderly_decide ord (fun _ found => orderly_get? subOrderly found) _ _ _

lemma orderly_settleNegation {sub : Fields} {s : Settled} (ord : (obj s.sup).isOrderly nums) :
    (obj (settleNegation sub path s).sup).isOrderly nums := by
  unfold settleNegation
  split
  · exact ord
  split
  · exact ord
  · exact orderly_decide ord (fun _ (absent : none = some _) => nomatch absent) _ _ _

lemma ensures_settlePattern {sub : Fields} {s : Settled} (subOrderly : (obj sub).isOrderly nums)
    (ord : (obj s.sup).isOrderly nums) :
    Always (e.settlePattern sub path s) fun now => (obj now.sup).isOrderly nums := by
  unfold settlePattern
  split
  · exact .pure ord
  exact .bind (ensures_any _) fun verdict _ =>
    .pure (orderly_decide ord (fun _ found => orderly_get? subOrderly found) _ _ _)

lemma ensures_reconcileOrderly (depth : Nat) (subOrderly : sub.isOrderly nums) (supOrderly : sup.isOrderly nums) :
    Always (e.reconcileWithin depth sub sup path) fun made => made.1.isOrderly nums := by
  induction depth generalizing sub sup path with
  | zero => exact .pure supOrderly
  | succ depth ih =>
    cases sub with
    | obj own =>
      cases sup with
      | obj other =>
        refine .bind (ensures_settlePattern subOrderly supOrderly) fun s ord => ?_
        refine .bind (.foldlM (motive := fun rest s => (∀ p ∈ rest, p.left.isOrderly nums ∧
          p.right.isOrderly nums) ∧ (obj s.sup).isOrderly nums) ?_ _ _ ⟨?_,?_⟩) fun s holds => .pure holds.2
        · rintro p rest s ⟨orderlies,soFar⟩
          obtain ⟨lOrd,rOrd⟩ := orderlies p mem_cons_self
          refine .bind (ih lOrd rOrd) ?_
          rintro ⟨settled,failures⟩ good
          exact .pure ⟨fun q mem => orderlies q (.tail _ mem),p.slot.orderly_place soFar good⟩
        · exact fun p mem => Paired.orderly_positions subOrderly supOrderly mem
        · exact orderly_settleNegation (orderly_settleFormat subOrderly ord)
      | _ => exact .pure supOrderly
    | _ => exact .pure supOrderly
end Engine
namespace Engine
variable {σ : Type} {e e' : Engine (StateM σ)} {good : Report → Prop} {sub sup : Json} {path : String}
structure Merging (nums : Num → Bool) (e e' : Engine (StateM σ)) : Prop where
  whole : ∀ w, nums (.whole w)
  merges : e.Merges
  primitive : ∀ a b, a.isOrderly nums → b.isOrderly nums → e.primitive a b = e'.primitive a b
  matcher : e.matcher = e'.matcher
  patternWithin : e.patternWithin = e'.patternWithin
section
variable (merging : Merging nums e e')
include merging
lemma Merging.asking : (Simulation.same (StateM σ)).Asking e e' :=
  ⟨fun pat => congrFun merging.matcher pat,fun sub sup => congrFun (congrFun merging.patternWithin sub) sup⟩

lemma concur_intersect {post : Json → Prop} (aOrd : a.isOrderly nums) (bOrd : b.isOrderly nums)
    (merged : Always (merge e.matcher a b) fun result => ∀ m, result = .ok m → post m) :
    Concur (e.intersect a b) (e'.intersect a b) fun result => ∀ m, result = .ok m → post m := by
  refine ⟨?_,ensures_found ⟨merging.merges,fun _ => ensures_any _⟩ merged⟩
  unfold intersect
  rw [merging.primitive a b aOrd bOrd,merging.asking.closedConflict a.depth a b ""]

lemma concur_intersect? {post : Json → Prop} (aOrd : a.isOrderly nums) (bOrd : b.isOrderly nums)
    (merged : Always (merge e.matcher a b) fun result => ∀ m, result = .ok m → post m) :
    Concur (e.intersect? a b) (e'.intersect? a b) fun found => ∀ m, found = some m → post m := by
  refine .bind (concur_intersect merging aOrd bOrd merged) fun result facts => .pure fun m same => ?_
  cases result with
  | error c => cases same
  | ok merged => exact facts m (congrArg Except.ok (some.inj same))

-- A branch with what stands beside its union brings in no more unions than both have.
lemma concur_part (besideOrderly : (obj beside).isOrderly nums) (branchOrderly : branch.isOrderly nums) :
    Concur (e.withBeside beside branch) (e'.withBeside beside branch) fun found => ∀ part, found = some part →
      part.isOrderly nums ∧ part.splits ≤ (obj beside).splits + branch.splits ∧
      ((obj beside).typesApart → branch.typesApart → part.typesApart) := by
  unfold withBeside
  split
  · refine .pure fun part same => ?_
    cases same
    exact ⟨orderly_normalize branchOrderly,le_trans (splits_normalize branchOrderly) (Nat.le_add_left _ _),
      fun _ apart => apart_normalize branchOrderly apart⟩
  refine .bind (concur_intersect? merging besideOrderly branchOrderly (ensures_mergeRoot merging.whole
    (fun _ => ensures_any _) besideOrderly branchOrderly)) fun found facts => .pure fun part same => ?_
  obtain ⟨m,made,rfl⟩ := map_eq_some_iff.mp same
  obtain ⟨ord,splits,apart⟩ := facts m made
  exact ⟨orderly_normalize ord,le_trans (splits_normalize ord) splits,
    fun besideApart branchApart => apart_normalize ord (apart besideApart branchApart)⟩
end
lemma oneType_normalize (ord : m.isOrderly nums) (oneType : OneType s t m) : OneType s t m.normalize := by
  refine ⟨fun u found => ?_,fun apart ns found => ?_,fun apart name is u found => ?_⟩
  · rcases type_normalize found with own | ⟨name,rfl⟩
    · exact oneType.named u own
    · exact .one name
  · rcases type_normalize found with own | ⟨name,absurd⟩
    · exact apart_normalize ord (oneType.apart apart ns own)
    · cases absurd
  · rcases type_normalize found with own | single
    · exact oneType.one apart name is u own
    · exact single

lemma concur_typePart (merging : Merging nums e e') {t : Json} {types : List Json}
    (ord : sub.isOrderly nums) (listed : sub.field? "type" = some (.arr types)) (mem : t ∈ types) :
    Concur (e.withBeside [("type",t)] sub) (e'.withBeside [("type",t)] sub) fun found => ∀ part, found = some part →
      part.isOrderly nums ∧ OneType sub t part := by
  have tOrderly : t.isOrderly nums := by
    cases sub with
    | obj fs => exact orderly_item (orderly_get? ord listed) mem
    | _ => cases listed
  have steady : ∀ pat, Always (e.matcher pat) fun _ => True := fun _ => ensures_any _
  have merged := Ensures.and (ensures_mergeRoot merging.whole steady (orderly_single tOrderly) ord)
    (ensures_mergeType merging.whole steady ord listed mem)
  refine .bind (concur_intersect? merging (orderly_single tOrderly) ord (merged.mono fun result facts m made =>
    And.intro (facts.1 m made).1 (facts.2 m made))) fun found facts => .pure fun part same => ?_
  obtain ⟨m,made,rfl⟩ := map_eq_some_iff.mp same
  obtain ⟨mOrderly,oneType⟩ := facts m made
  exact ⟨orderly_normalize mOrderly,oneType_normalize mOrderly oneType⟩

lemma concur_parts (good : Report → Prop) {check check' : Json → String → OptionT (StateM σ) Report} (is : Part → Json → Prop)
    (made : ∀ p ∈ parts, Concur (e.withBeside p.beside p.branch) (e'.withBeside p.beside p.branch) fun found =>
      ∀ s, found = some s → is p s) (each : ∀ p ∈ parts, ∀ s, is p s → ConcurAnswer (check s p.path) (check' s p.path) good) :
    ConcurAnswer (e.checkParts check parts) (e'.checkParts check' parts) fun reports => ∀ r ∈ reports, good r := by
  induction parts with
  | nil => exact ConcurAnswer.pure nofun
  | cons p rest ih =>
    have later := ih (fun q mem => made q (.tail _ mem)) fun q mem => each q (.tail _ mem)
    refine ConcurAnswer.bind (ConcurAnswer.lift (made p mem_cons_self)) fun found facts => ?_
    cases found with
    | none => exact later
    | some s =>
      refine ConcurAnswer.bind (each p mem_cons_self s (facts s rfl)) fun r holds => ?_
      refine ConcurAnswer.bind later fun reports all => ConcurAnswer.pure ?_
      exact forall_mem_cons.mpr ⟨holds,all⟩

structure Judging (nums : Num → Bool) (e e' : Engine (StateM σ)) (good : Report → Prop) : Prop
    extends Merging nums e e' where
  atomic : ∀ sub sup path, sub.isOrderly nums → sup.isOrderly nums →
    Concur (e.checkAtomic sub sup path) (e'.checkAtomic sub sup path) good
  holds : ∀ merged, good (.holds merged)
  nothing : good ⟨true,none,[]⟩
  noBranch : ∀ sub sup kind path, good (noBranch sub sup kind path)
  all : ∀ parts : List Report, (∀ r ∈ parts, good r) → good (.all parts)

lemma concur_branches (judging : Judging nums e e' good) (subOrderly : sub.isOrderly nums)
    (besideOrderly : (obj beside).isOrderly nums) (bs : List Json)
    (orderlies : ∀ b ∈ bs, b.isOrderly nums) (closest : Option Report) (soFar : ∀ r, closest = some r → good r) :
    Concur (e.checkBranches sub beside path closest bs) (e'.checkBranches sub beside path closest bs) fun answer =>
      ∀ r, answer = some r → good r := by
  induction bs generalizing closest with
  | nil => exact .pure soFar
  | cons branch rest ih =>
    have later := ih fun b mem => orderlies b (.tail _ mem)
    refine .bind (concur_part judging.toMerging besideOrderly (orderlies branch mem_cons_self)) fun found facts => ?_
    cases found with
    | none => exact later closest soFar
    | some part =>
      refine .bind (judging.atomic sub part path subOrderly (facts part rfl).1) fun r holds => ?_
      split
      · exact .pure fun _ same => some.inj same ▸ holds
      refine later _ fun c same => ?_
      cases closest with
      | none => exact some.inj same ▸ holds
      | some old =>
        unfold closer at same
        dsimp only at same
        split at same
        · exact some.inj same ▸ holds
        · exact soFar c same

lemma mem_typeParts (mem : p ∈ typeParts sub path) : ∃ types t,
    sub.field? "type" = some (.arr types) ∧ t ∈ types ∧ p = ⟨[("type",t)],sub,path⟩ := by
  unfold typeParts at mem
  split at mem
  · next types found =>
    split at mem
    · cases mem
    obtain ⟨t,inside,rfl⟩ := mem_map.mp mem
    exact ⟨types,t,found,inside,rfl⟩
  · cases mem

lemma orderly_split (ord : schema.isOrderly nums) (found : Split.of? schema = some split) :
    (obj split.beside).isOrderly nums ∧ ∀ branch ∈ split.branches, branch.isOrderly nums := by
  cases schema with
  | obj fs =>
    unfold Split.of? at found
    dsimp only at found
    split at found
    · next _ _ _ atUnion =>
      cases found
      exact ⟨orderly_filter ord _,orderly_arr.mp (orderly_get? ord atUnion)⟩
    · next _ _ _ atUnion _ =>
      cases found
      exact ⟨orderly_filter ord _,orderly_arr.mp (orderly_get? ord atUnion)⟩
    · cases found
  | _ => cases found

lemma concur_againstStep (judging : Judging nums e e' good) (subOrderly : sub.isOrderly nums)
    (supOrderly : sup.isOrderly nums) (fuel : Nat)
    (next : ∀ types t part, sub.field? "type" = some (.arr types) → t ∈ types → part.isOrderly nums → OneType sub t part →
      ConcurAnswer (e.checkAgainst sup fuel part path) (e'.checkAgainst sup fuel part path) good) :
    ConcurAnswer (e.checkAgainst sup (fuel + 1) sub path) (e'.checkAgainst sup (fuel + 1) sub path) good := by
  rw [checkAgainst,checkAgainst]
  split
  · exact ConcurAnswer.lift (judging.atomic sub sup path subOrderly supOrderly)
  next split found =>
  obtain ⟨besideOrderly,branchesOrderly⟩ := orderly_split supOrderly found
  refine ConcurAnswer.bind (ConcurAnswer.lift (concur_branches judging subOrderly besideOrderly split.branches
    branchesOrderly none fun _ is => by cases is)) fun closest holds => ?_
  have answerHolds : good (closest.getD (noBranch sub sup split.kind path)) := by
    cases closest with
    | none => exact judging.noBranch _ _ _ _
    | some r => exact holds r rfl
  dsimp only
  split
  · exact ConcurAnswer.pure answerHolds
  refine ConcurAnswer.bind (concur_parts good (fun p part => ∃ types t, sub.field? "type" = some (.arr types) ∧ t ∈ types ∧
    part.isOrderly nums ∧ OneType sub t part) ?_ ?_) fun reports all => ConcurAnswer.pure ?_
  · intro p mem
    obtain ⟨types,t,listed,inside,rfl⟩ := mem_typeParts mem
    exact (concur_typePart judging.toMerging subOrderly listed inside).mono fun found facts part same =>
      ⟨types,t,listed,inside,(facts part same).1,(facts part same).2⟩
  · rintro p mem part ⟨types,t,listed,inside,ord,oneType⟩
    obtain ⟨_,_,_,_,rfl⟩ := mem_typeParts mem
    exact next types t part listed inside ord oneType
  · split
    · exact judging.all _ all
    · exact answerHolds

-- A list of types is cut to names by the first step and to one name by the second.
lemma concur_against (judging : Judging nums e e' good) (subOrderly : sub.isOrderly nums)
    (supOrderly : sup.isOrderly nums) (apart : sub.typesApart) :
    ConcurAnswer (e.checkAgainst sup (typeFuel sub) sub path) (e'.checkAgainst sup (typeFuel sub) sub path) good := by
  have single {s} fuel (ord : s.isOrderly nums) (one : ∀ u, s.field? "type" = some u → ∃ only, u = .str only) :
      ConcurAnswer (e.checkAgainst sup (fuel + 1) s path) (e'.checkAgainst sup (fuel + 1) s path) good := by
    refine concur_againstStep judging ord supOrderly fuel fun types t part listed => ?_
    obtain ⟨only,absurd⟩ := one _ listed
    cases absurd
  have named {s} fuel (ord : s.isOrderly nums) (ns : ∀ u, s.field? "type" = some u → Named u)
      (apart : ∀ ns, s.field? "type" = some (.arr ns) → s.typesApart) :
      ConcurAnswer (e.checkAgainst sup (fuel + 2) s path) (e'.checkAgainst sup (fuel + 2) s path) good := by
    refine concur_againstStep judging ord supOrderly (fuel + 1) fun types t part listed inside partOrderly oneType => ?_
    obtain ⟨name,isName⟩ := (ns _ listed).inner t inside
    exact single fuel partOrderly (oneType.one (apart _ listed) name isName)
  cases listed : sub.field? "type" with
  | none =>
    have fuel : typeFuel sub = 1 + 1 := by unfold typeFuel; rw [listed]; rfl
    rw [fuel]
    exact single 1 subOrderly fun u found => by rw [listed] at found; cases found
  | some u =>
    have fuel : typeFuel sub = u.depth + 2 := by unfold typeFuel; rw [listed]; rfl
    rw [fuel]
    refine concur_againstStep judging subOrderly supOrderly (u.depth + 1)
      fun types t part found inside partOrderly oneType => ?_
    rw [listed] at found
    cases found
    exact named _ partOrderly oneType.named (oneType.apart apart)

lemma split_fewer (ord : schema.isOrderly nums) (found : Split.of? schema = some split) :
    schema.splits = (obj split.beside).splits + splitsItems split.branches + 1 := by
  cases schema with
  | obj fs =>
    have sorted := (orderly_obj.mp ord).1
    have without key (union : key ∈ ["anyOf","oneOf"]) bs (atUnion : get? fs key = some (.arr bs)) :
        (obj fs).splits = (obj (without fs [key])).splits + splitsItems bs + 1 := by
      simp only [mem_cons,not_mem_nil,or_false] at union
      have own : splitsAt fs key = splitsItems bs + 1 := by
        unfold splitsAt
        rw [atUnion,map_some,getD_some,splitsUnder_union union]
      rw [without_single sorted,splits_eq sorted,splits_eq (sorted_erase sorted)]
      rw [splitsAt_erase sorted,splitsAt_erase sorted,splitsAt_erase sorted]
      rcases union with rfl | rfl
      · rw [if_neg (by decide),if_pos rfl,if_neg (by decide)]
        omega
      rw [if_neg (by decide),if_neg (by decide),if_pos rfl]
      omega
    unfold Split.of? at found
    dsimp only at found
    split at found
    · next _ _ bs atUnion =>
      cases found
      exact without "anyOf" (by decide) bs atUnion
    · next _ _ bs atUnion _ =>
      cases found
      exact without "oneOf" (by decide) bs atUnion
    · cases found
  | _ => cases found

lemma split_apart (ord : schema.isOrderly nums) (found : Split.of? schema = some split) (apart : schema.typesApart) :
    (obj split.beside).typesApart ∧ ∀ branch ∈ split.branches, branch.typesApart := by
  cases schema with
  | obj fs =>
    have sorted := (orderly_obj.mp ord).1
    have own := (typesApart_obj sorted).mp apart
    have without key : (obj (without fs [key])).typesApart := by
      rw [without_single sorted]
      refine (typesApart_obj (sorted_erase sorted)).mpr ⟨fun t at_ => ?_,fun name root list at_ => ?_⟩
      · rw [get?_erase sorted] at at_
        split at at_
        · cases at_
        · exact own.type t at_
      rw [get?_erase sorted] at at_
      split at at_
      · cases at_
      · exact own.entries name root list at_
    unfold Split.of? at found
    dsimp only at found
    split at found
    · next _ _ bs atUnion =>
      cases found
      exact ⟨without "anyOf",own.entries "anyOf" (by decide) bs atUnion⟩
    · next _ _ bs atUnion _ =>
      cases found
      exact ⟨without "oneOf",own.entries "oneOf" (by decide) bs atUnion⟩
    · cases found
  | _ => cases found

lemma concur_within (judging : Judging nums e e' good) (subOrderly : sub.isOrderly nums)
    (supOrderly : sup.isOrderly nums) (apart : sub.typesApart) (enough : sub.splits < fuel) (alsoEnough : sub.splits < other) :
    ConcurAnswer (e.checkWithin sup fuel sub path) (e'.checkWithin sup other sub path) good := by
  induction fuel generalizing sub path other with
  | zero => cases enough
  | succ fuel ih =>
    obtain ⟨rest,rfl⟩ := Nat.exists_eq_add_one_of_ne_zero (ne_of_gt (Nat.zero_lt_of_lt alsoEnough))
    rw [checkWithin,checkWithin]
    split
    · exact ConcurAnswer.pure judging.nothing
    split
    · exact ConcurAnswer.pure (judging.holds sub)
    have readTrue : ∃ s, (if sub.isTrue then .emptyObj else sub) = s ∧ s.isOrderly nums ∧
        s.typesApart ∧ s.splits < fuel + 1 ∧ s.splits < rest + 1 := by
      split
      · exact ⟨_,rfl,rfl,rfl,Nat.zero_lt_succ _,Nat.zero_lt_succ _⟩
      · exact ⟨sub,rfl,subOrderly,apart,enough,alsoEnough⟩
    obtain ⟨s,is,ord,sApart,sEnough,sAlsoEnough⟩ := readTrue
    dsimp only
    rw [is]
    split
    · exact ConcurAnswer.pure (judging.holds s)
    split
    · exact concur_against judging ord supOrderly sApart
    next split found =>
    obtain ⟨besideOrderly,branchesOrderly⟩ := orderly_split ord found
    obtain ⟨besideApart,branchesApart⟩ := split_apart ord found sApart
    have total := split_fewer ord found
    refine ConcurAnswer.bind (concur_parts good (fun p part => part.isOrderly nums ∧ part.typesApart ∧
      part.splits < s.splits) ?_ ?_) fun reports all => ConcurAnswer.pure (judging.all _ all)
    · intro p mem
      obtain ⟨⟨branch,i⟩,inside,rfl⟩ := mem_map.mp mem
      have isBranch : branch ∈ split.branches := by
        have zipped := mem_zipIdx inside
        exact zipped.2.2 ▸ getElem_mem _
      refine (concur_part judging.toMerging besideOrderly (branchesOrderly branch isBranch)).mono
        fun found facts part same => ?_
      obtain ⟨partOrderly,fewer,partApart⟩ := facts part same
      refine ⟨partOrderly,partApart besideApart (branchesApart branch isBranch),?_⟩
      have within := splits_member isBranch
      omega
    · rintro p _ part ⟨partOrderly,partApart,fewer⟩
      exact ih partOrderly partApart (by omega) (by omega)

lemma splits_lt_unionCount (s : Json) : s.splits < s.unionCount + 2 := lt_of_le_of_lt (splits_le_unionCount s) (by omega)

lemma concur_check (judging : Judging nums e e' good) (subOrderly : sub.isOrderly nums)
    (supOrderly : sup.isOrderly nums) (apart : sub.typesApart) : Concur (e.check sub sup) (e'.check sub sup) good := by
  refine .bind (concur_within judging (orderly_normalize subOrderly) (orderly_normalize supOrderly)
    (apart_normalize subOrderly apart) (splits_lt_unionCount _) (splits_lt_unionCount _)) fun found answer => ?_
  obtain ⟨report,rfl,holds⟩ := answer
  exact .pure holds

lemma concur_atomic (merging : Merging nums e e') (subOrderly : sub.isOrderly nums) (supOrderly : sup.isOrderly nums) :
    Concur (e.checkAtomic sub sup path) (e'.checkAtomic sub sup path) fun _ => True := by
  have found : ∀ {sup}, sup.isOrderly nums →
      Concur (e.intersect sub sup) (e'.intersect sub sup) fun result => ∀ m, result = .ok m → True :=
    fun ord => concur_intersect merging subOrderly ord ((ensures_any _).mono fun _ _ _ _ => trivial)
  unfold checkAtomic
  split
  · exact .pure trivial
  refine .bind ⟨merging.asking.reconcileWithin sub.depth sub sup path,ensures_reconcileOrderly sub.depth subOrderly supOrderly⟩ ?_
  rintro ⟨settled,failures⟩ ord
  dsimp only
  split
  · refine .bind (found ord) fun result _ => ?_
    cases result with
    | error c | ok common => exact .pure trivial
  unfold checkFailed
  split
  · exact .bind (.pure trivial) fun _ (_ : True) => .pure trivial
  · exact .bind (.bind (found ord) fun _ _ => .pure trivial) fun _ (_ : True) => .pure trivial

lemma Merging.judging (merging : Merging nums e e') : Judging nums e e' fun _ => True where
  toMerging := merging
  atomic _ _ _ subOrderly supOrderly := concur_atomic merging subOrderly supOrderly
  holds _ := trivial
  nothing := trivial
  noBranch _ _ _ _ := trivial
  all _ _ := trivial

def limited {m : Type → Type} [Monad m] (e : Engine m) (limit : Json → Json → Nat)
    (fallback : Json → Json → Except Conflict Json) : Engine m :=
  { e with primitive := fun a b => mergeOr e.matcher (limit a b) (fallback a b) a b }

lemma merging_limited (merges : e.Merges) {limit : Json → Json → Nat}
    (enough : ∀ a b, a.heft + b.heft ≤ limit a b) (fallback : Json → Json → Except Conflict Json) :
    Merging (fun _ => true) e (e.limited limit fallback) where
  whole _ := rfl
  merges := merges
  primitive a b aOrd bOrd := by
    rw [merges]
    exact (mergeOr_eq_merge e.matcher aOrd bOrd (enough a b) (fallback a b)).symm
  matcher := rfl
  patternWithin := rfl
end Engine
theorem check_settled (settings : Settings) (memory : Memory) (sub sup : Json)
    (subOrderly : sub.isOrderly (fun _ => true) = true) (supOrderly : sup.isOrderly (fun _ => true) = true)
    (apart : sub.typesApart = true) :
    let engine : Engine (StateM Memory) := Memory.engine settings
    ∃ report after, (engine.check sub sup).run memory = (report,after) ∧
      ∀ (limit : Json → Json → Nat) (fallback : Json → Json → Except Conflict Json) (fuel : Nat),
        (∀ a b, a.heft + b.heft ≤ limit a b) → sub.normalize.splits < fuel →
          ((engine.limited limit fallback).checkWithin sup.normalize fuel sub.normalize "").run.run memory = (some report,after) := by
  intro engine
  have run : ∀ (limit : Json → Json → Nat) (fallback : Json → Json → Except Conflict Json) (fuel : Nat),
      (∀ a b, a.heft + b.heft ≤ limit a b) → sub.normalize.splits < fuel →
      ConcurAnswer (engine.checkWithin sup.normalize (sub.normalize.unionCount + 2) sub.normalize "")
        ((engine.limited limit fallback).checkWithin sup.normalize fuel sub.normalize "") fun _ => True := by
    intro limit fallback fuel limited enough
    exact Engine.concur_within (Engine.merging_limited rfl limited fallback).judging (Json.orderly_normalize subOrderly)
      (Json.orderly_normalize supOrderly) (Json.apart_normalize subOrderly apart) (Engine.splits_lt_unionCount _) enough
  obtain ⟨_,report,answered,_⟩ := (run Intersection.budget (fun a b => .ok (.single "allOf" (.arr [a,b]))) _
    Intersection.budget_enough (Engine.splits_lt_unionCount _)).2 memory trivial
  generalize reached : (engine.checkWithin sup.normalize (sub.normalize.unionCount + 2) sub.normalize "").run.run memory =
    result at answered
  obtain ⟨found,after⟩ := result
  cases answered
  refine ⟨report,after,?_,fun limit fallback fuel limited enough => ?_⟩
  · unfold Engine.check
    rw [StateT.run_bind,reached]
    rfl
  · rw [← (run limit fallback fuel limited enough).1]
    exact reached

def textsOrWhole : Json :=
  .obj [("allOf",.arr [.single "contains" (.bool true)]),
    ("anyOf",.arr [.single "type" (.strings ["integer","string"]),.single "pattern" (.str "^a+$")]),("maxLength",.digit 4)]

theorem check_settled_textsOrWhole :
    let sup := Json.obj [("oneOf",.arr [.single "type" (.str "string"),.single "minimum" (.digit 0)])]
    let engine : Engine (StateM Memory) := Memory.engine {}
    textsOrWhole.typesApart = true ∧ ∀ memory, ∃ report after, (engine.check textsOrWhole sup).run memory = (report,after) ∧
      ((engine.limited (fun a b => a.heft + b.heft) fun _ _ => .ok .null).checkWithin sup.normalize 2 textsOrWhole.normalize
        "").run.run memory = (some report,after) := by
  refine ⟨by decide,fun memory => ?_⟩
  obtain ⟨report,after,checked,settled⟩ := check_settled {} memory textsOrWhole
    (.obj [("oneOf",.arr [.single "type" (.str "string"),.single "minimum" (.digit 0)])]) (by decide) (by decide) (by decide)
  exact ⟨report,after,checked,settled _ _ 2 (fun _ _ => Nat.le_refl _) (by decide)⟩
end SchemaOrder
