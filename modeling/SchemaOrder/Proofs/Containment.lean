import SchemaOrder.Proofs.Equivalence
import SchemaOrder.Proofs.Intersection.Lossless
import SchemaOrder.Proofs.Settling
namespace SchemaOrder
open Acceptance Schemas List Canonical Fields Json Option
-- Two kinds of values can be lost: those that the intersection of a branch with what stands beside it misses, and those
-- with a straying member, which settling treats wrongly.
lemma Fields.without_single {fs : Fields} {key : String} (sorted : fs.Sorted) : fs.without [key] = fs.erase key := by
  unfold without
  induction fs with
  | nil => rfl
  | cons field rest ih =>
    obtain ⟨k,s⟩ := field
    obtain ⟨least,tail⟩ := pairwise_cons.mp sorted
    rw [filter_cons,erase]
    by_cases same : k = key
    · subst same
      rw [if_neg (by simp),if_pos rfl]
      refine filter_eq_self.mpr fun later mem => ?_
      have ne : later.1 ≠ k := fun eq => lt_irrefl k (eq ▸ least later mem)
      simpa using ne
    · rw [if_pos (by simpa using same),if_neg same,ih tail]

structure Split.Divides (ts : Texts) (vocab : Vocabulary) (schema : Json) (split : Split) : Prop where
  beside : Formed vocab split.beside
  branches : ∀ branch ∈ split.branches, branch.isSchema vocab
  accepts : ∀ v, schema.accepts ts v ↔
    (obj split.beside).accepts ts v ∧ ∃ branch ∈ split.branches, branch.accepts ts v

lemma Split.divides {ts : Texts} {vocab : Vocabulary} {schema : Json} {split : Split}
    (good : schema.isSchema vocab) (found : of? schema = some split) (kind : split.kind = .anyOf) :
    split.Divides ts vocab schema := by
  rcases isSchema_cases good with ⟨b,rfl⟩ | ⟨fs,rfl,formed⟩
  · cases found
  unfold of? at found
  dsimp only at found
  split at found
  · next _ _ bs atUnion =>
    cases found
    obtain ⟨ms,same,schemas⟩ := (formed_list rfl).mp (formed.formed _ _ atUnion)
    cases same
    refine ⟨?_,schemas,fun v => ?_⟩
    · rw [without_single formed.sorted]
      exact formed.erase (by decide)
    rw [without_single formed.sorted,accepts_erase formed.sorted (show "anyOf" ∉ grouped by decide),atUnion]
    simp only [some.injEq,forall_eq']
    exact and_congr_right fun _ => any_eq_true
  · cases found
    cases kind
  · cases found
namespace Engine
structure Steady {σ : Type} (inv : σ → Prop) (e : Engine (StateM σ)) : Prop where
  merges : e.Merges
  matcher : ∀ pat, Ensures inv (e.matcher pat) fun _ => True
section Intersections
variable {σ : Type} {inv : σ → Prop} {e : Engine (StateM σ)} {vocab : Vocabulary}
section
variable (steady : Steady inv e)
include steady
lemma ensures_covers (fs : Fields) (name : String) : Ensures inv (e.covers fs name) fun _ => True := by
  unfold covers
  split
  · exact .pure trivial
  unfold matchesPattern
  generalize ((fs.get? "patternProperties").bind fields?).getD [] = patterns
  induction patterns with
  | nil => exact .pure trivial
  | cons entry rest ih =>
    refine .bind (show Ensures inv _ fun _ => True from ?_) fun found _ => ?_
    · refine .bind (steady.matcher entry.1) fun found _ => ?_
      cases found <;> exact .pure trivial
    cases found with
    | true => exact .pure trivial
    | false => exact ih

lemma ensures_closedAgainst (closed other : Fields)
    (path : String) : Ensures inv (e.closedAgainst closed other path) fun _ => True := by
  unfold closedAgainst
  split
  · generalize Intersection.required other = ns
    induction ns with
    | nil => exact .pure trivial
    | cons name rest ih =>
      rw [refusedName]
      split
      · exact ih
      refine .bind (ensures_covers steady closed name) fun covered _ => ?_
      cases covered with
      | true => exact ih
      | false =>
        split
        · contradiction
        split
        · exact .pure trivial
        · exact ih
  · exact .pure trivial

lemma ensures_closedConflict (depth : Nat)
    (a b : Json) (path : String) : Ensures inv (e.closedConflict depth a b path) fun _ => True := by
  induction depth generalizing a b path with
  | zero => exact .pure trivial
  | succ depth ih =>
    have among right lp path : Ensures inv (firstAmong (closedConflict e depth) path right lp) fun
        _ => True := by
      induction lp with
      | nil => exact .pure trivial
      | cons entry rest rest_ih =>
        unfold firstAmong
        split
        · refine .bind (ih _ _ _) fun found _ => ?_
          cases found with
          | none => exact rest_ih
          | some c => exact .pure trivial
        · exact rest_ih
    cases a with
    | obj left =>
      cases b with
      | obj right =>
        refine .bind (ensures_closedAgainst steady left right path) fun first _ => ?_
        cases first with
        | some c => exact .pure trivial
        | none =>
          refine .bind (ensures_closedAgainst steady right left path) fun second _ => ?_
          cases second with
          | some c => exact .pure trivial
          | none =>
            dsimp only
            split
            · exact among _ _ _
            · exact .pure trivial
      | _ => exact .pure trivial
    | _ => exact .pure trivial

-- The searches before the merge can only end in a conflict.
lemma ensures_found {post : Json → Prop}
    (merged : Ensures inv (Intersection.merge e.matcher a b) fun result => ∀ m, result = .ok m → post m) :
    Ensures inv (e.intersect a b) fun result => ∀ m, result = .ok m → post m := by
  unfold intersect
  cases constantConflict a.depth a b "" with
  | some c => exact .pure nofun
  | none =>
    cases formatConflict a.depth a b "" with
    | some c => exact .pure nofun
    | none =>
      refine .bind (ensures_closedConflict steady a.depth a b "") fun found _ => ?_
      cases found with
      | some c => exact .pure nofun
      | none =>
        rw [steady.merges]
        exact merged

lemma ensures_found? {post : Json → Prop}
    (merged : Ensures inv (Intersection.merge e.matcher a b) fun result => ∀ m, result = .ok m → post m) :
    Ensures inv (e.intersect? a b) fun found => ∀ m, found = some m → post m := by
  refine .bind (ensures_found steady merged) fun result facts => .pure fun m same => ?_
  cases result with
  | error c => cases same
  | ok merged => exact facts m (congrArg Except.ok (some.inj same))
end
section
variable (ts : Texts) (steady : Steady inv e) (closed : vocab.Closed)
include ts steady closed
lemma ensures_intersect (left : a.isSchema vocab) (right : b.isSchema vocab) :
    Ensures inv (e.intersect a b) fun result => ∀ m, result = .ok m → m.isSchema vocab ∧ Below ts m a ∧ Below ts m b :=
  ensures_found steady (Intersection.ensures_merge ts closed left right)

lemma ensures_intersect? (left : a.isSchema vocab) (right : b.isSchema vocab) :
    Ensures inv (e.intersect? a b) fun found => ∀ m, found = some m → m.isSchema vocab ∧ Below ts m a ∧ Below ts m b :=
  ensures_found? steady (Intersection.ensures_merge ts closed left right)

lemma ensures_withBeside (literal : vocab.Literal) (formed : Formed vocab beside) (schema : branch.isSchema vocab) :
    Ensures inv (e.withBeside beside branch) fun found => ∀ part, found = some part →
      part.isSchema vocab ∧ Below ts part (.obj beside) ∧ Below ts part branch := by
  unfold withBeside
  split
  · next empty =>
    refine .pure fun part same => ?_
    cases same
    refine ⟨isSchema_normalize literal schema,fun v _ _ => ?_,fun v exact acc => ?_⟩
    · rw [isEmpty_iff.mp empty]
      exact accepts_emptyObj v
    · rwa [← alike_normalize schema v exact]
  · refine .bind (ensures_intersect? ts steady closed (isSchema_obj.mpr formed) schema)
      fun found facts => .pure fun part same => ?_
    obtain ⟨m,made,rfl⟩ := map_eq_some_iff.mp same
    obtain ⟨good,onBeside,onBranch⟩ := facts m made
    have back : Below ts m.normalize m := fun v exact acc => alike_normalize good v exact ▸ acc
    exact ⟨isSchema_normalize literal good,back.trans onBeside,back.trans onBranch⟩
end
end Intersections
structure Reliable {σ : Type} (ts : Texts) (inv : σ → Prop) (e : Engine (StateM σ)) (own other : Vocabulary) : Prop
    extends Ground ts inv e own other, Steady inv e where
  ownClosed : own.Closed
  ownLiteral : own.Literal
  ownUnions : own.has "oneOf" = false
  closed : other.Closed
  canonical : other.Canonical
  wider : ∀ key s, own.allows key s → other.allows key s
section Atoms
variable {σ : Type} {ts : Texts} {inv : σ → Prop} {e : Engine (StateM σ)} {own other : Vocabulary} {sub sup : Json}
section
variable (reliable : Reliable ts inv e own other)
include reliable
-- The narrower schema has no `oneOf`, so a schema of the same form has none.
lemma alike_of_same (left : sup.isSchema other)
    (right : sub.isSchema own) (same : equivalent sup sub ∨ equivalent sub sup) : Alike ts sup sub := by
  have inclusive : sub.isSchema other.inclusive := by
    refine isSchema_mono (fun key s allowed => ?_) right
    refine (Vocabulary.allows_inclusive ?_ s).trans (reliable.wider key s allowed)
    rintro rfl
    rw [Vocabulary.allows,reliable.ownUnions] at allowed
    cases allowed
  refine alike_of_form_eq reliable.canonical left inclusive ?_
  rcases same with same | same
  · exact equivalent_iff.mp same
  · exact (equivalent_iff.mp same).symm

lemma ensures_checkSettled (schema : sub.isSchema own) (otherSchema : sup.isSchema other) (path : String) :
    Ensures inv (e.checkSettled sub sup path) fun r => r.isSubset → Below ts sub sup := by
  refine .bind (ensures_intersect ts reliable.toSteady reliable.closed (isSchema_mono reliable.wider schema)
    otherSchema) fun result facts => ?_
  cases result with
  | error c => exact .pure nofun
  | ok common =>
    obtain ⟨good,_,onSup⟩ := facts common rfl
    refine .pure fun pos v exact acc => onSup v exact ?_
    rw [← alike_normalize good v exact,
      alike_of_same reliable (isSchema_normalize reliable.literal good) schema (.inl pos) v exact]
    exact acc

lemma ensures_checkFailed (schema : sub.isSchema own) (otherSchema : sup.isSchema other) (failures : List Difference) :
    Ensures inv (e.checkFailed sub sup failures) fun r => r.isSubset = false := by
  unfold checkFailed
  split
  · exact .pure rfl
  exact .bind (ensures_intersect? ts reliable.toSteady reliable.closed (isSchema_mono reliable.wider schema)
    otherSchema) fun _ _ => .pure rfl

lemma ensures_checkAtomic (schema : sub.isSchema own) (otherSchema : sup.isSchema other) (path : String) :
    Ensures inv (e.checkAtomic sub sup path) fun r => r.isSubset → ∀ v, v.isExact →
      sub.accepts ts v → ¬ Strays sub sup v → sup.accepts ts v := by
  unfold checkAtomic
  split
  · next same =>
    refine .pure fun _ v exact acc _ => ?_
    rw [alike_of_same reliable otherSchema schema (.inr same) v exact]
    exact acc
  refine .bind (ensures_reconcileWithin reliable.toGround sub.depth schema otherSchema) ?_
  rintro ⟨settled,failures⟩ settles
  dsimp only at settles ⊢
  split
  · refine .mono (ensures_checkSettled reliable schema settles.schema path) fun r sound pos v exact acc stays => ?_
    rw [← settles.alike v exact acc stays]
    exact sound pos v exact acc
  · exact .mono (ensures_checkFailed reliable schema settles.schema failures) fun r negative pos =>
      absurd pos (by rw [negative]; decide)
end
end Atoms
inductive Faces {σ : Type} (inv : σ → Prop) (e : Engine (StateM σ)) (sup : Json) : Json → Prop where
  | whole : Faces inv e sup sup
  | part {split : Split} {branch part : Json} {s : σ} (found : Split.of? sup = some split)
    (mem : branch ∈ split.branches) (valid : inv s) (made : ((e.withBeside split.beside branch).run s).1 = some part) :
    Faces inv e sup part

inductive Cut (schema : Json) : Fields → Json → Prop where
  | union {split : Split} {branch : Json} (found : Split.of? schema = some split) (mem : branch ∈ split.branches) :
    Cut schema split.beside branch
  | type {types : List Json} {t : Json} (listed : schema.field? "type" = some (.arr types)) (several : 2 ≤ types.length)
    (mem : t ∈ types) : Cut schema [("type",t)] schema

inductive Escapes {σ : Type} (ts : Texts) (inv : σ → Prop) (e : Engine (StateM σ)) (sup : Json) : Json → Json → Prop where
  | lost {schema branch v : Json} {beside : Fields} {s : σ} (cut : Cut schema beside branch) (valid : inv s)
    (onBeside : (obj beside).accepts ts v) (onBranch : branch.accepts ts v)
    (rejected : ∀ part, ((e.withBeside beside branch).run s).1 = some part → part.accepts ts v = false) :
    Escapes ts inv e sup schema v
  | strays {schema part v : Json} (faces : Faces inv e sup part) (acc : schema.accepts ts v)
    (strays : Strays schema part v) : Escapes ts inv e sup schema v
  | inside {schema branch part v : Json} {beside : Fields} {s : σ} (cut : Cut schema beside branch) (valid : inv s)
    (made : ((e.withBeside beside branch).run s).1 = some part) (escapes : Escapes ts inv e sup part v) :
    Escapes ts inv e sup schema v

def Holds {σ : Type} (ts : Texts) (inv : σ → Prop) (e : Engine (StateM σ)) (sup sub : Json) : Prop :=
  ∀ v, v.isExact → sub.accepts ts v → sup.accepts ts v ∨ Escapes ts inv e sup sub v
section Checks
variable {σ : Type} {ts : Texts} {inv : σ → Prop} {e : Engine (StateM σ)} {own other : Vocabulary}
  {schema sub sup branch v : Json} {beside : Fields} {split : Split}

lemma faces_below (reliable : Reliable ts inv e own other) (otherSchema : sup.isSchema other)
    (unions : ∀ split, Split.of? sup = some split → split.kind = .anyOf) (faces : Faces inv e sup part) :
    part.isSchema other ∧ Below ts part sup := by
  cases faces with
  | whole => exact ⟨otherSchema,Below.refl ts sup⟩
  | part found mem valid made =>
    have divides : Split.Divides ts other sup _ := Split.divides otherSchema found (unions _ found)
    obtain ⟨good,onBeside,onBranch⟩ := (ensures_withBeside ts reliable.toSteady reliable.closed reliable.literal
      divides.beside (divides.branches _ mem) _ valid).2 part made
    exact ⟨good,fun v exact acc => (divides.accepts v).mpr ⟨onBeside v exact acc,_,mem,onBranch v exact acc⟩⟩

lemma kind_of_split (good : schema.isSchema other) (inclusive : (schema.field? "oneOf").isSome → (schema.field? "anyOf").isSome)
    (found : Split.of? schema = some split) : split.kind = .anyOf := by
  rcases isSchema_cases good with ⟨b,rfl⟩ | ⟨fs,rfl,formed⟩
  · cases found
  unfold Split.of? at found
  dsimp only at found
  split at found
  · cases found
    rfl
  · next bs atOneOf undivided =>
    obtain ⟨t,atAnyOf⟩ := isSome_iff_exists.mp (inclusive (isSome_iff_exists.mpr ⟨_,atOneOf⟩))
    obtain ⟨ms,rfl,_⟩ := (formed_list rfl).mp (formed.formed _ _ atAnyOf)
    exact (undivided ms atAnyOf).elim
  · cases found

lemma union_kind (good : schema.isSchema own) (exclusive : own.has "oneOf" = false)
    (found : Split.of? schema = some split) : split.kind = .anyOf := by
  refine kind_of_split good (fun held => ?_) found
  rcases isSchema_cases good with ⟨b,rfl⟩ | ⟨fs,rfl,formed⟩
  · cases held
  rw [show (obj fs).field? "oneOf" = none from formed.absent exclusive] at held
  cases held

lemma accepts_type (good : schema.isSchema own)
    (listed : schema.field? "type" = some (.arr types)) (acc : schema.accepts ts v) :
    ∃ t ∈ types, (obj [("type",t)]).accepts ts v := by
  rcases isSchema_cases good with ⟨b,rfl⟩ | ⟨fs,rfl,formed⟩
  · cases listed
  have holds := ((accepts_obj formed.sorted).mp acc).keyword _ _ listed
  obtain ⟨name,mem,typed⟩ := any_eq_true.mp holds
  obtain ⟨t,inside,isText⟩ := mem_filterMap.mp mem
  refine ⟨t,inside,(accepts_single (by decide)).mpr ?_⟩
  cases t with
  | str text =>
    cases isText
    exact any_eq_true.mpr ⟨_,mem_singleton_self _,typed⟩
  | _ => cases isText
section
variable (reliable : Reliable ts inv e own other)
include reliable
lemma cut_spec (good : schema.isSchema own) (cut : Cut schema beside branch) : Formed own beside ∧ branch.isSchema own ∧
      ∀ v, (obj beside).accepts ts v → branch.accepts ts v → schema.accepts ts v := by
  cases cut with
  | union found mem =>
    have divides : Split.Divides ts own schema _ := Split.divides good found (union_kind good reliable.ownUnions found)
    exact ⟨divides.beside,divides.branches _ mem,fun v onBeside onBranch =>
      (divides.accepts v).mpr ⟨onBeside,_,mem,onBranch⟩⟩
  | @type types t listed several mem =>
    refine ⟨?_,good,fun v _ onBranch => onBranch⟩
    rcases isSchema_cases good with ⟨b,rfl⟩ | ⟨fs,rfl,formed⟩
    · cases listed
    have isName : t.str?.isSome := all_eq_true.mp (formed.formed _ _ listed) t mem
    refine isSchema_obj.mp
      (isSchema_single (Vocabulary.allows_plain reliable.ownLiteral.type (by decide) _) ?_ (by decide))
    change (t.str?.isSome || _)
    rw [isName,Bool.true_or]

lemma made_spec (good : schema.isSchema own)
    (cut : Cut schema beside branch) (valid : inv s) (made : ((e.withBeside beside branch).run s).1 = some part) :
    part.isSchema own ∧ Below ts part (.obj beside) ∧ Below ts part branch := by
  obtain ⟨formed,schema,_⟩ := cut_spec reliable good cut
  exact (ensures_withBeside ts reliable.toSteady reliable.ownClosed reliable.ownLiteral formed schema s valid).2 part made

-- What escapes is a value of the schema.
lemma Escapes.accepted (good : schema.isSchema own)
    (exact : v.isExact) (escapes : Escapes ts inv e sup schema v) : schema.accepts ts v := by
  induction escapes with
  | lost cut valid onBeside onBranch rejected => exact (cut_spec reliable good cut).2.2 _ onBeside onBranch
  | strays faces acc strays => exact acc
  | inside cut valid made escapes ih =>
    obtain ⟨partGood,onBeside,onBranch⟩ := made_spec reliable good cut valid made
    have acc := ih partGood exact
    exact (cut_spec reliable good cut).2.2 _ (onBeside _ exact acc) (onBranch _ exact acc)

lemma holds_of_faces (otherSchema : sup.isSchema other)
    (unions : ∀ split, Split.of? sup = some split → split.kind = .anyOf) (faces : Faces inv e sup part)
    (sound : ∀ v, v.isExact → sub.accepts ts v → ¬ Strays sub part v → part.accepts ts v) : Holds ts inv e sup sub := by
  intro v exact acc
  by_cases strays : Strays sub part v
  · exact .inr (.strays faces acc strays)
  · exact .inl ((faces_below reliable otherSchema unions faces).2 v exact (sound v exact acc strays))

lemma ensures_checkBranches (good : sub.isSchema own)
    (otherSchema : sup.isSchema other) (unions : ∀ split, Split.of? sup = some split → split.kind = .anyOf)
    (found : Split.of? sup = some split) (path : String) (bs : List Json) (within : bs ⊆ split.branches)
    (closest : Option Report) (failed : ∀ c, closest = some c → c.isSubset = false) :
    Ensures inv (e.checkBranches sub split.beside path closest bs) fun answer => ∀ r, answer = some r →
      r.isSubset → Holds ts inv e sup sub := by
  induction bs generalizing closest with
  | nil =>
    refine .pure fun r same pos => ?_
    rw [failed r same] at pos
    cases pos
  | cons branch rest ih =>
    have later := fun closest failed => ih (fun b mem => within (.tail _ mem)) closest failed
    have mem := within mem_cons_self
    have divides : Split.Divides ts other sup split := Split.divides otherSchema found (unions _ found)
    have made := ensures_withBeside ts reliable.toSteady reliable.closed reliable.literal divides.beside
      (divides.branches _ mem)
    refine .bind made.reached fun part reached => ?_
    obtain ⟨s,valid,same⟩ := reached
    cases part with
    | none => exact later closest failed
    | some part =>
      have faces : Faces inv e sup part := .part found mem valid same
      have partSchema := (faces_below reliable otherSchema unions faces).1
      refine .bind (ensures_checkAtomic reliable good partSchema path) fun r sound => ?_
      split
      · next pos =>
        exact .pure fun _ _ _ => holds_of_faces reliable otherSchema unions faces (sound pos)
      next negative =>
      refine later _ fun c same => ?_
      have rFailed : r.isSubset = false := Bool.eq_false_iff.mpr negative
      unfold closer at same
      split at same
      · cases same
        exact rFailed
      split at same <;> cases same
      · exact rFailed
      · exact failed _ rfl

lemma finds_checkParts (good : schema.isSchema own)
    {check : Json → String → OptionT (StateM σ) Report} (sound : ∀ part path, part.isSchema own →
      Finds inv (check part path) fun r => r.isSubset → Holds ts inv e sup part)
    (parts : List Part) (cuts : ∀ p ∈ parts, Cut schema p.beside p.branch) :
    Finds inv (e.checkParts check parts) fun reports => (∀ r ∈ reports, r.isSubset) → ∀ p ∈ parts,
      ∀ v, v.isExact → (obj p.beside).accepts ts v → p.branch.accepts ts v →
        sup.accepts ts v ∨ Escapes ts inv e sup schema v := by
  induction parts with
  | nil => exact .pure nofun
  | cons p rest ih =>
    have cut := cuts p mem_cons_self
    obtain ⟨formed,branchGood,_⟩ := cut_spec reliable good cut
    have made := ensures_withBeside ts reliable.toSteady reliable.ownClosed reliable.ownLiteral formed branchGood
    have later := ih fun q mem => cuts q (.tail _ mem)
    refine .bind (.lift made.reached) fun found reached => ?_
    obtain ⟨s,valid,same⟩ := reached
    cases found with
    | none =>
      refine .mono later fun reports facts pos q mem v exact onBeside onBranch => ?_
      rcases mem_cons.mp mem with rfl | mem
      · exact .inr (.lost cut valid onBeside onBranch fun part held => by rw [same] at held; cases held)
      · exact facts pos q mem v exact onBeside onBranch
    | some part =>
      have partGood := (made_spec reliable good cut valid same).1
      refine .bind (sound part p.path partGood) fun r holds => ?_
      refine .bind later fun reports facts => .pure fun pos q mem v exact onBeside onBranch => ?_
      rcases mem_cons.mp mem with rfl | mem
      · cases kept : part.accepts ts v with
        | true => exact (holds (pos r mem_cons_self) v exact kept).imp_right (.inside cut valid same)
        | false =>
          refine .inr (.lost cut valid onBeside onBranch fun other held => ?_)
          rw [same] at held
          cases held
          exact kept
      · exact facts (fun r later => pos r (.tail _ later)) q mem v exact onBeside onBranch
end
lemma cut_typeParts (mem : p ∈ typeParts sub path) : Cut sub p.beside p.branch := by
  unfold typeParts at mem
  split at mem
  · next types listed =>
    split at mem
    · cases mem
    next several =>
    obtain ⟨t,inside,rfl⟩ := mem_map.mp mem
    exact .type listed (Nat.le_of_not_lt several) inside
  · cases mem

lemma accepts_typeParts (good : sub.isSchema own) (several : typeParts sub path ≠ []) (acc : sub.accepts ts v) :
    ∃ p ∈ typeParts sub path, (obj p.beside).accepts ts v ∧ p.branch.accepts ts v := by
  unfold typeParts at several ⊢
  split at several
  · next types listed =>
    split at several
    · exact absurd rfl several
    next long =>
    obtain ⟨t,mem,typed⟩ := accepts_type good listed acc
    rw [if_neg long]
    exact ⟨_,mem_map_of_mem mem,typed,acc⟩
  · exact absurd rfl several

lemma isSubset_all (pos : (Report.all reports).isSubset) : ∀ r ∈ reports, r.isSubset := all_eq_true.mp pos

lemma finds_checkAgainst (reliable : Reliable ts inv e own other) (otherSchema : sup.isSchema other)
    (unions : ∀ split, Split.of? sup = some split → split.kind = .anyOf) (fuel : Nat) (sub : Json) (path : String)
    (good : sub.isSchema own) : Finds inv (e.checkAgainst sup fuel sub path) fun r => r.isSubset → Holds ts inv e sup sub := by
  induction fuel generalizing sub path with
  | zero => exact .fail
  | succ fuel ih =>
    rw [checkAgainst]
    split
    · refine .lift (.mono (ensures_checkAtomic reliable good otherSchema path) fun r sound pos => ?_)
      exact holds_of_faces reliable otherSchema unions .whole (sound pos)
    next split found =>
    refine .bind (.lift (ensures_checkBranches reliable good otherSchema unions found path _ (Subset.refl _)
      none nofun)) fun closest sound => ?_
    have direct : (closest.getD (noBranch sub sup split.kind path)).isSubset → Holds ts inv e sup sub := by
      cases closest with
      | none => exact nofun
      | some r => exact sound r rfl
    dsimp only
    split
    · exact .pure direct
    next undecided =>
    refine .bind (finds_checkParts reliable good (fun part path partGood => ih part path partGood) _
      fun p mem => cut_typeParts mem) fun reports facts => .pure fun pos => ?_
    split at pos
    · next byType =>
      intro v exact acc
      have several : typeParts sub path ≠ [] := by
        intro empty
        rw [empty] at undecided
        simp at undecided
      obtain ⟨p,mem,onBeside,onBranch⟩ := accepts_typeParts good several acc
      exact facts (isSubset_all byType) p mem v exact onBeside onBranch
    · exact direct pos

lemma cut_unionParts (found : Split.of? sub = some split) (mem : p ∈ unionParts split path) : Cut sub p.beside p.branch := by
  obtain ⟨⟨branch,i⟩,inside,rfl⟩ := mem_map.mp mem
  exact .union found (mem_of_getElem? (mk_mem_zipIdx_iff_getElem?.mp inside))

lemma accepts_unionParts (divides : split.Divides ts own sub) (path : String) (acc : sub.accepts ts v) :
    ∃ p ∈ unionParts split path, (obj p.beside).accepts ts v ∧ p.branch.accepts ts v := by
  obtain ⟨onBeside,branch,mem,onBranch⟩ := (divides.accepts v).mp acc
  obtain ⟨i,at_⟩ := mem_iff_getElem?.mp mem
  exact ⟨_,mem_map_of_mem (mk_mem_zipIdx_iff_getElem?.mpr at_),onBeside,onBranch⟩

lemma not_escapes_empty : ¬ Escapes ts inv e sup .emptyObj v := by
  intro escapes
  have uncut : ∀ {beside branch}, ¬ Cut .emptyObj beside branch := by
    intro beside branch cut
    cases cut with
    | union found => cases found
    | type listed => cases listed
  cases escapes with
  | lost cut | inside cut => exact uncut cut
  | @strays _ part _ _ _ strays =>
    cases part with
    | obj fs => exact not_strays_flat (by decide) strays
    | _ => cases strays

lemma finds_checkWithin (reliable : Reliable ts inv e own other) (otherSchema : sup.isSchema other)
    (unions : ∀ split, Split.of? sup = some split → split.kind = .anyOf) (fuel : Nat) (sub : Json) (path : String)
    (good : sub.isSchema own) : Finds inv (e.checkWithin sup fuel sub path) fun r => r.isSubset → Holds ts inv e sup sub := by
  induction fuel generalizing sub path with
  | zero => exact .fail
  | succ fuel ih =>
    have empty : emptyObj.isSchema own := isSchema_obj.mpr formed_nil
    rw [checkWithin]
    split
    · next isFalse =>
      refine .pure fun _ v _ acc => ?_
      rw [Negation.isFalse_iff.mp isFalse] at acc
      cases acc
    split
    · next trivial_ =>
      refine .pure fun _ v exact _ => .inl ?_
      rcases Bool.or_eq_true_iff.mp trivial_ with isTrue | same
      · cases sup with
        | bool b => cases b <;> first | exact accepts_bool ts true v | cases isTrue
        | _ => cases isTrue
      · rw [alike_of_same reliable otherSchema empty (.inl same) v exact]
        exact accepts_emptyObj v
    dsimp only
    -- `true` is compared as the empty schema, of which no value escapes
    have back : Holds ts inv e sup (if sub.isTrue then .emptyObj else sub) → Holds ts inv e sup sub := by
      intro holds v exact acc
      cases isTrue : sub.isTrue with
      | false =>
        rw [isTrue] at holds
        exact holds v exact acc
      | true =>
        rw [isTrue] at holds
        exact .inl ((holds v exact (accepts_emptyObj v)).resolve_right not_escapes_empty)
    have partGood : (if sub.isTrue then .emptyObj else sub).isSchema own := by
      split
      · exact empty
      · exact good
    refine .mono (?_ : Finds inv _ fun r => r.isSubset → Holds ts inv e sup _) fun r holds pos =>
      back (holds pos)
    generalize (if sub.isTrue then emptyObj else sub) = part at partGood ⊢
    split
    · next same =>
      refine .pure fun _ v exact acc => .inl ?_
      rw [alike_of_same reliable otherSchema partGood (.inr same) v exact]
      exact acc
    split
    · exact finds_checkAgainst reliable otherSchema unions _ part path partGood
    next split found =>
    refine .bind (finds_checkParts reliable partGood ih _ fun p mem => cut_unionParts found mem)
      fun reports facts => .pure fun pos v exact acc => ?_
    have divides : split.Divides ts own part :=
      Split.divides partGood found (union_kind partGood reliable.ownUnions found)
    obtain ⟨p,mem,onBeside,onBranch⟩ := accepts_unionParts divides path acc
    exact facts (isSubset_all pos) p mem v exact onBeside onBranch

lemma ensures_check (reliable : Reliable ts inv e own other) (good : sub.isSchema own) (otherSchema : sup.isSchema other)
    (unions : ∀ split, Split.of? sup.normalize = some split → split.kind = .anyOf) :
    Ensures inv (e.check sub sup) fun r => r.isSubset → ∀ v, v.isExact → sub.accepts ts v →
      sup.accepts ts v ∨ Escapes ts inv e sup.normalize sub.normalize v := by
  refine .bind (finds_checkWithin reliable (isSchema_normalize reliable.literal otherSchema) unions _ _ ""
    (isSchema_normalize reliable.ownLiteral good)) fun answer facts => .pure fun pos v exact acc => ?_
  cases answer with
  | none => cases pos
  | some r =>
    rw [← alike_normalize good v exact] at acc
    rw [← alike_normalize otherSchema v exact]
    exact facts r rfl pos v exact acc
end Checks
end Engine
end SchemaOrder
