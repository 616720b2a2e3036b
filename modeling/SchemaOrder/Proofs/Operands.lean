import SchemaOrder.Proofs.Intersection.Absorption
import SchemaOrder.Proofs.Verdicts
namespace SchemaOrder
open Schemas Canonical SchemaOrder.Normal Json List
variable {s : Json}
-- An intersection of plain schemas lies within both of them, and a check of it against either says so.
def Json.hasRoom : Json → Bool
  | .obj fs => Bound.pairs.all fun p => !p.empties fs
  | _ => true
namespace Intersection
variable {fs left right whole part out : Fields} {key : String} {w p : Json}
lemma hasRoom_iff : (obj fs).hasRoom ↔ checkBounds fs "" = .ok () := by
  unfold hasRoom checkBounds
  rw [all_eq_true]
  constructor
  · intro room
    split
    · next p found =>
      have inverted := find?_some found
      have open_ := room p (mem_of_find?_eq_some found)
      rw [inverted] at open_
      cases open_
    · rfl
  · intro passed p mem
    split at passed
    · cases passed
    next none =>
    rw [Bool.not_eq_true_eq_eq_false,← Bool.not_eq_true]
    exact find?_eq_none.mp none p mem

lemma PlainAt.leaf (plain : PlainAt key w) : Keyword.shape key ∈ leaves := by
  rcases plain_shape plain.known with shape | named
  · simp only [mem_cons,not_mem_nil,or_false] at shape
    rcases shape with shape | shape | shape <;> simp [leaves,shape]
  · fin_cases named <;> decide

lemma PlainFields.normalize (plain : PlainFields fs) : (obj fs).normalize = .obj (settle fs) := by
  have same : mapFields Json.normalize fs = fs := by
    refine (map_congr_left fun field mem => ?_).trans (map_id fs)
    rw [Replacement.mapKeyword_leaf (plain.each _ _ (Fields.get?_of_mem plain.sorted mem)).leaf]
    rfl
  rw [normalize_obj,same]

lemma PlainFields.formed (plain : PlainFields fs) : Formed .plain fs where
  sorted := plain.sorted
  allowed key s found := by
    have known := (plain.each key s found).known
    refine Vocabulary.allows_plain known (fun special => ?_) s
    fin_cases special <;> exact absurd known (by decide)
  formed key s found := (plain.each key s found).formed
  conditional _ := ⟨plain.plain.absent (by decide),plain.plain.absent (by decide)⟩

lemma plain_cases (schema : s.isSchema .plain) :
    (∃ x, s = .bool x) ∨ ∃ fs, s.normalize = .obj fs ∧ PlainFields fs ∧ Settled fs := by
  rcases isSchema_cases schema with ⟨x,rfl⟩ | ⟨fs,rfl,formed⟩
  · exact .inl ⟨x,rfl⟩
  have normal := (plainFields_formed formed).normalize
  have plain := isSchema_normalize ⟨by decide,by decide⟩ schema
  rw [normal] at plain
  exact .inr ⟨_,normal,plainFields_formed (isSchema_obj.mp plain),settled_settle formed.sorted⟩

lemma Stays.deepEqual (stays : Stays "const" w p) : w.deepEqual p := by
  obtain ⟨made,run,_⟩ := stays
  cases equal : w.deepEqual p with
  | true => rfl
  | false =>
    have ran := run (StateM Unit) (fun _ _ _ => .outOfFuel) ""
    unfold keyword at ran
    rw [equal] at ran
    exact nomatch congrFun ran ()
end Intersection
namespace Engine
open Intersection
variable {σ : Type} {inv : σ → Prop} {e : Engine (StateM σ)} {left right whole part : Fields} {path : String}
-- Nothing that a whole absorbs clashes with it.
lemma clear_again (absorbs : Absorbs whole part) (partPlain : PlainFields part) (depth : Nat) :
    constantConflict depth (.obj whole) (.obj part) path = none := by
  have back q (found : part.get? "const" = some q) : whole.get? "const" = some q := by
    cases given : whole.get? "const" with
    | some c =>
      have equal := Stays.deepEqual (absorbs.entails _ _ _ given found)
      rw [(deepEqual_iff (absorbs.plain.each _ _ given).exact (partPlain.each _ _ found).exact).mp equal]
    | none =>
      exact absurd ((absorbs.missing _ _ found given).listed_of_unbounded rfl).1 (by decide)
  have alike : ∀ c, whole.get? "const" = some c → c.deepEqual c := fun c given =>
    (deepEqual_iff (absorbs.plain.each _ _ given).exact (absorbs.plain.each _ _ given).exact).mpr rfl
  have forth : constantAgainst whole part path = none := by
    unfold constantAgainst
    cases given : whole.get? "const" with
    | none => rfl
    | some c =>
      have agrees : (part.get? "const").filter (fun q => !c.deepEqual q) = none := by
        cases found : part.get? "const" with
        | none => rfl
        | some q =>
          cases given.symm.trans (back q found)
          rw [Option.filter_some,alike c given]
          rfl
      dsimp only
      rw [agrees]
      dsimp only
      split
      · next ms listed =>
        obtain ⟨_,d,is,inside⟩ := (absorbs.missing _ _ listed (absorbs.constant c given).1).listed_of_unbounded rfl
        cases given.symm.trans is
        have among : c.among ms := any_eq_true.mpr ⟨c,inside,alike c given⟩
        exact if_pos among
      · rfl
  have reverse : constantAgainst part whole path = none := by
    unfold constantAgainst
    cases found : part.get? "const" with
    | none => rfl
    | some c =>
      have given := back c found
      dsimp only
      rw [given,Option.filter_some,alike c given,(absorbs.constant c given).1]
      rfl
  cases depth with
  | zero => rfl
  | succ depth => rw [constantConflict,forth,reverse,pairedPositions_plain absorbs.plain.plain]; rfl

lemma intersect_plain (merges : e.Merges) (plain : left.Plain)
    (clear : constantConflict (obj left).depth (.obj left) b "" = none) :
    e.intersect (.obj left) b = merge e.matcher (.obj left) b := by
  unfold intersect
  rw [clear,formatConflict_plain plain,closedConflict_plain e plain,merges]
  rfl

lemma reconcile_plain (subPlain : whole.Plain) (supPlain : part.Plain) :
    e.reconcile (.obj whole) (.obj part) path = pure (.obj part,[]) := by
  unfold reconcile
  generalize (obj whole).depth = depth
  cases depth with
  | zero => rfl
  | succ depth =>
    have patternless failures : e.settlePattern whole path ⟨part,failures⟩ = pure ⟨part,failures⟩ := by
      unfold settlePattern
      rw [show part.get? "pattern" = none from supPlain.absent (by decide)]
      rfl
    have formatless failures : settleFormat whole path ⟨part,failures⟩ = ⟨part,failures⟩ := by
      unfold settleFormat
      rw [show part.get? "format" = none from supPlain.absent (by decide)]
      rfl
    have affirmative failures : settleNegation whole path ⟨part,failures⟩ = ⟨part,failures⟩ := by
      unfold settleNegation
      rw [show part.get? "not" = none from supPlain.absent (by decide)]
    rw [reconcileWithin,pairedPositions_plain subPlain,patternless,pure_bind,formatless,affirmative]
    rfl

lemma split_plain (plain : left.Plain) : Split.of? (.obj left) = none := by
  unfold Split.of?
  dsimp only
  rw [plain.absent (by decide),plain.absent (by decide)]

-- Forms tell schemas with an enumeration from schemas without.
lemma listed_of_equivalent (lSorted : left.Sorted) (rSorted : right.Sorted)
    (same : equivalent (.obj left) (.obj right)) : left.get? "enum" = none ↔ right.get? "enum" = none := by
  have ts := equivalent_iff.mp same
  have listed := congrArg (Fields.get? · "enum") (obj.inj ts)
  rw [get?_form_obj lSorted (by decide) rfl,get?_form_obj rSorted (by decide) rfl] at listed
  cases atL : left.get? "enum" with
  | none =>
    rw [atL] at listed
    cases atR : right.get? "enum" with
    | none => exact Iff.rfl
    | some r => rw [atR] at listed; cases listed
  | some l =>
    rw [atL] at listed
    cases atR : right.get? "enum" with
    | none => rw [atR] at listed; cases listed
    | some r => exact ⟨nofun,nofun⟩

lemma ensures_intersect_met (merges : e.Merges) (lPlain : PlainFields left)
    (rPlain : PlainFields right) : Ensures inv (e.intersect (.obj left) (.obj right)) fun result =>
      ∀ m, result = .ok m → ∃ out, m = .obj out ∧ Met left right out := by
  cases clear : constantConflict (obj left).depth (.obj left) (.obj right) "" with
  | some c =>
    unfold intersect
    rw [clear]
    exact .pure nofun
  | none =>
    rw [intersect_plain merges lPlain.plain clear]
    exact (ensures_merge_objects lPlain rPlain fun recur => (yields_met lPlain rPlain)).mono fun _ facts => facts.1

lemma ensures_settledAgain (merges : e.Merges) (absorbs : Absorbs whole part)
    (partPlain : PlainFields part) : Ensures inv (e.checkSettled (.obj whole) (.obj part) path) fun report =>
      (report.isSubset ↔ (obj whole).hasRoom) := by
  unfold checkSettled
  rw [intersect_plain merges absorbs.plain.plain (clear_again absorbs partPlain _),hasRoom_iff]
  refine .bind (ensures_merge_objects absorbs.plain partPlain fun _ => settles_again absorbs partPlain) fun result facts => ?_
  cases result with
  | error c => exact .pure ⟨nofun,fun passed => absurd passed (facts.2 c rfl)⟩
  | ok m =>
    obtain ⟨out,rfl,plain,passed,same⟩ := facts.1 _ rfl
    refine .pure ⟨fun _ => passed,fun _ => equivalent_iff.mpr ?_⟩
    rw [plain.normalize]
    exact same

lemma ensures_atomicAgain (merges : e.Merges) (absorbs : Absorbs whole part)
    (partPlain : PlainFields part) (told : equivalent (.obj whole) (.obj part) → (obj whole).hasRoom) :
    Ensures inv (e.checkAtomic (.obj whole) (.obj part) path) fun report => (report.isSubset ↔ (obj whole).hasRoom) := by
  unfold checkAtomic
  split
  · next same => exact .pure ⟨fun _ => told same,fun _ => rfl⟩
  rw [reconcile_plain absorbs.plain.plain partPlain.plain,pure_bind]
  exact ensures_settledAgain merges absorbs partPlain

lemma checkWithin_undivided (undivided : Split.of? (.obj whole) = none) (supUndivided : Split.of? (.obj part) = none) (fuel : Nat) :
    e.checkWithin (.obj part) (fuel + 1) (.obj whole) path = if equivalent (.obj part) (.obj []) then pure (.holds (.obj whole))
      else if equivalent (.obj whole) (.obj part) then pure (.holds (.obj whole))
      else OptionT.lift (e.checkAtomic (.obj whole) (.obj part) path) := by
  have notTrue : ∀ fs, (obj fs).isTrue = false := fun _ => rfl
  have fuelled : ∃ n, typeFuel (.obj whole) = n + 1 := ⟨_,rfl⟩
  obtain ⟨n,fuelled⟩ := fuelled
  rw [checkWithin,show (obj whole).isFalse = false from rfl,if_neg Bool.false_ne_true,notTrue]
  dsimp only
  rw [notTrue,if_neg Bool.false_ne_true,undivided]
  rw [fuelled,checkAgainst,supUndivided]
  rfl

lemma ensures_checkAgain (merges : e.Merges) (absorbs : Absorbs whole part) (partPlain : PlainFields part)
    (told : (obj whole).hasRoom = false → part.get? "enum" ≠ none ∧ whole.get? "enum" = none)
    (normal : operand.normalize = .obj part) :
    Ensures inv (e.check (.obj whole) operand) fun report => (report.isSubset ↔ (obj whole).hasRoom) := by
  have idle : equivalent (.obj part) (.obj []) → (obj whole).hasRoom := by
    intro same
    refine Bool.of_not_eq_false fun crowded => (told crowded).1 ?_
    exact (listed_of_equivalent partPlain.sorted .nil same).mpr rfl
  have alike : equivalent (.obj whole) (.obj part) → (obj whole).hasRoom := by
    intro same
    refine Bool.of_not_eq_false fun crowded => (told crowded).1 ?_
    exact (listed_of_equivalent absorbs.plain.sorted partPlain.sorted same).mp (told crowded).2
  have settled : (obj whole).normalize = .obj whole := by
    rw [absorbs.plain.normalize,settle_of_settled absorbs.settled]
  unfold check
  dsimp only
  rw [settled,normal,checkWithin_undivided (split_plain absorbs.plain.plain) (split_plain partPlain.plain)]
  split
  · next empty => exact .pure ⟨fun _ => idle empty,fun _ => rfl⟩
  split
  · next same => exact .pure ⟨fun _ => alike same,fun _ => rfl⟩
  rw [OptionT.run_lift,bind_assoc]
  refine .bind (ensures_atomicAgain merges absorbs partPlain alike) fun report verdict => ?_
  exact .pure verdict

lemma ensures_checkSelf (same : t.normalize = s.normalize) : Ensures inv (e.check t s) fun report => report.isSubset := by
  unfold check
  dsimp only
  rw [same,checkWithin]
  split
  · exact .pure rfl
  split
  · exact .pure rfl
  next proper =>
  have notTrue : s.normalize.isTrue = false := by
    rw [Bool.or_eq_true,not_or] at proper
    exact Bool.eq_false_of_not_eq_true proper.1
  rw [notTrue,if_neg Bool.false_ne_true]
  rw [if_pos (equivalent_refl _)]
  exact .pure rfl

lemma ensures_checkTrue (s : Json) : Ensures inv (e.check s (.bool true)) fun report => report.isSubset := by
  unfold check
  dsimp only
  rw [checkWithin]
  split
  all_goals exact .pure rfl

inductive Shared (a b : Json) : Json → Prop where
  | left (all : b = .bool true) : Shared a b a.normalize
  | right (all : a = .bool true) : Shared a b b.normalize
  | both {left right out : Fields} (atL : a.normalize = .obj left) (atR : b.normalize = .obj right)
      (lPlain : PlainFields left) (rPlain : PlainFields right) (lSettled : Normal.Settled left)
      (rSettled : Normal.Settled right) (met : Met left right out) : Shared a b (.obj (Normal.settle out))

lemma intersect_bool (merges : e.Merges) (one : a = .bool x ∨ b = .bool x) : e.intersect a b = merge e.matcher a b := by
  have silent depth : constantConflict depth a b "" = none ∧ formatConflict depth a b "" = none ∧
      e.closedConflict depth a b "" = pure none := by
    rcases one with rfl | rfl
    · cases depth <;> exact ⟨rfl,rfl,rfl⟩
    · cases depth <;> cases a <;> exact ⟨rfl,rfl,rfl⟩
  unfold intersect
  rw [(silent _).1,(silent _).2.1,(silent _).2.2,merges]
  rfl

lemma merge_bool {lookup : Lookup (StateM σ)} (x : Bool)
    (plain : (∃ y, s = .bool y) ∨ ∃ fs : Fields, s = .obj fs ∧ fs.Plain) :
    merge lookup (.bool x) s = pure (.ok (if x then s else .bool false)) ∧
      merge lookup s (.bool x) = pure (.ok (if x then s else .bool false)) := by
  have flat : s.field? "allOf" = none := by
    rcases plain with ⟨y,rfl⟩ | ⟨fs,rfl,plain⟩
    · rfl
    · exact plain.flat
  have boolFlat : (bool x).field? "allOf" = none := rfl
  constructor
  all_goals
    refine merge_of_step fun recur => ?_
    unfold Intersection.step
    simp only [foldAllOf_flat flat]
    rcases plain with ⟨y,rfl⟩ | ⟨fs,rfl,plain⟩
    · cases x <;> cases y <;> rfl
    · cases x <;> rfl
variable {a b m : Json}
lemma normal_cases (schema : s.isSchema .plain) :
    (∃ y, s.normalize = .bool y) ∨ ∃ fs : Fields, s.normalize = .obj fs ∧ fs.Plain := by
  rcases plain_cases schema with ⟨y,rfl⟩ | ⟨fs,normal,plain,_⟩
  · exact .inl ⟨y,rfl⟩
  · exact .inr ⟨fs,normal,plain.plain⟩

lemma normalize_twice (schema : s.isSchema .plain) : s.normalize.normalize = s.normalize :=
  normalize_normalize (orderly_of_exact (exact_schema schema))

lemma ensures_shared (merges : e.Merges) (left : a.isSchema .plain)
    (right : b.isSchema .plain) : Ensures inv (e.intersect a.normalize b.normalize) fun result =>
      ∀ m, result = .ok m → m.normalize = .bool false ∨ Shared a b m.normalize := by
  rcases plain_cases left with ⟨x,rfl⟩ | ⟨f,atL,lPlain,lSettled⟩
  · change Ensures inv (e.intersect (.bool x) b.normalize) _
    rw [intersect_bool merges (.inl rfl),(merge_bool x (normal_cases right)).1]
    refine Ensures.pure fun m is => ?_
    cases is
    cases x with
    | false => exact .inl rfl
    | true => exact .inr ((normalize_twice right).symm ▸ .right rfl)
  rcases plain_cases right with ⟨x,rfl⟩ | ⟨g,atR,rPlain,rSettled⟩
  · change Ensures inv (e.intersect a.normalize (.bool x)) _
    rw [intersect_bool merges (.inr rfl),(merge_bool x (normal_cases left)).2]
    refine Ensures.pure fun m is => ?_
    cases is
    cases x with
    | false => exact .inl rfl
    | true => exact .inr ((normalize_twice left).symm ▸ .left rfl)
  · rw [atL,atR]
    refine (ensures_intersect_met merges lPlain rPlain).mono fun result facts m is => ?_
    obtain ⟨out,rfl,met⟩ := facts m is
    rw [met.plain.normalize]
    exact .inr (.both atL atR lPlain rPlain lSettled rSettled met)

lemma ensures_intersection (merges : e.Merges) (left : a.isSchema .plain)
    (right : b.isSchema .plain) : Ensures inv (e.intersection? a b) fun result => ∀ m, result = some m → Shared a b m := by
  have found : Ensures inv (e.intersect? a.normalize b.normalize) fun merged =>
      ∀ m, merged = some m → m.normalize = .bool false ∨ Shared a b m.normalize := by
    refine Ensures.bind (ensures_shared merges left right) fun result facts => Ensures.pure fun m is => ?_
    cases result with
    | error c => cases is
    | ok r => cases is; exact facts _ rfl
  refine Ensures.bind found fun merged facts => Ensures.pure fun m is => ?_
  obtain ⟨found,satisfiable⟩ := Option.filter_eq_some_iff.mp is
  obtain ⟨r,rfl,rfl⟩ := Option.map_eq_some_iff.mp found
  rcases facts r rfl with nothing | shared
  · rw [nothing] at satisfiable
    unfold isUnsatisfiable at satisfiable
    rw [equivalent_refl] at satisfiable
    cases satisfiable
  · exact shared
namespace Shared
lemma proper {fs : Fields} (normal : s.normalize = .obj fs) : s ≠ .bool true := by
  rintro rfl
  cases normal

lemma crowded (met : Met left right out) (lPlain : PlainFields left)
    (rPlain : PlainFields right) (lSettled : Normal.Settled left) (rSettled : Normal.Settled right)
    (crowded : (obj (settle out)).hasRoom = false) :
    left.get? "type" = none ∧ left.get? "enum" ≠ none ∧ (settle out).get? "enum" = none := by
  refine met.crowded lPlain rPlain lSettled rSettled fun passed => ?_
  rw [hasRoom_iff.mpr passed] at crowded
  cases crowded

lemma verdict (merges : e.Merges) (left : a.isSchema .plain)
    (right : b.isSchema .plain) (shared : Shared a b m) {operand : Json} (one : operand ∈ [a,b]) :
    Ensures inv (e.check m operand) fun report => (report.isSubset ↔ a = .bool true ∨ b = .bool true ∨ m.hasRoom) := by
  simp only [mem_cons,not_mem_nil,or_false] at one
  cases shared with
  | left all =>
    have pos : Ensures inv (e.check a.normalize operand) fun report => report.isSubset := by
      rcases one with rfl | rfl
      · exact ensures_checkSelf (normalize_twice left)
      rw [all]
      exact ensures_checkTrue _
    exact pos.mono fun report holds => ⟨fun _ => .inr (.inl all),fun _ => holds⟩
  | right all =>
    have pos : Ensures inv (e.check b.normalize operand) fun report => report.isSubset := by
      rcases one with rfl | rfl
      · rw [all]
        exact ensures_checkTrue _
      · exact ensures_checkSelf (normalize_twice right)
    exact pos.mono fun report holds => ⟨fun _ => .inl all,fun _ => holds⟩
  | both atL atR lPlain rPlain lSettled rSettled met =>
    have decided : ∀ {room}, (a = .bool true ∨ b = .bool true ∨ room) ↔ room :=
      (or_iff_right (proper atL)).trans (or_iff_right (proper atR))
    rcases one with rfl | rfl
    · refine (ensures_checkAgain merges (met.absorbs lPlain rPlain) lPlain (fun full => ?_) atL).mono
        fun report verdict => verdict.trans decided.symm
      exact (crowded met lPlain rPlain lSettled rSettled full).2
    refine (ensures_checkAgain merges (met.swap.absorbs rPlain lPlain) rPlain (fun full => ?_) atR).mono
      fun report verdict => verdict.trans decided.symm
    exact (crowded met.swap rPlain lPlain rSettled lSettled full).2

-- Only where both sides list values and none has a type, bounds are compared too early.
lemma hasRoom (shared : Shared a b m) (compared : ∃ operand ∈ [a,b], operand.normalize.field? "type" ≠ none ∨
    operand.normalize.field? "enum" = none) : a = .bool true ∨ b = .bool true ∨ m.hasRoom := by
  cases shared with
  | left all => exact .inr (.inl all)
  | right all => exact .inl all
  | both atL atR lPlain rPlain lSettled rSettled met =>
    refine .inr (.inr (Bool.of_not_eq_false fun full => ?_))
    obtain ⟨untyped,listed,_⟩ := crowded met lPlain rPlain lSettled rSettled full
    obtain ⟨untyped',listed',_⟩ := crowded met.swap rPlain lPlain rSettled lSettled full
    obtain ⟨operand,one,named⟩ := compared
    fin_cases one
    · rw [atL] at named
      exact named.elim (fun typed => typed untyped) listed
    rw [atR] at named
    exact named.elim (fun typed => typed untyped') listed'

lemma hasRoom_of_accepts (left : a.isSchema .plain) (right : b.isSchema .plain) (shared : Shared a b m)
    {ts : Texts} {v : Json} (exact : v.isExact) (acc : m.accepts ts v) : m.hasRoom := by
  have normal {s : Json} (schema : s.isSchema .plain) (acc : s.normalize.accepts ts v) : s.normalize.hasRoom := by
    rcases plain_cases schema with ⟨x,rfl⟩ | ⟨fs,normal,plain,_⟩
    · rfl
    rw [normal] at acc ⊢
    exact hasRoom_iff.mpr (checkBounds_ok plain.formed exact acc "")
  cases shared with
  | left all => exact normal left acc
  | right all => exact normal right acc
  | both atL atR lPlain rPlain lSettled rSettled met =>
    exact hasRoom_iff.mpr (checkBounds_ok (met.absorbs lPlain rPlain).plain.formed exact acc "")
end Shared
end Engine
-- A check places an intersection of plain schemas within both of them exactly if its bounds leave room, or if one of
-- them accepts everything. They leave room if the intersection has a value at all, and where a side has a type or lists
-- no values.
theorem isSubset_intersection_iff (settings : Settings) (memory : Memory) (a b m : Json) (left : a.isSchema .plain = true)
    (right : b.isSchema .plain = true)
    (met : (((Memory.engine settings : Engine (StateM Memory)).intersection? a b).run memory).1 = some m) :
    (∀ later : Memory, ∀ operand ∈ [a,b],
      ((((Memory.engine settings : Engine (StateM Memory)).check m operand).run later).1.isSubset = true ↔
        a = .bool true ∨ b = .bool true ∨ m.hasRoom = true)) ∧
      ((∃ operand ∈ [a,b], operand.normalize.field? "type" ≠ none ∨ operand.normalize.field? "enum" = none) →
        a = .bool true ∨ b = .bool true ∨ m.hasRoom = true) ∧
      ∀ (texts : Texts) (v : Json), v.isExact = true → m.accepts texts v = true → m.hasRoom = true := by
  have merges : (Memory.engine settings : Engine (StateM Memory)).primitive = Intersection.merge Memory.matcher := rfl
  have ensures : Ensures (fun _ => True) ((Memory.engine settings : Engine (StateM Memory)).intersection? a b) _ :=
    Engine.ensures_intersection merges left right
  have shared : Engine.Shared a b m := (ensures memory trivial).2 m met
  refine ⟨fun later operand one => ?_,shared.hasRoom,fun _ _ exact accepted => shared.hasRoom_of_accepts left right exact accepted⟩
  have verdict : Ensures (fun _ => True) ((Memory.engine settings : Engine (StateM Memory)).check m operand) _ :=
    shared.verdict merges left right one
  exact (verdict later trivial).2

def fiveOrText (text : String) (bound : String) (n : Fin 10) : Json :=
  .obj [("enum",.arr [.digit 5,.str text]),(bound,.digit n)]

def fiveWithin (most least : Fin 10) : Json :=
  .obj [("const",.digit 5),("maximum",.digit most),("minimum",.digit least),("type",.str "integer")]

theorem isSubset_intersection_iff_five :
    (((Memory.engine {} : Engine (StateM Memory)).intersection? (fiveOrText "x" "minimum" 3) (fiveOrText "y" "maximum" 7)).run {}).1 =
        some (fiveWithin 7 3) ∧ (fiveWithin 7 3).hasRoom = true ∧
      ∀ later : Memory, ∀ operand ∈ [fiveOrText "x" "minimum" 3,fiveOrText "y" "maximum" 7],
        (((Memory.engine {} : Engine (StateM Memory)).check (fiveWithin 7 3) operand).run later).1.isSubset = true := by
  have met : (((Memory.engine {} : Engine (StateM Memory)).intersection? (fiveOrText "x" "minimum" 3)
      (fiveOrText "y" "maximum" 7)).run {}).1 = some (fiveWithin 7 3) := rfl
  have room : (fiveWithin 7 3).hasRoom = true := by decide +kernel
  obtain ⟨verdicts,_⟩ := isSubset_intersection_iff {} {} _ _ _ (by decide +kernel) (by decide +kernel) met
  exact ⟨met,room,fun later operand one => (verdicts later operand one).mpr (.inr (.inr room))⟩

theorem intersection_refused_by_operands :
    (((Memory.engine {} : Engine (StateM Memory)).intersection? (fiveOrText "x" "minimum" 7) (fiveOrText "y" "maximum" 3)).run {}).1 =
        some (fiveWithin 3 7) ∧ (fiveWithin 3 7).hasRoom = false ∧
      ∀ operand ∈ [fiveOrText "x" "minimum" 7,fiveOrText "y" "maximum" 3],
        (((Memory.engine {} : Engine (StateM Memory)).check (fiveWithin 3 7) operand).run {}).1.isSubset = false :=
  ⟨rfl,by decide +kernel,by decide +kernel⟩
end SchemaOrder
