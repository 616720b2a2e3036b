import SchemaOrder.Proofs.Intersection.Assembly
import SchemaOrder.Proofs.Narrowing
namespace SchemaOrder
open List Fields Json Vocabulary Doubles Keyword
variable {vocab : Vocabulary}
namespace Vocabulary
-- What two values of a keyword are combined to, with the entries left over, is a value of it as narrow as both.
def mergeable : Vocabulary where
  keywords := ["type","const","enum","uniqueItems","required","properties","additionalProperties","items",
    "additionalItems","contains","propertyNames","dependencies","not","anyOf","oneOf","allOf","if","then","else","pattern",
    "format"]

structure Closed (vocab : Vocabulary) : Prop where
  required : vocab.has "required"
  additionalItems : vocab.has "additionalItems"
  anyOf : vocab.has "anyOf"
  allOf : vocab.has "allOf"
  mergeable : ∀ key, vocab.has key → mergeable.has key

lemma allows_plain {key : String} (known : vocab.has key)
    (plain : key ∉ ["additionalProperties","format"]) (s : Json) : vocab.allows key s := by
  simp only [mem_cons,not_or] at plain
  simp [allows,known,plain]

lemma has_of_allows {key : String} {s : Json} (allowed : vocab.allows key s) : vocab.has key :=
  (Bool.and_eq_true_iff.mp (Bool.and_eq_true_iff.mp allowed).1).1

lemma allows_extra {s : Json} : vocab.allows "additionalProperties" s ↔
    vocab.has "additionalProperties" ∧ (vocab.describesExtra ∨ s.bool?.isSome) := by
  simp [allows]

lemma mergeable_closed : Closed mergeable := ⟨rfl,rfl,rfl,rfl,fun _ known => known⟩
end Vocabulary
open Acceptance Schemas
section Changes
variable {fs : Fields} {key : String} {s : Json}
namespace Formed
section
variable (formed : Formed vocab fs)
include formed
lemma absent (unknown : vocab.has key = false) : fs.get? key = none := by
  cases found : fs.get? key with
  | none => rfl
  | some s =>
    rw [has_of_allows (formed.allowed _ _ found)] at unknown
    cases unknown

lemma ungrouped (closed : vocab.Closed) : fs.get? "patternProperties" = none := by
  refine formed.absent (Bool.eq_false_iff.mpr fun known => ?_)
  exact absurd (closed.mergeable _ known) (by decide)

lemma erase (plain : key ∉ Keyword.conditional) : Formed vocab (fs.erase key) := by
  have kept k s (found : (fs.erase key).get? k = some s) : fs.get? k = some s := by
    rw [get?_erase formed.sorted] at found
    split at found
    · cases found
    · exact found
  have apart : ∀ k ∈ Keyword.conditional, key ≠ k := fun k mem same => plain (same ▸ mem)
  refine ⟨sorted_erase formed.sorted,fun k s found => formed.allowed k s (kept k s found),
    fun k s found => formed.formed k s (kept k s found),fun missing => ?_⟩
  rw [get?_erase_other (apart "if" (by decide))] at missing
  rw [get?_erase_other (apart "then" (by decide)),get?_erase_other (apart "else" (by decide))]
  exact formed.conditional missing

lemma put (plain : key ∉ Keyword.conditional)
    (allowed : vocab.allows key s) (good : keywordFormed (isSchema vocab) key s) : Formed vocab (fs.put key s) := by
  have either k t (found : (fs.put key s).get? k = some t) : (key = k ∧ s = t) ∨ fs.get? k = some t := by
    rw [get?_put] at found
    split at found
    · next same => cases found; exact .inl ⟨same,rfl⟩
    · exact .inr found
  have apart : ∀ k ∈ ["if","then","else"], (fs.put key s).get? k = fs.get? k := fun k mem =>
    get?_put_other fun same => plain (same ▸ mem)
  refine ⟨sorted_put formed.sorted,fun k t found => ?_,fun k t found => ?_,fun missing => ?_⟩
  · rcases either k t found with ⟨rfl,rfl⟩ | old
    · exact allowed
    · exact formed.allowed k t old
  · rcases either k t found with ⟨rfl,rfl⟩ | old
    · exact good
    · exact formed.formed k t old
  · rw [apart "if" (by decide)] at missing
    rw [apart "then" (by decide),apart "else" (by decide)]
    exact formed.conditional missing

lemma whole (bound : limit? key = some limit) (found : fs.get? key = some s) : ∃ n, s = .num (.whole n) :=
  (formed_bound (limit_shape bound)).mp (formed.formed key s found)
end
end Formed
namespace Bound
variable {ts : Texts} {v : Json} {quantity : Quantity} {side : Side} {soft strict : String}
-- A bound that another one implies can be left out.
lemma accepts_erase_implied (sorted : fs.Sorted) (ordered : v.Ordered) (keptLimit : limit? kept = some strong)
    (droppedLimit : limit? dropped = some weak) (keptFound : fs.get? kept = some (.num m))
    (droppedFound : fs.get? dropped = some (.num n)) (quantity : weak.quantity = strong.quantity)
    (ne : dropped ≠ kept) (plain : dropped ∉ grouped)
    (implied : ∀ x, IsNumber x → strong.admits m.toFloat x → weak.admits n.toFloat x) :
    (obj (fs.erase dropped)).accepts ts v ↔ (obj fs).accepts ts v := by
  refine ⟨fun acc => ?_,fun acc => ((accepts_erase sorted plain).mp acc).1⟩
  refine (accepts_erase sorted plain).mpr ⟨acc,fun s found => ?_⟩
  rw [droppedFound] at found
  cases found
  have obeys := (accepts_obj (sorted_erase sorted)).mp acc
  have holds := obeys.keyword kept _ ((get?_erase_other ne).trans keptFound)
  rw [keywordHolds_limit keptLimit,Limit.holds_num] at holds
  rw [keywordHolds_limit droppedLimit,Limit.holds_num,quantity]
  exact fun x found => implied x (Quantity.of?_number ordered found) (holds x found)

-- `soft` and `strict` bound one quantity on one side, the second without the bound itself.
lemma accepts_dropImplied (ord : (obj fs).isOrderly Num.isInteger) (ordered : v.Ordered)
    (inclusive : limit? soft = some ⟨quantity,side,false⟩)
    (exclusive : limit? strict = some ⟨quantity,side,true⟩) (softPlain : soft ∉ grouped)
    (strictPlain : strict ∉ grouped) : (obj (dropImplied side soft strict fs)).accepts ts v ↔ (obj fs).accepts ts v := by
  have ne : soft ≠ strict := by
    rintro rfl
    rw [inclusive] at exclusive
    cases exclusive
  have sorted := (orderly_obj.mp ord).1
  -- only two numbers are compared, and those are integers
  have integer {key} {x} (found : value? fs key = some x) : ∃ n, fs.get? key = some (.num n) ∧ x = n.toFloat ∧ Doubles.IsNumber n.toFloat := by
    obtain ⟨s,at_,measured⟩ := Option.bind_eq_some_iff.mp found
    cases s with
    | num n => exact ⟨n,at_,(Option.some.inj measured).symm,Num.integer_number (orderly_get? ord at_)⟩
    | _ => cases measured
  unfold dropImplied
  cases softFound : value? fs soft with
  | none => rfl
  | some x =>
    cases strictFound : value? fs strict with
    | none => rfl
    | some y =>
      obtain ⟨m,softAt,rfl,mNumber⟩ := integer softFound
      obtain ⟨n,strictAt,rfl,nNumber⟩ := integer strictFound
      dsimp only
      split
      · next tight =>
        refine accepts_erase_implied sorted ordered inclusive exclusive softAt strictAt rfl ne.symm strictPlain ?_
        intro x xNumber admitted
        cases side <;> simp only [Limit.admits,tighter,decide_eq_true_eq,lt_iff,le_iff,mNumber,nNumber,
            xNumber] at admitted tight ⊢ <;> order
      next loose =>
      refine accepts_erase_implied sorted ordered exclusive inclusive strictAt softAt rfl ne softPlain ?_
      intro x xNumber admitted
      cases side <;> simp only [Limit.admits,tighter,decide_eq_true_eq,lt_iff,le_iff,mNumber,nNumber,
          xNumber] at admitted loose ⊢ <;> order

lemma dropImplied_cases {motive : Fields → Prop} (kept : motive fs) (strict : motive (fs.erase hard))
    (loose : motive (fs.erase soft)) : motive (dropImplied side soft hard fs) := by
  unfold dropImplied
  split
  · split
    · exact strict
    · exact loose
  · exact kept

lemma sorted_dropImplied (sorted : fs.Sorted) : (dropImplied side soft strict fs).Sorted :=
  dropImplied_cases sorted (sorted_erase sorted) (sorted_erase sorted)

lemma sorted_fold (sorted : fs.Sorted) : (fold fs).Sorted := sorted_dropImplied (sorted_dropImplied sorted)

lemma get?_dropImplied (notSoft : soft ≠ key) (notStrict : strict ≠ key) (fs : Fields) :
    (dropImplied side soft strict fs).get? key = fs.get? key :=
  dropImplied_cases (motive := fun out => out.get? key = fs.get? key) rfl (get?_erase_other notStrict)
    (get?_erase_other notSoft)

lemma get?_fold (unbounded : limit? key = none) (fs : Fields) : (fold fs).get? key = fs.get? key := by
  have apart : ∀ bound, limit? bound ≠ none → bound ≠ key := by
    rintro bound limited rfl
    exact limited unbounded
  exact (get?_dropImplied (apart _ (by decide)) (apart _ (by decide)) _).trans
    (get?_dropImplied (apart _ (by decide)) (apart _ (by decide)) _)

lemma formed_dropImplied (formed : Formed vocab fs) (softPlain : soft ∉ grouped)
    (strictPlain : strict ∉ grouped) : Formed vocab (dropImplied side soft strict fs) :=
  dropImplied_cases formed (formed.erase (unconditional strictPlain)) (formed.erase (unconditional softPlain))

lemma orderly_dropImplied {nums : Num → Bool} (ord : (obj fs).isOrderly nums) :
    (obj (dropImplied side soft strict fs)).isOrderly nums :=
  dropImplied_cases (motive := fun out => (obj out).isOrderly nums) ord (orderly_erase ord) (orderly_erase ord)

lemma formed_fold (formed : Formed vocab fs) : Formed vocab (fold fs) :=
  formed_dropImplied (formed_dropImplied formed (by decide) (by decide)) (by decide) (by decide)

lemma orderly_fold {nums : Num → Bool} (ord : (obj fs).isOrderly nums) : (obj (fold fs)).isOrderly nums :=
  orderly_dropImplied (orderly_dropImplied ord)

lemma accepts_fold_orderly (ord : (obj fs).isOrderly Num.isInteger) (ordered : v.Ordered) :
    (obj (fold fs)).accepts ts v ↔ (obj fs).accepts ts v :=
  (accepts_dropImplied (orderly_dropImplied ord) ordered rfl rfl (by decide) (by decide)).trans
    (accepts_dropImplied ord ordered rfl rfl (by decide) (by decide))

lemma accepts_fold (formed : Formed vocab fs) (exact : v.isExact) :
    (obj (fold fs)).accepts ts v ↔ (obj fs).accepts ts v :=
  accepts_fold_orderly formed.placed.orderly (ordered_exact exact)
end Bound
end Changes
namespace Intersection
variable {ts : Texts} {fs : Fields}
lemma formed_enum {key : Json → Bool} : keywordFormed key "enum" (.arr ms) ↔ ∀ v ∈ ms, v.isExact := by
  exact all_eq_true

lemma reconcileValues_cases (made : reconcileValues fs path = .ok out) : out = fs ∨
    ∃ ms p, fs.get? "enum" = some (.arr ms) ∧ out = fs.put "enum" (.arr (ms.filter p)) := by
  unfold reconcileValues at made
  dsimp only at made
  split at made
  · cases made
  split at made
  · next found =>
    split at made
    · split at made <;> cases made
    split at made
    · cases made; exact .inl rfl
    · cases made; exact .inr ⟨_,_,found,rfl⟩
  · cases made; exact .inl rfl

lemma reconcileValues_narrows (ts : Texts) (formed : Formed vocab fs) {path : String} {out : Fields}
    (made : reconcileValues fs path = .ok out) : Formed vocab out ∧ Below ts (.obj out) (.obj fs) := by
  have plain : "enum" ∉ grouped := by decide
  rcases reconcileValues_cases made with rfl | ⟨ms,p,found,rfl⟩
  · exact ⟨formed,Below.refl ts _⟩
  have exacts := formed_enum.mp (formed.formed _ _ found)
  have known := has_of_allows (formed.allowed _ _ found)
  refine ⟨formed.put (by decide) (allows_plain known (by decide) _) ?_,?_⟩
  · exact formed_enum.mpr fun v mem => exacts v (mem_filter.mp mem).1
  intro v exact acc
  obtain ⟨rest,listed⟩ := (accepts_put formed.sorted plain).mp acc
  refine (accepts_erase formed.sorted plain).mpr ⟨rest,fun s same => ?_⟩
  rw [found] at same
  cases same
  obtain ⟨w,mem,equal⟩ := any_eq_true.mp listed
  exact any_eq_true.mpr ⟨w,(mem_filter.mp mem).1,equal⟩

lemma get?_reconcileValues (made : reconcileValues fs path = .ok out)
    (other : key ≠ "enum") : out.get? key = fs.get? key := by
  rcases reconcileValues_cases made with rfl | ⟨_,_,_,rfl⟩
  · rfl
  · exact get?_put_other (Ne.symm other)

lemma mem_union (seen : List String) (ns : List String) (name : String) :
    name ∈ ns.foldl (fun seen name => if seen.contains name then seen else seen ++ [name]) seen ↔
      name ∈ seen ∨ name ∈ ns := by
  induction ns generalizing seen with
  | nil => simp
  | cons head rest ih =>
    rw [foldl_cons,ih,mem_cons,← or_assoc]
    refine or_congr_left ?_
    split
    · next held =>
      refine ⟨.inl,?_⟩
      rintro (old | rfl)
      · exact old
      · exact contains_iff_mem.mp held
    · simp

lemma unionStrings_eq (left right : List Json) : ∃ ns : List String, arr (unionStrings left right) = .strings ns ∧
    ∀ name, name ∈ ns ↔ name ∈ left.filterMap str? ∨ name ∈ right.filterMap str? := by
  refine ⟨_,rfl,fun name => ?_⟩
  rw [mem_union,filterMap_append,mem_append]
  exact or_iff_right not_mem_nil

lemma mem_appendNew (have_ more : List Json) (exacts : ∀ v ∈ have_ ++ more, v.isExact) (v : Json) :
    v ∈ appendNew have_ more ↔ v ∈ have_ ∨ v ∈ more := by
  unfold appendNew
  induction more generalizing have_ with
  | nil => simp
  | cons head rest ih =>
    rw [foldl_cons]
    split
    · next held =>
      obtain ⟨e,mem,equal⟩ := any_eq_true.mp held
      have same : e = head := (deepEqual_iff (exacts e (by simp [mem])) (exacts head (by simp))).mp equal
      subst same
      rw [ih _ (fun w inside => exacts w (by rcases mem_append.mp inside with old | new <;> simp [*])),mem_cons]
      exact ⟨fun h => h.imp_right .inr,fun h => h.elim .inl fun h => h.elim (fun eq => .inl (eq ▸ mem)) .inr⟩
    · rw [ih _ (fun w inside => exacts w (by simpa [or_assoc] using inside)),mem_append,mem_singleton,mem_cons,or_assoc]

structure Meets (ts : Texts) (vocab : Vocabulary) (a b m : Json) : Prop where
  schema : m.isSchema vocab
  left : Below ts m a
  right : Below ts m b
  -- booleans meet in a boolean
  flat : a.bool?.isSome → b.bool?.isSome → m.bool?.isSome
variable {σ : Type} {inv : σ → Prop} {recur : Step (StateM σ)}
def Meeting (ts : Texts) (vocab : Vocabulary) (inv : σ → Prop) (recur : Step (StateM σ)) : Prop :=
  ∀ a b path, a.isSchema vocab → b.isSchema vocab →
    Attempt.Yields inv (recur a b path) (Meets ts vocab a b)

def DependencyBelow (ts : Texts) (m d : Json) : Prop :=
  ∀ ms, (obj ms).isExact → dependencyHolds (accepts ts) ms m →
    dependencyHolds (accepts ts) ms d

def isDependency (vocab : Vocabulary) (d : Json) : Prop :=
  isNames d ∨ d.isSchema vocab

lemma dependencyHolds_schema (schema : d.isSchema vocab) :
    dependencyHolds (accepts ts) ms d = d.accepts ts (.obj ms) := by
  cases d with
  | arr xs => cases schema
  | _ => rfl

lemma dependencyBelow_of_below (narrow : m.isSchema vocab)
    (wide : d.isSchema vocab) (below : Below ts m d) : DependencyBelow ts m d := by
  intro ms exact holds
  rw [dependencyHolds_schema narrow] at holds
  rw [dependencyHolds_schema wide]
  exact below _ exact holds

lemma dependencyHolds_names (ns : List String) :
    dependencyHolds (accepts ts) ms (.strings ns) ↔ ∀ name ∈ ns, ms.has name := by
  change (((ns.map str).filterMap str?).all ms.has) ↔ _
  rw [filterMap_map,all_eq_true]
  exact iff_of_eq (congrArg (fun l => ∀ name ∈ l, ms.has name) filterMap_some)

lemma accepts_required {ms : Fields} (ns : List String) :
    (single "required" (.strings ns)).accepts ts (.obj ms) ↔ ∀ name ∈ ns, ms.has name := by
  rw [accepts_single (by decide)]
  change ((strings ns).listedStrings.all ms.has) ↔ _
  rw [listedStrings_strings,all_eq_true]

lemma isSchema_required (closed : vocab.Closed) (ns : List String) : (single "required" (.strings ns)).isSchema vocab :=
  isSchema_single (allows_plain closed.required (by decide) _) (isNames_iff.mpr ⟨ns,rfl⟩) (by decide)
section
variable (closed : vocab.Closed) (meeting : Meeting ts vocab inv recur)
include closed meeting
-- A list of names beside a schema is read as a requirement.
lemma yields_mixedDependency (good : schema.isSchema vocab) (ns : List String) (path : String) :
    Attempt.Yields inv (recur schema (.single "required" (.strings ns)) path) fun m =>
      isDependency vocab m ∧ DependencyBelow ts m schema ∧ DependencyBelow ts m (.strings ns) := by
  refine .mono (meeting _ _ path good (isSchema_required closed ns)) fun m meets => ?_
  refine ⟨.inr meets.schema,dependencyBelow_of_below meets.schema good meets.left,fun ms exact holds => ?_⟩
  rw [dependencyHolds_schema meets.schema] at holds
  rw [dependencyHolds_names,← accepts_required]
  exact meets.right _ exact holds

lemma yields_dependency (left : isDependency vocab l) (right : isDependency vocab r) (path : String) :
    Attempt.Yields inv (dependency recur l r path) fun m =>
      isDependency vocab m ∧ DependencyBelow ts m l ∧ DependencyBelow ts m r := by
  rcases left with left | left
  · obtain ⟨ls,rfl⟩ := isNames_iff.mp left
    rcases right with right | right
    · obtain ⟨rs,rfl⟩ := isNames_iff.mp right
      obtain ⟨ns,made,ms⟩ := unionStrings_eq (ls.map str) (rs.map str)
      have plain (ns : List String) : (ns.map str).filterMap str? = ns := by
        rw [filterMap_map]; exact filterMap_some
      rw [plain,plain] at ms
      refine .pure ?_
      rw [made]
      refine ⟨.inl (isNames_iff.mpr ⟨ns,rfl⟩),fun _ _ holds => ?_,fun _ _ holds => ?_⟩
      · rw [dependencyHolds_names] at holds ⊢
        exact fun name mem => holds name ((ms name).mpr (.inl mem))
      rw [dependencyHolds_names] at holds ⊢
      exact fun name mem => holds name ((ms name).mpr (.inr mem))
    · have mixed := yields_mixedDependency closed meeting right ls path
      have read : dependency recur (.strings ls) r path = recur r (.single "required" (.strings ls)) path := by
        cases r with
        | arr xs => cases right
        | _ => rfl
      rw [read]
      exact mixed.mono fun m ⟨good,schema,ns⟩ => ⟨good,ns,schema⟩
  · rcases right with right | right
    · obtain ⟨rs,rfl⟩ := isNames_iff.mp right
      have read : dependency recur l (.strings rs) path = recur l (.single "required" (.strings rs)) path := by
        cases l with
        | arr xs => cases left
        | _ => rfl
      rw [read]
      exact yields_mixedDependency closed meeting left rs path
    have read : dependency recur l r path = recur l r path := by
      cases l with
      | arr xs => cases left
      | _ =>
        cases r with
        | arr xs => cases right
        | _ => rfl
    rw [read]
    exact (meeting l r path left right).mono fun m meets => ⟨.inr meets.schema,
      dependencyBelow_of_below meets.schema left meets.left,dependencyBelow_of_below meets.schema right meets.right⟩

lemma yields_dependencies {l r : Fields}
    (lSorted : l.Sorted) (rSorted : r.Sorted) (left : ∀ entry ∈ l, isDependency vocab entry.2)
    (right : ∀ entry ∈ r, isDependency vocab entry.2) (path : String) :
    Attempt.Yields inv (dependencies recur (.obj l) (.obj r) path) fun m => ∃ out : Fields, m = .obj out ∧ out.Sorted ∧
      (∀ entry ∈ out, isDependency vocab entry.2) ∧ (∀ name d, l.get? name = some d ∨ r.get? name = some d →
        ∃ e, out.get? name = some e ∧ DependencyBelow ts e d) := by
  refine .bind (runs_joinMaps (fun _ d e m => isDependency vocab m ∧ DependencyBelow ts m d ∧ DependencyBelow ts m e)
    lSorted rSorted fun name d e atL atR => yields_dependency closed meeting (left _ (mem_of_get? atL))
      (right _ (mem_of_get? atR)) _) ?_
  rintro out ⟨sorted,stems⟩
  refine .pure ⟨out,rfl,sorted,fun entry mem => ?_,fun name d found => ?_⟩
  · have stemming := stems entry.1
    rw [get?_of_mem sorted mem] at stemming
    generalize atL : l.get? entry.1 = a at stemming
    generalize atR : r.get? entry.1 = b at stemming
    cases stemming with
    | left => exact left _ (mem_of_get? atL)
    | right => exact right _ (mem_of_get? atR)
    | both _ _ _ joined => exact joined.1
  · rcases (stems name).of_source found with same | ⟨a,b,m,atL,atR,made,_,onLeft,onRight⟩
    · exact ⟨d,same,fun _ _ holds => holds⟩
    refine ⟨m,made,?_⟩
    rw [atL,atR] at found
    rcases found with same | same <;> cases same
    · exact onLeft
    · exact onRight
end
lemma keywordHolds_dependencies {es ms : Fields} : keywordHolds ts (accepts ts) "dependencies" (.obj es) (.obj ms) ↔
      ∀ entry ∈ es, ms.has entry.1 → dependencyHolds (accepts ts) ms entry.2 := by
  change (es.all fun entry => !ms.has entry.1 || _) ↔ _
  simp only [all_eq_true]
  refine forall₂_congr fun entry _ => ?_
  cases has ms entry.1 <;> simp

structure Combines (ts : Texts) (vocab : Vocabulary) (key : String) (l r m : Json) (extra : List Json) : Prop where
  allowed : vocab.allows key m
  formed : keywordFormed (isSchema vocab) key m
  schemas : ∀ e ∈ extra, e.isSchema vocab
  narrows : ∀ v, v.isExact → (∀ e ∈ extra, e.accepts ts v) →
    keywordHolds ts (accepts ts) key m v →
    keywordHolds ts (accepts ts) key l v ∧ keywordHolds ts (accepts ts) key r v
  below : key = "additionalProperties" → Below ts m l ∧ Below ts m r
  same : l = r → m = l
section Keywords
variable {key : String}
lemma grouped_shape : ∀ key ∈ grouped, shape key ≠ .schemaList ∧ shape key ≠ .scalar := by decide

lemma combines_equal (allowed : vocab.allows key l)
    (formed : keywordFormed (isSchema vocab) key l) : Combines ts vocab key l l l [] where
  allowed := allowed
  formed := formed
  schemas _ mem := nomatch mem
  narrows _ _ _ holds := ⟨holds,holds⟩
  below _ := ⟨Below.refl ts l,Below.refl ts l⟩
  same _ := rfl

-- The left value stays and the right one goes to `allOf`.
lemma combines_residual (apart : l ≠ r) (plain : key ∉ grouped) (lAllowed : vocab.allows key l)
    (rAllowed : vocab.allows key r) (left : keywordFormed (isSchema vocab) key l)
    (right : keywordFormed (isSchema vocab) key r) : Combines ts vocab key l r l [single key r] where
  allowed := lAllowed
  formed := left
  schemas e mem := by
    rw [mem_singleton.mp mem]
    refine isSchema_single rAllowed right ⟨?_,?_⟩ <;> rintro rfl <;> exact plain (by decide)
  narrows v _ acc holds := ⟨holds,(accepts_single plain).mp (acc _ mem_cons_self)⟩
  below same := absurd (by rw [same]; decide) plain
  same eq := absurd eq apart

-- One value in place of two, with nothing left over.
lemma combines_alone (apart : l ≠ r) (plain : key ∉ ["additionalProperties","format"])
    (known : vocab.has key) (formed : keywordFormed (isSchema vocab) key m)
    (narrows : ∀ v, v.isExact → keywordHolds ts (accepts ts) key m v →
      keywordHolds ts (accepts ts) key l v ∧ keywordHolds ts (accepts ts) key r v) :
    Combines ts vocab key l r m [] where
  allowed := allows_plain known plain m
  formed := formed
  schemas _ mem := nomatch mem
  narrows v exact _ holds := narrows v exact holds
  below same := absurd (by rw [same]; decide) plain
  same eq := absurd eq apart

lemma formed_typeNames {f : Json → Bool} (ns : List String) : keywordFormed f "type" (.strings ns) := by
  change ((strings ns).str?.isSome || isNames (.strings ns)) = true
  rw [isNames_iff.mpr ⟨ns,rfl⟩,Bool.or_true]

lemma formed_types {f : Json → Bool} (made : types l r path = .ok m) : keywordFormed f "type" m := by
  unfold types at made
  split at made <;> cases made
  · rfl
  · exact formed_typeNames _

lemma holds_types (made : types l r path = .ok m) (v : Json) : keywordHolds ts (accepts ts) "type" m v ↔
    keywordHolds ts (accepts ts) "type" l v ∧ keywordHolds ts (accepts ts) "type" r v := by
  constructor
  · intro holds
    obtain ⟨t,mem,typed⟩ := any_eq_true.mp holds
    rw [typeNames_types made,mem_commonTypes] at mem
    obtain ⟨a,inLeft,b,inRight,common⟩ := mem
    obtain ⟨left,right⟩ := commonType?_sound common typed
    exact ⟨any_eq_true.mpr ⟨a,inLeft,left⟩,any_eq_true.mpr ⟨b,inRight,right⟩⟩
  rintro ⟨onLeft,onRight⟩
  obtain ⟨a,inLeft,left⟩ := any_eq_true.mp onLeft
  obtain ⟨b,inRight,right⟩ := any_eq_true.mp onRight
  obtain ⟨t,common,typed⟩ := commonType?_complete left right
  refine any_eq_true.mpr ⟨t,?_,typed⟩
  rw [typeNames_types made,mem_commonTypes]
  exact ⟨a,inLeft,b,inRight,common⟩

lemma combines_type (apart : l ≠ r) (known : vocab.has "type")
    (made : types l r path = .ok m) : Combines ts vocab "type" l r m [] :=
  combines_alone apart (by decide) known (formed_types made) fun v _ => (holds_types made v).mp

lemma mem_enums (lefts : ∀ v ∈ ls, v.isExact) (rights : ∀ v ∈ rs, v.isExact) (made : enums (.arr ls) (.arr rs) path = .ok m) :
    ∃ common, m = .arr common ∧ ∀ v, v ∈ common ↔ v ∈ ls ∧ v ∈ rs := by
  have kept : m = .arr (ls.filter fun l => rs.any fun r => l.deepEqual r) := by
    unfold enums at made
    dsimp only at made
    split at made <;> cases made
    rfl
  refine ⟨_,kept,fun v => ?_⟩
  rw [mem_filter,any_eq_true]
  refine and_congr_right fun inLeft => ⟨?_,fun inRight => ⟨v,inRight,?_⟩⟩
  · rintro ⟨w,inRight,equal⟩
    rwa [(deepEqual_iff (lefts v inLeft) (rights w inRight)).mp equal]
  · exact (deepEqual_iff (lefts v inLeft) (lefts v inLeft)).mpr rfl

lemma combines_enum (apart : l ≠ r) (known : vocab.has "enum") (left : keywordFormed (isSchema vocab) "enum" l)
    (right : keywordFormed (isSchema vocab) "enum" r) (made : enums l r path = .ok m) :
    Combines ts vocab "enum" l r m [] := by
  cases l with
  | arr ls =>
    cases r with
    | arr rs =>
      obtain ⟨common,rfl,ms⟩ := mem_enums (formed_enum.mp left) (formed_enum.mp right) made
      refine combines_alone apart (by decide) known ?_ ?_
      · exact formed_enum.mpr fun v mem => formed_enum.mp left v ((ms v).mp mem).1
      intro v _ holds
      obtain ⟨w,mem,equal⟩ := any_eq_true.mp holds
      obtain ⟨inLeft,inRight⟩ := (ms w).mp mem
      exact ⟨any_eq_true.mpr ⟨w,inLeft,equal⟩,any_eq_true.mpr ⟨w,inRight,equal⟩⟩
    | _ => cases right
  | _ => cases left

lemma holds_union (left : isNames l) (right : isNames r) (v : Json) :
    keywordHolds ts (accepts ts) "required" (.arr (unionStrings l.itemsOrNone r.itemsOrNone)) v ↔
      keywordHolds ts (accepts ts) "required" l v ∧ keywordHolds ts (accepts ts) "required" r v := by
  obtain ⟨ls,rfl⟩ := isNames_iff.mp left
  obtain ⟨rs,rfl⟩ := isNames_iff.mp right
  obtain ⟨ns,made,ms⟩ := unionStrings_eq (strings ls).itemsOrNone (strings rs).itemsOrNone
  change ∀ name, _ ↔ name ∈ (strings ls).listedStrings ∨ name ∈ (strings rs).listedStrings at ms
  rw [listedStrings_strings,listedStrings_strings] at ms
  rw [made]
  cases v with
  | obj fs =>
    have all ns : keywordHolds ts (accepts ts) "required" (.strings ns) (.obj fs) ↔ ∀ name ∈ ns, has fs name := by
      rw [← accepts_single (by decide)]
      exact accepts_required ns
    rw [all,all,all]
    refine ⟨fun holds => ⟨fun name mem => holds name ((ms name).mpr (.inl mem)),
      fun name mem => holds name ((ms name).mpr (.inr mem))⟩,?_⟩
    rintro ⟨onLeft,onRight⟩ name mem
    exact ((ms name).mp mem).elim (onLeft name) (onRight name)
  | _ => exact ⟨fun _ => ⟨rfl,rfl⟩,fun _ => rfl⟩

lemma combines_required (apart : l ≠ r) (known : vocab.has "required") (left : isNames l) (right : isNames r) :
    Combines ts vocab "required" l r (.arr (unionStrings l.itemsOrNone r.itemsOrNone)) [] := by
  obtain ⟨ns,made,_⟩ := unionStrings_eq l.itemsOrNone r.itemsOrNone
  exact combines_alone apart (by decide) known (isNames_iff.mpr ⟨ns,made⟩) fun v _ => (holds_union left right v).mp

lemma holds_unique (left : l.bool?.isSome) (right : r.bool?.isSome) (v : Json) :
    keywordHolds texts (accepts texts) "uniqueItems" (.bool (l.bool?.getD false || r.bool?.getD false)) v ↔
      keywordHolds texts (accepts texts) "uniqueItems" l v ∧ keywordHolds texts (accepts texts) "uniqueItems" r v := by
  cases l with
  | bool a =>
    cases r with
    | bool b =>
      cases v with
      | arr items =>
        change (!(bool (a || b)).isTrue || distinct items) ↔
          (!(bool a).isTrue || distinct items) ∧ (!(bool b).isTrue || distinct items)
        cases a <;> cases b <;> simp [Json.isTrue]
      | _ => exact ⟨fun _ => ⟨rfl,rfl⟩,fun _ => rfl⟩
    | _ => cases right
  | _ => cases left

lemma combines_unique (apart : l ≠ r) (known : vocab.has "uniqueItems") (left : l.bool?.isSome) (right : r.bool?.isSome) :
    Combines ts vocab "uniqueItems" l r (.bool (l.bool?.getD false || r.bool?.getD false)) [] :=
  combines_alone apart (by decide) known rfl fun v _ => (holds_unique left right v).mp

lemma combines_not (closed : vocab.Closed) (apart : l ≠ r) (known : vocab.has "not")
    (left : l.isSchema vocab) (right : r.isSchema vocab) : Combines ts vocab "not" l r (.single "anyOf" (.arr [l,r])) [] := by
  refine combines_alone apart (by decide) known ?_ ?_
  · refine isSchema_single (allows_plain closed.anyOf (by decide) _) ?_ (by decide)
    refine (formed_list rfl).mpr ⟨_,rfl,?_⟩
    simp [left,right]
  intro v _ holds
  change (!(single "anyOf" (.arr [l,r])).accepts ts v) at holds
  change (!l.accepts ts v) ∧ (!r.accepts ts v)
  rw [Bool.not_eq_true',Bool.eq_false_iff,ne_eq,accepts_single (by decide)] at holds
  change ¬ ([l,r].any fun branch => branch.accepts ts v) at holds
  simpa using holds

lemma combines_allOf (apart : l ≠ r) (known : vocab.has "allOf")
    (left : keywordFormed (isSchema vocab) "allOf" l) (right : keywordFormed (isSchema vocab) "allOf" r) :
    Combines ts vocab "allOf" l r (.arr (appendNew l.itemsOrNone r.itemsOrNone)) [] := by
  obtain ⟨ls,rfl,lefts⟩ := (formed_list rfl).mp left
  obtain ⟨rs,rfl,rights⟩ := (formed_list rfl).mp right
  have ms := mem_appendNew ls rs fun v mem =>
    (mem_append.mp mem).elim (fun at_ => exact_schema (lefts v at_)) fun at_ => exact_schema (rights v at_)
  refine combines_alone apart (by decide) known ((formed_list rfl).mpr ⟨_,rfl,fun v mem => ?_⟩) ?_
  · exact ((ms v).mp mem).elim (lefts v) (rights v)
  intro v _ holds
  have all := all_eq_true.mp holds
  exact ⟨all_eq_true.mpr fun e mem => all e ((ms e).mpr (.inl mem)),
    all_eq_true.mpr fun e mem => all e ((ms e).mpr (.inr mem))⟩

lemma combines_bound (apart : l ≠ r) (known : vocab.has key)
    (shape : shape key = .lowerBound ∨ shape key = .upperBound) (found : limit? key = some limit)
    (left : keywordFormed (isSchema vocab) key l) (right : keywordFormed (isSchema vocab) key r) :
    Combines ts vocab key l r (bound limit.side l r) [] := by
  obtain ⟨m,rfl⟩ := (formed_bound shape).mp left
  obtain ⟨n,rfl⟩ := (formed_bound shape).mp right
  refine combines_alone apart (fun mem => ?_) known ?_ ?_
  · fin_cases mem <;> cases found
  · unfold bound
    dsimp only [float?]
    split
    · exact right
    · exact left
  · intro v exact holds
    rw [keywordHolds_limit found] at holds ⊢
    rw [keywordHolds_limit found]
    exact (Limit.holds_bound exact m n).mp holds

lemma combines_propertyNames (apart : l ≠ r) (known : vocab.has "propertyNames")
    (meets : Meets ts vocab l r m) : Combines ts vocab "propertyNames" l r m [] := by
  refine combines_alone apart (by decide) known meets.schema fun v _ holds => ?_
  cases v with
  | obj ms =>
    have all := all_eq_true.mp holds
    exact ⟨all_eq_true.mpr fun mem at_ => meets.left _ rfl (all mem at_),
      all_eq_true.mpr fun mem at_ => meets.right _ rfl (all mem at_)⟩
  | _ => exact ⟨rfl,rfl⟩

lemma combines_extra (apart : l ≠ r) (lAllowed : vocab.allows "additionalProperties" l)
    (rAllowed : vocab.allows "additionalProperties" r) (meets : Meets ts vocab l r m) :
    Combines ts vocab "additionalProperties" l r m [] where
  allowed := by
    obtain ⟨known,lKind⟩ := allows_extra.mp lAllowed
    obtain ⟨_,rKind⟩ := allows_extra.mp rAllowed
    refine allows_extra.mpr ⟨known,?_⟩
    rcases lKind with described | lFlat
    · exact .inl described
    · exact rKind.imp_right (meets.flat lFlat)
  formed := meets.schema
  schemas _ mem := nomatch mem
  narrows _ _ _ _ := ⟨rfl,rfl⟩
  below _ := ⟨meets.left,meets.right⟩
  same eq := absurd eq apart

lemma yields_combinedDependencies (closed : vocab.Closed) (meeting : Meeting ts vocab inv recur)
    (apart : l ≠ r) (known : vocab.has "dependencies") (left : keywordFormed (isSchema vocab) "dependencies" l)
    (right : keywordFormed (isSchema vocab) "dependencies" r) (path : String) :
    Attempt.Yields inv (dependencies recur l r path) fun m => Combines ts vocab "dependencies" l r m [] := by
  obtain ⟨ls,rfl,lSorted,lefts⟩ := (formed_dependencies rfl).mp left
  obtain ⟨rs,rfl,rSorted,rights⟩ := (formed_dependencies rfl).mp right
  refine .mono (yields_dependencies closed meeting lSorted rSorted lefts rights path) ?_
  rintro m ⟨out,rfl,sorted,good,below⟩
  refine combines_alone apart (by decide) known ((formed_dependencies rfl).mpr ⟨out,rfl,sorted,good⟩) fun v exact holds => ?_
  cases v with
  | obj ms =>
    rw [keywordHolds_dependencies] at holds ⊢
    rw [keywordHolds_dependencies]
    have each name d (found : ls.get? name = some d ∨ rs.get? name = some d) (held : has ms name) :
        dependencyHolds (accepts ts) ms d := by
      obtain ⟨e,at_,narrower⟩ := below name d found
      exact narrower ms exact (holds (name,e) (mem_of_get? at_) held)
    exact ⟨fun entry mem => each entry.1 entry.2 (.inl (get?_of_mem lSorted mem)),
      fun entry mem => each entry.1 entry.2 (.inr (get?_of_mem rSorted mem))⟩
  | _ => exact ⟨rfl,rfl⟩

lemma yields_keyword (closed : vocab.Closed) (meeting : Meeting ts vocab inv recur)
    (lAllowed : vocab.allows key l) (rAllowed : vocab.allows key r)
    (left : keywordFormed (isSchema vocab) key l) (right : keywordFormed (isSchema vocab) key r)
    (single : key ∉ ["properties","items","additionalItems"]) (conditional : key ∈ conditional → l = r) (path : String) :
    Attempt.Yields inv (keyword recur key l r path) fun made => Combines ts vocab key l r made.1 made.2 := by
  have known := has_of_allows lAllowed
  have mergeable := closed.mergeable key known
  have equal : l.deepEqual r ↔ l = r :=
    deepEqual_iff (exact_keyword (fun _ _ => exact_schema) left) (exact_keyword (fun _ _ => exact_schema) right)
  unfold keyword
  split
  · next same =>
    obtain rfl := equal.mp same
    exact .pure (combines_equal lAllowed left)
  next ne =>
  have apart : l ≠ r := fun same => ne (equal.mpr same)
  split
  · exact .bind (.ofAny fun m made => combines_type apart known made) fun _ combined =>
      .pure combined
  · exact .conflict trivial
  · exact .bind (.ofAny fun m made => combines_enum apart known left right made) fun _ combined => .pure combined
  · exact .pure (combines_required apart known left right)
  · exact .pure (combines_unique apart known left right)
  · exact absurd mergeable (by decide)
  · exact .pure (combines_not closed apart known left right)
  · exact .pure (combines_allOf apart known left right)
  · exact absurd mergeable (by decide)
  split
  · next shape =>
    obtain ⟨limit,found,side⟩ := limit_lower shape
    exact .pure (side ▸ combines_bound apart known (.inl shape) found left right)
  · next shape =>
    obtain ⟨limit,found,side⟩ := limit_upper shape
    exact .pure (side ▸ combines_bound apart known (.inr shape) found left right)
  · next shape =>
    have keys := shape_subSchema shape
    fin_cases keys
    · exact .bind (meeting l r _ left right) fun m meets =>
        .pure (combines_extra apart lAllowed rAllowed meets)
    · exact absurd (by decide) single
    · exact .pure (combines_residual apart (by decide) lAllowed rAllowed left right)
    · exact .bind (meeting l r _ left right) fun m meets =>
        .pure (combines_propertyNames apart known meets)
    · exact absurd rfl ‹¬ "not" = "not"›
    all_goals exact absurd (conditional (by decide)) apart
  · next shape =>
    have keys := shape_schemaMap shape
    fin_cases keys
    · exact absurd (by decide) single
    all_goals exact absurd mergeable (by decide)
  · next shape =>
    obtain rfl := shape_dependencies shape
    exact .bind (yields_combinedDependencies closed meeting apart known left right _) fun m combined =>
      .pure combined
  · next shape =>
    refine .pure (combines_alone apart (fun mem => ?_) known left fun v _ holds => ⟨holds,keywordHolds_note shape⟩)
    fin_cases mem <;> cases shape
  · refine .pure (combines_residual apart (fun mem => ?_) lAllowed rAllowed left right)
    have shapes := grouped_shape key mem
    cases shape : shape key with
    | items => exact single (by rw [shape_items shape]; decide)
    | schemaList => exact shapes.1 shape
    | scalar => exact shapes.2 shape
    | subSchema | schemaMap | dependencies | lowerBound | upperBound | note => contradiction
end Keywords
section Flat
variable {m : Type → Type} [Monad m] {recur : Step m} {lookup : Lookup m} {s : Json}
lemma foldAllOf_flat (flat : s.field? "allOf" = none) (path : String) : foldAllOf recur s path = pure s := by
  cases s with
  | obj fs =>
    unfold foldAllOf
    dsimp only
    rw [show get? fs "allOf" = none from flat]
  | _ => rfl

lemma budget_succ (a b : Json) : ∃ fuel, budget a b = fuel + 1 :=
  Nat.exists_eq_succ_of_ne_zero (pos_iff_ne_zero.mp (Nat.pow_pos (Nat.succ_pos _)))

lemma merge_of_step [LawfulMonad m] (met : ∀ recur, step lookup recur a b "" = pure made) :
    merge lookup a b = pure (.ok made) := by
  obtain ⟨fuel,enough⟩ := budget_succ a b
  unfold merge
  rw [enough,mergeWithin,met]
  change ((pure (some (Except.ok made)) : m (Option (Except Conflict Json))) >>= _) = _
  rw [pure_bind]
end Flat
lemma ensures_merge_of_runs {lookup : Lookup (StateM σ)} {refuses tires : Prop}
    {post : Json → Prop} (runs : Attempt.Runs inv refuses tires (mergeWithin lookup (budget a b) a b "") post)
    (apart : tires → post (.single "allOf" (.arr [a,b]))) : Ensures inv (merge lookup a b) fun result =>
      (∀ m, result = .ok m → post m) ∧ ∀ c, result = .error c → refuses := by
  refine .bind runs fun result admitted => ?_
  match result, admitted with
  | some (.ok m), holds => exact .pure ⟨fun _ made => Except.ok.inj made ▸ holds,nofun⟩
  | some (.error c), refused => exact .pure ⟨nofun,fun _ _ => refused⟩
  | none, tired => exact .pure ⟨fun _ made => Except.ok.inj made ▸ apart tired,nofun⟩
end Intersection
end SchemaOrder
