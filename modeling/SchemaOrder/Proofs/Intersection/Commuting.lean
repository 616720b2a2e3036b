import SchemaOrder.Proofs.Intersection.Swapping
import SchemaOrder.Proofs.Memory
namespace SchemaOrder
open Schemas Canonical Acceptance List Attempt
namespace Intersection
variable {recur : Step (StateM Unit)} {lookup : Lookup (StateM Unit)} {left right : Fields} {path : String}
-- Intersection commutes, up to the spelling that comparison ignores, where all keywords combine.
lemma ensures_combinableConstraints (combinable : Combinable owner) (name : String) :
    Always (constraints lookup owner name) fun governing => ∀ c ∈ governing, c.isCombinable := by
  refine ensures_eachConstraint steady ?_ (fun c found => (formed_subSchema rfl).symm.trans (combinable.formed found (by decide))) name
  cases found : owner.get? "patternProperties" with
  | none => exact nofun
  | some map =>
    obtain ⟨es,rfl,good⟩ := goodFields_map rfl (combinable.formed found (by decide))
    exact fun entry mem => good.each _ _ (Fields.get?_of_mem good.sorted mem)

-- Schemas that are merged into one another stay combinable.
lemma yields_mergedInto (swaps : Swaps recur) {es : List Json} (each : ∀ c ∈ es, c.isCombinable)
    {start : Json} (good : start.isCombinable) :
    Yields (fun _ => True) (es.foldlM (fun acc entry => recur acc entry path) start) fun m => m.isCombinable :=
  runs_mergedInto good fun _ c inside soFar => swaps.yields soFar (each c inside) path

lemma yields_constrained (swaps : Swaps recur) {owner : Fields} (combinable : Combinable owner) {schema : Json}
    (good : schema.isCombinable) (name path : String) :
    Yields (fun _ => True) (constrainUndeclared lookup recur schema owner name path) fun m => m.isCombinable :=
  .bind (.ask (ensures_combinableConstraints combinable name)) fun _ each =>
    yields_mergedInto swaps each good

-- Who requires a property does not matter, only that somebody does.
lemma echoed_settleProperty (ours theirs : List String) (name : String) (forth : Echoed (fun m => m.isCombinable) SameEntry x y)
    (back : Echoed (fun m => m.isCombinable) SameEntry y x) :
    Echoed (fun m => m.isCombinable) SameEntry (settleProperty (ours ++ theirs) name x)
      (settleProperty (theirs ++ ours) name y) := by
  have wanted : (ours ++ theirs).contains name = (theirs ++ ours).contains name := by
    rw [contains_append,contains_append,Bool.or_comm]
  refine Echoed.orElse forth (back.mono (fun _ good => good) fun _ _ same => Eq.symm same) fun c d => ?_
  rw [wanted]
  split
  · exact .conflict
  · exact .pure (isCombinable_bool false) (SameEntry.refl _)

lemma declared_combinable (combinable : Combinable fs) : GoodFields (fun s => s.isCombinable) (declared fs) := by
  unfold declared
  cases found : fs.get? "properties" with
  | none => exact ⟨Fields.sorted_nil,nofun⟩
  | some map =>
    obtain ⟨es,rfl,good⟩ := goodFields_map rfl (combinable.formed found (by decide))
    exact good
section Declared
variable {fromLeft fromRight : String → Json → Json → Prop} {out other : Fields}
lemma Declarations.good {good : Json → Prop} (declarations : Declarations fromLeft fromRight left right out)
    (goodLeft : ∀ name l m, fromLeft name l m → good m) (goodRight : ∀ name r m, fromRight name r m → good m) :
    GoodFields good out := by
  refine ⟨declarations.sorted,fun name m found => ?_⟩
  cases atL : (declared left).get? name with
  | some l =>
    obtain ⟨m',at_,fit⟩ := declarations.onLeft name l atL
    rw [found] at at_
    cases at_
    exact goodLeft name l m fit
  | none =>
    cases atR : (declared right).get? name with
    | some r =>
      obtain ⟨m',at_,fit⟩ := declarations.onRight name r atL atR
      rw [found] at at_
      cases at_
      exact goodRight name r m fit
    | none =>
      rw [declarations.neither name atL atR] at found
      cases found

-- Both orders declare the same names.
lemma Declarations.related {related : Json → Json → Prop} (here : Declarations fromLeft fromRight left right out)
    (there : Declarations (fun name _ n => ∀ m, out.get? name = some m → related m n)
      (fun name _ n => ∀ m, out.get? name = some m → related m n) right left other) : RelatedFields related out other := by
  refine ⟨here.sorted,there.sorted,fun name => ?_⟩
  cases found : out.get? name with
  | none =>
    obtain ⟨noLeft,noRight⟩ := (here.undeclared name).mp found
    rw [there.neither name noRight noLeft]
    exact .none
  | some m =>
    have echo : ∃ n, other.get? name = some n ∧ ∀ m, out.get? name = some m → related m n := by
      cases atR : (declared right).get? name with
      | some r => exact there.onLeft name r atR
      | none =>
        cases atL : (declared left).get? name with
        | some l => exact there.onRight name l atR atL
        | none =>
          rw [here.neither name atL atR] at found
          cases found
    obtain ⟨n,at_,same⟩ := echo
    rw [at_]
    exact .some (same m found)
end Declared
section Properties
variable (recur lookup left right path)
def PropertyEcho (name : String) (x : Attempt (StateM Unit) Json) (m : Json) : Prop :=
  m.isCombinable ∧
    Settles (fun _ => True) False (settleProperty (required right ++ required left) name x) (SameEntry m)

-- A property of the left side meets its partner or what the right side says of undeclared ones.
def LeftEcho (name : String) (l m : Json) : Prop :=
  (∀ r, (declared right).get? name = some r →
    PropertyEcho left right name (recur r l (joinPath (joinPath path "properties") name)) m) ∧
  ((declared right).get? name = none →
    PropertyEcho left right name (constrainUndeclared lookup recur l right name (joinPath (joinPath path "properties") name)) m)

def RightEcho (name : String) (r m : Json) : Prop :=
  PropertyEcho left right name (constrainUndeclared lookup recur r left name (joinPath (joinPath path "properties") name)) m
end Properties
lemma LeftEcho.good (echo : LeftEcho recur lookup left right path name l m) : m.isCombinable := by
  cases atR : (declared right).get? name with
  | some r => exact (echo.1 r atR).1
  | none => exact (echo.2 atR).1

lemma yields_echoedProperties (swaps : Swaps recur) (lGood : Combinable left) (rGood : Combinable right) :
    Yields (fun _ => True) (properties lookup recur left right path) fun made =>
      (made = none ∧ (left.get? "properties").bind Json.fields? = none ∧ (right.get? "properties").bind Json.fields? = none) ∨
        ∃ out, made = some (.obj out) ∧ Declarations (LeftEcho recur lookup left right path)
          (RightEcho recur lookup left right path) left right out := by
  have lefts := declared_combinable lGood
  have rights := declared_combinable rGood
  have undeclared : ∀ {owner} {s}, Combinable owner → s.isCombinable → ∀ name path,
      Echoed (fun m => m.isCombinable) SameEntry (constrainUndeclared lookup recur s owner name path)
        (constrainUndeclared lookup recur s owner name path) := fun owner good name path =>
    .self (yields_constrained swaps owner good name path) SameEntry.refl
  refine runs_declarations _ _ lefts.sorted rights.sorted path (fun name l r atL atR => ?_)
    (fun name l atL missing => ?_) (fun name r missing atR => ?_)
  · have good := lefts.each name l atL
    have fine := rights.each name r atR
    refine Runs.mono (echoed_settleProperty _ (required right) name (swaps.entry good fine _)
      (swaps.entry fine good _)) fun m echo => ⟨fun r' same => ?_,fun absent => ?_⟩
    · rw [atR] at same
      cases same
      exact echo
    · rw [atR] at absent
      cases absent
  · have alone := undeclared rGood (lefts.each name l atL) name (joinPath (joinPath path "properties") name)
    refine Runs.mono (echoed_settleProperty _ (required right) name alone alone)
      fun m echo => ⟨fun r held => ?_,fun _ => echo⟩
    rw [missing] at held
    cases held
  · have alone := undeclared lGood (rights.each name r atR) name (joinPath (joinPath path "properties") name)
    exact echoed_settleProperty _ (required right) name alone alone

lemma properties_absent (combinable : Combinable fs)
    (none : (fs.get? "properties").bind Json.fields? = none) : fs.has "properties" = false := by
  unfold Fields.has
  cases found : fs.get? "properties" with
  | none => rfl
  | some map =>
    obtain ⟨es,rfl,_⟩ := goodFields_map rfl (combinable.formed found (by decide))
    rw [found] at none
    cases none

-- The run in the other order, piece by piece.
lemma settles_echoedProperties (lGood : Combinable left) (rGood : Combinable right)
    (here : Declarations (LeftEcho recur lookup left right path) (RightEcho recur lookup left right path) left right out) :
    Settles (fun _ => True) False (properties lookup recur right left path) fun made =>
      ∃ other, made = some (.obj other) ∧ RelatedFields SameEntry out other := by
  have lefts := declared_combinable lGood
  have rights := declared_combinable rGood
  have echoes {name} {m} {x} (found : out.get? name = some m)
      (echo : PropertyEcho left right name x m) : Settles (fun _ =>
      True) False (settleProperty (required right ++ required left) name x) fun n => ∀ m, out.get? name = some m →
      SameEntry m n := by
    refine echo.2.mono fun n same m' again => ?_
    rw [found] at again
    cases again
    exact same
  refine (runs_declarations (fun name _ n => ∀ m, out.get? name = some m → SameEntry m n)
    (fun name _ n => ∀ m, out.get? name = some m → SameEntry m n) rights.sorted lefts.sorted path
    (fun name r l atR atL => ?_) (fun name r atR missing => ?_) (fun name l missing atL => ?_)).mono ?_
  · obtain ⟨m,found,echo⟩ := here.onLeft name l atL
    exact echoes found (echo.1 r atR)
  · obtain ⟨m,found,echo⟩ := here.onRight name r missing atR
    exact echoes found echo
  · obtain ⟨m,found,echo⟩ := here.onLeft name l atL
    exact echoes found (echo.2 missing)
  · rintro made (⟨rfl,noRight,noLeft⟩ | ⟨other,rfl,there⟩)
    · have named := here.named
      rw [properties_absent lGood noLeft,properties_absent rGood noRight] at named
      exact absurd named (by decide)
    · exact ⟨other,rfl,here.related there⟩

lemma echoed_properties (swaps : Swaps recur) (lGood : Combinable left) (rGood : Combinable right) :
    Echoed (fun made => ∀ m, made = some m → unites Json.isCombinable "properties" m)
      (Option.Rel (Congruent "properties")) (properties lookup recur left right path)
      (properties lookup recur right left path) := by
  refine Runs.mono (yields_echoedProperties swaps lGood rGood) ?_
  rintro made (⟨rfl,noLeft,noRight⟩ | ⟨out,rfl,here⟩)
  · refine ⟨nofun,?_⟩
    rw [properties_none noRight noLeft]
    exact .pure .none
  refine ⟨fun m is => ?_,(settles_echoedProperties lGood rGood here).mono ?_⟩
  · cases is
    exact unites_formed (by decide) (by decide) (by decide)
      ((here.good (fun _ _ _ echo => echo.good) fun _ _ _ echo => echo.1).formed rfl)
  · rintro _ ⟨other,rfl,related⟩
    exact .some (.of_form (by decide) (congrArg unlessEmpty (entries_congruent related.left related.right related.each)))

lemma only_combinable {s : Json} (good : s.isCombinable) : ∀ m, some s = some m → m.isCombinable :=
  fun _ same => Option.some.inj same ▸ good

lemma echoed_optional (swaps : Swaps recur) (left : ∀ s, a = some s → s.isCombinable)
    (right : ∀ s, b = some s → s.isCombinable) :
    Echoed (fun made => ∀ m, made = some m → m.isCombinable) (Option.Rel SameForm) (optional recur a b path)
      (optional recur b a path) := by
  cases a with
  | none =>
    cases b with
    | none => exact .pure left .none
    | some r => exact .pure right (.some rfl)
  | some l =>
    cases b with
    | none => exact .pure left (.some rfl)
    | some r => exact (swaps l r path (left l rfl) (right r rfl)).map (fun _ good => only_combinable good) fun _ _ same => .some same

lemma yields_tuple (swaps : Swaps recur) (good : single.isCombinable) (each : ∀ t ∈ tuple, t.isCombinable) (i : Nat) :
    Yields (fun _ => True) (tupleWith recur single path i tuple) fun made => ∀ m ∈ made, m.isCombinable :=
  runs_tupleWith (fun t inside _ => swaps.yields (each t inside) good _) i

lemma echoed_tuples (swaps : Swaps recur) (lGood : lMore.isCombinable)
    (rGood : rMore.isCombinable) (lefts : ∀ t ∈ ls, t.isCombinable) (rights : ∀ t ∈ rs, t.isCombinable) (i : Nat) :
    Echoed (fun made => ∀ m ∈ made, m.isCombinable) (Forall₂ SameForm)
      (tuples recur lMore rMore path i ls rs) (tuples recur rMore lMore path i rs ls) := by
  have extend : ∀ {x y} {u v}, Echoed (fun m => m.isCombinable) SameForm x y →
      Echoed (fun made => ∀ m ∈ made, m.isCombinable) (Forall₂ SameForm) u v →
      Echoed (fun made => ∀ m ∈ made, m.isCombinable) (Forall₂ SameForm)
        (do let first ← x; return first :: (← u)) (do let first ← y; return first :: (← v)) :=
    fun first rest => first.pair rest (fun _ _ good goods => forall_mem_cons.mpr ⟨good,goods⟩)
      fun _ _ _ _ same sames => .cons same sames
  induction i, ls, rs using tuples.induct with
  | case1 i => rw [tuples,tuples]; exact .pure (forall_mem_nil _) .nil
  | case2 i l ls ih =>
    rw [tuples,tuples]
    exact extend (swaps _ _ _ (lefts l mem_cons_self) rGood) (ih (fun t mem => lefts t (.tail _ mem)) rights)
  | case3 i r rs ih =>
    rw [tuples,tuples]
    exact extend (swaps _ _ _ lGood (rights r mem_cons_self)) (ih lefts fun t mem => rights t (.tail _ mem))
  | case4 i l ls r rs ih =>
    rw [tuples,tuples]
    exact extend (swaps _ _ _ (lefts l mem_cons_self) (rights r mem_cons_self))
      (ih (fun t mem => lefts t (.tail _ mem)) fun t mem => rights t (.tail _ mem))

def GoodEntries (made : Option Json × Option Json) : Prop :=
  (∀ m, made.1 = some m → unites Json.isCombinable "items" m) ∧
    ∀ m, made.2 = some m → unites Json.isCombinable "additionalItems" m

def SameEntries (made other : Option Json × Option Json) : Prop :=
  Option.Rel (Congruent "items") made.1 other.1 ∧ Option.Rel (Congruent "additionalItems") made.2 other.2

lemma unites_tuple (each : ∀ t ∈ tuple, t.isCombinable) : unites Json.isCombinable "items" (.arr tuple) :=
  unites_formed (by decide) (by decide) (by decide) ((formed_items rfl).mpr (.inr ⟨tuple,rfl,each⟩))

lemma unites_single (good : s.isCombinable) : unites Json.isCombinable "items" s :=
  unites_formed (by decide) (by decide) (by decide) ((formed_items rfl).mpr (.inl good))

lemma unites_further (good : s.isCombinable) : unites Json.isCombinable "additionalItems" s :=
  unites_formed (by decide) (by decide) (by decide) ((formed_subSchema rfl).trans good)

lemma congruent_tuple (same : Forall₂ SameForm xs ys) : Congruent "items" (.arr xs) (.arr ys) := by
  have forms : forms xs = forms ys := by
    rw [forms_eq,forms_eq]
    induction same with
    | nil => rfl
    | cons here _ ih => rw [map_cons,map_cons,ih,here]
  exact .of_form (by decide) (congrArg (fun l => some (Json.arr l)) forms)

lemma congruent_single (good : s.isCombinable) (fine : t.isCombinable) (same : SameForm s t) : Congruent "items" s t := by
  have read {s} (good : s.isCombinable) : formKeyword "items" s = unlessTrivial (form s) := by
    rcases isCombinable_cases good with ⟨b,rfl⟩ | ⟨fs,rfl,_⟩ <;> rfl
  refine .of_form (by decide) ?_
  rw [read good,read fine,same]

lemma congruent_further (same : Option.Rel SameForm a b) : Option.Rel (Congruent "additionalItems") a b := by
  cases same with
  | some same => exact .some (.of_form (by decide) (congrArg unlessTrivial same))
  | none => exact .none

lemma further_combinable (combinable : Combinable fs) :
    ∀ s, fs.get? "additionalItems" = some s → s.isCombinable := fun _ found =>
  (formed_subSchema rfl).symm.trans (combinable.formed found (by decide))

inductive ItemsCases : Option Json → Prop where
  | none : ItemsCases none
  | tuple (ts : List Json) (each : ∀ t ∈ ts, t.isCombinable) : ItemsCases (some (.arr ts))
  | single (s : Json) (good : s.isCombinable) : ItemsCases (some s)

lemma items_combinable (combinable : Combinable fs) : ItemsCases (fs.get? "items") := by
  cases found : fs.get? "items" with
  | none => exact .none
  | some s =>
    rcases (formed_items rfl).mp (combinable.formed found (by decide)) with single | ⟨ts,rfl,each⟩
    · exact .single s single
    · exact .tuple ts each

lemma items_left (atLeft : left.get? "items" = some s) (atRight : right.get? "items" = none) :
    items recur left right path = pure (some s,left.get? "additionalItems") := by
  unfold items
  rw [atLeft,atRight]

lemma items_right (atLeft : left.get? "items" = none) (atRight : right.get? "items" = some s) :
    items recur left right path = pure (some s,right.get? "additionalItems") := by
  unfold items
  rw [atLeft,atRight]

lemma items_tuples (atLeft : left.get? "items" = some (.arr ls)) (atRight : right.get? "items" = some (.arr rs)) :
    items recur left right path = do
      let merged ← tuples recur ((left.get? "additionalItems").getD (.bool true))
        ((right.get? "additionalItems").getD (.bool true)) (joinPath path "items") 0 ls rs
      return (some (.arr merged),← optional recur (left.get? "additionalItems") (right.get? "additionalItems")
        (joinPath path "additionalItems")) := by
    unfold items
    rw [atLeft,atRight]

lemma further_getD (combinable : Combinable fs) : ((fs.get? "additionalItems").getD (.bool true)).isCombinable := by
  cases found : fs.get? "additionalItems" with
  | none => exact isCombinable_bool true
  | some s => exact further_combinable combinable s found

-- Only one side has `items`, and with it decides on further ones.
lemma echoed_oneSided (combinable : Combinable fs) (good : unites Json.isCombinable "items" s) :
    Echoed GoodEntries SameEntries (pure (some s,fs.get? "additionalItems")) (pure (some s,fs.get? "additionalItems")) := by
  refine .pure ⟨fun m same => Option.some.inj same ▸ good,fun m found => combinable.each _ m found⟩ ⟨.some (.refl _ _),?_⟩
  cases fs.get? "additionalItems" with
  | none => exact .none
  | some s => exact .some (.refl _ _)

-- A tuple beside what becomes of further items.
lemma echoed_listed (first : Echoed (fun made => ∀ m ∈ made, m.isCombinable) (Forall₂ SameForm) x y)
    (second : Echoed (fun made => ∀ m, made = some m → m.isCombinable) (Option.Rel SameForm) u v) :
    Echoed GoodEntries SameEntries (do let merged ← x; return (some (.arr merged),← u))
      (do let merged ← y; return (some (.arr merged),← v)) :=
  first.pair second (fun _ _ each further => ⟨fun _ same => Option.some.inj same ▸ unites_tuple each,
    fun m found => unites_further (further m found)⟩) fun _ _ _ _ same further =>
      ⟨.some (congruent_tuple same),congruent_further further⟩

lemma echoed_items (swaps : Swaps recur) (lGood : Combinable left) (rGood : Combinable right) :
    Echoed GoodEntries SameEntries (items recur left right path) (items recur right left path) := by
  have lMore := further_combinable lGood
  have rMore := further_combinable rGood
  have lItems := items_combinable lGood
  have rItems := items_combinable rGood
  generalize atLeft : left.get? "items" = l at lItems
  generalize atRight : right.get? "items" = r at rItems
  cases lItems with
  | none =>
    cases rItems with
    | none =>
      rw [items_none atLeft atRight,items_none atRight atLeft]
      exact (echoed_optional swaps lMore rMore).map (fun _ further => ⟨nofun,
        fun m found => unites_further (further m found)⟩) fun _ _ further => ⟨.none,congruent_further further⟩
    | tuple rs rights =>
      rw [items_right atLeft atRight,items_left atRight atLeft]
      exact echoed_oneSided rGood (unites_tuple rights)
    | single s good =>
      rw [items_right atLeft atRight,items_left atRight atLeft]
      exact echoed_oneSided rGood (unites_single good)
  | tuple ls lefts =>
    cases rItems with
    | none =>
      rw [items_left atLeft atRight,items_right atRight atLeft]
      exact echoed_oneSided lGood (unites_tuple lefts)
    | tuple rs rights =>
      rw [items_tuples atLeft atRight,items_tuples atRight atLeft]
      exact echoed_listed (echoed_tuples swaps (further_getD lGood) (further_getD rGood) lefts rights 0)
        (echoed_optional swaps lMore rMore)
    | single s good =>
      -- the single schema is merged into the tuple from the same side in both orders
      rw [items_tupleSingle atLeft atRight (isArr_of_isCombinable good),
        items_singleTuple atRight atLeft (isArr_of_isCombinable good)]
      exact echoed_listed (.self (yields_tuple swaps good lefts 0) fun _ => forall₂_same.mpr fun _ _ => rfl)
        (echoed_optional swaps lMore (only_combinable good))
  | single s good =>
    cases rItems with
    | none =>
      rw [items_left atLeft atRight,items_right atRight atLeft]
      exact echoed_oneSided lGood (unites_single good)
    | tuple rs rights =>
      rw [items_singleTuple atLeft atRight (isArr_of_isCombinable good),
        items_tupleSingle atRight atLeft (isArr_of_isCombinable good)]
      exact echoed_listed (.self (yields_tuple swaps good rights 0) fun _ => forall₂_same.mpr fun _ _ => rfl)
        (echoed_optional swaps (only_combinable good) rMore)
    | single t fine =>
      rw [items_singles atLeft atRight (isArr_of_isCombinable good) (isArr_of_isCombinable fine),
        items_singles atRight atLeft (isArr_of_isCombinable fine) (isArr_of_isCombinable good)]
      exact (swaps.relate good fine _ fun _ _ => congruent_single).map (fun _ made =>
        ⟨fun _ same => Option.some.inj same ▸ unites_single made,nofun⟩) fun _ _ same =>
          ⟨.some same,.none⟩

-- Congruent fields pass together, and what they are afterwards has one form.
lemma yields_checked (combinable : Combinable fs) :
    Yields (fun _ : Unit => True) (checked fs path) fun made => Combinable made ∧
      ∀ others, Combinable others → CongruentFields fs others →
        Settles (fun _ : Unit => True) False (checked others path) fun other => SameForm (.obj made) (.obj other) := by
  refine .bind (.ofAny fun out made => made) fun out made => ?_
  refine .bind (.ofAny fun _ passed => passed) fun _ passed => .pure ?_
  have outGood := (reconciled_of_ok made).combinable combinable
  refine ⟨outGood.fold,fun others othersGood congruent => ?_⟩
  obtain ⟨other,otherMade,same⟩ := congruent.reconciled combinable othersGood made
  have otherGood := (reconciled_of_ok otherMade).combinable othersGood
  have folded := same.fold outGood.sorted otherGood.sorted
  unfold checked
  rw [otherMade]
  refine .bind (.pure rfl) fun again is => ?_
  rw [← is,folded.checkBounds passed]
  exact .pure (form_congruent outGood.fold.sorted otherGood.fold.sorted folded)
section Assembled
variable {rule : Rule} {shared : Fields} {extra : String → List Json} {made : Option Json} {es : Option Json × Option Json}
lemma combinable_assembled (drawn : Gathered rule false left right [] shared extra) (lGood : Combinable left)
    (rGood : Combinable right) (fit : ∀ key l r m here, rule key l r m here → United key (m,here))
    (props : ∀ m, made = some m → unites Json.isCombinable "properties" m) (good : GoodEntries es) :
    Combinable (assembled false left right shared made es.1 es.2) := by
  refine ⟨drawn.sorted_assembled,fun key s found => ?_⟩
  cases away : setAside false key with
  | true =>
    rw [drawn.get?_aside rGood.sorted away] at found
    split at found
    · next is => subst is; exact props s found
    split at found
    · next is => subst is; exact good.1 s found
    split at found
    · next is => subst is; exact good.2 s found
    · exact lGood.each key s found
  | false =>
    rcases drawn.sources rGood.sorted away found with atL | atR | ⟨l,r,_,_,ruled⟩
    · exact lGood.each key s atL
    · exact rGood.each key s atR
    · exact (fit key l r s _ ruled).2

def Forth (recur : Step (StateM Unit)) (path : String) : Rule := fun key l r m here =>
  United key (m,here) ∧ Settles (fun _ => True) False (keyword recur key r l path) (SameUnited key (m,here))

def Back (out : Fields) : Rule := fun key _ _ n here =>
  United key (n,here) ∧ ∀ m, out.get? key = some m → Congruent key m n

lemma congruent_assembled {more : String → List Json} (here : Gathered rule false left right [] shared extra)
    (there : Gathered (Back (assembled false left right shared made es.1 es.2)) false right left [] other more)
    (lSorted : left.Sorted) (rSorted : right.Sorted)
    (props : Option.Rel (Congruent "properties") made made') (same : SameEntries es entries') :
    CongruentFields (assembled false left right shared made es.1 es.2)
      (assembled false right left other made' entries'.1 entries'.2) := by
  intro key
  cases away : setAside false key with
  | true =>
    rw [here.get?_aside rSorted away,there.get?_aside lSorted away]
    rcases setAside_iff.mp away with special | ⟨impossible,_⟩
    · fin_cases special
      · exact props
      · exact same.1
      · exact same.2
    · cases impossible
  | false =>
    refine (here.stems rSorted away made es.1 es.2).related (.refl key)
      (there.stems lSorted away made' entries'.1 entries'.2) ?_
    intro l r m n _ _ found _ _ ruled
    exact ruled.2 m found

-- The keywords of the other order.
lemma settles_echoedKeywords (swaps : Swaps recur) (lGood : Combinable left) (rGood : Combinable right)
    (here : Gathered (Forth recur path) false left right [] shared extra) (made : Option Json)
    (es : Option Json × Option Json) :
    Settles (fun _ => True) False (sharedKeywords recur false right left path []) fun others =>
      others.2 = [] ∧ ∃ more, Gathered (Back (assembled false left right shared made es.1 es.2)) false right left []
        others.1 more := by
  refine (runs_sharedKeywords (Back (assembled false left right shared made es.1 es.2)) rGood.sorted path
    (fun key r l atR atL inPlace => ?_) []).mono ?_
  · have stems := here.stems rGood.sorted inPlace made es.1 es.2
    unfold Back
    rw [atL,atR] at stems
    generalize (assembled false left right shared made es.1 es.2).get? key = out at stems
    cases stems with
    | both _ _ m ruled =>
      have united : Yields (fun _ => True) (keyword recur key r l path) (United key) :=
        (echoed_keyword swaps (rGood.each key r atR) (lGood.each key l atL) (rGood.exact atR)
          (lGood.exact atL) inPlace).yields
      refine (ruled.2.and united).mono fun other facts => ⟨facts.2,fun m' same => ?_⟩
      cases same
      exact facts.1.2
  · rintro others ⟨more,spent,there⟩
    exact ⟨spent.trans (there.spareless fun _ _ _ _ _ ruled => ruled.1.1),more,there⟩
end Assembled
lemma echoed_objects (swaps : Swaps recur) (lGood : Combinable left) (rGood : Combinable right) :
    Echoed Combinable (fun m n => SameForm (.obj m) (.obj n)) (objects lookup recur left right path)
      (objects lookup recur right left path) := by
  rw [objects_eq (lGood.absent (by decide)),objects_eq (rGood.absent (by decide))]
  refine .bind (runs_sharedKeywords (Forth recur path) lGood.sorted path (fun key l r atLeft atRight inPlace =>
    (echoed_keyword swaps (lGood.each key l atLeft) (rGood.each key r atRight) (lGood.exact atLeft)
      (rGood.exact atRight) inPlace)) []).yields ?_
  rintro ⟨shared,residual⟩ ⟨extra,spent,here⟩
  obtain rfl : residual = [] := spent.trans (here.spareless fun _ _ _ _ _ ruled => ruled.1.1)
  refine .bind (echoed_properties swaps lGood rGood) fun made ⟨good,follows⟩ => ?_
  refine .bind (echoed_items swaps lGood rGood) fun entries ⟨fine,listed⟩ => ?_
  have combinable := combinable_assembled here lGood rGood (fun _ _ _ _ _ ruled => ruled.1) good fine
  refine .mono (yields_checked combinable) fun out ⟨outGood,checks⟩ => ⟨outGood,?_⟩
  -- the run in the other order, with the first one at hand
  refine .bind (settles_echoedKeywords swaps lGood rGood here made entries) ?_
  rintro ⟨other,residual⟩ ⟨none,more,there⟩
  obtain rfl : residual = [] := none
  refine .bind (follows.and (echoed_properties swaps rGood lGood).yields) fun made' ⟨same,good'⟩ => ?_
  refine .bind (listed.and (echoed_items swaps rGood lGood).yields) fun entries' ⟨alike,fine'⟩ => ?_
  exact checks _ (combinable_assembled there rGood lGood (fun _ _ _ _ _ ruled => ruled.1) good' fine')
    (congruent_assembled here there lGood.sorted rGood.sorted same alike)

lemma yields_folded (swaps : Swaps recur) {s : Json} (good : s.isCombinable) :
    Yields (fun _ => True) (foldAllOf recur s path) fun m => m.isCombinable := by
  rcases isCombinable_cases good with ⟨b,rfl⟩ | ⟨fs,rfl,combinable⟩
  · exact .pure good
  unfold foldAllOf
  cases found : fs.get? "allOf" with
  | none =>
    dsimp only
    rw [found]
    exact .pure good
  | some list =>
    obtain ⟨es,rfl,each⟩ := (formed_list rfl).mp (combinable.formed found (by decide))
    dsimp only
    rw [found]
    exact yields_mergedInto swaps each (isCombinable_obj.mpr (combinable.erase "allOf"))

lemma swaps_step (swaps : Swaps recur) : Swaps (step lookup recur) := by
  intro a b path lGood rGood
  refine Echoed.crossed (yields_folded swaps lGood) (yields_folded swaps rGood) fun a b lGood rGood => ?_
  rcases isCombinable_cases lGood with ⟨l,rfl⟩ | ⟨left,rfl,lFields⟩
  · rcases isCombinable_cases rGood with ⟨r,rfl⟩ | ⟨right,rfl,_⟩
    · cases l with
      | false => cases r <;> exact .pure (isCombinable_bool false) rfl
      | true => cases r <;> exact .pure (isCombinable_bool _) rfl
    cases l with
    | false => exact .pure (isCombinable_bool false) rfl
    | true => exact .pure rGood rfl
  · rcases isCombinable_cases rGood with ⟨r,rfl⟩ | ⟨right,rfl,rFields⟩
    · cases r with
      | false => exact .pure (isCombinable_bool false) rfl
      | true => exact .pure lGood rfl
    · exact (echoed_objects swaps lFields rFields).map (fun _ good => isCombinable_obj.mpr good) fun _ _ same => same

lemma swaps_mergeWithin (lookup : Lookup (StateM Unit)) (fuel : Nat) : Swaps (mergeWithin lookup fuel) := by
  induction fuel with
  | zero => exact fun _ _ _ _ _ => .outOfFuel trivial
  | succ fuel ih => exact swaps_step ih

def SameResult : Except Conflict Json → Except Conflict Json → Prop
  | .ok m, .ok n => SameForm m n
  | .error _, .error _ => True
  | _, _ => False

lemma merge_swapped (lookup : Lookup (StateM Unit)) (left : a.isCombinable)
    (right : b.isCombinable) : SameResult ((merge lookup a b).run ()).1 ((merge lookup b a).run ()).1 := by
  have ord : ∀ {s : Json}, s.isCombinable → s.isOrderly (fun _ => true) := fun good =>
    Json.orderly_mono (fun _ _ => rfl) (Json.orderly_of_exact (exact_combinable good))
  obtain ⟨made,_,forth⟩ := answered_mergeWithin lookup (ord left) (ord right) "" ()
  obtain ⟨other,_,back⟩ := answered_mergeWithin lookup (ord right) (ord left) "" ()
  have merged : ((merge lookup a b).run ()).1 = made := congrArg Prod.fst (run_mergeOr _ (forth _ (budget_enough a b)))
  have exchanged : ((merge lookup b a).run ()).1 = other := congrArg Prod.fst (run_mergeOr _ (back _ (budget_enough b a)))
  rw [merged,exchanged]
  have enough := le_refl (a.heft + b.heft)
  have here := congrArg Prod.fst (forth _ enough)
  have there := congrArg Prod.fst (back _ (le_of_eq (add_comm b.heft a.heft)))
  have swaps := swaps_mergeWithin lookup (a.heft + b.heft)
  cases made with
  | ok m =>
    have first := (swaps a b "" left right () trivial).2
    rw [here] at first
    have second := (first.2 () trivial).2
    rw [there] at second
    cases other with
    | ok n => exact second
    | error c => exact second.elim
  | error c =>
    cases other with
    | ok n =>
      have first := (swaps b a "" right left () trivial).2
      rw [there] at first
      have second := (first.2 () trivial).2
      rw [here] at second
      exact second.elim
    | error d => trivial

lemma merge_forgetful (honest : memory.Honest) (a b : Json) :
    ((merge Memory.matcher a b : StateM Memory _).run memory).1 = ((merge Memory.compiled a b).run ()).1 :=
  ((Simulation.forgetful Memory.Honest).merge Memory.forgetful_matcher a b memory honest).2

theorem merge_commutes (memory memory' : Memory) (honest : memory.Honest) (honest' : memory'.Honest) (a b : Json)
    (left : a.isSchemaWith combinable hasSmallBounds = true) (right : b.isSchemaWith combinable hasSmallBounds = true) :
    (∃ c d, ((merge Memory.matcher a b : StateM Memory _).run memory).1 = .error c ∧
        ((merge Memory.matcher b a : StateM Memory _).run memory').1 = .error d) ∨
      ∃ m n, ((merge Memory.matcher a b : StateM Memory _).run memory).1 = .ok m ∧
        ((merge Memory.matcher b a : StateM Memory _).run memory').1 = .ok n ∧ compareSchemas m n = .eq := by
  rw [merge_forgetful honest,merge_forgetful honest']
  have same := merge_swapped Memory.compiled (combinable_of_schema left) (combinable_of_schema right)
  generalize ((merge Memory.compiled a b).run ()).1 = made at same ⊢
  generalize ((merge Memory.compiled b a).run ()).1 = other at same ⊢
  cases made with
  | ok m =>
    cases other with
    | ok n => exact .inr ⟨m,n,rfl,rfl,compare_eq_iff.mpr same⟩
    | error d => exact same.elim
  | error c =>
    cases other with
    | ok n => exact same.elim
    | error d => exact .inl ⟨c,d,rfl,rfl⟩

def listedParcel : Json :=
  .obj [("items",.arr [.single "type" (.str "integer")]),("not",.single "const" (.digit 3)),
    ("patternProperties",.obj [("^x",.single "minimum" (.digit 1))]),
    ("properties",.obj [("a",.single "type" (.strings ["string","integer"]))]),("required",.strings ["a"]),
    ("type",.strings ["object","array"])]

def labelledParcel : Json :=
  .obj [("additionalProperties",.single "minimum" (.digit 2)),("allOf",.arr [.single "required" (.strings ["xa"])]),
    ("items",.single "maximum" (.digit 5)),("not",.single "const" (.digit 4)),
    ("properties",.obj [("xa",.single "title" (.str "first"))]),("type",.strings ["array","object"])]

def bothParcels (refused : List (Fin 10)) (ns types : List String) : Json :=
  .obj [("additionalItems",.single "maximum" (.digit 5)),("additionalProperties",.single "minimum" (.digit 2)),
    ("items",.arr [.obj [("maximum",.digit 5),("type",.str "integer")]]),
    ("not",.single "anyOf" (.arr (refused.map fun n => .single "const" (.digit n)))),
    ("patternProperties",.obj [("^x",.single "minimum" (.digit 1))]),
    ("properties",.obj [("a",.obj [("minimum",.digit 2),("type",.strings ["string","integer"])]),
      ("xa",.obj [("minimum",.digit 1),("title",.str "first")])]),
    ("required",.strings ns),("type",.strings types)]

theorem merge_commutes_parcels : ((merge Memory.matcher listedParcel labelledParcel : StateM Memory _).run {}).1 =
      .ok (bothParcels [3,4] ["a","xa"] ["object","array"]) ∧
    ((merge Memory.matcher labelledParcel listedParcel : StateM Memory _).run {}).1 =
      .ok (bothParcels [4,3] ["xa","a"] ["array","object"]) ∧ compareSchemas (bothParcels [3,4] ["a","xa"] ["object","array"])
      (bothParcels [4,3] ["xa","a"] ["array","object"]) = .eq := by
  have forth : ((merge Memory.matcher listedParcel labelledParcel : StateM Memory _).run {}).1 =
      .ok (bothParcels [3,4] ["a","xa"] ["object","array"]) := rfl
  have back : ((merge Memory.matcher labelledParcel listedParcel : StateM Memory _).run {}).1 =
      .ok (bothParcels [4,3] ["xa","a"] ["array","object"]) := rfl
  have empty : Memory.Honest {} := fun _ _ found => nomatch found
  rcases merge_commutes {} {} empty empty listedParcel labelledParcel (by decide +kernel) (by decide +kernel) with
    ⟨c,_,refused,_⟩ | ⟨m,n,made,other,same⟩
  · exact nomatch forth.symm.trans refused
  · cases forth.symm.trans made
    cases back.symm.trans other
    exact ⟨forth,back,same⟩
end Intersection
end SchemaOrder
