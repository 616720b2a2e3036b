import SchemaOrder.Proofs.Intersection.Rules
namespace SchemaOrder.Intersection
open Acceptance Schemas List Fields Vocabulary Option Attempt
variable {ts : Texts} {vocab : Vocabulary} {σ : Type} {inv : σ → Prop} {recur : Step (StateM σ)}
  {lookup : Lookup (StateM σ)} {left right out : Fields} {made : List Json} {length : Nat} {l r : Nat → Json}

-- Where a schema of either side governs a member or an entry, a narrower schema of the intersection governs it.
lemma constraints_plain (plain : owner.get? "patternProperties" = none) (name : String) :
    constraints lookup owner name = pure (owner.get? "additionalProperties").toList := by
  unfold constraints
  rw [plain]
  rfl

lemma yields_constrainUndeclared (meeting : Meeting ts vocab inv recur)
    (formed : Formed vocab owner) (plain : owner.get? "patternProperties" = none)
    (good : schema.isSchema vocab) (name path : String) :
    Yields inv (constrainUndeclared lookup recur schema owner name path) fun m => m.isSchema vocab ∧ Below ts m schema ∧
        ∀ extra, owner.get? "additionalProperties" = some extra → Below ts m extra := by
  unfold constrainUndeclared
  rw [constraints_plain plain]
  refine .bind (.ask (.pure (Eq.refl _))) fun governing is => ?_
  subst is
  cases found : owner.get? "additionalProperties" with
  | none => exact .pure ⟨good,Below.refl ts schema,nofun⟩
  | some extra =>
    have extraGood : extra.isSchema vocab := formed.formed _ _ found
    refine .bind (meeting schema extra path good extraGood) fun m meets => .pure ?_
    exact ⟨meets.schema,meets.left,fun _ same => some.inj same ▸ meets.right⟩

-- What no property can satisfy is forbidden, unless it is wanted.
lemma runs_settleProperty {first refuses tires : Prop} {post : Json → Prop}
    (runs : Runs inv first tires x post) (empty : first → post (.bool false))
    (needed : first → name ∈ wanted → refuses) : Runs inv refuses tires (settleProperty wanted name x) post := by
  refine .orElse runs fun refused c => ?_
  split
  · next asked => exact .conflict (needed refused (contains_iff_mem.mp asked))
  · exact .pure (empty refused)

-- What holds of every schema that an item, a tuple or a pair of tuples is merged into.
section Walks
variable {refuses tires : Prop} {post : Json → Prop}
lemma runs_optional (both : ∀ l r, a = some l → b = some r → Runs inv refuses tires (recur l r path) post)
    (onLeft : ∀ s, a = some s → post s) (onRight : ∀ s, b = some s → post s) :
    Runs inv refuses tires (optional recur a b path) fun made => ∀ m, made = some m → post m := by
  unfold optional
  split
  · exact .bind (both _ _ rfl rfl) fun _ holds => .pure fun _ same => some.inj same ▸ holds
  · exact .pure onLeft
  · exact .pure onRight
  · exact .pure nofun

lemma runs_cons {rest : Attempt (StateM σ) (List Json)} (first : Runs inv refuses tires x post)
    (later : Runs inv refuses tires rest fun made => ∀ m ∈ made, post m) :
    Runs inv refuses tires (do let first ← x; return first :: (← rest)) fun made => ∀ m ∈ made, post m :=
  .bind first fun _ holds => .bind later fun _ each => .pure (forall_mem_cons.mpr ⟨holds,each⟩)

lemma runs_tupleWith (each : ∀ t ∈ tuple, ∀ path, Runs inv refuses tires (recur t single path) post) (i : Nat) :
    Runs inv refuses tires (tupleWith recur single path i tuple) fun made => ∀ m ∈ made, post m := by
  induction tuple generalizing i with
  | nil => exact .pure nofun
  | cons entry rest ih => exact runs_cons (each entry mem_cons_self _) (ih (fun t later => each t (.tail _ later)) _)

lemma runs_tuples (onLeft : ∀ l ∈ ls, ∀ path, Runs inv refuses tires (recur l rMore path) post)
    (onRight : ∀ r ∈ rs, ∀ path, Runs inv refuses tires (recur lMore r path) post)
    (both : ∀ l ∈ ls, ∀ r ∈ rs, ∀ path, Runs inv refuses tires (recur l r path) post) (i : Nat) :
    Runs inv refuses tires (tuples recur lMore rMore path i ls rs) fun made => ∀ m ∈ made, post m := by
  induction i, ls, rs using tuples.induct with
  | case1 i => rw [tuples]; exact .pure nofun
  | case2 i l ls ih =>
    rw [tuples]
    exact runs_cons (onLeft l mem_cons_self _) (ih (fun t later => onLeft t (.tail _ later)) onRight nofun)
  | case3 i r rs ih =>
    rw [tuples]
    exact runs_cons (onRight r mem_cons_self _) (ih onLeft (fun t later => onRight t (.tail _ later)) nofun)
  | case4 i l ls r rs ih =>
    rw [tuples]
    exact runs_cons (both l mem_cons_self r mem_cons_self _) (ih (fun t later => onLeft t (.tail _ later))
      (fun t later => onRight t (.tail _ later)) fun t inside u later => both t (.tail _ inside) u (.tail _ later))

-- What a side says about entries. The entries of a tuple are told from the rest.
structure Itemed (one part : Json → Prop) (fs : Fields) : Prop where
  single : ∀ s, fs.get? "items" = some s → one s
  further : ∀ s, fs.get? "additionalItems" = some s → one s
  tuple : ∀ list, fs.get? "items" = some (.arr list) → one (.bool true) ∧ ∀ t ∈ list, part t

lemma Itemed.more (itemed : Itemed one part fs) (found : fs.get? "items" = some (.arr list)) :
    one ((fs.get? "additionalItems").getD (.bool true)) := by
  cases rest : fs.get? "additionalItems" with
  | none => exact (itemed.tuple list found).1
  | some s => exact itemed.further s rest

lemma runs_items {lOne lPart rOne rPart : Json → Prop} (strict : Json → Prop) (lefts : Itemed lOne lPart left) (rights : Itemed rOne rPart right)
    (ones : ∀ a b path, lOne a → rOne b → Runs inv refuses tires (recur a b path) post)
    (parts : ∀ a b path, lPart a ∧ rOne b ∨ lOne a ∧ rPart b ∨ lPart a ∧ rPart b ∨ rPart a ∧ lOne b →
      Runs inv refuses tires (recur a b path) strict)
    (kept : ∀ s, lOne s ∨ rOne s → post s) (listed : ∀ s list, lOne s → (∀ t ∈ list, strict t) → post (.arr list)) :
    Runs inv refuses tires (items recur left right path) fun made =>
      (∀ m, made.1 = some m → post m) ∧ ∀ m, made.2 = some m → post m := by
  have met {a b path} (onLeft : ∀ s, a = some s → lOne s) (onRight : ∀ s, b = some s → rOne s) :
      Runs inv refuses tires (optional recur a b path) fun made => ∀ m, made = some m → post m :=
    runs_optional (fun l r atLeft atRight => ones l r _ (onLeft l atLeft) (onRight r atRight))
      (fun s same => kept s (.inl (onLeft s same))) fun s same => kept s (.inr (onRight s same))
  have only {p : Json → Prop} {s} (holds : p s) m (same : some s = some m) : p m := some.inj same ▸ holds
  unfold items
  split
  · exact .bind (met lefts.further rights.further) fun made holds => .pure ⟨nofun,holds⟩
  · next l found _ => exact .pure ⟨only (kept l (.inl (lefts.single l found))),fun s same => kept s (.inl (lefts.further s same))⟩
  · next r _ found => exact .pure ⟨only (kept r (.inr (rights.single r found))),fun s same => kept s (.inr (rights.further s same))⟩
  · next ls rs atLeft atRight =>
    have each := (lefts.tuple ls atLeft).2
    have others := (rights.tuple rs atRight).2
    refine .bind (runs_tuples (fun l inside _ => parts _ _ _ (.inl ⟨each l inside,rights.more atRight⟩))
      (fun r inside _ => parts _ _ _ (.inr (.inl ⟨lefts.more atLeft,others r inside⟩)))
      (fun l inside r within _ => parts _ _ _ (.inr (.inr (.inl ⟨each l inside,others r within⟩)))) 0) fun made holds => ?_
    exact .bind (met lefts.further rights.further) fun rest further =>
      .pure ⟨only (listed _ made (lefts.single _ atLeft) holds),further⟩
  · next tuple one _ atLeft atRight =>
    have right := rights.single one atRight
    refine .bind (runs_tupleWith (fun t inside _ => parts _ _ _ (.inl ⟨(lefts.tuple tuple atLeft).2 t inside,right⟩)) 0)
      fun made holds => ?_
    exact .bind (met lefts.further (only right)) fun rest further =>
      .pure ⟨only (listed _ made (lefts.single _ atLeft) holds),further⟩
  · next one tuple _ atLeft atRight =>
    have left := lefts.single one atLeft
    refine .bind (runs_tupleWith (fun t inside _ =>
      parts _ _ _ (.inr (.inr (.inr ⟨(rights.tuple tuple atRight).2 t inside,left⟩)))) 0) fun made holds => ?_
    exact .bind (met (only left) rights.further) fun rest further => .pure ⟨only (listed _ made left holds),further⟩
  · next l r _ _ _ atLeft atRight =>
    exact .bind (ones l r _ (lefts.single l atLeft) (rights.single r atRight)) fun m holds => .pure ⟨only holds,nofun⟩

lemma runs_mergedInto {es : List Json} (first : post start)
    (each : ∀ m, ∀ c ∈ es, post m → Runs inv refuses tires (recur m c path) post) :
    Runs inv refuses tires (es.foldlM (fun acc entry => recur acc entry path) start) post := by
  refine .mono (.foldlM (motive := fun rest m => (∀ c ∈ rest, c ∈ es) ∧ post m) ?_ es start
    ⟨fun _ inside => inside,first⟩) fun _ holds => holds.2
  rintro c rest m ⟨toCome,soFar⟩
  exact (each m c (toCome c (.head _)) soFar).mono fun _ holds => ⟨fun e inside => toCome e (.tail _ inside),holds⟩

-- Looking up patterns keeps to the invariant.
abbrev Lasting (inv : σ → Prop) (lookup : Lookup (StateM σ)) : Prop :=
  ∀ pat, Ensures inv (lookup pat) fun _ => True

lemma ensures_eachConstraint (steady : Lasting inv lookup)
    (patterns : ∀ entry ∈ ((owner.get? "patternProperties").bind Json.fields?).getD [], post entry.2)
    (further : ∀ s, owner.get? "additionalProperties" = some s → post s) (name : String) :
    Ensures inv (constraints lookup owner name) fun governing => ∀ c ∈ governing, post c := by
  refine .bind (.filterM (fun _ => True) (fun _ => True) (fun entry => ?_) _) ?_
  · refine .bind (steady entry.1) fun found _ => ?_
    cases found <;> exact .pure (by simp)
  rintro governing ⟨within,_⟩
  split
  · exact .pure fun c mem => further c (mem_toList.mp mem)
  refine .pure fun c mem => ?_
  obtain ⟨entry,inside,rfl⟩ := mem_map.mp mem
  exact patterns entry (within entry inside).1
end Walks
lemma declared_none (formed : Formed vocab left)
    (none : (left.get? "properties").bind Json.fields? = none) : left.get? "properties" = Option.none := by
  cases found : left.get? "properties" with
  | none => rfl
  | some map =>
    obtain ⟨es,rfl,_⟩ := (formed_map rfl).mp (formed.formed _ _ found)
    rw [found] at none
    cases none

-- The properties of an intersection: those that the left side has, and those that only the right side has.
structure Declarations (fromLeft fromRight : String → Json → Json → Prop) (left right out : Fields) : Prop where
  named : left.has "properties" ∨ right.has "properties"
  sorted : out.Sorted
  onLeft : ∀ name l, (declared left).get? name = some l → ∃ m, out.get? name = some m ∧ fromLeft name l m
  onRight : ∀ name r, (declared left).get? name = none → (declared right).get? name = some r →
    ∃ m, out.get? name = some m ∧ fromRight name r m
  neither : ∀ name, (declared left).get? name = none → (declared right).get? name = none → out.get? name = none

lemma Declarations.undeclared {fromLeft fromRight : String → Json → Json → Prop}
    (declarations : Declarations fromLeft fromRight left right out) (name : String) :
    out.get? name = none ↔ (declared left).get? name = none ∧ (declared right).get? name = none := by
  constructor
  · intro absent
    have noLeft : (declared left).get? name = none := by
      cases atL : (declared left).get? name with
      | none => rfl
      | some l =>
        obtain ⟨m,at_,_⟩ := declarations.onLeft name l atL
        rw [absent] at at_
        cases at_
    refine ⟨noLeft,?_⟩
    cases atR : (declared right).get? name with
    | none => rfl
    | some r =>
      obtain ⟨m,at_,_⟩ := declarations.onRight name r noLeft atR
      rw [absent] at at_
      cases at_
  · exact fun absent => declarations.neither name absent.1 absent.2

lemma runs_declarations {refuses tires : Prop} (fromLeft fromRight : String → Json → Json → Prop)
    (lSorted : (declared left).Sorted) (rSorted : (declared right).Sorted) (path : String)
    (both : ∀ name l r, (declared left).get? name = some l → (declared right).get? name = some r →
      Runs inv refuses tires (settleProperty (required left ++ required right) name
        (recur l r (joinPath (joinPath path "properties") name))) (fromLeft name l))
    (lOnly : ∀ name l, (declared left).get? name = some l → (declared right).get? name = none →
      Runs inv refuses tires (settleProperty (required left ++ required right) name
        (constrainUndeclared lookup recur l right name (joinPath (joinPath path "properties") name))) (fromLeft name l))
    (rOnly : ∀ name r, (declared left).get? name = none → (declared right).get? name = some r →
      Runs inv refuses tires (settleProperty (required left ++ required right) name
        (constrainUndeclared lookup recur r left name (joinPath (joinPath path "properties") name))) (fromRight name r)) :
    Runs inv refuses tires (properties lookup recur left right path) fun made =>
      (made = none ∧ (left.get? "properties").bind Json.fields? = none ∧ (right.get? "properties").bind Json.fields? = none) ∨
        ∃ out, made = some (.obj out) ∧ Declarations fromLeft fromRight left right out := by
  unfold properties
  dsimp only
  split
  · next noLeft noRight => exact .pure (.inl ⟨rfl,noLeft,noRight⟩)
  next notNeither =>
  have named : left.has "properties" ∨ right.has "properties" := by
    unfold Fields.has
    cases atL : left.get? "properties" with
    | some s => exact .inl rfl
    | none =>
      cases atR : right.get? "properties" with
      | some s => exact .inr rfl
      | none => exact (notNeither (by rw [atL]; rfl) (by rw [atR]; rfl)).elim
  refine .bind (runs_foldPut (fun _ => False) fromLeft lSorted ?_ [] sorted_nil) ?_
  · intro out name l found
    refine .bind (show Runs inv refuses tires _ (fromLeft name l) from ?_) fun m fit =>
      .pure (.inr ⟨id,m,rfl,fit⟩)
    rw [← declared]
    cases other : (declared right).get? name with
    | some r => exact both name l r found other
    | none => exact lOnly name l found other
  rintro out ⟨outSorted,first⟩
  refine .bind (runs_foldPut (fun name => (declared left).has name) fromRight rSorted ?_ out outSorted) ?_
  · intro out name r found
    split
    · next held => exact .pure (.inl ⟨held,rfl⟩)
    next absent =>
    have missing : (declared left).get? name = none := not_isSome_iff_eq_none.mp absent
    exact .bind (rOnly name r missing found) fun m fit =>
      .pure (.inr ⟨absent,m,rfl,fit⟩)
  rintro all ⟨allSorted,second⟩
  refine .pure (.inr ⟨all,rfl,named,allSorted,?_,?_,?_⟩)
  · intro name l found
    obtain ⟨m,at_,fit⟩ := (first name).2 l found id
    exact ⟨m,((second name).1 (.inr (has_iff.mpr ⟨l,found⟩))).trans at_,fit⟩
  · intro name r missing found
    exact (second name).2 r found (not_isSome_iff_eq_none.mpr missing)
  · intro name noLeft noRight
    exact ((second name).1 (.inl noRight)).trans ((first name).1 (.inl noLeft))

lemma Declarations.each {post : Json → Prop} (declarations : Declarations (fun _ _ => post) (fun _ _ => post) left right out)
    (found : out.get? name = some m) : post m := by
  cases atL : (declared left).get? name with
  | some l =>
    obtain ⟨_,at_,holds⟩ := declarations.onLeft name l atL
    exact some.inj (at_.symm.trans found) ▸ holds
  | none =>
    cases atR : (declared right).get? name with
    | some r =>
      obtain ⟨_,at_,holds⟩ := declarations.onRight name r atL atR
      exact some.inj (at_.symm.trans found) ▸ holds
    | none =>
      rw [declarations.neither name atL atR] at found
      cases found

-- What all properties of an intersection have in common, if a forbidden one has it too.
lemma runs_eachProperty {tires : Prop} (post : Json → Prop)
    (lSorted : (declared left).Sorted) (rSorted : (declared right).Sorted)
    (empty : ∀ name s, (declared left).get? name = some s ∨ (declared right).get? name = some s → post (.bool false))
    (both : ∀ name l r, (declared left).get? name = some l → (declared right).get? name = some r →
      ∀ path, Runs inv True tires (recur l r path) post)
    (lOnly : ∀ name l, (declared left).get? name = some l →
      ∀ path, Runs inv True tires (constrainUndeclared lookup recur l right name path) post)
    (rOnly : ∀ name r, (declared right).get? name = some r →
      ∀ path, Runs inv True tires (constrainUndeclared lookup recur r left name path) post) (path : String) :
    Runs inv True tires (properties lookup recur left right path) fun made => ∀ m, made = some m →
      ∃ out : Fields, m = .obj out ∧ out.Sorted ∧ ∀ e ∈ out, post e.2 := by
  have settled {x name s} (held : (declared left).get? name = some s ∨ (declared right).get? name = some s)
      (runs : Runs inv True tires x post) :
      Runs inv True tires (settleProperty (required left ++ required right) name x) post :=
    runs_settleProperty runs (fun _ => empty name s held) fun _ _ => trivial
  refine .mono (runs_declarations (fun _ _ => post) (fun _ _ => post) lSorted rSorted path
    (fun name l r atL atR => settled (.inl atL) (both name l r atL atR _))
    (fun name l atL _ => settled (.inl atL) (lOnly name l atL _))
    fun name r _ atR => settled (.inr atR) (rOnly name r atR _)) ?_
  rintro made (⟨rfl,_⟩ | ⟨out,rfl,declarations⟩) m same
  · cases same
  cases same
  exact ⟨out,rfl,declarations.sorted,fun e mem => declarations.each (get?_of_mem declarations.sorted mem)⟩

structure Governs (ts : Texts) (vocab : Vocabulary) (left right declaredOut : Fields) : Prop where
  known : vocab.has "properties"
  sorted : declaredOut.Sorted
  schemas : ∀ name m, declaredOut.get? name = some m → m.isSchema vocab
  undeclared : ∀ name, (declared left).get? name = none → (declared right).get? name = none →
    declaredOut.get? name = none
  below : ∀ name, ((declared left).get? name).isSome ∨ ((declared right).get? name).isSome →
    ∃ m, declaredOut.get? name = some m ∧ (∀ s, memberRule? left name = some s → Below ts m s) ∧
      (∀ s, memberRule? right name = some s → Below ts m s)

lemma memberRule?_declared (found : (declared fs).get? name = some s) : memberRule? fs name = some s := by
  unfold memberRule?; rw [found]; rfl

lemma memberRule?_undeclared (missing : (declared fs).get? name = none) :
    memberRule? fs name = fs.get? "additionalProperties" := by
  unfold memberRule?; rw [missing]; rfl

-- A property of one side, narrowed by what the other side says about its name.
def Fits (ts : Texts) (vocab : Vocabulary) (other : Fields) (name : String) (own m : Json) : Prop :=
  m.isSchema vocab ∧ Below ts m own ∧ ∀ s, memberRule? other name = some s → Below ts m s

lemma fits_false (other : Fields) (name : String) (own : Json) : Fits ts vocab other name own (.bool false) :=
  ⟨isSchema_bool false,below_false ts own,fun s _ => below_false ts s⟩

lemma yields_fits_undeclared (closed : vocab.Closed) (meeting : Meeting ts vocab inv recur)
    (formed : Formed vocab other) (good : own.isSchema vocab) (missing : (declared other).get? name = none) (path : String) :
    Yields inv (constrainUndeclared lookup recur own other name path) (Fits ts vocab other name own) := by
  refine (yields_constrainUndeclared meeting formed (formed.ungrouped closed) good name path).mono ?_
  rintro m ⟨schema,below,extra⟩
  refine ⟨schema,below,fun s governs => ?_⟩
  rw [memberRule?_undeclared missing] at governs
  exact extra s governs

lemma governs_of_fits (known : vocab.has "properties")
    (declares : Declarations (Fits ts vocab right) (Fits ts vocab left) left right out) :
    Governs ts vocab left right out := by
  have governed name (held : ((declared left).get? name).isSome ∨ ((declared right).get? name).isSome) :
      ∃ m, out.get? name = some m ∧ m.isSchema vocab ∧ (∀ s, memberRule? left name = some s → Below ts m s) ∧
      (∀ s, memberRule? right name = some s → Below ts m s) := by
    have own {fs} {s m} (found : (declared fs).get? name = some s) (below : Below ts m s) t
        (governs : memberRule? fs name = some t) : Below ts m t := by
      rw [memberRule?_declared found] at governs
      exact some.inj governs ▸ below
    cases atL : (declared left).get? name with
    | some s =>
      obtain ⟨m,at_,schema,below,other⟩ := declares.onLeft name s atL
      exact ⟨m,at_,schema,own atL below,other⟩
    | none =>
      rw [atL] at held
      obtain ⟨s,atR⟩ := isSome_iff_exists.mp (held.resolve_left (by decide))
      obtain ⟨m,at_,schema,below,other⟩ := declares.onRight name s atL atR
      exact ⟨m,at_,schema,other,own atR below⟩
  refine ⟨known,declares.sorted,fun name m found => ?_,declares.neither,fun name held => ?_⟩
  · by_cases held : ((declared left).get? name).isSome ∨ ((declared right).get? name).isSome
    · obtain ⟨m',at_,schema,_⟩ := governed name held
      rw [found] at at_
      exact some.inj at_ ▸ schema
    simp only [not_or,not_isSome_iff_eq_none] at held
    rw [declares.neither name held.1 held.2] at found
    cases found
  · obtain ⟨m,at_,_,below⟩ := governed name held
    exact ⟨m,at_,below⟩

lemma yields_properties (closed : vocab.Closed) (meeting : Meeting ts vocab inv recur)
    (lFormed : Formed vocab left) (rFormed : Formed vocab right) (path : String) :
    Yields inv (properties lookup recur left right path) fun made =>
      (made = none ∧ left.get? "properties" = none ∧ right.get? "properties" = none) ∨
        ∃ out, made = some (.obj out) ∧ Governs ts vocab left right out := by
  obtain ⟨lSorted,lGood⟩ := lFormed.declared
  obtain ⟨rSorted,rGood⟩ := rFormed.declared
  have forbids : ∀ {x} {wanted other name own}, Yields inv x (Fits ts vocab other name own) →
      Yields inv (settleProperty wanted name x) (Fits ts vocab other name own) :=
    fun yields => runs_settleProperty yields (fun _ => fits_false _ _ _) fun _ _ => trivial
  refine (runs_declarations (Fits ts vocab right) (Fits ts vocab left) lSorted rSorted path
    (fun name l r atL atR => forbids ?_) (fun name l atL missing => forbids ?_)
    (fun name r missing atR => forbids ?_)).mono ?_
  · refine (meeting l r _ (lGood name l atL) (rGood name r atR)).mono fun m meets =>
      ⟨meets.schema,meets.left,fun s governs => ?_⟩
    rw [memberRule?_declared atR] at governs
    exact some.inj governs ▸ meets.right
  · exact yields_fits_undeclared closed meeting rFormed (lGood name l atL) missing _
  · exact yields_fits_undeclared closed meeting lFormed (rGood name r atR) missing _
  rintro made (⟨rfl,noLeft,noRight⟩ | ⟨out,rfl,declares⟩)
  · exact .inl ⟨rfl,declared_none lFormed noLeft,declared_none rFormed noRight⟩
  refine .inr ⟨out,rfl,governs_of_fits ?_ declares⟩
  rcases declares.named with onLeft | onRight
  · obtain ⟨s,found⟩ := has_iff.mp onLeft
    exact has_of_allows (lFormed.allowed _ s found)
  obtain ⟨s,found⟩ := has_iff.mp onRight
  exact has_of_allows (rFormed.allowed _ s found)

lemma yields_optional (meeting : Meeting ts vocab inv recur)
    (lGood : ∀ s, a = some s → s.isSchema vocab) (rGood : ∀ s, b = some s → s.isSchema vocab) (path : String) :
    Yields inv (optional recur a b path) fun made => (∀ m, made = some m → m.isSchema vocab) ∧
      ∀ s, a = some s ∨ b = some s → ∃ m, made = some m ∧ Below ts m s := by
  cases a with
  | none =>
    cases b with
    | none => exact .pure ⟨nofun,nofun⟩
    | some r =>
      refine .pure ⟨rGood,fun s found => ⟨s,found.resolve_left nofun,Below.refl ts s⟩⟩
  | some l =>
    cases b with
    | none =>
      refine .pure ⟨lGood,fun s found => ⟨s,found.resolve_right nofun,Below.refl ts s⟩⟩
    | some r =>
      refine .bind (meeting l r path (lGood l rfl) (rGood r rfl)) fun m meets =>
        .pure ⟨fun _ same => some.inj same ▸ meets.schema,fun s found => ⟨m,rfl,?_⟩⟩
      rcases found with same | same <;> cases same
      · exact meets.left
      · exact meets.right

structure Tuple (ts : Texts) (vocab : Vocabulary) (left right : Nat → Json) (length : Nat) (made : List Json) : Prop where
  schemas : ∀ m ∈ made, m.isSchema vocab
  length_eq : made.length = length
  below : ∀ i m, made[i]? = some m → Below ts m (left i) ∧ Below ts m (right i)

lemma Tuple.nil (left right : Nat → Json) : Tuple ts vocab left right 0 [] := ⟨nofun,rfl,nofun⟩

lemma Tuple.cons {m : Json} (first : Meets ts vocab (l 0) (r 0) m)
    (rest : Tuple ts vocab (fun i => l (i + 1)) (fun i => r (i + 1)) length made) :
    Tuple ts vocab l r (length + 1) (m :: made) where
  schemas s mem := by
    rcases mem_cons.mp mem with rfl | later
    · exact first.schema
    · exact rest.schemas s later
  length_eq := congrArg (· + 1) rest.length_eq
  below i s found := by
    cases i with
    | zero =>
      exact some.inj found ▸ ⟨first.left,first.right⟩
    | succ i => exact rest.below i s found

lemma Tuple.swap (tuple : Tuple ts vocab l r length made) : Tuple ts vocab r l length made :=
  ⟨tuple.schemas,tuple.length_eq,fun i m found => (tuple.below i m found).symm⟩

lemma yields_tupleWith (meeting : Meeting ts vocab inv recur) {single : Json}
    (good : single.isSchema vocab) (path : String) (tuple : List Json)
    (goods : ∀ t ∈ tuple, t.isSchema vocab) (index : Nat) (more : Json) : Yields inv (tupleWith recur single path index tuple)
      (Tuple ts vocab (fun i => tuple[i]?.getD more) (fun _ => single) tuple.length) := by
  induction tuple generalizing index with
  | nil => exact .pure (Tuple.nil _ _)
  | cons entry rest ih =>
    refine .bind (meeting entry single _ (goods entry mem_cons_self) good) fun m meets => ?_
    refine .bind (ih (fun t later => goods t (.tail _ later)) (index + 1)) fun made facts => ?_
    exact .pure (Tuple.cons meets facts)

lemma yields_tuples (meeting : Meeting ts vocab inv recur) {lMore rMore : Json}
    (lGood : lMore.isSchema vocab) (rGood : rMore.isSchema vocab) (path : String)
    (ls rs : List Json) (lGoods : ∀ t ∈ ls, t.isSchema vocab)
    (rGoods : ∀ t ∈ rs, t.isSchema vocab) (index : Nat) : Yields inv (tuples recur lMore rMore path index ls rs)
      (Tuple ts vocab (fun i => ls[i]?.getD lMore) (fun i => rs[i]?.getD rMore) (max ls.length rs.length)) := by
  induction index, ls, rs using tuples.induct with
  | case1 index =>
    rw [tuples]
    exact .pure (Tuple.nil _ _)
  | case2 index l ls ih =>
    rw [tuples]
    refine .bind (meeting l rMore _ (lGoods l mem_cons_self) rGood) fun m meets => ?_
    refine .bind (ih (fun t later => lGoods t (.tail _ later)) rGoods) fun made facts =>
      .pure ?_
    simpa using Tuple.cons (l := fun i => (l :: ls)[i]?.getD lMore) (r := fun _ => rMore) meets (by simpa using facts)
  | case3 index r rs ih =>
    rw [tuples]
    refine .bind (meeting lMore r _ lGood (rGoods r mem_cons_self)) fun m meets => ?_
    refine .bind (ih lGoods fun t later => rGoods t (.tail _ later)) fun made facts =>
      .pure ?_
    simpa using Tuple.cons (l := fun _ => lMore) (r := fun i => (r :: rs)[i]?.getD rMore) meets (by simpa using facts)
  | case4 index l ls r rs ih =>
    rw [tuples]
    refine .bind (meeting l r _ (lGoods l mem_cons_self) (rGoods r mem_cons_self)) fun m meets => ?_
    refine .bind (ih (fun t later => lGoods t (.tail _ later))
      fun t later => rGoods t (.tail _ later)) fun made facts => .pure ?_
    rw [length_cons,length_cons,Nat.add_max_add_right]
    exact Tuple.cons meets facts

structure Entries (ts : Texts) (vocab : Vocabulary) (left right : Fields) (single more : Option Json) : Prop where
  items : ∀ s, single = some s →
    vocab.has "items" ∧ keywordFormed (Json.isSchema vocab) "items" s
  further : ∀ s, more = some s → s.isSchema vocab
  below : ∀ i s, itemRule? left i = some s ∨ itemRule? right i = some s →
    ∃ m, entryRule? single more i = some m ∧ Below ts m s

-- Behind the end of a tuple the schema for further items takes over.
lemma Tuple.entry (tuple : Tuple ts vocab l r length made) (more : Option Json) (i : Nat) :
    (∃ m, entryRule? (some (.arr made)) more i = some m ∧ Below ts m (l i) ∧ Below ts m (r i)) ∨
      (length ≤ i ∧ entryRule? (some (.arr made)) more i = more) := by
  change (∃ m, made[i]?.or more = some m ∧ _) ∨ (_ ∧ made[i]?.or more = more)
  cases found : made[i]? with
  | some m => exact .inl ⟨m,rfl,tuple.below i m found⟩
  | none => exact .inr ⟨tuple.length_eq ▸ getElem?_eq_none_iff.mp found,rfl⟩

lemma getD_or {o more : Option Json} {s : Json} (found : o.or more = some s) : o.getD (more.getD (.bool true)) = s := by
  cases o with
  | none => cases more <;> cases found; rfl
  | some t => cases found; rfl

lemma itemRule?_tuple (found : left.get? "items" = some (.arr tuple)) (i : Nat) :
    itemRule? left i = tuple[i]?.or (left.get? "additionalItems") := by
  unfold itemRule?; rw [found]; rfl

lemma itemRule?_single (found : left.get? "items" = some s) (good : s.isSchema vocab)
    (i : Nat) : itemRule? left i = some s := by
  unfold itemRule?; rw [found]; exact entryRule?_single good _ i

lemma entries_of_tuple {more : Option Json}
    (known : vocab.has "items") (tuple : Tuple ts vocab l r length made)
    (onLeft : ∀ i s, itemRule? left i = some s → l i = s)
    (onRight : ∀ i s, itemRule? right i = some s → r i = s) (further : ∀ s, more = some s → s.isSchema vocab)
    (behind : ∀ i s, length ≤ i → itemRule? left i = some s ∨ itemRule? right i = some s →
      ∃ m, more = some m ∧ Below ts m s) : Entries ts vocab left right (some (.arr made)) more where
  items s same := by
    cases same
    exact ⟨known,(formed_items rfl).mpr (.inr ⟨made,rfl,tuple.schemas⟩)⟩
  further := further
  below i s governs := by
    rcases tuple.entry more i with ⟨m,at_,narrowLeft,narrowRight⟩ | ⟨past,at_⟩
    · refine ⟨m,at_,?_⟩
      rcases governs with governs | governs
      · exact onLeft i s governs ▸ narrowLeft
      · exact onRight i s governs ▸ narrowRight
    · rw [at_]
      exact behind i s past governs

lemma yields_items (meeting : Meeting texts vocab inv recur)
    (lFormed : Formed vocab left) (rFormed : Formed vocab right) (path : String) :
    Yields inv (items recur left right path) fun made => Entries texts vocab left right made.1 made.2 := by
  have known : ∀ {fields} {s}, Formed vocab fields → fields.get? "items" = some s →
      vocab.has "items" := fun formed found => has_of_allows (formed.allowed _ _ found)
  have further : ∀ {fields}, Formed vocab fields → ∀ s, fields.get? "additionalItems" = some s →
      s.isSchema vocab := fun formed s found => formed.formed _ s found
  have trueOr {fields} (formed : Formed vocab fields) :
      ((fields.get? "additionalItems").getD (.bool true)).isSchema vocab := by
    cases found : fields.get? "additionalItems" with
    | none => exact isSchema_bool true
    | some s => exact further formed s found
  have tupleGood {fields} {tuple} (formed : Formed vocab fields)
      (found : fields.get? "items" = some (.arr tuple)) : ∀ t ∈ tuple, t.isSchema vocab := by
    rcases (formed_items rfl).mp (formed.formed _ _ found) with impossible | ⟨_,same,goods⟩
    · cases impossible
    · cases same; exact goods
  have singleGood {fields} {s} (formed : Formed vocab fields) (found : fields.get? "items" = some s)
      (single : ∀ tuple, s = .arr tuple → False) : s.isSchema vocab := by
    rcases (formed_items rfl).mp (formed.formed _ _ found) with good | ⟨tuple,same,_⟩
    · exact good
    · exact (single tuple same).elim
  unfold items
  split
  · next noLeft noRight =>
    refine .bind (yields_optional meeting (further lFormed) (further rFormed) _) fun made facts =>
      .pure ⟨nofun,facts.1,fun index s governs => ?_⟩
    unfold itemRule? at governs
    rw [noLeft,noRight] at governs
    exact governs.elim nofun nofun
  · next l atLeft noRight =>
    refine .pure ⟨fun s same => ?_,further lFormed,fun index s governs => ⟨s,?_,Below.refl texts s⟩⟩
    · cases same
      exact ⟨known lFormed atLeft,lFormed.formed _ _ atLeft⟩
    unfold itemRule? at governs
    rw [noRight,atLeft] at governs
    exact governs.resolve_right nofun
  · next r noLeft atRight =>
    refine .pure ⟨fun s same => ?_,further rFormed,fun index s governs => ⟨s,?_,Below.refl texts s⟩⟩
    · cases same
      exact ⟨known rFormed atRight,rFormed.formed _ _ atRight⟩
    unfold itemRule? at governs
    rw [noLeft,atRight] at governs
    exact governs.resolve_left nofun
  · next ls rs atLeft atRight =>
    refine .bind (yields_tuples meeting (trueOr lFormed) (trueOr rFormed) _ ls rs
      (tupleGood lFormed atLeft) (tupleGood rFormed atRight) 0) fun made tuple => ?_
    refine .bind (yields_optional meeting (further lFormed) (further rFormed) _) fun more facts =>
      .pure ?_
    refine entries_of_tuple (known lFormed atLeft) tuple ?_ ?_ facts.1 ?_
    · intro index s governs
      exact getD_or (itemRule?_tuple atLeft index ▸ governs)
    · intro index s governs
      exact getD_or (itemRule?_tuple atRight index ▸ governs)
    intro index s past governs
    rw [itemRule?_tuple atLeft,itemRule?_tuple atRight,getElem?_eq_none_iff.mpr (by omega),
      getElem?_eq_none_iff.mpr (by omega)] at governs
    exact facts.2 s governs
  · next tuple single notTuple atLeft atRight =>
    have good := singleGood rFormed atRight notTuple
    refine .bind (yields_tupleWith meeting good _ tuple (tupleGood lFormed atLeft) 0
      ((left.get? "additionalItems").getD (.bool true))) fun made entries => ?_
    refine .bind (yields_optional meeting (further lFormed) (fun s same => some.inj same ▸ good) _)
      fun more facts => .pure ?_
    refine entries_of_tuple (known lFormed atLeft) entries ?_ ?_ facts.1 ?_
    · intro index s governs
      exact getD_or (itemRule?_tuple atLeft index ▸ governs)
    · intro index s governs
      exact some.inj ((itemRule?_single atRight good index).symm.trans governs)
    · intro index s past governs
      rw [itemRule?_tuple atLeft,itemRule?_single atRight good,getElem?_eq_none_iff.mpr past] at governs
      exact facts.2 s governs
  · next single tuple notTuple atLeft atRight =>
    have good := singleGood lFormed atLeft notTuple
    refine .bind (yields_tupleWith meeting good _ tuple (tupleGood rFormed atRight) 0
      ((right.get? "additionalItems").getD (.bool true))) fun made entries => ?_
    refine .bind (yields_optional meeting (fun s same => some.inj same ▸ good) (further rFormed) _)
      fun more facts => .pure ?_
    refine entries_of_tuple (known lFormed atLeft) entries.swap ?_ ?_ facts.1 ?_
    · intro index s governs
      exact some.inj ((itemRule?_single atLeft good index).symm.trans governs)
    · intro index s governs
      exact getD_or (itemRule?_tuple atRight index ▸ governs)
    · intro index s past governs
      rw [itemRule?_tuple atRight,itemRule?_single atLeft good,getElem?_eq_none_iff.mpr past] at governs
      exact facts.2 s governs
  · next l r _ lSingle rSingle atLeft atRight =>
    have lGood := singleGood lFormed atLeft lSingle
    have rGood := singleGood rFormed atRight rSingle
    refine .bind (meeting l r _ lGood rGood) fun m meets => .pure ?_
    refine ⟨fun s same => ?_,nofun,fun index s governs => ⟨m,entryRule?_single meets.schema _ _,?_⟩⟩
    · cases same
      exact ⟨known lFormed atLeft,(formed_items rfl).mpr (.inl meets.schema)⟩
    rw [itemRule?_single atLeft lGood,itemRule?_single atRight rGood] at governs
    rcases governs with same | same <;> cases same
    · exact meets.left
    · exact meets.right
end SchemaOrder.Intersection
