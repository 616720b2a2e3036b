import SchemaOrder.Proofs.Annotations.Kinship
namespace SchemaOrder
open List Fields Json Intersection SchemaOrder.Bound Keyword
variable {l r : Fields} {a single v w : Json} {tuple : List Json}
-- Two merges of kin take the same course: they stop at a conflict together, and what they give otherwise is of a kin.
def Twin {α β : Type} (related : α → β → Prop) (x : StateM Unit α) (y : StateM Unit β) : Prop :=
  related (x.run ()).1 (y.run ()).1
namespace Twin
variable {α β γ δ : Type} {related : α → β → Prop}
lemma pure {a : α} {b : β} (holds : related a b) :
    Twin related (pure a : StateM Unit α) (pure b : StateM Unit β) := holds

lemma bind {goal : γ → δ → Prop} {f : α → StateM Unit γ} {g : β → StateM Unit δ} (first : Twin related x y)
    (next : ∀ a b, related a b → Twin goal (f a) (g b)) : Twin goal (x >>= f) (y >>= g) :=
  next _ _ first

lemma mono {weaker : α → β → Prop} (twin : Twin related x y) (imp : ∀ a b, related a b → weaker a b) : Twin weaker x y :=
  imp _ _ twin

lemma of_ensures {same : α → α → Prop} {post : α → Prop} (ensures : Always x post)
    (imp : ∀ a, post a → same a a) : Twin same x x :=
  imp _ (ensures () trivial).2

lemma and {left : α → Prop} {right : β → Prop} (twin : Twin related x y) (first : Always x left)
    (second : Always y right) : Twin (fun a b => related a b ∧ left a ∧ right b) x y :=
  ⟨twin,(first () trivial).2,(second () trivial).2⟩

lemma foldlM {ι κ : Type} {f : α → ι → StateM Unit α} {g : β → κ → StateM Unit β} {paired : ι → κ → Prop} {l : List ι}
    {r : List κ} (step : ∀ a b i k, related a b → i ∈ l → k ∈ r → paired i k → Twin related (f a i) (g b k))
    (each : Forall₂ paired l r) : ∀ a b, related a b → Twin related (l.foldlM f a) (r.foldlM g b) := by
  induction each with
  | nil => exact fun _ _ holds => pure holds
  | cons here _ ih =>
    intro a b holds
    exact bind (step a b _ _ holds mem_cons_self mem_cons_self here) (ih fun a b i k holds inLeft inRight =>
      step a b i k holds (.tail _ inLeft) (.tail _ inRight))
end Twin
namespace Attempt
inductive Outcomes {α β : Type} (related : α → β → Prop) : Option (Except Conflict α) → Option (Except Conflict β) → Prop where
  | exhausted : Outcomes related none none
  | conflicts (c d : Conflict) : Outcomes related (some (.error c)) (some (.error d))
  | results {a : α} {b : β} (holds : related a b) : Outcomes related (some (.ok a)) (some (.ok b))

def Matched {α β : Type} (related : α → β → Prop) (x : Attempt (StateM Unit) α) (y : Attempt (StateM Unit) β) : Prop :=
  Twin (Outcomes related) x.run.run y.run.run
namespace Matched
variable {α β γ δ : Type} {related : α → β → Prop}
lemma pure {a : α} {b : β} (holds : related a b) :
    Matched related (pure a : Attempt (StateM Unit) α) (pure b : Attempt (StateM Unit) β) :=
  Twin.pure (.results holds)

lemma conflict {c d : Conflict} : Matched related (conflict c) (conflict d) := Twin.pure (.conflicts c d)

lemma outOfFuel : Matched related outOfFuel outOfFuel := Twin.pure .exhausted

lemma ask {u : StateM Unit α} {v : StateM Unit β} (twin : Twin related u v) : Matched related (ask u) (ask v) :=
  .bind twin fun _ _ holds => .pure (.results holds)

lemma bind {goal : γ → δ → Prop} {f : α → Attempt (StateM Unit) γ} {g : β → Attempt (StateM Unit) δ}
    (first : Matched related x y) (next : ∀ a b, related a b → Matched goal (f a) (g b)) : Matched goal (x >>= f) (y >>= g) := by
  unfold Matched
  rw [ExceptT.run_bind,OptionT.run_bind,ExceptT.run_bind,OptionT.run_bind]
  refine .bind first fun _ _ outcome => ?_
  cases outcome with
  | exhausted => exact .pure .exhausted
  | conflicts c d => exact .pure (.conflicts c d)
  | results holds => exact next _ _ holds

lemma orElse {f : Conflict → Attempt (StateM Unit) α} {g : Conflict → Attempt (StateM Unit) β}
    (first : Matched related x y) (second : ∀ c d, Matched related (f c) (g d)) : Matched related (x.orElse f) (y.orElse g) := by
  unfold Matched Attempt.orElse
  rw [ExceptT.run_tryCatch,OptionT.run_bind,ExceptT.run_tryCatch,OptionT.run_bind]
  refine .bind first fun _ _ outcome => ?_
  cases outcome with
  | exhausted => exact .pure .exhausted
  | conflicts c d => exact second c d
  | results holds => exact .pure (.results holds)

lemma mono {weaker : α → β → Prop} (matched : Matched related x y) (imp : ∀ a b, related a b → weaker a b) :
    Matched weaker x y := by
  refine Twin.mono matched fun _ _ outcome => ?_
  cases outcome with
  | exhausted => exact .exhausted
  | conflicts c d => exact .conflicts c d
  | results holds => exact .results (imp _ _ holds)

lemma of_yields {same : α → α → Prop} {post : α → Prop} (yields : Yields (fun _ => True) x post)
    (imp : ∀ a, post a → same a a) : Matched same x x := by
  refine Twin.of_ensures yields fun result holds => ?_
  match result, holds with
  | none, _ => exact .exhausted
  | some (.error c), _ => exact .conflicts c c
  | some (.ok a), holds => exact .results (imp a holds)

lemma refl (x : Attempt (StateM Unit) α) : Matched Eq x x := of_yields (.any x) fun _ _ => rfl

lemma and {left : α → Prop} {right : β → Prop} (matched : Matched related x y) (first : Yields (fun _ => True) x left)
    (second : Yields (fun _ => True) y right) : Matched (fun a b => related a b ∧ left a ∧ right b) x y := by
  refine Twin.mono (Twin.and matched first second) fun _ _ ⟨outcome,first,second⟩ => ?_
  cases outcome with
  | exhausted => exact .exhausted
  | conflicts c d => exact .conflicts c d
  | results holds => exact .results ⟨holds,first,second⟩

lemma foldlM {ι κ : Type} {f : α → ι → Attempt (StateM Unit) α} {g : β → κ → Attempt (StateM Unit) β} {paired : ι → κ → Prop}
    (step : ∀ a b i k, related a b → paired i k → Matched related (f a i) (g b k)) {l : List ι} {r : List κ}
    (each : Forall₂ paired l r) : ∀ a b, related a b → Matched related (l.foldlM f a) (r.foldlM g b) := by
  induction each with
  | nil => exact fun _ _ holds => pure holds
  | cons here _ ih =>
    intro a b holds
    exact bind (step a b _ _ holds here) ih
end Matched
end Attempt
lemma KinEach.forall₂ {grounded : Bool} {l r : List Json} (kin : KinEach grounded l r) : Forall₂ (Kin grounded) l r := by
  induction l generalizing r with
  | nil => cases kin; exact .nil
  | cons _ _ ih =>
    cases kin with
    | cons first rest => exact .cons first (ih rest)

lemma KinMembers.forall₂ (kin : KinMembers l r) :
    Forall₂ (fun e e' : String × Json => e.1 = e'.1 ∧ Kin false e.2 e'.2) l r := by
  induction l generalizing r with
  | nil => cases kin; exact .nil
  | cons _ _ ih =>
    cases kin with
    | cons first rest => exact .cons ⟨rfl,first⟩ (ih rest)
namespace Intersection
open Keyword Attempt
def Even (grounded : Bool) (a b : Json) : Prop := Kin grounded a b ∧ a.field? "allOf" = b.field? "allOf"

lemma Even.refl {grounded : Bool} (ord : v.Orderly) : Even grounded v v := ⟨.refl ord,rfl⟩

def KeepsKin (recur : Step (StateM Unit)) : Prop := ∀ {grounded : Bool} {a a' b b' : Json} (path : String),
  Kin grounded a a' → Kin grounded b b' → Matched (Even grounded) (recur a b path) (recur a' b' path)
variable {recur : Step (StateM Unit)} {lookup : Lookup (StateM Unit)} {grounded : Bool}
  {left left' right right' out out' : Fields} {key path : String}

lemma KeepsKin.keepsOrder (keeps : KeepsKin recur) : KeepsOrder (fun _ => true) (fun _ => True) recur where
  whole _ := rfl
  merged a b path aOrd bOrd := by
    intro s _
    have matched : Outcomes (Even false) _ _ := keeps path (.refl aOrd) (.refl bOrd)
    refine ⟨trivial,?_⟩
    generalize ((recur a b path).run.run.run s).1 = result at matched
    match result, matched with
    | none, _ | some (.error _), _ => trivial
    | some (.ok _), .results even => exact even.1.left

lemma steady (pat : String) : Always (lookup pat) fun _ => True := fun _ _ => ⟨trivial,trivial⟩

lemma get?_overlay (l out : Fields) (sorted : l.Sorted) (name : String) :
    get? (l.foldl (fun defs entry => put defs entry.1 entry.2) out) name = (l.get? name).or (out.get? name) := by
  induction l generalizing out with
  | nil => rfl
  | cons entry rest ih =>
    rw [foldl_cons,ih _ (Pairwise.of_cons sorted),get?_cons,get?_put]
    split
    · next is =>
      subst is
      rw [get?_tail sorted]
      rfl
    · rfl

lemma keyword_definitions (left : v.Orderly) (right : w.Orderly) (object : v.isObj ∨ w.isObj)
    (path : String) : keyword recur "definitions" v w path = pure (definitions v w,[]) := by
  unfold keyword
  split
  · next same =>
    have objects : ∃ l r, v = .obj l ∧ w = .obj r := by
      rcases object with isObj | isObj
      · cases v with
        | obj l =>
          cases w with
          | obj r => exact ⟨l,r,rfl,rfl⟩
          | _ => simp [deepEqual] at same
        | _ => cases isObj
      cases w with
      | obj r =>
        cases v with
        | obj l => exact ⟨l,r,rfl,rfl⟩
        | _ => simp [deepEqual] at same
      | _ => cases isObj
    obtain ⟨l,r,rfl,rfl⟩ := objects
    have lSorted := (orderly_obj.mp left).1
    have agree := (deepEqual_obj_iff lSorted (orderly_obj.mp right).1).mp same
    have united := (orderly_obj.mp (orderly_definitions left right)).1
    have all : l = l.foldl (fun defs entry => put defs entry.1 entry.2) r := by
      refine ext lSorted united fun name => ?_
      rw [get?_overlay l r lSorted]
      cases own : get? l name with
      | some v => rfl
      | none =>
        cases other : get? r name with
        | none => rfl
        | some w =>
          have here := agree name
          rw [own,other] at here
          cases here
    exact congrArg (fun fs => pure (obj fs,[])) all
  · rfl

inductive InPlace : String → Json → Json → Prop where
  | same {key : String} (v : Json) : InPlace key v v
  | named {l r : Fields} (each : KinMembers l r) : InPlace "definitions" (.obj l) (.obj r)

lemma InPlace.eq (kin : InPlace key v w) (other : key ≠ "definitions") : v = w := by
  cases kin with
  | same => rfl
  | named => exact absurd rfl other

lemma InPlace.kinAt {o p : Option Json} (both : Option.Rel (InPlace key) o p) : KinAt false key o p := by
  cases both with
  | none => exact .same _
  | some kin =>
    cases kin with
    | same => exact .same _
    | named each => exact .named each

lemma InPlace.eq_of_rel {o p : Option Json} (both : Option.Rel (InPlace key) o p) (other : key ≠ "definitions") : o = p := by
  cases both with
  | none => rfl
  | some kin => rw [kin.eq other]

structure Placed (key : String) (v w : Json) : Prop where
  kin : InPlace key v w
  left : v.Orderly
  right : w.Orderly

structure EvenFields (grounded : Bool) (f g : Fields) : Prop extends KinFields grounded f g where
  allOf : f.get? "allOf" = g.get? "allOf"

lemma EvenFields.inPlace (even : EvenFields grounded left left') (effective : shape key ≠ .note)
    (single : key ∉ ["properties","items","additionalItems"]) : Option.Rel (Placed key) (left.get? key) (left'.get? key) := by
  have same : left.get? key = left'.get? key → Option.Rel (Placed key) (left.get? key) (left'.get? key) := by
    intro same
    rw [same]
    cases found : left'.get? key with
    | none => exact .none
    | some v =>
      have ord := orderly_get? even.right found
      exact .some ⟨.same v,ord,ord⟩
  by_cases listed : key = "allOf"
  · exact same (listed ▸ even.allOf)
  have at_ := even.keyed key effective
  generalize atL : left.get? key = o at at_ same
  generalize atR : left'.get? key = p at at_ same
  cases at_ with
  | same => exact same rfl
  | named each => exact .some ⟨.named each,orderly_get? even.left atL,orderly_get? even.right atR⟩
  | members | item | tuple | further => exact absurd (by decide) single
  | entries => exact absurd rfl listed

lemma EvenFields.aligned (even : EvenFields grounded left left') (clash : Bool) :
    Aligned (fun key v w => setAside clash key = false → Placed key v w) left left' := by
  refine .of_get? left left' even.leftSorted even.rightSorted fun key effective => ?_
  by_cases special : key ∈ ["properties","items","additionalItems"]
  · have aside := setAside_iff.mpr (Or.inl special : key ∈ _ ∨ (clash ∧ key ∈ conditional))
    have both := (even.keyed key effective).rel
    generalize left.get? key = o at both
    generalize left'.get? key = p at both
    cases both with
    | none => exact .none
    | some => exact .some fun inPlace => by rw [aside] at inPlace; cases inPlace
  · have both := even.inPlace effective special
    generalize left.get? key = o at both
    generalize left'.get? key = p at both
    cases both with
    | none => exact .none
    | some placed => exact .some fun _ => placed

lemma Placed.members (placed : Placed "definitions" v w) : KinMembers (v.fields?.getD []) (w.fields?.getD []) := by
  obtain ⟨kin,ord,_⟩ := placed
  cases kin with
  | same => exact .refl (orderly_obj.mp (orderly_fields? ord)).2
  | named each => exact each

lemma kinMembers_overlay {l' r' : Fields} (own : KinMembers l l') (other : KinMembers r r') :
    KinMembers (l.foldl (fun defs entry => put defs entry.1 entry.2) r)
      (l'.foldl (fun defs entry => put defs entry.1 entry.2) r') := by
  induction l generalizing l' r r' with
  | nil =>
    cases own
    exact other
  | cons entry rest ih =>
    cases own with
    | cons first later =>
      rw [foldl_cons,foldl_cons]
      exact ih later (other.put first _)

lemma inPlace_definitions {v' w' : Json} (left : Placed "definitions" v v') (right : Placed "definitions" w w') :
    InPlace "definitions" (definitions v w) (definitions v' w') :=
  .named (kinMembers_overlay left.members right.members)

lemma InPlace.isObj_eq (kin : InPlace key v w) : v.isObj = w.isObj := by
  cases kin <;> rfl

lemma InPlace.eq_of_plain (kin : InPlace key v w) (plain : ¬ v.isObj) : v = w := by
  cases kin with
  | same => rfl
  | named => exact absurd rfl plain

lemma matched_keyword {v' w' : Json} (left : Placed key v v') (right : Placed key w w') :
    Matched (fun made made' => InPlace key made.1 made'.1 ∧ made.2 = made'.2) (keyword recur key v w path)
      (keyword recur key v' w' path) := by
  have alike : v = v' → w = w' → Matched (fun made made' => InPlace key made.1 made'.1 ∧ made.2 = made'.2)
      (keyword recur key v w path) (keyword recur key v' w' path) := by
    rintro rfl rfl
    refine (Matched.refl _).mono ?_
    rintro made _ rfl
    exact ⟨.same _,rfl⟩
  by_cases named : key = "definitions"
  · subst named
    by_cases object : v.isObj ∨ w.isObj
    · have object' : v'.isObj ∨ w'.isObj := by rwa [← left.kin.isObj_eq,← right.kin.isObj_eq]
      rw [keyword_definitions left.left right.left object,keyword_definitions left.right right.right object']
      exact .pure ⟨inPlace_definitions left right,rfl⟩
    · obtain ⟨plain,plain'⟩ := not_or.mp object
      exact alike (left.kin.eq_of_plain plain) (right.kin.eq_of_plain plain')
  · exact alike (left.kin.eq named) (right.kin.eq named)

lemma note_inPlace (clash : Bool) (note : shape key = .note) : setAside clash key = false := by
  rw [← Bool.not_eq_true,setAside_iff]
  rintro (special | ⟨_,special⟩)
  · fin_cases special <;> cases note
  · fin_cases special <;> cases note

lemma keyword_note {m : Type → Type} [Monad m] {recur : Step m} (note : shape key = .note) (l r : Json) (path : String) :
    keyword recur key l r path = pure (l,[]) := by
  unfold keyword
  split
  · rfl
  split
  case h_10 => rw [note]
  all_goals cases note

lemma note_ne {name : String} (note : shape key = .note) (effective : shape name ≠ .note) : key ≠ name := by
  rintro rfl
  exact effective note

def SameEffective (f g : Fields) : Prop := ∀ key, shape key ≠ .note → Option.Rel (InPlace key) (f.get? key) (g.get? key)

lemma SameEffective.put (same : SameEffective out out') (here : InPlace key v w) :
    SameEffective (out.put key v) (out'.put key w) := by
  intro name effective
  rw [get?_put,get?_put]
  split
  · next is => exact is ▸ .some here
  · exact same name effective

-- An annotation is written to one side only.
lemma SameEffective.putLeft (same : SameEffective out out') (note : shape key = .note) (v : Json) :
    SameEffective (out.put key v) out' := by
  intro name effective
  rw [get?_put_other (note_ne note effective)]
  exact same name effective

lemma SameEffective.putRight (same : SameEffective out out') (note : shape key = .note) (v : Json) :
    SameEffective out (out'.put key v) := by
  intro name effective
  rw [get?_put_other (note_ne note effective)]
  exact same name effective

def sharedStep (recur : Step (StateM Unit)) (clash : Bool) (right : Fields) (path : String) :
    Fields × List Json → String × Json → Attempt (StateM Unit) (Fields × List Json) := fun (out,residual) (key,lv) => do
  if setAside clash key then return (out,residual)
  match right.get? key with
  | some rv =>
    let (merged,extra) ← keyword recur key lv rv path
    return (out.put key merged,residual ++ extra)
  | none => return (out.put key lv,residual)

lemma sharedStep_note (clash : Bool) (right : Fields) (note : shape key = .note) (state : Fields × List Json) (v : Json) :
    sharedStep recur clash right path state (key,v) = pure (state.1.put key v,state.2) := by
  unfold sharedStep
  dsimp only
  rw [note_inPlace clash note,if_neg (by decide)]
  split
  · rw [keyword_note note,pure_bind]
    rw [append_nil]
  · rfl

def SameState (made made' : Fields × List Json) : Prop := made.2 = made'.2 ∧ SameEffective made.1 made'.1

lemma matched_sharedStep {clash : Bool} {state state' : Fields × List Json} (same : SameState state state')
    (here : setAside clash key = false → Placed key v w)
    (partner : setAside clash key = false → Option.Rel (Placed key) (right.get? key) (right'.get? key)) :
    Matched SameState (sharedStep recur clash right path state (key,v)) (sharedStep recur clash right' path state' (key,w)) := by
  obtain ⟨out,residual⟩ := state
  obtain ⟨out',residual'⟩ := state'
  obtain ⟨rfl,effective⟩ : residual = residual' ∧ SameEffective out out' := same
  unfold sharedStep
  dsimp only
  split
  · exact .pure ⟨rfl,effective⟩
  next inPlace =>
  have inPlace := Bool.not_eq_true _ ▸ inPlace
  have partner := partner inPlace
  generalize right.get? key = o at partner
  generalize right'.get? key = p at partner
  cases partner with
  | none => exact .pure ⟨rfl,effective.put (here inPlace).kin⟩
  | some other =>
    refine .bind (matched_keyword (here inPlace) other) ?_
    rintro ⟨m,extra⟩ ⟨m',_⟩ ⟨kin,rfl⟩
    exact .pure ⟨rfl,effective.put kin⟩

-- Annotations come and go on one side; every other keyword meets the same partner on both.
lemma matched_sharedKeywords {clash : Bool}
    (aligned : Aligned (fun key v w => setAside clash key = false → Placed key v w) left left')
    (partner : ∀ key, shape key ≠ .note → setAside clash key = false → Option.Rel (Placed key) (right.get? key) (right'.get? key))
    (residual : List Json) : Matched SameState (sharedKeywords recur clash left right path residual)
      (sharedKeywords recur clash left' right' path residual) := by
  suffices fold : ∀ state state', SameState state state' → Matched SameState (left.foldlM (sharedStep recur clash right path) state)
      (left'.foldlM (sharedStep recur clash right' path) state') from fold _ _ ⟨rfl,fun _ _ => .none⟩
  induction aligned with
  | nil => exact fun _ _ same => .pure same
  | left note _ ih =>
    intro state state' same
    rw [foldlM_cons,sharedStep_note clash right note]
    exact ih _ _ ⟨same.1,same.2.putLeft note _⟩
  | right note _ ih =>
    intro state state' same
    rw [foldlM_cons,sharedStep_note clash right' note]
    exact ih _ _ ⟨same.1,same.2.putRight note _⟩
  | @both key v w _ _ here _ ih =>
    intro state state' same
    rw [foldlM_cons,foldlM_cons]
    by_cases note : shape key = .note
    · rw [sharedStep_note clash right note,sharedStep_note clash right' note]
      exact ih _ _ ⟨same.1,(same.2.putLeft note _).putRight note _⟩
    · exact .bind (matched_sharedStep same (here note) (partner key note)) ih

def KinMap (v w : Json) : Prop := ∃ l r, v = .obj l ∧ w = .obj r ∧ KinMembers l r

lemma constraints_congr (kin : KinFields grounded right right') (name : String) :
    constraints lookup right name = constraints lookup right' name := by
  unfold constraints
  rw [kin.fixed "patternProperties" rfl,kin.fixed "additionalProperties" rfl]

lemma matched_constrainUndeclared (keeps : KeepsKin recur) (one : Kin false v w)
    (kin : KinFields grounded right right') (name path : String) :
    Matched (Kin false) (constrainUndeclared lookup recur v right name path)
      (constrainUndeclared lookup recur w right' name path) := by
  unfold constrainUndeclared
  rw [constraints_congr kin]
  have orderlies : Always (constraints lookup right' name) fun governing => ∀ c ∈ governing, c.Orderly :=
    ensures_constraints steady kin.right name
  have asked : Twin (KinEach false) (constraints lookup right' name) (constraints lookup right' name) :=
    Twin.of_ensures orderlies fun governing orderlies => .refl orderlies
  refine .bind (.ask asked) fun governing governing' each => ?_
  refine .foldlM (fun a b c c' kin same => ?_) each.forall₂ v w one
  exact (keeps path kin same).mono fun _ _ even => even.1

lemma matched_settleProperty {x y : Attempt (StateM Unit) Json} (matched : Matched (Kin false) x y) (wanted : List String)
    (name : String) : Matched (Kin false) (settleProperty wanted name x) (settleProperty wanted name y) := by
  refine .orElse matched fun c d => ?_
  split
  · exact .conflict
  · exact .pure (.refl rfl)

lemma required_congr (kin : KinFields grounded left left') : required left = required left' := by
  unfold required
  rw [kin.fixed "required" rfl]

def leftProperty (lookup : Lookup (StateM Unit)) (recur : Step (StateM Unit)) (rp right : Fields)
    (wanted : List String) (base : String) : Fields → String × Json → Attempt (StateM Unit) Fields := fun out (name,lv) => do
  let merged := match rp.get? name with
    | some rv => recur lv rv (joinPath base name)
    | none => constrainUndeclared lookup recur lv right name (joinPath base name)
  return out.put name (← settleProperty wanted name merged)

def rightProperty (lookup : Lookup (StateM Unit)) (recur : Step (StateM Unit)) (lp left : Fields)
    (wanted : List String) (base : String) : Fields → String × Json → Attempt (StateM Unit) Fields := fun out (name,rv) => do
  if lp.has name then return out
  let merged := constrainUndeclared lookup recur rv left name (joinPath base name)
  return out.put name (← settleProperty wanted name merged)

lemma properties_eq (left right : Fields) : properties lookup recur left right path =
      match (left.get? "properties").bind fields?, (right.get? "properties").bind fields? with
      | none, none => pure none
      | lp, rp => do
        let wanted := required left ++ required right
        let base := joinPath path "properties"
        let out ← (lp.getD []).foldlM (leftProperty lookup recur (rp.getD []) right wanted base) []
        let out ← (rp.getD []).foldlM (rightProperty lookup recur (lp.getD []) left wanted base) out
        return some (.obj out) := rfl

lemma matched_leftProperty (keeps : KeepsKin recur) {rp rp' : Fields} (declared : KinMembers rp rp')
    (kin : KinFields grounded right right') (wanted : List String) (base : String) {e e' : String × Json}
    (entry : e.1 = e'.1 ∧ Kin false e.2 e'.2) (soFar : KinMembers out out') :
    Matched KinMembers (leftProperty lookup recur rp right wanted base out e)
      (leftProperty lookup recur rp' right' wanted base out' e') := by
  obtain ⟨name,lv⟩ := e
  obtain ⟨_,lv'⟩ := e'
  obtain ⟨rfl,own⟩ := entry
  refine .bind (matched_settleProperty ?_ _ _) fun m m' kin => .pure (soFar.put kin name)
  have partners := declared.get? name
  generalize rp.get? name = o at partners
  generalize rp'.get? name = p at partners
  cases partners with
  | some kin => exact (keeps _ own kin).mono fun _ _ even => even.1
  | none => exact matched_constrainUndeclared keeps own kin _ _

lemma matched_rightProperty (keeps : KeepsKin recur) {lp lp' : Fields} (declared : KinMembers lp lp')
    (kin : KinFields grounded left left') (wanted : List String) (base : String) {e e' : String × Json}
    (entry : e.1 = e'.1 ∧ Kin false e.2 e'.2) (soFar : KinMembers out out') :
    Matched KinMembers (rightProperty lookup recur lp left wanted base out e)
      (rightProperty lookup recur lp' left' wanted base out' e') := by
  obtain ⟨name,rv⟩ := e
  obtain ⟨_,rv'⟩ := e'
  obtain ⟨rfl,own⟩ := entry
  unfold rightProperty
  dsimp only
  rw [declared.has name]
  split
  · exact .pure soFar
  exact .bind (matched_settleProperty (matched_constrainUndeclared keeps own kin _ _) _ _)
    fun m m' kin => .pure (soFar.put kin name)

lemma matched_foldMembers {f g : Fields → String × Json → Attempt (StateM Unit) Fields} (each : KinMembers l r)
    (step : ∀ {out out' : Fields} {e e' : String × Json}, e.1 = e'.1 ∧ Kin false e.2 e'.2 → KinMembers out out' →
      Matched KinMembers (f out e) (g out' e')) (soFar : KinMembers out out') :
    Matched KinMembers (l.foldlM f out) (r.foldlM g out') := by
  refine .foldlM ?_ each.forall₂ out out' soFar
  exact fun _ _ _ _ soFar entry => step entry soFar

lemma matched_properties (keeps : KeepsKin recur) (atL : KinFields grounded left left')
    (atR : KinFields grounded right right') :
    Matched (Option.Rel KinMap) (properties lookup recur left right path) (properties lookup recur left' right' path) := by
  have both : ∀ {lp lp' rp rp'} wanted base, KinMembers lp lp' → KinMembers rp rp' → Matched (Option.Rel KinMap) (do
          let out ← lp.foldlM (leftProperty lookup recur rp right wanted base) []
          let out ← rp.foldlM (rightProperty lookup recur lp left wanted base) out
          return some (.obj out))
        (do
          let out ← lp'.foldlM (leftProperty lookup recur rp' right' wanted base) []
          let out ← rp'.foldlM (rightProperty lookup recur lp' left' wanted base) out
          return some (.obj out)) := by
    intro lp lp' rp rp' wanted base kinLeft kinRight
    refine .bind (matched_foldMembers kinLeft (matched_leftProperty keeps kinRight atR wanted base) .nil)
      fun out out' soFar => ?_
    refine .bind (matched_foldMembers kinRight (matched_rightProperty keeps kinLeft atL wanted base) soFar)
      fun all all' kin => ?_
    exact .pure (.some ⟨_,_,rfl,rfl,kin⟩)
  have kinLeft := atL.declared
  have kinRight := atR.declared
  rw [properties_eq,properties_eq,required_congr atL,required_congr atR]
  generalize (left.get? "properties").bind fields? = lp at kinLeft
  generalize (left'.get? "properties").bind fields? = lp' at kinLeft
  generalize (right.get? "properties").bind fields? = rp at kinRight
  generalize (right'.get? "properties").bind fields? = rp' at kinRight
  cases kinLeft with
  | none =>
    cases kinRight with
    | none => exact .pure .none
    | some own => exact both _ _ .nil own
  | some own =>
    cases kinRight with
    | none => exact both _ _ own .nil
    | some other => exact both _ _ own other

lemma matched_optional (keeps : KeepsKin recur) {a a' b b' : Option Json} (atL : Option.Rel (Kin false) a a')
    (atR : Option.Rel (Kin false) b b') :
    Matched (Option.Rel (Kin false)) (optional recur a b path) (optional recur a' b' path) := by
  cases atL with
  | none =>
    cases atR with
    | none => exact .pure .none
    | some kin => exact .pure (.some kin)
  | some own =>
    cases atR with
    | none => exact .pure (.some own)
    | some kin => exact .bind (keeps path own kin) fun m m' even => .pure (.some even.1)

lemma matched_tupleWith (keeps : KeepsKin recur) {single' : Json} (one : Kin false single single') {tuple' : List Json}
    (each : KinEach false tuple tuple') (i : Nat) :
    Matched (KinEach false) (tupleWith recur single path i tuple) (tupleWith recur single' path i tuple') := by
  induction tuple generalizing tuple' i with
  | nil =>
    cases each
    exact .pure .nil
  | cons entry rest ih =>
    cases each with
    | cons first later =>
      refine .bind (keeps _ first one) fun m m' even => ?_
      exact .bind (ih later (i + 1)) fun made made' kin => .pure (.cons even.1 kin)

lemma matched_tuples (keeps : KeepsKin recur) {lMore leftMore' rMore rightMore' : Json}
    (atL : Kin false lMore leftMore') (atR : Kin false rMore rightMore') {ls ls' rs rs' : List Json}
    (lefts : KinEach false ls ls') (rights : KinEach false rs rs') (i : Nat) :
    Matched (KinEach false) (tuples recur lMore rMore path i ls rs)
      (tuples recur leftMore' rightMore' path i ls' rs') := by
  have extend : ∀ {x y} {xs ys}, Matched (Even false) x y → Matched (KinEach false) xs ys →
      Matched (KinEach false) (do let first ← x; return first :: (← xs)) (do let first ← y; return first :: (← ys)) :=
    fun first rest => .bind first fun m m' even => .bind rest fun made made' kin => .pure (.cons even.1 kin)
  induction i, ls, rs using tuples.induct generalizing ls' rs' with
  | case1 i =>
    cases lefts
    cases rights
    rw [tuples,tuples]
    exact .pure .nil
  | case2 i l ls ih =>
    cases rights
    cases lefts with
    | cons first later =>
      rw [tuples,tuples]
      exact extend (keeps _ first atR) (ih later .nil)
  | case3 i r rs ih =>
    cases lefts
    cases rights with
    | cons first later =>
      rw [tuples,tuples]
      exact extend (keeps _ atL first) (ih .nil later)
  | case4 i l ls r rs ih =>
    cases lefts with
    | cons first later =>
      cases rights with
      | cons other others =>
        rw [tuples,tuples]
        exact extend (keeps _ first other) (ih later others)

def KinEntries (made made' : Option Json × Option Json) : Prop :=
  Option.Rel KinItems made.1 made'.1 ∧ Option.Rel (Kin false) made.2 made'.2

lemma items_tupleSingle (atLeft : left.get? "items" = some (.arr tuple))
    (atRight : right.get? "items" = some single) (plain : single.isArr = false) :
    items recur left right path = do
      let merged ← tupleWith recur single (joinPath path "items") 0 tuple
      return (some (.arr merged),← optional recur (left.get? "additionalItems") (some single) (joinPath path "additionalItems")) := by
    unfold items
    rw [atLeft,atRight]
    cases single with
  | arr => cases plain
  | _ => rfl

lemma items_singleTuple (atLeft : left.get? "items" = some single)
    (atRight : right.get? "items" = some (.arr tuple)) (plain : single.isArr = false) :
    items recur left right path = do
      let merged ← tupleWith recur single (joinPath path "items") 0 tuple
      return (some (.arr merged),← optional recur (some single) (right.get? "additionalItems") (joinPath path "additionalItems")) := by
    unfold items
    rw [atLeft,atRight]
    cases single with
  | arr => cases plain
  | _ => rfl

lemma items_singles {l r : Json} (atLeft : left.get? "items" = some l) (atRight : right.get? "items" = some r)
    (lPlain : l.isArr = false) (rPlain : r.isArr = false) :
    items recur left right path = do return (some (← recur l r (joinPath path "items")),none) := by
  unfold items
  rw [atLeft,atRight]
  split
  all_goals simp_all [isArr]

lemma matched_items (keeps : KeepsKin recur) (atLeft : KinFields grounded left left')
    (atRight : KinFields grounded right right') :
    Matched KinEntries (items recur left right path) (items recur left' right' path) := by
  have more {o p} (related : Option.Rel (Kin false) o p) : Kin false (o.getD (.bool true)) (p.getD (.bool true)) := by
    cases related with
    | none => exact .refl rfl
    | some kin => exact kin
  have la := atLeft.further
  have ra := atRight.further
  have li := atLeft.items
  have ri := atRight.items
  generalize atL : left.get? "items" = l at li
  generalize atL' : left'.get? "items" = l' at li
  generalize atR : right.get? "items" = r at ri
  generalize atR' : right'.get? "items" = r' at ri
  cases li with
  | none =>
    unfold items
    rw [atL,atL',atR,atR']
    cases ri with
    | none => exact .bind (matched_optional keeps la ra) fun _ _ kin => .pure ⟨.none,kin⟩
    | some own => exact .pure ⟨.some own,ra⟩
  | some own =>
    cases ri with
    | none =>
      unfold items
      rw [atL,atL',atR,atR']
      exact .pure ⟨.some own,la⟩
    | some other =>
      cases own with
      | tuple lefts =>
        cases other with
        | tuple rights =>
          unfold items
          rw [atL,atL',atR,atR']
          refine .bind (matched_tuples keeps (more la) (more ra) lefts rights 0) fun _ _ each => ?_
          exact .bind (matched_optional keeps la ra) fun _ _ kin => .pure ⟨.some (.tuple each),kin⟩
        | single plain plain' one =>
          rw [items_tupleSingle atL atR plain,items_tupleSingle atL' atR' plain']
          refine .bind (matched_tupleWith keeps one lefts 0) fun _ _ each => ?_
          exact .bind (matched_optional keeps la (.some one)) fun _ _ kin => .pure ⟨.some (.tuple each),kin⟩
      | single plain plain' one =>
        cases other with
        | tuple rights =>
          rw [items_singleTuple atL atR plain,items_singleTuple atL' atR' plain']
          refine .bind (matched_tupleWith keeps one rights 0) fun _ _ each => ?_
          exact .bind (matched_optional keeps (.some one) ra) fun _ _ kin => .pure ⟨.some (.tuple each),kin⟩
        | single otherPlain otherPlain' other =>
          rw [items_singles atL atR plain otherPlain,items_singles atL' atR' plain' otherPlain']
          exact .bind (keeps _ one other) fun _ _ even => .pure ⟨.some even.1.items,.none⟩

structure Parallel (f g : Fields) : Prop where
  left : f.Sorted
  right : g.Sorted
  keyed : ∀ key, shape key ≠ .note → KinAt false key (f.get? key) (g.get? key)
  allOf : f.get? "allOf" = g.get? "allOf"
namespace Parallel
section
variable (parallel : Parallel f g)
include parallel
lemma fixed (key : String) (fixed : isFixed key) : f.get? key = g.get? key :=
  (parallel.keyed key (fixed_iff.mp fixed).1).closed (fixed_iff.mp fixed).2

lemma value? (key : String) (fixed : isFixed key) : value? f key = value? g key := by
  unfold Bound.value?
  rw [parallel.fixed key fixed]

lemma put (key : String) (v : Json) : Parallel (f.put key v) (g.put key v) where
  left := sorted_put parallel.left
  right := sorted_put parallel.right
  keyed name effective := by
    rw [get?_put,get?_put]
    split
    · exact .same _
    · exact parallel.keyed name effective
  allOf := by rw [get?_put,get?_put,parallel.allOf]

lemma erase (key : String) : Parallel (f.erase key) (g.erase key) where
  left := sorted_erase parallel.left
  right := sorted_erase parallel.right
  keyed name effective := by
    rw [get?_erase parallel.left,get?_erase parallel.right]
    split
    · exact .same _
    · exact parallel.keyed name effective
  allOf := by rw [get?_erase parallel.left,get?_erase parallel.right,parallel.allOf]

lemma addResidual (residual : List Json) : Parallel (addResidual f residual) (addResidual g residual) := by
  unfold Intersection.addResidual
  rw [parallel.allOf]
  split
  · exact parallel
  · exact parallel.put _ _

lemma dropImplied (side : Side) {soft strict : String} (softFixed : isFixed soft)
    (strictFixed : isFixed strict) : Parallel (dropImplied side soft strict f) (dropImplied side soft strict g) := by
  unfold Bound.dropImplied
  rw [parallel.value? soft softFixed,parallel.value? strict strictFixed]
  split
  · split
    all_goals exact parallel.erase _
  · exact parallel

lemma fold : Parallel (fold f) (fold g) := (parallel.dropImplied .lower rfl rfl).dropImplied .upper rfl rfl

lemma fitsType : fitsType f = fitsType g := by
  unfold Intersection.fitsType
  rw [parallel.fixed "type" rfl]

lemma reconcileValues : Matched Parallel (.ofExcept (reconcileValues f path)) (.ofExcept (reconcileValues g path)) := by
  unfold Intersection.reconcileValues
  rw [parallel.fitsType,parallel.fixed "const" rfl,parallel.fixed "enum" rfl]
  dsimp only
  split
  · exact .conflict
  split
  · split
    · split
      all_goals exact .conflict
    split
    · exact .pure parallel
    · exact .pure (parallel.put _ _)
  · exact .pure parallel

lemma checkBounds : Matched (fun _ _ => True) (.ofExcept (checkBounds f path)) (.ofExcept (checkBounds g path)) := by
  have bounds : ∀ p ∈ pairs, isFixed p.lower ∧ isFixed p.upper := by decide
  have empties p (mem : p ∈ pairs) : p.empties f = p.empties g := by
    obtain ⟨lower,upper⟩ := bounds p mem
    unfold Pair.empties typeConfined
    rw [parallel.value? _ lower,parallel.value? _ upper,parallel.fixed "type" rfl]
  unfold Intersection.checkBounds
  rw [find?_congr empties]
  split
  · exact .conflict
  · exact .pure trivial
end
end Parallel
lemma conditionalsClash_congr (atL : KinFields grounded left left') (atR : KinFields grounded right right') :
    conditionalsClash left right = conditionalsClash left' right' := by
  have conditional : ∀ k ∈ conditional, isFixed k := by decide
  have same k (mem : k ∈ Keyword.conditional) : sameOption (left.get? k) (right.get? k) =
      sameOption (left'.get? k) (right'.get? k) := by
    rw [atL.fixed k (conditional k mem),atR.fixed k (conditional k mem)]
  unfold conditionalsClash
  rw [atL.has (by decide),atR.has (by decide)]
  simp only [Keyword.conditional,any_cons,any_nil,same "if" (by decide),same "then" (by decide),same "else" (by decide)]

lemma pick_congr (kin : KinFields grounded right right') : right.pick conditional = right'.pick conditional := by
  have conditional : ∀ k ∈ conditional, shape k ≠ .note ∧ k ∉ varying := by decide
  have dropped {k} (note : shape k = .note) : ¬ Keyword.conditional.contains k := by
    rw [contains_iff_mem]
    exact fun mem => (conditional k mem).1 note
  have aligned := kin.aligned
  clear kin
  unfold pick
  induction aligned with
  | nil => rfl
  | left note _ ih | right note _ ih => rw [filter_cons,if_neg (dropped note),ih]
  | @both key v w _ _ here _ ih =>
    by_cases picked : Keyword.conditional.contains key
    · obtain ⟨effective,closed⟩ := conditional key (contains_iff_mem.mp picked)
      cases (here effective).closed closed
      rw [filter_cons,filter_cons,if_pos picked,if_pos picked,ih]
    · rw [filter_cons,filter_cons,if_neg picked,if_neg picked,ih]
section Assembled
variable {clash : Bool} {shared shared' : Fields} {extra extra' : String → List Json}
  {props props' single single' more more' : Option Json}

def noteRule : Rule := fun key l _ m _ => shape key = .note → m = l

lemma yields_keywordNote (key : String) (l r : Json) (path : String) :
    Yields (fun _ => True) (keyword recur key l r path) fun made => noteRule key l r made.1 made.2 := by
  by_cases note : shape key = .note
  · rw [keyword_note note]
    exact .pure fun _ => rfl
  · exact (Runs.any _).mono fun _ _ absurd => (note absurd).elim

lemma kinAt_properties (kin : Option.Rel KinMap props props') : KinAt false "properties" props props' := by
  cases kin with
  | none => exact .same _
  | some map =>
    obtain ⟨l,r,rfl,rfl,each⟩ := map
    exact .members each

lemma kinAt_items (kin : Option.Rel KinItems single single') : KinAt false "items" single single' := by
  cases kin with
  | none => exact .same _
  | some kin =>
    cases kin with
    | tuple each => exact .tuple each
    | single _ _ one => exact .item one

lemma kinAt_further (kin : Option.Rel (Kin false) more more') : KinAt false "additionalItems" more more' := by
  cases kin with
  | none => exact .same _
  | some one => exact .further one

lemma parallel_assembled (atL : EvenFields grounded left left') (atR : EvenFields grounded right right')
    (drawn : Gathered noteRule clash left right [] shared extra)
    (gathered' : Gathered noteRule clash left' right' [] shared' extra') (same : SameEffective shared shared')
    (properties : Option.Rel KinMap props props') (xs : KinEntries (single,more) (single',more')) :
    Parallel (assembled clash left right shared props single more) (assembled clash left' right' shared' props' single' more') := by
  have inPlace key (effective : shape key ≠ .note) (here : setAside clash key = false) :
      Option.Rel (InPlace key) ((assembled clash left right shared props single more).get? key)
      ((assembled clash left' right' shared' props' single' more').get? key) := by
    have ungrouped : key ∉ ["properties","items","additionalItems"] := fun special => by
      rw [setAside_iff.mpr (.inl special)] at here
      cases here
    rw [get?_assembled atR.leftSorted here,get?_assembled atR.rightSorted here,atL.has effective]
    have own := same key effective
    split
    · exact own
    have other := atR.inPlace effective ungrouped
    generalize right.get? key = o at other
    generalize right'.get? key = p at other
    cases other with
    | none => exact own
    | some placed => exact .some placed.kin
  refine ⟨drawn.sorted_assembled,gathered'.sorted_assembled,fun key effective => ?_,
    InPlace.eq_of_rel (inPlace "allOf" (by decide) (by cases clash <;> rfl)) (by decide)⟩
  cases away : setAside clash key with
  | false => exact InPlace.kinAt (inPlace key effective away)
  | true =>
    rw [drawn.get?_aside atR.leftSorted away,gathered'.get?_aside atR.rightSorted away]
    split
    · next is => exact is ▸ kinAt_properties properties
    next noProperties =>
    split
    · next is => exact is ▸ kinAt_items xs.1
    next noItems =>
    split
    · next is => exact is ▸ kinAt_further xs.2
    next noMore =>
    rw [atL.fixed key]
    · exact .same _
    have conditional : ∀ key ∈ conditional, isFixed key := by decide
    rcases setAside_iff.mp away with special | ⟨_,special⟩
    · simp [noProperties,noItems,noMore] at special
    · exact conditional key special

lemma isOwn_other (other : key ≠ "properties") : isOwn key v = isOwn key w := by
  have declared : (key != "properties") := by simpa using other
  unfold isOwn
  rw [declared,Bool.true_or,Bool.true_or]

structure Carries (left right out : Fields) : Prop where
  notes : ∀ key, shape key = .note → out.get? key = (left.get? key).or (right.get? key)
  anchored : Anchored left ∨ Anchored right → Anchored out

lemma yields_propertiesKept (lookup : Lookup (StateM Unit)) (recur : Step (StateM Unit)) (left right : Fields)
    (path : String) : Yields (fun _ => True) (properties lookup recur left right path) fun made =>
      (∃ map, left.get? "properties" = some (.obj map) ∨ right.get? "properties" = some (.obj map)) →
        ∃ map, made = some (.obj map) := by
  rw [properties_eq]
  split
  · next noLeft noRight =>
    refine .pure fun declared => ?_
    obtain ⟨map,here | here⟩ := declared
    · rw [here] at noLeft; cases noLeft
    · rw [here] at noRight; cases noRight
  · exact .bind (.any _) fun _ _ => .bind (.any _) fun out _ => .pure fun _ => ⟨out,rfl⟩

lemma yields_itemsKept (recur : Step (StateM Unit)) (left right : Fields) (path : String) :
    Yields (fun _ => True) (items recur left right path) fun made =>
      (∃ key ∈ ["items","additionalItems"], left.has key ∨ right.has key) → made.1.isSome ∨ made.2.isSome := by
  unfold items
  split
  · next noLeft noRight =>
    have kept a b : Yields (fun _ => True) (optional recur a b (joinPath path "additionalItems")) fun
        made => a.isSome ∨ b.isSome → made.isSome := by
      unfold optional
      split
      · exact .bind (.any _) fun _ _ => .pure fun _ => rfl
      · exact .pure fun _ => rfl
      · exact .pure fun _ => rfl
      · exact .pure fun absurd => by simp at absurd
    refine .bind (kept _ _) fun made holds => .pure ?_
    rintro ⟨key,member,here⟩
    fin_cases member
    · unfold has at here
      rw [noLeft,noRight] at here
      simp at here
    · exact .inr (holds here)
  · exact .pure fun _ => .inl rfl
  · exact .pure fun _ => .inl rfl
  iterate 3 exact .bind (.any _) fun _ _ => .bind (.any _) fun _ _ => .pure fun _ => .inl rfl
  · exact .bind (.any _) fun _ _ => .pure fun _ => .inl rfl

lemma anchored_assembled (drawn : Gathered noteRule clash left right [] shared extra) (rSorted : right.Sorted)
    (clashes : clash → left.has "if")
    (properties : (∃ map, left.get? "properties" = some (.obj map) ∨ right.get? "properties" = some (.obj map)) →
      ∃ map, props = some (.obj map))
    (xs : (∃ key ∈ ["items","additionalItems"], left.has key ∨ right.has key) → single.isSome ∨ more.isSome)
    (anchored : Anchored left ∨ Anchored right) : Anchored (assembled clash left right shared props single more) := by
  obtain ⟨key,v,found,own⟩ : ∃ key v, (left.get? key = some v ∨ right.get? key = some v) ∧ isOwn key v := by
    rcases anchored with ⟨key,v,found,own⟩ | ⟨key,v,found,own⟩
    · exact ⟨key,v,.inl found,own⟩
    · exact ⟨key,v,.inr found,own⟩
  have made : ∀ {key}, setAside clash key → (assembled clash left right shared props single more).get? key =
        if key = "properties" then props else if key = "items" then single
          else if key = "additionalItems" then more else left.get? key :=
    fun away => drawn.get?_aside rSorted away
  cases away : setAside clash key with
  | false =>
    have other : key ≠ "properties" := by
      rintro rfl
      cases away
    have stems := drawn.stems rSorted away props single more
    generalize atL : left.get? key = l at stems found
    generalize atR : right.get? key = r at stems found
    generalize made : (assembled clash left right shared props single more).get? key = m at stems
    cases stems with
    | neither => rcases found with absurd | absurd <;> cases absurd
    | left l => exact ⟨key,l,made,isOwn_other other ▸ own⟩
    | right r => exact ⟨key,r,made,isOwn_other other ▸ own⟩
    | both _ _ m => exact ⟨key,m,made,isOwn_other other ▸ own⟩
  | true =>
    rcases setAside_iff.mp away with special | ⟨rfl,_⟩
    · simp only [mem_cons] at special
      rcases special with rfl | listed
      · obtain ⟨map,rfl⟩ : ∃ map, v = .obj map := by
          cases v with
          | obj map => exact ⟨map,rfl⟩
          | _ => cases own
        obtain ⟨map,rfl⟩ := properties ⟨map,found⟩
        exact ⟨"properties",.obj map,made rfl,rfl⟩
      have here : left.has key ∨ right.has key :=
        found.imp (fun at_ => has_iff.mpr ⟨v,at_⟩) fun at_ => has_iff.mpr ⟨v,at_⟩
      rcases xs ⟨key,by simpa using listed,here⟩ with some | some
      · obtain ⟨s,rfl⟩ := Option.isSome_iff_exists.mp some
        exact ⟨"items",s,made rfl,rfl⟩
      obtain ⟨s,rfl⟩ := Option.isSome_iff_exists.mp some
      exact ⟨"additionalItems",s,made rfl,rfl⟩
    · obtain ⟨cond,atIf⟩ := has_iff.mp (clashes rfl)
      exact ⟨"if",cond,(made (setAside_iff.mpr (.inr ⟨rfl,by decide⟩))).trans atIf,rfl⟩

lemma anchored_addResidual (anchored : Anchored out) (residual : List Json) : Anchored (addResidual out residual) := by
  obtain ⟨key,v,found,own⟩ := anchored
  refine ⟨key,v,(get?_addResidual ?_).trans found,own⟩
  rintro rfl
  cases own

lemma anchored_reconcileValues (anchored : Anchored out) (made : reconcileValues out path = .ok out') : Anchored out' := by
  rcases reconcileValues_cases made with rfl | ⟨_,_,_,rfl⟩
  · exact anchored
  · exact ⟨"enum",_,get?_put_self _ _ _,rfl⟩

lemma anchored_dropImplied {side : Side} {soft strict : String} (softOwn : ∀ v, isOwn soft v)
    (strictOwn : ∀ v, isOwn strict v) (apart : soft ≠ strict) (anchored : Anchored out) :
    Anchored (dropImplied side soft strict out) := by
  have held {key} {x} (found : value? out key = some x) : ∃ v, out.get? key = some v := by
    obtain ⟨v,at_,_⟩ := Option.bind_eq_some_iff.mp found
    exact ⟨v,at_⟩
  unfold dropImplied
  split
  · next atSoft atStrict =>
    split
    · obtain ⟨v,found⟩ := held atSoft
      exact ⟨soft,v,(get?_erase_other apart.symm).trans found,softOwn v⟩
    obtain ⟨v,found⟩ := held atStrict
    exact ⟨strict,v,(get?_erase_other apart).trans found,strictOwn v⟩
  · exact anchored

lemma anchored_fold (anchored : Anchored out) : Anchored (fold out) :=
  anchored_dropImplied (fun _ => rfl) (fun _ => rfl) (by decide)
    (anchored_dropImplied (fun _ => rfl) (fun _ => rfl) (by decide) anchored)

lemma notes_assembled (drawn : Gathered noteRule clash left right [] shared extra) (rSorted : right.Sorted)
    (note : shape key = .note) (props single more : Option Json) :
    (assembled clash left right shared props single more).get? key = (left.get? key).or (right.get? key) := by
  have stems := drawn.stems rSorted (note_inPlace clash note) props single more
  generalize left.get? key = l at stems
  generalize right.get? key = r at stems
  generalize (assembled clash left right shared props single more).get? key = m at stems
  cases stems with
  | neither | left | right => rfl
  | both _ _ _ ruled => rw [ruled note]; rfl

lemma note_unwritten (note : shape key = .note) : key ≠ "allOf" ∧ key ≠ "enum" ∧ limit? key = none := by
  refine ⟨?_,?_,?_⟩
  · rintro rfl; cases note
  · rintro rfl; cases note
  cases limited : limit? key with
  | none => rfl
  | some limit => rcases limit_shape limited with bound | bound <;> rw [bound] at note <;> cases note

lemma yields_objectsCarries (leftSorted : left.Sorted) (rightSorted : right.Sorted) :
    Yields (fun _ => True) (objects lookup recur left right path) (Carries left right) := by
  refine .bind (runs_sharedKeywords noteRule leftSorted path (fun key l r _ _ _ =>
    yields_keywordNote key l r path) _).yields ?_
  rintro ⟨shared,residual⟩ ⟨extra,rfl,drawn⟩
  refine .bind (yields_propertiesKept lookup recur left right path) fun props propsKept => ?_
  refine .bind (yields_itemsKept recur left right path) ?_
  rintro ⟨single,more⟩ itemsKept
  refine .bind (.ofAny fun out reconciled => reconciled) fun out reconciled => ?_
  refine .bind (.ofAny fun _ _ => trivial) fun _ (_ : True) => .pure ⟨fun key note => ?_,fun anchored => ?_⟩
  · obtain ⟨notAllOf,notEnum,unbounded⟩ := note_unwritten note
    rw [get?_fold unbounded,get?_reconcileValues reconciled notEnum]
    exact (get?_addResidual notAllOf).trans (notes_assembled drawn rightSorted note props single more)
  have clashes : conditionalsClash left right → left.has "if" := by
    intro clash
    unfold conditionalsClash at clash
    rw [Bool.and_eq_true,Bool.and_eq_true] at clash
    exact clash.1.1
  exact anchored_fold (anchored_reconcileValues (anchored_addResidual (anchored_assembled drawn rightSorted clashes
    propsKept itemsKept anchored) _) reconciled)
end Assembled
lemma matched_assembled (keeps : KeepsKin recur) (atL : EvenFields grounded left left')
    (atR : EvenFields grounded right right') :
    Matched Parallel (objects lookup recur left right path) (objects lookup recur left' right' path) := by
  have gathers {left right} clash residual (sorted : left.Sorted) :
      Yields (fun _ => True) (sharedKeywords recur clash left right path residual) fun made =>
      ∃ extra, Gathered noteRule clash left right [] made.1 extra := by
    refine (runs_sharedKeywords noteRule sorted path (fun key l r _ _ _ =>
      yields_keywordNote key l r path) residual).yields.mono ?_
    rintro made ⟨extra,_,drawn⟩
    exact ⟨extra,drawn⟩
  unfold objects
  rw [conditionalsClash_congr atL.toKinFields atR.toKinFields,pick_congr atR.toKinFields]
  generalize conditionalsClash left' right' = clash
  refine .bind (.and (matched_sharedKeywords (atL.aligned clash) (fun key effective inPlace =>
    atR.inPlace effective fun special => ?_) _) (gathers clash _ atL.leftSorted) (gathers clash _ atL.rightSorted)) ?_
  · rw [setAside_iff.mpr (.inl special)] at inPlace
    cases inPlace
  rintro ⟨shared,residual⟩ ⟨shared',_⟩ ⟨⟨rfl,same⟩,⟨extra,drawn⟩,⟨extra',gathered'⟩⟩
  refine .bind (matched_properties keeps atL.toKinFields atR.toKinFields) fun props props' properties => ?_
  refine .bind (matched_items keeps atL.toKinFields atR.toKinFields) ?_
  rintro ⟨single,more⟩ ⟨single',more'⟩ xs
  have parallel := parallel_assembled atL atR drawn gathered' same properties xs
  refine .bind (parallel.addResidual _).reconcileValues fun out out' parallel => ?_
  exact .bind parallel.fold.checkBounds fun _ _ _ => .pure parallel.fold

lemma matched_objects (keeps : KeepsKin recur) (atL : EvenFields grounded left left')
    (atR : EvenFields grounded right right') :
    Matched (EvenFields grounded) (objects lookup recur left right path) (objects lookup recur left' right' path) := by
  have parallel : Matched Parallel (objects lookup recur left right path) (objects lookup recur left' right' path) :=
    matched_assembled keeps atL atR
  have ord := Matched.and parallel (yields_objectsOrderly keeps.keepsOrder steady atL.left atR.left)
    (yields_objectsOrderly keeps.keepsOrder steady atL.right atR.right)
  refine (Matched.and ord (yields_objectsCarries atL.leftSorted atR.leftSorted)
    (yields_objectsCarries atL.rightSorted atR.rightSorted)).mono ?_
  rintro out out' ⟨⟨parallel,outOrderly,outOrderly'⟩,carries,carries'⟩
  refine ⟨⟨outOrderly,outOrderly',fun strict => ?_,fun key effective => ?_⟩,parallel.allOf⟩
  · rcases atL.notes strict with anchored | lNotes
    · exact .inl (carries.anchored (.inl anchored))
    rcases atR.notes strict with anchored | rNotes
    · exact .inl (carries.anchored (.inr anchored))
    refine .inr fun key note => ?_
    rw [carries.notes key note,carries'.notes key note,lNotes key note,rNotes key note]
  · by_cases listed : key = "allOf"
    · subst listed
      rw [parallel.allOf]
      exact .same _
    · exact (parallel.keyed key effective).regard listed grounded

lemma Even.cases {b : Json} (even : Even grounded a b) :
    (a = b ∧ a.isObj = false ∧ a.Orderly) ∨ ∃ f g, a = .obj f ∧ b = .obj g ∧ EvenFields grounded f g := by
  rcases even.1.cases with ⟨rfl,plain⟩ | ⟨f,g,rfl,rfl,kin⟩
  · exact .inl ⟨rfl,plain,even.1.left⟩
  · exact .inr ⟨f,g,rfl,rfl,kin,even.2⟩

-- Without its `allOf` a schema is anchored as before.
lemma KinFields.erase_allOf (kin : KinFields grounded left left') :
    EvenFields grounded (left.erase "allOf") (left'.erase "allOf") := by
  have gone : ∀ {f : Fields}, f.Sorted → (f.erase "allOf").get? "allOf" = none := fun sorted => get?_erase_self sorted
  refine ⟨⟨orderly_erase kin.left,orderly_erase kin.right,fun strict => ?_,fun key effective => ?_⟩,
    (gone kin.leftSorted).trans (gone kin.rightSorted).symm⟩
  · rcases kin.notes strict with ⟨key,v,found,own⟩ | same
    · refine .inl ⟨key,v,(get?_erase_other ?_).trans found,own⟩
      rintro rfl
      cases own
    refine .inr fun key note => ?_
    have other := (note_unwritten note).1.symm
    rw [get?_erase_other other,get?_erase_other other,same key note]
  · rw [get?_erase kin.leftSorted,get?_erase kin.rightSorted]
    split
    · exact .same _
    · exact kin.keyed key effective

lemma matched_foldAllOf (keeps : KeepsKin recur) {a' : Json} (kin : Kin grounded a a') :
    Matched (Even grounded) (foldAllOf recur a path) (foldAllOf recur a' path) := by
  rcases kin.cases with ⟨rfl,plain⟩ | ⟨f,g,rfl,rfl,fs⟩
  · cases a with
    | obj => cases plain
    | _ => exact .pure (.refl kin.left)
  unfold foldAllOf
  dsimp only
  rcases fs.entries with ⟨l,r,atL,atR,each⟩ | ⟨same,unlisted⟩
  · rw [atL,atR]
    have rest := KinFields.erase_allOf fs
    refine .foldlM ?_ each.forall₂ _ _ ⟨kin_obj.mpr rest.toKinFields,rest.allOf⟩
    exact fun acc acc' e e' even entry => keeps path even.1 entry
  rw [← same]
  split
  · next listed => exact absurd listed (unlisted _)
  · exact .pure ⟨kin,same⟩

lemma keepsKin_step (keeps : KeepsKin recur) : KeepsKin (step lookup recur) := by
  intro grounded a a' b b' path kinA kinB
  refine .bind (matched_foldAllOf keeps kinA) fun a a' evenA => ?_
  refine .bind (matched_foldAllOf keeps kinB) fun b b' evenB => ?_
  -- A value that is no object is the same on both sides, so that one of the first cases is taken on both.
  rcases evenA.cases with ⟨rfl,plain,aOrd⟩ | ⟨left,left',rfl,rfl,atL⟩
  · rcases evenB.cases with ⟨rfl,_,bOrd⟩ | ⟨right,right',rfl,rfl,atR⟩
    · split
      · exact .pure evenA
      · exact .pure evenB
      · exact .pure evenB
      · exact .pure evenA
      · cases plain
      all_goals exact .conflict
    cases a with
    | bool b =>
      cases b with
      | false => exact .pure evenA
      | true => exact .pure evenB
    | obj => cases plain
    | _ => exact .conflict
  · rcases evenB.cases with ⟨rfl,plain,bOrd⟩ | ⟨right,right',rfl,rfl,atR⟩
    · cases b with
      | bool b =>
        cases b with
        | false => exact .pure evenB
        | true => exact .pure evenA
      | obj => cases plain
      | _ => exact .conflict
    · refine .bind (matched_objects keeps atL atR) fun out out' even => ?_
      exact .pure ⟨kin_obj.mpr even.toKinFields,even.allOf⟩

lemma keepsKin_mergeWithin (lookup : Lookup (StateM Unit)) (fuel : Nat) : KeepsKin (mergeWithin lookup fuel) := by
  induction fuel with
  | zero => exact fun _ _ _ => .outOfFuel
  | succ fuel ih => exact keepsKin_step ih

inductive Results (grounded : Bool) : Except Conflict Json → Except Conflict Json → Prop where
  | conflicts (c d : Conflict) : Results grounded (.error c) (.error d)
  | schemas {m m' : Json} (kin : Kin grounded m m') : Results grounded (.ok m) (.ok m')

-- Annotations may weigh something, so both merges get the fuel that lasts for the heavier one.
lemma twin_merge (lookup : Lookup (StateM Unit)) {a' b b' : Json} (kinA : Kin grounded a a')
    (kinB : Kin grounded b b') : Twin (Results grounded) (merge lookup a b) (merge lookup a' b') := by
  let fuel := max (a.heft + b.heft) (a'.heft + b'.heft)
  let fallback : Except Conflict Json := .error (.notASchema "" .null)
  rw [← mergeOr_eq_merge lookup kinA.left kinB.left (le_max_left _ _ : _ ≤ fuel) fallback,
    ← mergeOr_eq_merge lookup kinA.right kinB.right (le_max_right _ _ : _ ≤ fuel) fallback]
  refine .bind (keepsKin_mergeWithin lookup fuel "" kinA kinB) fun _ _ outcome => ?_
  cases outcome with
  | exhausted => exact .pure (.conflicts _ _)
  | conflicts c d => exact .pure (.conflicts c d)
  | results even => exact .pure (.schemas even.1)
end Intersection
end SchemaOrder
