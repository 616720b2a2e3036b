import SchemaOrder.Proofs.Intersection.Swapping
namespace SchemaOrder
open Schemas Canonical List Fields Json SchemaOrder.Normal Doubles SchemaOrder.Bound Attempt Keyword
namespace Intersection
variable {key : String} {p : Json} {formed : Json → Bool}
-- An intersection of plain keywords says what either operand says, so meeting one once more changes nothing.
def Stays (key : String) (w p : Json) : Prop :=
  ∃ made, (∀ (m : Type → Type) [Monad m] [LawfulMonad m] (recur : Step m) (path : String),
      keyword recur key w p path = pure (made,[])) ∧
    Congruent key made w ∧ (key ∈ ["const","enum"] → made = w)

def Looser (side : Side) (p w : Json) : Prop :=
  ∃ m n : Whole, p = .num (.whole m) ∧ w = .num (.whole n) ∧
    tighter side (Float.ofInt m.val) (Float.ofInt n.val) = false

def boundSide? (key : String) : Option Side :=
  match shape key with
  | .lowerBound => some .lower
  | .upperBound => some .upper
  | _ => none

lemma shape_of_side (bounded : boundSide? key = some side) : shape key ∈ [.lowerBound,.upperBound] := by
  unfold boundSide? at bounded
  split at bounded
  · next shape => simp [shape]
  · next shape => simp [shape]
  · cases bounded

lemma side_of_shape (bounded : shape key ∈ [.lowerBound,.upperBound]) : ∃ side, boundSide? key = some side := by
  unfold boundSide?
  simp only [mem_cons,not_mem_nil,or_false] at bounded
  rcases bounded with shape | shape <;> simp [shape]

def Entails (key : String) (w p : Json) : Prop :=
  match boundSide? key with
  | some side => Looser side p w
  | none => if key = "enum" then ∀ v ∈ w.itemsOrNone, v ∈ p.itemsOrNone else Stays key w p

lemma stays_equal (equal : w.deepEqual p) : Stays key w p := ⟨w,fun _ _ _ _ _ => if_pos equal,.refl key w,fun _ => rfl⟩

lemma stays_self (exact : w.isExact) : Stays key w w := stays_equal ((deepEqual_iff exact exact).mpr rfl)

lemma tighter_self (side : Side) (n : Int) : tighter side (Float.ofInt n) (Float.ofInt n) = false := by
  cases side <;> simp [tighter,lt_iff,ofInt_number]

lemma commonType?_within (common : commonType? a b = some t) : typeWithin t a ∧ typeWithin t b := by
  have self a : typeWithin a a := typeWithin_iff.mpr (.inl rfl)
  unfold commonType? at common
  split at common
  · next inner => cases common; exact ⟨self _,inner⟩
  split at common
  · next inner => cases common; exact ⟨inner,self _⟩
  · cases common

lemma typeWithin_trans (first : typeWithin a b) (second : typeWithin b c) : typeWithin a c := by
  rw [typeWithin_iff] at first second ⊢
  rcases first with rfl | ⟨rfl,rfl⟩
  · exact second
  rcases second with rfl | ⟨absurd,_⟩
  · exact .inr ⟨rfl,rfl⟩
  · exact nomatch (String.toList_inj.mpr absurd)

-- Types that two sides have in common are no news to either of them.
lemma mem_commonTypes_again {ls rs ms : List String} (common : ∀ t, t ∈ ms ↔ ∃ a ∈ ls, ∃ b ∈ rs, commonType? a b = some t)
    (t : String) : t ∈ commonTypes ms ls ↔ t ∈ ms := by
  rw [mem_commonTypes]
  constructor
  · rintro ⟨u,inside,a,inLeft,found⟩
    unfold commonType? at found
    split at found
    · cases found; exact inside
    split at found
    · next inner =>
      cases found
      obtain ⟨_,_,b,inRight,known⟩ := (common u).mp inside
      exact (common t).mpr ⟨t,inLeft,b,inRight,if_pos (typeWithin_trans inner (commonType?_within known).2)⟩
    · cases found
  · intro inside
    obtain ⟨a,inLeft,b,inRight,found⟩ := (common t).mp inside
    exact ⟨t,inside,a,inLeft,if_pos (commonType?_within found).1⟩

lemma types_path (made : types l r path = .ok m) (other : String) : types l r other = .ok m := by
  unfold types at made ⊢
  split at made
  · cases made
  all_goals exact made

lemma stays_types {others : List String} (listed : ∃ t, t ∈ typeNames w)
    (common : ∀ t, t ∈ typeNames w ↔ ∃ a ∈ typeNames p, ∃ b ∈ others, commonType? a b = some t) : Stays "type" w p := by
  cases equal : w.deepEqual p with
  | true => exact stays_equal equal
  | false =>
    have again := mem_commonTypes_again common
    obtain ⟨t,inside⟩ := listed
    obtain ⟨made,met⟩ : ∃ made, types w p "" = .ok made := types_ok.mpr ⟨t,(again t).mpr inside⟩
    refine ⟨made,fun m _ _ recur path => ?_,?_,(absurd · (by decide))⟩
    · change (if w.deepEqual p then _ else (Attempt.ofExcept (types w p path) >>= fun made => pure (made,[]) :
        Attempt m (Json × List Json))) = _
      rw [equal,types_path met]
      exact pure_bind _ _
    · refine .of_form (by decide) (congrArg (fun ns => some (strings ns)) (sortNames_congr fun t => ?_))
      rw [typeNames_types met]
      exact again t

lemma stays_names {ns : List String} {xs : List Json} (included : ∀ name ∈ xs.filterMap str?, name ∈ ns) :
    Stays "required" (.strings ns) (.arr xs) := by
  cases equal : (strings ns).deepEqual (.arr xs) with
  | true => exact stays_equal equal
  | false =>
    obtain ⟨united,made,ms⟩ := unionStrings_eq (ns.map str) xs
    refine ⟨.strings united,fun _ _ _ _ _ => ?_,congruent_names fun name => ?_,(absurd · (by decide))⟩
    · rw [← made]
      exact if_neg (by rw [equal]; decide)
    have own : (ns.map str).filterMap str? = ns := listedStrings_strings ns
    rw [ms,own]
    exact ⟨fun either => either.elim id (included name),.inl⟩

lemma stays_flags {one two : Bool} (implied : two → one) : Stays "uniqueItems" (.bool one) (.bool two) := by
  cases equal : (bool one).deepEqual (.bool two) with
  | true => exact stays_equal equal
  | false =>
    refine ⟨.bool (one || two),fun _ _ _ _ _ => if_neg (by rw [equal]; decide),?_,(absurd · (by decide))⟩
    have same : (one || two) = one := by cases one <;> cases two <;> simp_all
    rw [same]
    exact .refl _ _

structure PlainAt (key : String) (s : Json) : Prop where
  known : Vocabulary.plain.has key
  formed : keywordFormed (isSchema .plain) key s
namespace PlainAt
lemma exact (plain : PlainAt key s) : s.isExact := exact_keyword (fun _ _ => exact_schema) plain.formed

lemma whole (plain : PlainAt key s) (bounded : boundSide? key = some side) : ∃ n, s = .num (.whole n) := by
  unfold boundSide? at bounded
  split at bounded
  · next shape => exact (formed_bound (.inl shape)).mp plain.formed
  · next shape => exact (formed_bound (.inr shape)).mp plain.formed
  · cases bounded

lemma members (plain : PlainAt "enum" s) : ∃ members, s = .arr members ∧ ∀ v ∈ members, v.isExact :=
  members_of_enum plain.formed

-- Plain keywords by name or by shape.
lemma cases (plain : PlainAt key s) : key ∈ ["type","const","uniqueItems","required"] ∨ shape key = .note ∨
    key = "enum" ∨ ∃ side, boundSide? key = some side := by
  unfold boundSide?
  rcases plain_shape plain.known with shape | named
  · simp only [mem_cons,not_mem_nil,or_false] at shape
    rcases shape with shape | shape | shape <;> simp [shape]
  · fin_cases named <;> simp
end PlainAt
lemma entails_bound (bounded : boundSide? key = some side) : Entails key w p ↔ Looser side p w := by
  unfold Entails
  rw [bounded]

lemma entails_stays (unbounded : boundSide? key = none) (other : key ≠ "enum") : Entails key w p ↔ Stays key w p := by
  unfold Entails
  rw [unbounded]
  exact iff_of_eq (if_neg other)

lemma boundSide?_note (note : shape key = .note) : boundSide? key = none ∧ key ≠ "enum" := by
  constructor
  · unfold boundSide?
    rw [note]
  rintro rfl
  cases note

lemma entails_self (plain : PlainAt key w) : Entails key w w := by
  rcases plain.cases with named | note | rfl | ⟨side,bounded⟩
  · fin_cases named <;> exact stays_self plain.exact
  · obtain ⟨unbounded,other⟩ := boundSide?_note note
    exact (entails_stays unbounded other).mpr (stays_self plain.exact)
  · exact fun v inside => inside
  · obtain ⟨n,rfl⟩ := plain.whole bounded
    exact (entails_bound bounded).mpr ⟨n,n,rfl,rfl,tighter_self side n.val⟩

lemma keyword_bound {m : Type → Type} [Monad m] {recur : Step m} {side : Side} (bounded : boundSide? key = some side)
    (apart : l.deepEqual r = false) : keyword recur key l r path = pure (bound side l r,[]) := by
  unfold boundSide? at bounded
  split at bounded
  · next shape => cases bounded; exact keyword_lower shape apart
  · next shape => cases bounded; exact keyword_upper shape apart
  · cases bounded

lemma Entails.stays (entails : Entails key w p) (plain : PlainAt key w) (other : PlainAt key p)
    (listed : key = "enum" → w.itemsOrNone ≠ []) : Stays key w p := by
  rcases plain.cases with named | note | rfl | ⟨side,bounded⟩
  · fin_cases named <;> exact entails
  · obtain ⟨unbounded,other⟩ := boundSide?_note note
    exact (entails_stays unbounded other).mp entails
  · obtain ⟨ws,rfl,exacts⟩ := plain.members
    obtain ⟨ps,rfl,_⟩ := other.members
    cases equal : (arr ws).deepEqual (.arr ps) with
    | true => exact stays_equal equal
    | false =>
      have all : (ws.filter fun v => ps.any fun u => v.deepEqual u) = ws := by
        refine filter_eq_self.mpr fun v inside => any_eq_true.mpr ⟨v,entails v inside,?_⟩
        exact (deepEqual_iff (exacts v inside) (exacts v inside)).mpr rfl
      have met path : enums (.arr ws) (.arr ps) path = .ok (.arr ws) := by
        unfold enums
        dsimp only
        rw [all]
        split
        · exact absurd rfl (listed rfl)
        · rfl
      refine ⟨.arr ws,fun m _ _ recur path => ?_,.refl _ _,fun _ => rfl⟩
      change (if (arr ws).deepEqual (.arr ps) then _ else (Attempt.ofExcept (enums (.arr ws) (.arr ps) path) >>=
        fun made => pure (made,[]) : Attempt m (Json × List Json))) = _
      rw [equal,met]
      exact pure_bind _ _
  · cases equal : w.deepEqual p with
    | true => exact stays_equal equal
    | false =>
      obtain ⟨m,n,rfl,rfl,loose⟩ := (entails_bound bounded).mp entails
      have kept : bound side (.num (.whole n)) (.num (.whole m)) = .num (.whole n) := by
        change (if tighter side (Float.ofInt m.val) (Float.ofInt n.val) then _ else _) = _
        rw [loose]
        rfl
      refine ⟨.num (.whole n),fun _ _ _ _ _ => ?_,.refl _ _,fun _ => rfl⟩
      rw [keyword_bound bounded equal,kept]

structure Joint (key : String) (l r m : Json) : Prop where
  plain : PlainAt key m
  left : Entails key m l
  right : Entails key m r

lemma joint_types {m : Json} (made : types l r path = .ok m) : Joint "type" l r m := by
  obtain ⟨t,listed⟩ := types_ok.mp ⟨m,made⟩
  have ns := typeNames_types made
  have common : ∀ t, t ∈ typeNames m ↔ ∃ a ∈ typeNames l, ∃ b ∈ typeNames r, commonType? a b = some t := by
    rw [ns]
    exact fun t => mem_commonTypes _ _
  have swapped : ∀ t, t ∈ typeNames m ↔ ∃ a ∈ typeNames r, ∃ b ∈ typeNames l, commonType? a b = some t := by
    rw [ns]
    exact fun t => (mem_commonTypes_comm _ _ t).trans (mem_commonTypes _ _)
  exact ⟨⟨by decide,formed_types made⟩,stays_types ⟨t,ns ▸ listed⟩ common,stays_types ⟨t,ns ▸ listed⟩ swapped⟩

lemma joint_enums (left : PlainAt "enum" l) (right : PlainAt "enum" r) (made : enums l r path = .ok m) :
    Joint "enum" l r m := by
  obtain ⟨ls,rfl,lefts⟩ := left.members
  obtain ⟨rs,rfl,rights⟩ := right.members
  obtain ⟨common,rfl,ms⟩ := mem_enums lefts rights made
  refine ⟨⟨left.known,formed_enum.mpr fun v inside => lefts v ((ms v).mp inside).1⟩,?_,?_⟩
  · exact fun v inside => ((ms v).mp inside).1
  · exact fun v inside => ((ms v).mp inside).2

lemma joint_names (left : PlainAt "required" l) (right : PlainAt "required" r) :
    Joint "required" l r (.arr (unionStrings l.itemsOrNone r.itemsOrNone)) := by
  obtain ⟨ls,rfl⟩ := isNames_iff.mp left.formed
  obtain ⟨rs,rfl⟩ := isNames_iff.mp right.formed
  obtain ⟨ns,made,ms⟩ := unionStrings_eq (strings ls).itemsOrNone (strings rs).itemsOrNone
  rw [made]
  refine ⟨⟨left.known,isNames_iff.mpr ⟨ns,rfl⟩⟩,?_,?_⟩
  · exact stays_names fun name inside => (ms name).mpr (.inl inside)
  · exact stays_names fun name inside => (ms name).mpr (.inr inside)

lemma joint_flags (left : PlainAt "uniqueItems" l) (right : PlainAt "uniqueItems" r) :
    Joint "uniqueItems" l r (.bool (l.bool?.getD false || r.bool?.getD false)) := by
  have flag {s} (plain : PlainAt "uniqueItems" s) : ∃ b, s = .bool b := by
    have formed := plain.formed
    cases s with
    | bool b => exact ⟨b,rfl⟩
    | _ => cases formed
  obtain ⟨a,rfl⟩ := flag left
  obtain ⟨b,rfl⟩ := flag right
  refine ⟨⟨left.known,rfl⟩,stays_flags fun on => ?_,stays_flags fun on => ?_⟩
  · exact Bool.or_eq_true_iff.mpr (.inl on)
  · exact Bool.or_eq_true_iff.mpr (.inr on)

lemma joint_bound (bounded : boundSide? key = some side) (left : PlainAt key l) (right : PlainAt key r) :
    Joint key l r (bound side l r) := by
  obtain ⟨m,rfl⟩ := left.whole bounded
  obtain ⟨n,rfl⟩ := right.whole bounded
  change Joint key _ _ (if tighter side (Float.ofInt n.val) (Float.ofInt m.val) then num (.whole n) else .num (.whole m))
  cases tight : tighter side (Float.ofInt n.val) (Float.ofInt m.val) with
  | true =>
    have loose : tighter side (Float.ofInt m.val) (Float.ofInt n.val) = false := by
      cases side <;> simp only [tighter,decide_eq_true_eq,decide_eq_false_iff_not,lt_iff,ofInt_number] at * <;> order
    exact ⟨right,(entails_bound bounded).mpr ⟨m,n,rfl,rfl,loose⟩,entails_self right⟩
  | false => exact ⟨left,entails_self left,(entails_bound bounded).mpr ⟨n,m,rfl,rfl,tight⟩⟩
section Merging
variable {σ : Type} {inv : σ → Prop} {lookup : Lookup (StateM σ)}
lemma yields_joint (left : PlainAt key l) (right : PlainAt key r) :
    Yields inv (keyword recur key l r path) fun made => Joint key l r made.1 ∧ made.2 = [] := by
  cases equal : l.deepEqual r with
  | true =>
    obtain rfl := (deepEqual_iff left.exact right.exact).mp equal
    rw [keyword_self left.exact]
    exact .pure ⟨⟨left,entails_self left,entails_self left⟩,rfl⟩
  | false =>
    have apart : ¬ l.deepEqual r := by rw [equal]; decide
    have reads : ∀ {x}, keyword recur key l r path = x → Yields inv x (fun made => Joint key l r made.1 ∧ made.2 = []) →
        Yields inv (keyword recur key l r path) fun made => Joint key l r made.1 ∧ made.2 = [] := by
      rintro _ rfl yields
      exact yields
    rcases left.cases with named | note | rfl | ⟨side,bounded⟩
    · fin_cases named
      · exact reads (if_neg apart) (.bind (.ofAny fun _ made => joint_types made) fun _ joint => .pure ⟨joint,rfl⟩)
      · exact reads (if_neg apart) (.conflict trivial)
      · exact reads (if_neg apart) (.pure ⟨joint_flags left right,rfl⟩)
      · exact reads (if_neg apart) (.pure ⟨joint_names left right,rfl⟩)
    · obtain ⟨unbounded,other⟩ := boundSide?_note note
      have kept : Stays key l r := ⟨l,fun _ _ _ _ _ => keyword_note note l r _,.refl key l,fun _ => rfl⟩
      exact reads (keyword_note note l r path)
        (.pure ⟨⟨left,entails_self left,(entails_stays unbounded other).mpr kept⟩,rfl⟩)
    · exact reads (if_neg apart) (.bind (.ofAny fun _ made => joint_enums left right made) fun _ joint => .pure ⟨joint,rfl⟩)
    · exact reads (keyword_bound bounded equal) (.pure ⟨joint_bound bounded left right,rfl⟩)

structure PlainFields (fs : Fields) : Prop where
  sorted : fs.Sorted
  each : ∀ key s, fs.get? key = some s → PlainAt key s
variable {left right whole part : Fields}
lemma PlainFields.plain (plain : PlainFields fs) : fs.Plain := fun key s found => (plain.each key s found).known

lemma PlainFields.exact (plain : PlainFields fs) : (obj fs).isExact :=
  exact_obj.mpr ⟨plain.sorted,fun _ mem => (plain.each _ _ (get?_of_mem plain.sorted mem)).exact⟩

lemma plainFields_formed (formed : Formed .plain fs) : PlainFields fs :=
  ⟨formed.sorted,fun key s found => ⟨Vocabulary.has_of_allows (formed.allowed key s found),formed.formed key s found⟩⟩

structure Compound (left right whole : Fields) : Prop where
  sorted : whole.Sorted
  stems : ∀ key, Stems (Joint key) (left.get? key) (right.get? key) (whole.get? key)
namespace Compound
variable (compound : Compound left right whole)
include compound
lemma swap : Compound right left whole :=
  ⟨compound.sorted,fun key => (compound.stems key).swap fun _ _ _ joint => ⟨joint.plain,joint.right,joint.left⟩⟩

lemma plainFields (lPlain : PlainFields left) (rPlain : PlainFields right) : PlainFields whole := by
  refine ⟨compound.sorted,fun key s found => ?_⟩
  rcases (found ▸ compound.stems key).sources with atL | atR | ⟨_,_,_,_,joint⟩
  · exact lPlain.each key s atL
  · exact rPlain.each key s atR
  · exact joint.plain

lemma entails (lPlain : PlainFields left) (found : left.get? key = some p) :
    ∃ w, whole.get? key = some w ∧ Entails key w p := by
  have stems := compound.stems key
  rw [found] at stems
  generalize right.get? key = r at stems
  generalize whole.get? key = w at stems
  cases stems with
  | left => exact ⟨p,rfl,entails_self (lPlain.each key p found)⟩
  | both _ _ m joint => exact ⟨m,rfl,joint.left⟩
omit compound in
lemma absent (compound : Compound left right whole) (noLeft : left.get? key = none) (noRight : right.get? key = none) :
    whole.get? key = none := by
  have stems := compound.stems key
  rw [noLeft,noRight] at stems
  generalize whole.get? key = w at stems
  cases stems
  rfl
end Compound
lemma sharedPlain (lPlain : PlainFields left) (rPlain : PlainFields right) :
    objects lookup recur left right path = sharedKeywords recur false left right path [] >>= fun shared =>
      checked (addResidual (assembled false left right shared.1 none none none) shared.2) path := by
  have undeclared : properties lookup recur left right path = pure none := by
    refine properties_none ?_ ?_
    · rw [lPlain.plain.absent (by decide)]; rfl
    · rw [rPlain.plain.absent (by decide)]; rfl
  have unlisted : items recur left right path = pure (none,none) := by
    rw [items_none (lPlain.plain.absent (by decide)) (rPlain.plain.absent (by decide)),
      lPlain.plain.absent (by decide),rPlain.plain.absent (by decide)]
    exact pure_bind _ _
  rw [objects_eq (lPlain.plain.absent (by decide)),undeclared,unlisted]
  simp only [pure_bind]

-- Plain keywords are never set aside, and those that are not plain are absent.
lemma stems_assembled {extra : String → List Json} (lPlain : PlainFields left)
    (rPlain : PlainFields right) (drawn : Gathered rule false left right [] shared extra) (key : String) :
    Stems (fun l r m => rule key l r m (extra key)) (left.get? key) (right.get? key)
      ((assembled false left right shared none none none).get? key) := by
  cases away : setAside false key with
  | false => exact drawn.stems rPlain.sorted away none none none
  | true =>
    have unknown : Vocabulary.plain.has key = false := by
      rcases setAside_iff.mp away with special | ⟨impossible,_⟩
      · fin_cases special <;> decide
      · cases impossible
    rw [lPlain.plain.absent unknown,rPlain.plain.absent unknown,drawn.get?_unlisted rPlain.sorted away,ite_self]
    exact .neither
end Merging
inductive Folding : Side → String → String → Prop where
  | lower : Folding .lower "minimum" "exclusiveMinimum"
  | upper : Folding .upper "maximum" "exclusiveMaximum"

def foldPair (side : Side) (soft strict : Option Json) : Option Json × Option Json :=
  match soft.bind float?, strict.bind float? with
  | some s, some t => if tighter side s t then (soft,none) else (none,strict)
  | _, _ => (soft,strict)
section Folding
variable {side : Side} {soft strict : String}
lemma Folding.sides (folding : Folding side soft strict) : boundSide? soft = some side ∧ boundSide? strict = some side := by
  cases folding <;> exact ⟨rfl,rfl⟩

lemma Folding.apart (folding : Folding side soft strict) (unbounded : boundSide? key = none) : key ≠ soft ∧ key ≠ strict := by
  constructor <;> rintro rfl
  · cases folding.sides.1.symm.trans unbounded
  · cases folding.sides.2.symm.trans unbounded

lemma folding_or_apart (key : String) : (∃ side soft strict, Folding side soft strict ∧ (key = soft ∨ key = strict)) ∨
    ∀ {side soft strict}, Folding side soft strict → key ≠ soft ∧ key ≠ strict := by
  by_cases folds : ∃ side soft strict, Folding side soft strict ∧ (key = soft ∨ key = strict)
  · exact .inl folds
  · exact .inr fun {side soft strict} folding => not_or.mp fun named => folds ⟨side,soft,strict,folding,named⟩

lemma Folding.unique (one : Folding side soft strict)
    (two : Folding side' soft' strict') : (soft = soft' → side = side' ∧ strict = strict') ∧
      (strict = strict' → side = side' ∧ soft = soft') ∧ soft ≠ strict' := by
  cases one <;> cases two <;> decide

lemma foldPair_soft (side : Side) (soft : Option Json) : foldPair side soft none = (soft,none) := by
  unfold foldPair
  cases soft.bind float? <;> rfl

lemma foldPair_strict (side : Side) (strict : Option Json) : foldPair side none strict = (none,strict) := rfl

lemma foldPair_whole (side : Side) (m n : Whole) : foldPair side (some (.num (.whole m))) (some (.num (.whole n))) =
    if tighter side (Float.ofInt m.val) (Float.ofInt n.val) then (some (.num (.whole m)),none)
      else (none,some (.num (.whole n))) := rfl

lemma dropImplied_pair (sorted : fs.Sorted) (ne : soft ≠ strict) :
    ((dropImplied side soft strict fs).get? soft,(dropImplied side soft strict fs).get? strict) =
      foldPair side (fs.get? soft) (fs.get? strict) := by
  unfold dropImplied foldPair value?
  cases (fs.get? soft).bind float? with
  | none => rfl
  | some s =>
    cases (fs.get? strict).bind float? with
    | none => rfl
    | some t =>
      dsimp only
      split
      · rw [get?_erase_other ne.symm,get?_erase_self sorted]
      · rw [get?_erase_other ne,get?_erase_self sorted]

lemma fold_pair (folding : Folding side soft strict) (sorted : fs.Sorted) :
    ((fold fs).get? soft,(fold fs).get? strict) = foldPair side (fs.get? soft) (fs.get? strict) := by
  cases folding with
  | lower =>
    rw [← dropImplied_pair sorted (by decide)]
    exact Prod.ext (get?_dropImplied (by decide) (by decide) _) (get?_dropImplied (by decide) (by decide) _)
  | upper =>
    unfold fold
    rw [dropImplied_pair (sorted_dropImplied sorted) (by decide),get?_dropImplied (by decide) (by decide),
      get?_dropImplied (by decide) (by decide)]

lemma get?_fold_other (apart : ∀ {side soft strict}, Folding side soft strict → key ≠ soft ∧ key ≠ strict) :
    (fold fs).get? key = fs.get? key := by
  have lower := apart .lower
  have upper := apart .upper
  unfold fold
  rw [get?_dropImplied (Ne.symm upper.1) (Ne.symm upper.2),get?_dropImplied (Ne.symm lower.1) (Ne.symm lower.2)]

lemma get?_of_fold (sorted : fs.Sorted) (found : (fold fs).get? key = some s) : fs.get? key = some s :=
  get?_of_mem sorted (mem_fold (mem_of_get? found))
end Folding
section Numbers
variable {side : Side}
lemma looser_trans (first : tighter side (Float.ofInt a) (Float.ofInt b) = false)
    (second : tighter side (Float.ofInt b) (Float.ofInt c) = false) : tighter side (Float.ofInt a) (Float.ofInt c) = false := by
  cases side <;> simp only [tighter,decide_eq_false_iff_not,lt_iff,ofInt_number] at * <;> order

lemma tighter_of_looser (tight : tighter side (Float.ofInt a) (Float.ofInt b))
    (loose : tighter side (Float.ofInt c) (Float.ofInt b) = false) : tighter side (Float.ofInt a) (Float.ofInt c) := by
  cases side <;> simp only [tighter,decide_eq_true_eq,decide_eq_false_iff_not,lt_iff,ofInt_number] at * <;> order
end Numbers
inductive Missing (whole : Fields) : String → Json → Prop where
  | listed {c p : Json} (constant : whole.get? "const" = some c) (inside : c ∈ p.itemsOrNone) : Missing whole "enum" p
  | soft {side : Side} {soft strict : String} {p t : Json} (folding : Folding side soft strict)
      (kept : whole.get? strict = some t) (loose : Looser side p t) : Missing whole soft p
  | strict {side : Side} {soft strict : String} {m n : Whole} (folding : Folding side soft strict)
      (kept : whole.get? soft = some (.num (.whole m)))
      (tight : tighter side (Float.ofInt m.val) (Float.ofInt n.val)) : Missing whole strict (.num (.whole n))

structure Absorbs (whole part : Fields) : Prop where
  plain : PlainFields whole
  settled : Settled whole
  constant : ∀ c, whole.get? "const" = some c → whole.get? "enum" = none ∧ fitsType whole c
  members : ∀ list, whole.get? "enum" = some (.arr list) → list ≠ [] ∧ ∀ v ∈ list, fitsType whole v
  folded : ∀ {side soft strict}, Folding side soft strict → whole.get? soft = none ∨ whole.get? strict = none
  entails : ∀ key w p, whole.get? key = some w → part.get? key = some p → Entails key w p
  missing : ∀ key p, part.get? key = some p → whole.get? key = none → Missing whole key p

lemma get?_settle_bound (bounded : boundSide? key = some side) (fs : Fields) : (settle fs).get? key = fs.get? key := by
  refine get?_settle (fun special => ?_) fs
  fin_cases special <;> cases bounded
namespace Missing
variable {whole : Fields} {side : Side}
-- A looser bound is missing for the same reason.
lemma entailed (missing : Missing whole key w) (bounded : boundSide? key = some side) (loose : Looser side p w) :
    Missing whole key p := by
  obtain ⟨i,j,rfl,rfl,loose⟩ := loose
  cases missing with
  | listed => cases bounded
  | soft folding kept other =>
    cases folding.sides.1.symm.trans bounded
    obtain ⟨_,n,is,rfl,other⟩ := other
    cases is
    exact .soft folding kept ⟨i,n,rfl,rfl,looser_trans loose other⟩
  | strict folding kept tight =>
    cases folding.sides.2.symm.trans bounded
    exact .strict folding kept (tighter_of_looser tight loose)

lemma settle (missing : Missing fs key p) (bounded : boundSide? key = some side) : Missing (settle fs) key p := by
  cases missing with
  | listed => cases bounded
  | soft folding kept loose =>
    exact .soft folding ((get?_settle_bound folding.sides.2 fs).trans kept) loose
  | strict folding kept tight =>
    exact .strict folding ((get?_settle_bound folding.sides.1 fs).trans kept) tight

lemma of_fold (plain : PlainFields fs) (found : fs.get? key = some w) (gone : (fold fs).get? key = none) :
    Missing (fold fs) key w := by
  rcases folding_or_apart key with ⟨side,soft,strict,folding,named⟩ | apart
  · have pair := fold_pair folding plain.sorted
    have whole : ∀ {name s}, boundSide? name = some side → fs.get? name = some s → ∃ n, s = .num (.whole n) :=
      fun bounded found => (plain.each _ _ found).whole bounded
    obtain ⟨softSide,strictSide⟩ := folding.sides
    rcases named with rfl | rfl
    · obtain ⟨m,rfl⟩ := whole softSide found
      cases atStrict : fs.get? strict with
      | none =>
        rw [found,atStrict] at pair
        cases gone.symm.trans (Prod.mk.inj pair).1
      | some t =>
        obtain ⟨n,rfl⟩ := whole strictSide atStrict
        rw [found,atStrict,foldPair_whole] at pair
        cases tight : tighter side (Float.ofInt m.val) (Float.ofInt n.val) with
        | true =>
          rw [tight] at pair
          cases gone.symm.trans (Prod.mk.inj pair).1
        | false =>
          rw [tight] at pair
          exact .soft folding (Prod.mk.inj pair).2 ⟨m,n,rfl,rfl,tight⟩
    obtain ⟨n,rfl⟩ := whole strictSide found
    cases atSoft : fs.get? soft with
    | none =>
      rw [found,atSoft] at pair
      cases gone.symm.trans (Prod.mk.inj pair).2
    | some s =>
      obtain ⟨m,rfl⟩ := whole softSide atSoft
      rw [found,atSoft,foldPair_whole] at pair
      cases tight : tighter side (Float.ofInt m.val) (Float.ofInt n.val) with
      | true =>
        rw [tight] at pair
        exact .strict folding (Prod.mk.inj pair).1 tight
      | false =>
        rw [tight] at pair
        cases gone.symm.trans (Prod.mk.inj pair).2
  · rw [get?_fold_other apart,found] at gone
    cases gone
end Missing
lemma folded_fold (plain : PlainFields fs) (folding : Folding side soft strict) :
    (fold fs).get? soft = none ∨ (fold fs).get? strict = none := by
  have pair := fold_pair folding plain.sorted
  cases atSoft : fs.get? soft with
  | none =>
    rw [atSoft] at pair
    exact .inl (Prod.mk.inj pair).1
  | some s =>
    cases atStrict : fs.get? strict with
    | none =>
      rw [atStrict,foldPair_soft] at pair
      exact .inr (Prod.mk.inj pair).2
    | some t =>
      obtain ⟨m,rfl⟩ := (plain.each _ _ atSoft).whole folding.sides.1
      obtain ⟨n,rfl⟩ := (plain.each _ _ atStrict).whole folding.sides.2
      rw [atSoft,atStrict,foldPair_whole] at pair
      split at pair
      · exact .inr (Prod.mk.inj pair).2
      · exact .inl (Prod.mk.inj pair).1

lemma Reconciled.plainFields (reconciled : Reconciled whole out) (plain : PlainFields whole) : PlainFields out := by
  refine ⟨reconciled.sorted plain.sorted,fun key s found => ?_⟩
  by_cases listed : key = "enum"
  · subst listed
    cases present : whole.get? "enum" with
    | none => rw [reconciled.none present] at found; cases found
    | some t =>
      obtain ⟨ms,rfl,exacts⟩ := (plain.each _ _ present).members
      rw [(reconciled.some ms present).2] at found
      cases found
      exact ⟨by decide,formed_enum.mpr fun v inside => exacts v (mem_filter.mp inside).1⟩
  · rw [reconciled.other key listed] at found
    exact plain.each key s found

lemma PlainFields.fold (plain : PlainFields fs) : PlainFields (fold fs) :=
  ⟨sorted_fold plain.sorted,fun key s found => plain.each key s (get?_of_fold plain.sorted found)⟩

structure Finished (whole out : Fields) : Prop where
  plain : PlainFields out
  other : ∀ {key}, boundSide? key = none → key ≠ "enum" → out.get? key = whole.get? key
  bound : ∀ {key side}, boundSide? key = some side → ∀ w, out.get? key = some w → whole.get? key = some w
  dropped : ∀ {key w}, whole.get? key = some w → key ≠ "enum" → out.get? key = none → Missing out key w
  folded : ∀ {side soft strict}, Folding side soft strict → out.get? soft = none ∨ out.get? strict = none
  constant : ∀ c, whole.get? "const" = some c → fitsType whole c
  unlisted : whole.get? "enum" = none → out.get? "enum" = none
  listed : ∀ {list}, whole.get? "enum" = some (.arr list) →
    keptMembers whole list ≠ [] ∧ out.get? "enum" = some (.arr (keptMembers whole list))

lemma finished_fold (plain : PlainFields whole) (made : Reconciled whole reconciled) : Finished whole (fold reconciled) := by
  have plainNow := made.plainFields plain
  have listed : (fold reconciled).get? "enum" = reconciled.get? "enum" := get?_fold rfl _
  refine ⟨plainNow.fold,fun {key} unbounded other => ?_,fun {key side} bounded w found => ?_,fun {key w} found other gone => ?_,
    folded_fold plainNow,made.constant,fun absent => listed.trans (made.none absent),
    fun present => ⟨(made.some _ present).1,listed.trans (made.some _ present).2⟩⟩
  · rw [get?_fold_other fun folding => folding.apart unbounded,made.other key other]
  · rw [← made.other key (by rintro rfl; cases bounded)]
    exact get?_of_fold plainNow.sorted found
  · exact Missing.of_fold plainNow ((made.other key other).trans found) gone
section Settling
variable {left right whole out : Fields}
lemma fitsType_type (same : f.get? "type" = g.get? "type") (v : Json) : fitsType f v = fitsType g v := by
  unfold fitsType
  rw [same]
namespace Finished
variable (finished : Finished whole out) (plain : PlainFields whole)
include finished
lemma const : out.get? "const" = whole.get? "const" := finished.other rfl (by decide)

lemma type : out.get? "type" = whole.get? "type" := finished.other rfl (by decide)

lemma exact_of_fixed (fixed : Fixed c out (settle out)) : c.isExact := by
  rcases fixed.source with given | ⟨_,single⟩
  · exact (finished.plain.each _ _ given).exact
  obtain ⟨_,is,exacts⟩ := (finished.plain.each _ _ single).members
  cases is
  exact exacts c (mem_singleton.mpr rfl)
include plain
lemma enum (found : out.get? "enum" = some s) :
    ∃ list, whole.get? "enum" = some (.arr list) ∧ s = .arr (keptMembers whole list) ∧ keptMembers whole list ≠ [] := by
  cases present : whole.get? "enum" with
  | none => rw [finished.unlisted present] at found; cases found
  | some t =>
    obtain ⟨list,rfl,_⟩ := (plain.each _ _ present).members
    obtain ⟨some,kept⟩ := finished.listed present
    rw [kept] at found
    cases found
    exact ⟨list,rfl,rfl,some⟩

-- An enumeration beside a constant is left with that constant alone.
lemma held (given : out.get? "const" = some c) (found : out.get? "enum" = some s) : ∃ ms, s = .arr ms ∧ c.among ms := by
  obtain ⟨list,_,rfl,some⟩ := finished.enum plain found
  refine ⟨_,rfl,?_⟩
  obtain ⟨v,inside⟩ := exists_mem_of_ne_nil _ some
  have fits := (mem_filter.mp inside).2
  rw [← finished.const,given,Bool.and_eq_true] at fits
  exact any_eq_true.mpr ⟨v,inside,fits.2⟩

lemma cases : (settle out = out ∧ out.get? "const" = none) ∨ ∃ c, Fixed c out (settle out) :=
  settle_cases finished.plain.sorted fun _ given _ found => finished.held plain given found

lemma mem_of_fixed (fixed : Fixed c out (settle out))
    (present : whole.get? "enum" = some (.arr list)) : c ∈ keptMembers whole list := by
  obtain ⟨some,kept⟩ := finished.listed present
  rcases fixed.source with given | ⟨_,single⟩
  · obtain ⟨v,inside⟩ := exists_mem_of_ne_nil _ some
    obtain ⟨mem,fits⟩ := mem_filter.mp inside
    obtain ⟨_,is,exacts⟩ := (plain.each _ _ present).members
    cases is
    rw [← finished.const,given,Bool.and_eq_true] at fits
    have same := (deepEqual_iff (exacts v mem) (finished.plain.each _ _ given).exact).mp fits.2
    exact same ▸ inside
  · rw [kept] at single
    rw [arr.inj (Option.some.inj single)]
    exact mem_singleton.mpr rfl

lemma fits_of_fixed (fixed : Fixed c out (settle out)) : fitsType whole c := by
  rcases fixed.source with given | ⟨_,single⟩
  · exact finished.constant c (finished.const.symm.trans given)
  obtain ⟨list,present,_,_⟩ := finished.enum plain single
  exact (Bool.and_eq_true_iff.mp (mem_filter.mp (finished.mem_of_fixed plain fixed present)).2).1

lemma plain_settle : PlainFields (settle out) := by
  rcases finished.cases plain with ⟨same,_⟩ | ⟨c,fixed⟩
  · rw [same]
    exact finished.plain
  refine ⟨sorted_settle finished.plain.sorted,fun key s found => ?_⟩
  by_cases special : key ∈ ["const","enum","type"]
  · fin_cases special
    · cases fixed.constant.symm.trans found
      exact ⟨by decide,finished.exact_of_fixed fixed⟩
    · cases fixed.unlisted.symm.trans found
    rw [fixed.typed] at found
    cases present : out.get? "type" with
    | none => rw [present] at found; cases found; exact ⟨by decide,rfl⟩
    | some t => rw [present] at found; cases found; exact finished.plain.each _ _ present
  · exact finished.plain.each key s ((fixed.other key special).symm.trans found)

-- Away from bounds and the enumeration, settling keeps what was assembled.
lemma carried (unbounded : boundSide? key = none) (other : key ≠ "enum") (found : whole.get? key = some w) :
    (settle out).get? key = some w := by
  have atOut : out.get? key = some w := (finished.other unbounded other).trans found
  rcases finished.cases plain with ⟨same,_⟩ | ⟨c,fixed⟩
  · rw [same]
    exact atOut
  by_cases special : key ∈ ["const","enum","type"]
  · fin_cases special
    · rcases fixed.source with given | ⟨none,_⟩
      · cases given.symm.trans atOut
        exact fixed.constant
      · cases none.symm.trans atOut
    · exact absurd rfl other
    · rw [fixed.typed,atOut]
      rfl
  · rw [fixed.other key special]
    exact atOut

lemma settle_constant (given : (settle out).get? "const" = some c) :
    (settle out).get? "enum" = none ∧ fitsType (settle out) c := by
  rcases finished.cases plain with ⟨same,none⟩ | ⟨d,fixed⟩
  · rw [same,none] at given
    cases given
  cases fixed.constant.symm.trans given
  refine ⟨fixed.unlisted,?_⟩
  cases present : out.get? "type" with
  | none =>
    unfold fitsType
    rw [fixed.typed,present]
    change ([c.kind].any c.hasType)
    rw [any_cons,hasType_iff.mpr (typeWithin_iff.mpr (.inl rfl)),Bool.true_or]
  | some t =>
    have typed : (settle out).get? "type" = whole.get? "type" := by
      rw [fixed.typed,← finished.type,present]
      rfl
    rw [fitsType_type typed]
    exact finished.fits_of_fixed plain fixed

lemma settle_members (found : (settle out).get? "enum" = some (.arr list)) : list ≠ [] ∧ (∀ v ∈ list, fitsType (settle out) v) ∧
    ∀ ms, whole.get? "enum" = some (.arr ms) → ∀ v ∈ list, v ∈ ms := by
  rcases finished.cases plain with ⟨same,_⟩ | ⟨c,fixed⟩
  · rw [same] at found ⊢
    obtain ⟨ms,present,is,some⟩ := finished.enum plain found
    cases is
    refine ⟨some,fun v inside => ?_,fun others also v inside => ?_⟩
    · rw [fitsType_type finished.type]
      exact (Bool.and_eq_true_iff.mp (mem_filter.mp inside).2).1
    cases present.symm.trans also
    exact (mem_filter.mp inside).1
  · cases fixed.unlisted.symm.trans found
end Finished
lemma absorbs_left (compound : Compound left right whole) (lPlain : PlainFields left) (rPlain : PlainFields right)
    (finished : Finished whole out) : Absorbs (settle out) left := by
  have plain := compound.plainFields lPlain rPlain
  refine ⟨finished.plain_settle plain,settled_settle finished.plain.sorted,fun c given => finished.settle_constant plain given,
    fun list found => ?_,fun folding => ?_,fun key w p found part => ?_,fun key p part gone => ?_⟩
  · exact ⟨(finished.settle_members plain found).1,(finished.settle_members plain found).2.1⟩
  · rw [get?_settle_bound folding.sides.1,get?_settle_bound folding.sides.2]
    exact finished.folded folding
  · obtain ⟨w',whole,entails⟩ := compound.entails lPlain part
    cases bounded : boundSide? key with
    | some side =>
      rw [get?_settle_bound bounded] at found
      cases (finished.bound bounded w found).symm.trans whole
      exact entails
    | none =>
      by_cases listed : key = "enum"
      · subst listed
        obtain ⟨ms,rfl,_⟩ := (plain.each _ _ whole).members
        obtain ⟨list,rfl,_⟩ := ((finished.plain_settle plain).each _ _ found).members
        exact fun v inside => entails v ((finished.settle_members plain found).2.2 ms whole v inside)
      · cases (finished.carried plain bounded listed whole).symm.trans found
        exact entails
  · obtain ⟨w,whole,entails⟩ := compound.entails lPlain part
    cases bounded : boundSide? key with
    | some side =>
      rw [get?_settle_bound bounded] at gone
      have other : key ≠ "enum" := by rintro rfl; cases bounded
      exact ((finished.dropped whole other gone).entailed bounded ((entails_bound bounded).mp entails)).settle bounded
    | none =>
      by_cases listed : key = "enum"
      · subst listed
        obtain ⟨ms,rfl,_⟩ := (plain.each _ _ whole).members
        rcases finished.cases plain with ⟨same,_⟩ | ⟨c,fixed⟩
        · rw [same,(finished.listed whole).2] at gone
          cases gone
        · exact .listed fixed.constant (entails c (mem_filter.mp (finished.mem_of_fixed plain fixed whole)).1)
      · cases (finished.carried plain bounded listed whole).symm.trans gone
end Settling
namespace Missing
variable {whole : Fields} {side : Side} {soft strict : String}
lemma of_soft (missing : Missing whole soft p) (folding : Folding side soft strict) :
    ∃ t, whole.get? strict = some t ∧ Looser side p t := by
  generalize named : soft = key at missing
  cases missing with
  | listed => cases folding <;> exact absurd named (by decide)
  | soft other kept loose =>
    obtain ⟨rfl,rfl⟩ := (folding.unique other).1 named
    exact ⟨_,kept,loose⟩
  | strict other => exact absurd named (folding.unique other).2.2

lemma of_strict (missing : Missing whole strict p) (folding : Folding side soft strict) :
    ∃ m n : Whole, p = .num (.whole n) ∧ whole.get? soft = some (.num (.whole m)) ∧
      tighter side (Float.ofInt m.val) (Float.ofInt n.val) := by
  generalize named : strict = key at missing
  cases missing with
  | listed => cases folding <;> exact absurd named (by decide)
  | soft other => exact absurd named.symm (other.unique folding).2.2
  | @strict _ _ _ m n other kept tight =>
    obtain ⟨rfl,rfl⟩ := (folding.unique other).2.1 named
    exact ⟨m,n,rfl,kept,tight⟩

-- Nothing else can be missing.
lemma cases (missing : Missing whole key p) : (key = "enum" ∧ ∃ c, whole.get? "const" = some c ∧ c ∈ p.itemsOrNone) ∨
    ∃ side soft strict, Folding side soft strict ∧ (key = soft ∨ key = strict) := by
  cases missing with
  | listed constant inside => exact .inl ⟨rfl,_,constant,inside⟩
  | soft folding => exact .inr ⟨_,_,_,folding,.inl rfl⟩
  | strict folding => exact .inr ⟨_,_,_,folding,.inr rfl⟩

lemma listed_of_unbounded (missing : Missing whole key p) (unbounded : boundSide? key = none) :
    key = "enum" ∧ ∃ c, whole.get? "const" = some c ∧ c ∈ p.itemsOrNone := by
  rcases missing.cases with listed | ⟨_,_,_,folding,named⟩
  · exact listed
  · exact absurd named (not_or.mpr (folding.apart unbounded))
end Missing
structure Restored (whole part again : Fields) : Prop where
  plain : PlainFields again
  kept : ∀ {key w}, whole.get? key = some w →
    ∃ m, again.get? key = some m ∧ Congruent key m w ∧ (key ∈ ["const","enum"] → m = w)
  back : ∀ {key}, whole.get? key = none → again.get? key = part.get? key

lemma restored_of_stems (wholePlain : PlainFields whole) (partPlain : PlainFields part)
    (sorted : again.Sorted) (stems : ∀ key, Stems (fun w _ m => PlainAt key m ∧ Congruent key m w ∧ (key ∈ ["const","enum"] → m = w))
      (whole.get? key) (part.get? key) (again.get? key)) : Restored whole part again := by
  refine ⟨⟨sorted,fun key s found => ?_⟩,fun {key w} present => ?_,fun {key} absent => ?_⟩
  · have here := stems key
    rw [found] at here
    generalize atWhole : whole.get? key = w at here
    generalize atPart : part.get? key = p at here
    cases here with
    | left => exact wholePlain.each key s atWhole
    | right => exact partPlain.each key s atPart
    | both _ _ _ ruled => exact ruled.1
  · have here := stems key
    rw [present] at here
    generalize part.get? key = p at here
    generalize again.get? key = m at here
    cases here with
    | left => exact ⟨w,rfl,.refl key w,fun _ => rfl⟩
    | both _ _ m ruled => exact ⟨m,rfl,ruled.2⟩
  · have here := stems key
    rw [absent] at here
    generalize part.get? key = p at here
    generalize again.get? key = m at here
    cases here <;> rfl
section Again
variable {whole part again : Fields} {side : Side} {soft strict : String}
namespace Restored
variable (restored : Restored whole part again) (absorbs : Absorbs whole part)
include restored absorbs
-- Away from the enumeration and from bounds that fold, nothing comes back.
lemma same (other : key ≠ "enum") (apart : ∀ {side soft strict}, Folding side soft strict → key ≠ soft ∧ key ≠ strict) :
    Option.Rel (Congruent key) (again.get? key) (whole.get? key) := by
  cases found : whole.get? key with
  | some w =>
    obtain ⟨m,at_,congruent,_⟩ := restored.kept found
    rw [at_]
    exact .some congruent
  | none =>
    rw [restored.back found]
    cases present : part.get? key with
    | none => exact .none
    | some p =>
      rcases (absorbs.missing key p present found).cases with ⟨listed,_⟩ | ⟨side,soft,strict,folding,named⟩
      · exact absurd listed other
      · exact absurd named (not_or.mpr (apart folding))

lemma type : Option.Rel (Congruent "type") (again.get? "type") (whole.get? "type") :=
  restored.same absorbs (by decide) fun folding => folding.apart rfl

lemma const : again.get? "const" = whole.get? "const" := by
  cases found : whole.get? "const" with
  | some c =>
    obtain ⟨m,at_,_,equal⟩ := restored.kept found
    rw [at_,equal (by decide)]
  | none =>
    have rel := restored.same absorbs (show "const" ≠ "enum" by decide) fun folding => folding.apart rfl
    rw [found] at rel
    generalize again.get? "const" = v at rel
    cases rel
    rfl

lemma reconcilable (partPlain : PlainFields part) (path : String) : ∃ out, reconcileValues again path = .ok out := by
  have fits := CongruentFields.fitsType_congr (restored.type absorbs)
  refine ok_of_reconcilable (fun c given => ?_) (fun list found => ?_) path
  · rw [fits]
    exact (absorbs.constant c ((restored.const absorbs).symm.trans given)).2
  cases present : whole.get? "enum" with
  | some w =>
    obtain ⟨m,at_,_,equal⟩ := restored.kept present
    rw [equal (by decide)] at at_
    cases at_.symm.trans found
    obtain ⟨some,all⟩ := absorbs.members list present
    obtain ⟨v,inside⟩ := exists_mem_of_ne_nil _ some
    refine ne_nil_of_mem (a := v) (mem_filter.mpr ⟨inside,?_⟩)
    have constless : whole.get? "const" = none := by
      cases given : whole.get? "const" with
      | none => rfl
      | some c => cases (absorbs.constant c given).1.symm.trans present
    rw [fits,all v inside,restored.const absorbs,constless]
    rfl
  | none =>
    rw [restored.back present] at found
    obtain ⟨_,c,given,inside⟩ := (absorbs.missing _ _ found present).listed_of_unbounded rfl
    obtain ⟨_,is,exacts⟩ := (partPlain.each _ _ found).members
    cases is
    refine ne_nil_of_mem (a := c) (mem_filter.mpr ⟨inside,?_⟩)
    rw [fits,(absorbs.constant c given).2,restored.const absorbs,given]
    exact (deepEqual_iff (exacts c inside) (exacts c inside)).mpr rfl
omit absorbs in
lemma bound (bounded : boundSide? key = some side) (found : whole.get? key = some w) : again.get? key = some w := by
  obtain ⟨m,at_,congruent,_⟩ := restored.kept found
  rw [at_,congruent.bound (shape_of_side bounded)]

-- A bound that comes back is dropped for the reason it was dropped for.
lemma foldPair_eq (folding : Folding side soft strict) :
    foldPair side (again.get? soft) (again.get? strict) = (whole.get? soft,whole.get? strict) := by
  obtain ⟨softSide,strictSide⟩ := folding.sides
  cases atSoft : whole.get? soft with
  | some s =>
    have atStrict : whole.get? strict = none := (absorbs.folded folding).resolve_left (by rw [atSoft]; rintro ⟨⟩)
    rw [restored.bound softSide atSoft,restored.back atStrict,atStrict]
    cases present : part.get? strict with
    | none => exact foldPair_soft side _
    | some q =>
      obtain ⟨m,n,rfl,kept,tight⟩ := (absorbs.missing _ _ present atStrict).of_strict folding
      cases kept.symm.trans atSoft
      rw [foldPair_whole,tight,if_pos rfl]
  | none =>
    rw [restored.back atSoft]
    cases atStrict : whole.get? strict with
    | some t =>
      rw [restored.bound strictSide atStrict]
      cases present : part.get? soft with
      | none => exact foldPair_strict side _
      | some q =>
        obtain ⟨_,kept,m,n,rfl,rfl,loose⟩ := (absorbs.missing _ _ present atSoft).of_soft folding
        cases kept.symm.trans atStrict
        rw [foldPair_whole,loose,if_neg (by decide)]
    | none =>
      rw [restored.back atStrict]
      cases present : part.get? soft with
      | some q =>
        obtain ⟨_,kept,_⟩ := (absorbs.missing _ _ present atSoft).of_soft folding
        cases kept.symm.trans atStrict
      | none =>
        cases others : part.get? strict with
        | some q =>
          obtain ⟨_,_,_,kept,_⟩ := (absorbs.missing _ _ others atStrict).of_strict folding
          cases kept.symm.trans atSoft
        | none => rfl

lemma folds (made : Reconciled again reconciled) (bounded : boundSide? key = some side) :
    (fold reconciled).get? key = whole.get? key := by
  have reads : ∀ {name side}, boundSide? name = some side → reconciled.get? name = again.get? name :=
    fun bounded => made.other _ (by rintro rfl; cases bounded)
  rcases folding_or_apart key with ⟨side,soft,strict,folding,named⟩ | apart
  · have pair := fold_pair folding (made.sorted restored.plain.sorted)
    rw [reads folding.sides.1,reads folding.sides.2,restored.foldPair_eq absorbs folding] at pair
    rcases named with rfl | rfl
    · exact (Prod.mk.inj pair).1
    · exact (Prod.mk.inj pair).2
  rw [get?_fold_other apart,reads bounded]
  have rel := restored.same absorbs (by rintro rfl; cases bounded) apart
  generalize again.get? key = a at rel
  generalize whole.get? key = b at rel
  cases rel with
  | none => rfl
  | some congruent => rw [congruent.bound (shape_of_side bounded)]

-- Where the whole has no constant, its enumeration is left as it is.
lemma enum (finished : Finished again reconciled) (constless : whole.get? "const" = none) :
    reconciled.get? "enum" = whole.get? "enum" := by
  cases present : whole.get? "enum" with
  | some w =>
    obtain ⟨list,rfl,_⟩ := (absorbs.plain.each _ _ present).members
    obtain ⟨m,at_,_,equal⟩ := restored.kept present
    rw [equal (by decide)] at at_
    have all : keptMembers again list = list := by
      refine filter_eq_self.mpr fun v inside => ?_
      rw [CongruentFields.fitsType_congr (restored.type absorbs),(absorbs.members list present).2 v inside,
        restored.const absorbs,constless]
      rfl
    rw [(finished.listed at_).2,all]
  | none =>
    refine finished.unlisted ((restored.back present).trans ?_)
    cases others : part.get? "enum" with
    | none => rfl
    | some q =>
      obtain ⟨_,c,given,_⟩ := (absorbs.missing _ _ others present).listed_of_unbounded rfl
      cases given.symm.trans constless

lemma congruent (made : Reconciled again reconciled) : CongruentFields (settle (fold reconciled)) whole := by
  have finished := finished_fold restored.plain made
  have constant := finished.const.trans (restored.const absorbs)
  intro key
  cases bounded : boundSide? key with
  | some side =>
    rw [get?_settle_bound bounded,restored.folds absorbs made bounded]
    cases whole.get? key with
    | none => exact .none
    | some w => exact .some (.refl key w)
  | none =>
    -- either the whole has a constant, which settling puts in place of the enumeration, or nothing is settled
    rcases finished.cases restored.plain with ⟨same,none⟩ | ⟨c,fixed⟩
    · have constless : whole.get? "const" = Option.none := constant.symm.trans none
      rw [same]
      by_cases listed : key = "enum"
      · subst listed
        rw [restored.enum absorbs finished constless]
        cases whole.get? "enum" with
        | none => exact .none
        | some w => exact .some (.refl _ w)
      · rw [finished.other bounded listed]
        exact restored.same absorbs listed fun folding => folding.apart bounded
    have given : whole.get? "const" = some c := by
      rcases fixed.source with given | ⟨none,single⟩
      · exact constant.symm.trans given
      have constless := constant.symm.trans none
      rw [restored.enum absorbs finished constless] at single
      exact absurd single (absorbs.settled.several constless c)
    by_cases listed : key = "enum"
    · subst listed
      rw [fixed.unlisted,(absorbs.constant c given).1]
      exact .none
    cases present : whole.get? key with
    | some w =>
      obtain ⟨m,at_,congruent,_⟩ := restored.kept present
      rw [finished.carried restored.plain bounded listed at_]
      exact .some congruent
    | none =>
      have ungrouped : key ∉ ["const","enum","type"] := by
        simp only [mem_cons,not_mem_nil,or_false]
        rintro (rfl | rfl | rfl)
        · cases given.symm.trans present
        · exact listed rfl
        · exact absorbs.settled.typed c given present
      rw [fixed.other key ungrouped,finished.other bounded listed,← present]
      exact restored.same absorbs listed fun folding => folding.apart bounded
end Restored
section Merging
variable {σ : Type} {inv : σ → Prop} {lookup : Lookup (StateM σ)} {left right : Fields}
structure Met (left right out : Fields) : Prop where
  passed : ∃ whole, Compound left right whole ∧ Finished whole out
  roomy : checkBounds out "" = .ok ()

lemma yields_met (lPlain : PlainFields left) (rPlain : PlainFields right) :
    Yields inv (objects lookup recur left right "") (Met left right) := by
  rw [sharedPlain lPlain rPlain]
  let rule : Rule := fun key l r m here => Joint key l r m ∧ here = []
  refine .bind (runs_sharedKeywords rule lPlain.sorted "" (fun key l r atL atR _ =>
    yields_joint (lPlain.each key l atL) (rPlain.each key r atR)) []) ?_
  rintro ⟨shared,residual⟩ ⟨extra,spent,drawn⟩
  obtain rfl : residual = [] := spent.trans (drawn.spareless fun _ _ _ _ _ ruled => ruled.2)
  refine .bind (.ofAny fun reconciled made => made) fun reconciled made => ?_
  refine .bind (.ofAny fun _ passed => passed) fun _ passed => .pure ?_
  have compound : Compound left right (assembled false left right shared none none none) :=
    ⟨drawn.sorted_assembled,fun key =>
      (stems_assembled lPlain rPlain drawn key).mono fun _ _ _ ruled => ruled.1⟩
  exact ⟨⟨_,compound,finished_fold (compound.plainFields lPlain rPlain) (reconciled_of_ok made)⟩,passed⟩
namespace Met
variable {out : Fields} (met : Met left right out)
include met
lemma swap : Met right left out := by
  obtain ⟨⟨whole,compound,finished⟩,roomy⟩ := met
  exact ⟨⟨whole,compound.swap,finished⟩,roomy⟩

lemma plain : PlainFields out := by
  obtain ⟨⟨_,_,finished⟩,_⟩ := met
  exact finished.plain
variable (lPlain : PlainFields left) (rPlain : PlainFields right)
include lPlain rPlain
lemma absorbs : Absorbs (settle out) left := by
  obtain ⟨⟨_,compound,finished⟩,_⟩ := met
  exact absorbs_left compound lPlain rPlain finished

-- Where bounds are inverted after all, no operand had a type, and it was inferred from what was left of two
-- enumerations.
lemma crowded (lSettled : Settled left) (rSettled : Settled right) (crowded : checkBounds (settle out) "" ≠ .ok ()) :
    left.get? "type" = none ∧ left.get? "enum" ≠ none ∧ (settle out).get? "enum" = none := by
  obtain ⟨⟨whole,compound,finished⟩,roomy⟩ := met
  have plain := compound.plainFields lPlain rPlain
  have untyped : whole.get? "type" = none := by
    cases typed : whole.get? "type" with
    | none => rfl
    | some t =>
      refine absurd ((CongruentFields.checkBounds_congr (fun key bounded => ?_) ?_).mpr roomy) crowded
      · obtain ⟨side,bounded⟩ := side_of_shape bounded
        exact get?_settle_bound bounded out
      rw [finished.carried plain rfl (by decide) typed,finished.type.trans typed]
      exact .some (.refl _ t)
  have untypedSide {left right} (compound : Compound left right whole) (plain : PlainFields left) :
      left.get? "type" = none := by
    cases typed : left.get? "type" with
    | none => rfl
    | some t =>
      obtain ⟨_,there,_⟩ := compound.entails plain typed
      cases untyped.symm.trans there
  have constless {side} (settled : Settled side) (untyped : side.get? "type" = none) : side.get? "const" = none := by
    cases given : side.get? "const" with
    | none => rfl
    | some c => exact absurd untyped (settled.typed c given)
  have lUntyped := untypedSide compound lPlain
  have lConstless := constless lSettled lUntyped
  have rConstless := constless rSettled (untypedSide compound.swap rPlain)
  have unfixed : whole.get? "const" = none := compound.absent lConstless rConstless
  rcases finished.cases plain with ⟨same,_⟩ | ⟨c,fixed⟩
  · rw [same] at crowded
    exact absurd roomy crowded
  refine ⟨lUntyped,fun unlisted => ?_,fixed.unlisted⟩
  rcases fixed.source with given | ⟨_,single⟩
  · cases (finished.const.trans unfixed).symm.trans given
  obtain ⟨list,listed,is,_⟩ := finished.enum plain single
  have all : keptMembers whole list = list := by
    refine filter_eq_self.mpr fun v _ => ?_
    unfold fitsType
    rw [untyped,unfixed]
    rfl
  rw [all] at is
  rw [← is] at listed
  have stems := compound.stems "enum"
  rw [unlisted,listed] at stems
  generalize atR : right.get? "enum" = r at stems
  cases stems
  exact rSettled.several rConstless c atR
end Met
lemma plain_of_pure {recur : Step (StateM Unit)} {made : Json} (run : keyword recur key l r path = pure (made,[]))
    (left : PlainAt key l) (right : PlainAt key r) : PlainAt key made := by
  have yields : Yields (fun _ => True) (keyword recur key l r path) _ := yields_joint left right
  rw [run] at yields
  exact (yields () trivial).2.1.plain

lemma settles_again (absorbs : Absorbs whole part) (partPlain : PlainFields part) :
    Settles inv (checkBounds whole "" ≠ .ok ()) (objects lookup recur whole part "") fun out =>
      PlainFields out ∧ checkBounds whole "" = .ok () ∧ SameForm (.obj (settle out)) (.obj whole) := by
  rw [sharedPlain absorbs.plain partPlain]
  let rule : Rule := fun key w _ m here => PlainAt key m ∧ Congruent key m w ∧ (key ∈ ["const","enum"] → m = w) ∧ here = []
  refine .bind (runs_sharedKeywords rule absorbs.plain.sorted "" (fun key w p atWhole atPart _ => ?_) []) ?_
  · have plain := absorbs.plain.each key w atWhole
    have partPlain := partPlain.each key p atPart
    have listed : key = "enum" → w.itemsOrNone ≠ [] := by
      rintro rfl
      obtain ⟨list,rfl,_⟩ := plain.members
      exact (absorbs.members list atWhole).1
    obtain ⟨made,run,congruent,equal⟩ := (absorbs.entails key w p atWhole atPart).stays plain partPlain listed
    rw [run]
    exact .pure ⟨plain_of_pure (run (StateM Unit) (fun _ _ _ => .outOfFuel) "") plain partPlain,congruent,equal,rfl⟩
  rintro ⟨shared,residual⟩ ⟨extra,spent,drawn⟩
  obtain rfl : residual = [] := spent.trans (drawn.spareless fun _ _ _ _ _ ruled => ruled.2.2.2)
  have restored : Restored whole part (assembled false whole part shared none none none) :=
    restored_of_stems absorbs.plain partPlain drawn.sorted_assembled fun key =>
      (stems_assembled absorbs.plain partPlain drawn key).mono fun _ _ _ ruled => ⟨ruled.1,ruled.2.1,ruled.2.2.1⟩
  obtain ⟨reconciled,made⟩ := restored.reconcilable absorbs partPlain ""
  have finished := finished_fold restored.plain (reconciled_of_ok made)
  have congruent := restored.congruent absorbs (reconciled_of_ok made)
  have passes : checkBounds (fold reconciled) "" = .ok () ↔ checkBounds whole "" = .ok () := by
    refine CongruentFields.checkBounds_congr (fun key bounded => ?_) ?_
    · obtain ⟨side,bounded⟩ := side_of_shape bounded
      exact restored.folds absorbs (reconciled_of_ok made) bounded
    rw [finished.type]
    exact restored.type absorbs
  refine .bind (.ofExcept (fun _ also => Except.ok.inj (also.symm.trans made)) fun c refused => ?_) ?_
  · cases refused.symm.trans made
  rintro _ rfl
  refine .bind (.ofExcept (fun _ passed => passes.mp passed) fun c refused passed => ?_) fun _ passed => .pure ?_
  · cases refused.symm.trans (passes.mpr passed)
  · exact ⟨finished.plain,passed,form_congruent (sorted_settle finished.plain.sorted) absorbs.plain.sorted congruent⟩

-- Without an `allOf` a merge is the intersection of the keywords, and its fuel lasts.
lemma ensures_merge_objects {refuses : Prop} {post : Fields → Prop} (lPlain : PlainFields left) (rPlain : PlainFields right)
    (settles : ∀ recur, Settles inv refuses (objects lookup recur left right "") post) :
    Ensures inv (merge lookup (.obj left) (.obj right)) fun result =>
      (∀ m, result = .ok m → ∃ out, m = .obj out ∧ post out) ∧ ∀ c, result = .error c → refuses := by
  have ord : ∀ {fs}, PlainFields fs → (obj fs).isOrderly (fun _ => true) := fun plain =>
    orderly_mono (fun _ _ => rfl) (orderly_of_exact plain.exact)
  intro s valid
  obtain ⟨result,t,answered⟩ := answered_mergeWithin lookup (ord lPlain) (ord rPlain) "" s
  have ran := answered _ (budget_enough (.obj left) (.obj right))
  obtain ⟨fuel,enough⟩ := budget_succ (.obj left) (.obj right)
  have met : Settles inv refuses (mergeWithin lookup (budget (.obj left) (.obj right)) (.obj left) (.obj right) "")
      fun m => ∃ out, m = .obj out ∧ post out := by
    rw [enough,mergeWithin]
    unfold step
    rw [foldAllOf_flat lPlain.plain.flat,foldAllOf_flat rPlain.plain.flat,pure_bind,pure_bind]
    exact .bind (settles _) fun out holds => .pure ⟨out,rfl,holds⟩
  obtain ⟨kept,admitted⟩ := met s valid
  rw [ran] at kept admitted
  have merged : (merge lookup (.obj left) (.obj right)).run s = (result,t) := run_mergeOr _ ran
  rw [merged]
  refine ⟨kept,?_⟩
  cases result with
  | error c => exact ⟨(fun _ is => by cases is),fun _ _ => admitted⟩
  | ok m => exact ⟨fun _ is => Except.ok.inj is ▸ admitted,fun _ is => by cases is⟩
end Merging
end Again
end Intersection
end SchemaOrder
