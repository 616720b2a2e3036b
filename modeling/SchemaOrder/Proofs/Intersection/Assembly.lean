import SchemaOrder.Proofs.Fields
import SchemaOrder.Proofs.Runs
namespace SchemaOrder.Intersection
open Fields Keyword Attempt
-- Where the keywords of an intersection come from, whatever is known about two partners under a keyword.
abbrev Rule := String → Json → Json → Json → List Json → Prop
variable {σ : Type} {inv : σ → Prop} {refuses tires : Prop} {recur : Step (StateM σ)} {rule : Rule} {clash : Bool}
  {left right : Fields} {extra : String → List Json} {key : String}

inductive Stems (combined : Json → Json → Json → Prop) : Option Json → Option Json → Option Json → Prop where
  | neither : Stems combined none none none
  | left (l : Json) : Stems combined (some l) none (some l)
  | right (r : Json) : Stems combined none (some r) (some r)
  | both (l r m : Json) (ruled : combined l r m) : Stems combined (some l) (some r) (some m)
namespace Stems
variable {combined wider : Json → Json → Json → Prop} {l r m : Option Json}
lemma mono (stems : Stems combined l r m) (imp : ∀ a b c, combined a b c → wider a b c) : Stems wider l r m := by
  cases stems with
  | neither => exact .neither
  | left l => exact .left l
  | right r => exact .right r
  | both l r m ruled => exact .both l r m (imp l r m ruled)

lemma sources (stems : Stems combined l r (some v)) :
    l = some v ∨ r = some v ∨ ∃ a b, l = some a ∧ r = some b ∧ combined a b v := by
  cases stems with
  | left => exact .inl rfl
  | right => exact .inr (.inl rfl)
  | both a b _ ruled => exact .inr (.inr ⟨a,b,rfl,rfl,ruled⟩)

lemma swap (stems : Stems combined l r m) (symm : ∀ a b c, combined a b c → wider b a c) : Stems wider r l m := by
  cases stems with
  | neither => exact .neither
  | left l => exact .right l
  | right r => exact .left r
  | both l r m ruled => exact .both r l m (symm l r m ruled)

-- What one side has stays, or has met a partner.
lemma of_source (stems : Stems combined l r m) (source : l = some s ∨ r = some s) :
    m = some s ∨ ∃ a b c, l = some a ∧ r = some b ∧ m = some c ∧ combined a b c := by
  cases stems with
  | neither => rcases source with absent | absent <;> cases absent
  | left => exact .inl (source.resolve_right nofun)
  | right => exact .inl (source.resolve_left nofun)
  | both a b c ruled => exact .inr ⟨a,b,c,rfl,rfl,rfl,ruled⟩
end Stems
-- Each key is written at most once.
lemma runs_foldPut {f : Fields → String × Json → Attempt (StateM σ) Fields} {es : Fields}
    (skip : String → Prop) (spec : String → Json → Json → Prop) (sorted : es.Sorted)
    (each : ∀ out key s, es.get? key = some s → Runs inv refuses tires (f out (key,s)) fun next =>
      (skip key ∧ next = out) ∨ (¬ skip key ∧ ∃ m, next = out.put key m ∧ spec key s m)) (start : Fields)
    (startSorted : start.Sorted) : Runs inv refuses tires (es.foldlM f start) fun out => out.Sorted ∧ ∀ key,
      (es.get? key = none ∨ skip key → out.get? key = start.get? key) ∧
      (∀ s, es.get? key = some s → ¬ skip key → ∃ m, out.get? key = some m ∧ spec key s m) := by
  induction es generalizing start with
  | nil => exact .pure ⟨startSorted,fun key => ⟨fun _ => rfl,nofun⟩⟩
  | cons entry rest ih =>
    obtain ⟨name,t⟩ := entry
    refine .bind (each start name t (if_pos rfl)) fun next written => ?_
    have nextSorted : next.Sorted := by
      rcases written with ⟨_,same⟩ | ⟨_,m,made,_⟩
      · exact same ▸ startSorted
      · exact made ▸ sorted_put startSorted
    refine .mono (ih (List.Pairwise.of_cons sorted)
      (fun out key s found => each out key s (get?_later sorted found)) next nextSorted) ?_
    rintro out ⟨outSorted,facts⟩
    refine ⟨outSorted,fun key => ?_⟩
    obtain ⟨same,made⟩ := facts key
    by_cases here : name = key
    · subst here
      have atNext : out.get? name = next.get? name := same (.inl (get?_tail sorted))
      rw [get?_cons,if_pos rfl]
      refine ⟨fun unchanged => ?_,fun s found used => ?_⟩
      · rcases written with ⟨_,unwritten⟩ | ⟨used,_⟩
        · exact atNext.trans (congrArg (get? · name) unwritten)
        · exact absurd (unchanged.resolve_left nofun) used
      cases found
      rcases written with ⟨skipped,_⟩ | ⟨_,m,put,meets⟩
      · exact absurd skipped used
      refine ⟨m,atNext.trans ?_,meets⟩
      rw [put,get?_put_self]
    · have untouched : next.get? key = start.get? key := by
        rcases written with ⟨_,unwritten⟩ | ⟨_,m,put,_⟩
        · rw [unwritten]
        · rw [put,get?_put_other here]
      rw [get?_cons,if_neg here,← untouched]
      exact ⟨same,made⟩

def joinMaps {m : Type → Type} [Monad m] (combine : Step m) (l r : Fields) (path : String) : Attempt m Fields :=
  r.foldlM (fun (out : Fields) (name,rv) => do
    let merged ← match get? l name with
      | some lv => combine lv rv (joinPath path name)
      | none => pure rv
    return out.put name merged) l

lemma schemaMaps_eq (l r : Fields) (path : String) : schemaMaps recur (.obj l) (.obj r) path =
    do return .obj (← joinMaps (fun a b path => (recur a b path).orElse fun _ => pure (.bool false)) l r path) := rfl

-- Each name of a joined map stems from one side, or from both and then from what `combine` made of them.
lemma runs_joinMaps {combine : Step (StateM σ)} {ls rs : Fields} {path : String}
    (spec : String → Json → Json → Json → Prop) (lSorted : ls.Sorted) (rSorted : rs.Sorted)
    (each : ∀ name l r, ls.get? name = some l → rs.get? name = some r →
      Runs inv refuses tires (combine l r (joinPath path name)) (spec name l r)) :
    Runs inv refuses tires (joinMaps combine ls rs path) fun out =>
      out.Sorted ∧ ∀ name, Stems (spec name) (ls.get? name) (rs.get? name) (out.get? name) := by
  let made : String → Json → Json → Prop := fun name r m => Stems (spec name) (ls.get? name) (some r) (some m)
  refine .mono (runs_foldPut (fun _ => False) made rSorted (fun out name r found => ?_) ls lSorted) ?_
  · dsimp only
    split
    · next l atL =>
      refine .bind (each name l r atL found) fun m holds => .pure (.inr ⟨id,m,rfl,?_⟩)
      unfold made
      rw [atL]
      exact .both l r m holds
    next absent =>
    refine .pure (.inr ⟨id,r,rfl,?_⟩)
    unfold made
    rw [absent]
    exact .right r
  rintro out ⟨outSorted,facts⟩
  refine ⟨outSorted,fun name => ?_⟩
  cases atR : rs.get? name with
  | some r =>
    obtain ⟨m,at_,stems⟩ := (facts name).2 r atR id
    rw [at_]
    exact stems
  | none =>
    rw [(facts name).1 (.inl atR)]
    cases ls.get? name with
    | some l => exact .left l
    | none => exact .neither

lemma setAside_iff : setAside clash key ↔
    key ∈ ["properties","items","additionalItems"] ∨ (clash ∧ key ∈ conditional) := by
  simp [setAside,or_assoc]

lemma get?_putOption (fs : Fields) (key other : String) (value : Option Json) : (putOption fs key value).get? other =
    if key = other then value.or (fs.get? other) else fs.get? other := by
  cases value with
  | none => simp [putOption]
  | some v => simp [putOption,get?_put]

lemma sorted_putOption (sorted : fs.Sorted) (key : String) (value : Option Json) : (putOption fs key value).Sorted := by
  cases value with
  | none => exact sorted
  | some v => exact sorted_put sorted

lemma get?_addResidual {residual : List Json} (other : key ≠ "allOf") :
    (addResidual out residual).get? key = out.get? key := by
  unfold addResidual
  split
  · rfl
  · exact get?_put_other (Ne.symm other)

lemma get?_rightKeywords (clash : Bool) (left : Fields) (rSorted : right.Sorted) (out : Fields) (key : String) :
    (rightKeywords clash left right out).get? key =
      if left.has key || setAside clash key then out.get? key else (right.get? key).or (out.get? key) := by
  unfold rightKeywords
  induction right generalizing out with
  | nil => simp
  | cons field rest ih =>
    obtain ⟨k,rv⟩ := field
    rw [List.foldl_cons,ih (List.Pairwise.of_cons rSorted),get?_cons]
    by_cases here : k = key
    · subst here
      rw [get?_tail rSorted,if_pos rfl]
      dsimp only
      split
      · rfl
      · rw [get?_put_self]; rfl
    dsimp only
    split
    · split
      · rfl
      · rw [get?_put_other here]
    split
    · rfl
    · rw [get?_put_other here]

lemma sorted_rightKeywords (clash : Bool) (left right : Fields) (sorted : out.Sorted) :
    (rightKeywords clash left right out).Sorted := by
  induction right generalizing out with
  | nil => exact sorted
  | cons field rest ih =>
    apply ih
    dsimp only
    split
    · exact sorted
    · exact sorted_put sorted

lemma get?_leftConditional (clash : Bool) (left out : Fields) (key : String) : (leftConditional clash left out).get? key =
    if clash && conditional.contains key then (left.get? key).or (out.get? key) else out.get? key := by
  unfold leftConditional
  cases clash with
  | false => rfl
  | true =>
    simp only [conditional,if_true,List.foldl_cons,List.foldl_nil,get?_putOption]
    by_cases isElse : "else" = key
    · subst isElse; simp
    by_cases isThen : "then" = key
    · subst isThen; simp
    by_cases isIf : "if" = key
    · subst isIf; simp
    · simp [isElse,isThen,isIf,Ne.symm isElse,Ne.symm isThen,Ne.symm isIf]

lemma sorted_leftConditional (clash : Bool) (left : Fields) (sorted : out.Sorted) :
    (leftConditional clash left out).Sorted := by
  cases clash with
  | false => exact sorted
  | true => exact sorted_putOption (sorted_putOption (sorted_putOption sorted _ _) _ _) _ _

def assembled (clash : Bool) (left right shared : Fields) (props xs more : Option Json) : Fields :=
  putOption (putOption (putOption (leftConditional clash left (rightKeywords clash left right shared)) "properties"
    props) "items" xs) "additionalItems" more
section
variable {shared : Fields} {props xs more : Option Json}
lemma get?_assembled (rSorted : right.Sorted) (inPlace : setAside clash key = false) :
    (assembled clash left right shared props xs more).get? key =
      if left.has key then shared.get? key else (right.get? key).or (shared.get? key) := by
  have outside : ¬ (key ∈ ["properties","items","additionalItems"] ∨ (clash ∧ key ∈ conditional)) := by
    rw [← setAside_iff,inPlace]; decide
  simp only [List.mem_cons,List.not_mem_nil,or_false,not_or] at outside
  obtain ⟨⟨notProperties,notItems,notFurther⟩,notConditional⟩ := outside
  unfold assembled
  rw [get?_putOption,if_neg (Ne.symm notFurther),get?_putOption,if_neg (Ne.symm notItems),get?_putOption,
    if_neg (Ne.symm notProperties),get?_leftConditional,if_neg (by simpa using notConditional),
    get?_rightKeywords clash left rSorted,inPlace,Bool.or_false]
end
structure Gathered (rule : Rule) (clash : Bool) (left right start out : Fields) (extra : String → List Json) : Prop where
  sorted : out.Sorted
  other : ∀ key, left.get? key = none ∨ setAside clash key → out.get? key = start.get? key
  alone : ∀ key l, left.get? key = some l → setAside clash key = false → right.get? key = none → out.get? key = some l
  both : ∀ key l r, left.get? key = some l → setAside clash key = false → right.get? key = some r →
    ∃ m, out.get? key = some m ∧ rule key l r m (extra key)
  spare : ∀ key, extra key ≠ [] → ∃ l r, left.get? key = some l ∧ right.get? key = some r ∧ setAside clash key = false

lemma Gathered.mono (drawn : Gathered rule clash left right start out extra)
    (imp : ∀ key l r m here, rule key l r m here → wider key l r m here) : Gathered wider clash left right start out extra where
  sorted := drawn.sorted
  other := drawn.other
  alone := drawn.alone
  both key l r atL inPlace atR :=
    (drawn.both key l r atL inPlace atR).imp fun m made => made.imp_right (imp key l r m _)
  spare := drawn.spare

inductive First (rule : Rule) (clash : Bool) (right start : Fields) (key : String) (l : Json) : Fields → List Json → Prop where
  | aside (away : setAside clash key) : First rule clash right start key l start []
  | alone (inPlace : setAside clash key = false) (absent : right.get? key = none) :
      First rule clash right start key l (start.put key l) []
  | both (inPlace : setAside clash key = false) (r m : Json) (here : List Json) (found : right.get? key = some r)
      (ruled : rule key l r m here) : First rule clash right start key l (start.put key m) here

lemma First.sorted (first : First rule clash right start key l next here) (sorted : start.Sorted) : next.Sorted := by
  cases first with
  | aside => exact sorted
  | alone | both => exact sorted_put sorted

lemma First.other (first : First rule clash right start key l next here)
    (ne : key ≠ name) : next.get? name = start.get? name := by
  cases first with
  | aside => rfl
  | alone | both => exact get?_put_other ne

-- The first keyword is read back from what it was put to, since no later one has its name.
lemma Gathered.cons (sorted : Sorted ((key,l) :: rest)) (first : First rule clash right start key l next here)
    (drawn : Gathered rule clash rest right next out extra) :
    Gathered rule clash ((key,l) :: rest) right start out (fun name => if name = key then here else extra name) where
  sorted := drawn.sorted
  other name absent := by
    by_cases same : key = name
    · subst same
      rw [get?_cons,if_pos rfl] at absent
      have away := absent.resolve_left nofun
      rw [drawn.other key (.inl (get?_tail sorted))]
      cases first with
      | aside => rfl
      | alone inPlace | both inPlace => rw [away] at inPlace; cases inPlace
    · rw [get?_cons,if_neg same] at absent
      exact (drawn.other name absent).trans (first.other same)
  alone name t found inPlace noRight := by
    by_cases same : key = name
    · subst same
      rw [get?_cons,if_pos rfl] at found
      cases found
      rw [drawn.other key (.inl (get?_tail sorted))]
      cases first with
      | aside away => rw [away] at inPlace; cases inPlace
      | alone => exact get?_put_self _ _ _
      | both _ r _ _ held => rw [noRight] at held; cases held
    · rw [get?_cons,if_neg same] at found
      exact drawn.alone name t found inPlace noRight
  both name t r found inPlace atR := by
    by_cases same : key = name
    · subst same
      rw [get?_cons,if_pos rfl] at found
      cases found
      rw [drawn.other key (.inl (get?_tail sorted))]
      rw [if_pos rfl]
      cases first with
      | aside away => rw [away] at inPlace; cases inPlace
      | alone _ absent => rw [atR] at absent; cases absent
      | both _ s m here held ruled =>
        rw [atR] at held
        cases held
        exact ⟨m,get?_put_self _ _ _,ruled⟩
    · rw [get?_cons,if_neg same] at found
      rw [if_neg (Ne.symm same)]
      exact drawn.both name t r found inPlace atR
  spare name left := by
    by_cases same : key = name
    · subst same
      rw [if_pos rfl] at left
      cases first with
      | aside | alone => exact absurd rfl left
      | both inPlace r _ _ held => exact ⟨l,r,if_pos rfl,held,inPlace⟩
    · rw [if_neg (Ne.symm same)] at left
      rw [get?_cons,if_neg same]
      exact drawn.spare name left

lemma runs_sharedKeywords (rule : Rule) (lSorted : left.Sorted) (path : String)
    (each : ∀ key l r, left.get? key = some l → right.get? key = some r → setAside clash key = false →
      Runs inv refuses tires (keyword recur key l r path) fun made => rule key l r made.1 made.2)
    (residual : List Json) : Runs inv refuses tires (sharedKeywords recur clash left right path residual) fun made =>
      ∃ extra : String → List Json, made.2 = residual ++ left.flatMap (fun field => extra field.1) ∧
        Gathered rule clash left right [] made.1 extra := by
  unfold sharedKeywords
  have sorted : Sorted [] := sorted_nil
  generalize ([] : Fields) = start at sorted ⊢
  induction left generalizing residual start with
  | nil =>
    refine .pure ⟨fun _ => [],(List.append_nil _).symm,sorted,fun _ _ => rfl,?_,?_,?_⟩
    · intro key l found; cases found
    · intro key l r found; cases found
    · intro key spare; exact absurd rfl spare
  | cons field rest ih =>
    obtain ⟨key,l⟩ := field
    let reads : Fields × List Json → Prop := fun next => ∃ here, next.2 = residual ++ here ∧
      First rule clash right start key l next.1 here
    refine .bind (show Runs inv refuses tires _ reads from ?_) ?_
    · dsimp only
      split
      · next away => exact .pure ⟨[],(List.append_nil _).symm,.aside away⟩
      next inPlace =>
      rw [Bool.not_eq_true] at inPlace
      split
      · next r found =>
        refine .bind (each key l r (if_pos rfl) found inPlace) ?_
        rintro ⟨m,here⟩ ruled
        exact .pure ⟨here,rfl,.both inPlace r m here found ruled⟩
      · next noRight => exact .pure ⟨[],(List.append_nil _).symm,.alone inPlace noRight⟩
    rintro ⟨next,left⟩ ⟨here,rfl,first⟩
    refine .mono (ih (List.pairwise_cons.mp lSorted).2
      (fun name t r found => each name t r (get?_later lSorted found)) _ _ (first.sorted sorted)) ?_
    rintro made ⟨extra,spent,drawn⟩
    refine ⟨_,?_,drawn.cons lSorted first⟩
    rw [spent,List.flatMap_cons,if_pos rfl,List.append_assoc]
    congr 2
    refine List.flatMap_congr fun field mem => ?_
    rw [if_neg]
    intro same
    have below := (List.pairwise_cons.mp lSorted).1 _ mem
    exact lt_irrefl key (same ▸ below)

lemma Gathered.ruled (drawn : Gathered rule clash left right start out extra) (spare : extra key ≠ []) :
    ∃ l r m, left.get? key = some l ∧ right.get? key = some r ∧ setAside clash key = false ∧ rule key l r m (extra key) := by
  obtain ⟨l,r,atL,atR,inPlace⟩ := drawn.spare key spare
  obtain ⟨m,_,ruled⟩ := drawn.both key l r atL inPlace atR
  exact ⟨l,r,m,atL,atR,inPlace,ruled⟩

lemma Gathered.spareless (drawn : Gathered rule clash left right start out extra)
    (none : ∀ key l r m here, rule key l r m here → here = []) : left.flatMap (fun field => extra field.1) = [] := by
  refine List.flatMap_eq_nil_iff.mpr fun field _ => ?_
  by_contra spare
  obtain ⟨_,_,_,_,_,_,ruled⟩ := drawn.ruled spare
  exact spare (none _ _ _ _ _ ruled)

def TypeRule (l r m : Json) : Prop :=
  (l.deepEqual r ∧ m = l) ∨ ∃ path, types l r path = .ok m
section Assembled
variable {shared : Fields} {props xs more : Option Json}
section
variable (drawn : Gathered rule clash left right [] shared extra)
include drawn
lemma Gathered.sorted_assembled : (assembled clash left right shared props xs more).Sorted :=
  sorted_putOption (sorted_putOption (sorted_putOption (sorted_leftConditional clash left
    (sorted_rightKeywords clash left right drawn.sorted)) _ _) _ _) _ _

lemma Gathered.stems (rSorted : right.Sorted) (inPlace : setAside clash key = false) (props xs more : Option Json) :
    Stems (fun l r m => rule key l r m (extra key)) (left.get? key) (right.get? key)
      ((assembled clash left right shared props xs more).get? key) := by
  rw [get?_assembled rSorted inPlace]
  cases atL : left.get? key with
  | none =>
    rw [has,atL,drawn.other key (.inl atL)]
    cases right.get? key with
    | none => exact .neither
    | some r => exact .right r
  | some l =>
    rw [has,atL]
    cases atR : right.get? key with
    | none => rw [drawn.alone key l atL inPlace atR]; exact .left l
    | some r =>
      obtain ⟨m,made,ruled⟩ := drawn.both key l r atL inPlace atR
      rw [made]
      exact .both l r m ruled

lemma Gathered.sources (rSorted : right.Sorted) (inPlace : setAside clash key = false)
    (found : (assembled clash left right shared props xs more).get? key = some m) :
    left.get? key = some m ∨ right.get? key = some m ∨
      ∃ l r, left.get? key = some l ∧ right.get? key = some r ∧ rule key l r m (extra key) :=
  (found ▸ drawn.stems rSorted inPlace props xs more).sources

-- A keyword that was set aside is what its own rule made of it.
lemma Gathered.get?_aside (rSorted : right.Sorted)
    (away : setAside clash key) : (assembled clash left right shared props xs more).get? key =
      if key = "properties" then props else if key = "items" then xs
        else if key = "additionalItems" then more else left.get? key := by
  have none : (rightKeywords clash left right shared).get? key = Option.none := by
    rw [get?_rightKeywords clash left rSorted,away,Bool.or_true]
    exact drawn.other key (.inr away)
  unfold assembled
  rw [get?_putOption,get?_putOption,get?_putOption,get?_leftConditional,none]
  rcases setAside_iff.mp away with special | ⟨rfl,mem⟩
  · fin_cases special <;> simp [conditional]
  have apart : key ≠ "properties" ∧ key ≠ "items" ∧ key ≠ "additionalItems" := by
    refine ⟨?_,?_,?_⟩ <;> rintro rfl <;> exact absurd mem (by decide)
  rw [if_neg (symm apart.2.2),if_neg (symm apart.2.1),if_neg (symm apart.1),if_neg apart.1,if_neg apart.2.1,
    if_neg apart.2.2,List.contains_iff_mem.mpr mem,Bool.true_and,if_pos rfl,Option.or_none]

lemma Gathered.get?_properties (rSorted : right.Sorted) :
    (assembled clash left right shared props xs more).get? "properties" = props :=
  drawn.get?_aside rSorted (setAside_iff.mpr (.inl (by decide)))

lemma Gathered.get?_items (rSorted : right.Sorted) :
    (assembled clash left right shared props xs more).get? "items" = xs :=
  drawn.get?_aside rSorted (setAside_iff.mpr (.inl (by decide)))

lemma Gathered.get?_further (rSorted : right.Sorted) :
    (assembled clash left right shared props xs more).get? "additionalItems" = more :=
  drawn.get?_aside rSorted (setAside_iff.mpr (.inl (by decide)))
end
lemma Gathered.get?_conditional (drawn : Gathered rule true left right [] shared extra) (rSorted : right.Sorted)
    (mem : key ∈ conditional) :
    (assembled true left right shared props xs more).get? key = left.get? key := by
  rw [drawn.get?_aside rSorted (setAside_iff.mpr (.inr ⟨rfl,mem⟩))]
  fin_cases mem <;> rfl

-- Without entries of arrays and without a clash only the properties are set aside.
lemma Gathered.get?_unlisted (drawn : Gathered rule false left right [] shared extra) (rSorted : right.Sorted)
    (away : setAside false key) :
    (assembled false left right shared props none none).get? key = if key = "properties" then props else none := by
  rw [drawn.get?_aside rSorted away]
  rcases setAside_iff.mp away with special | ⟨absurd,_⟩
  · fin_cases special <;> rfl
  · cases absurd
end Assembled
section Whole
variable {m : Type → Type} [Monad m] {recur : Step m} {lookup : Lookup m} {path : String}
lemma properties_none (noLeft : (left.get? "properties").bind Json.fields? = none)
    (noRight : (right.get? "properties").bind Json.fields? = none) : properties lookup recur left right path = pure none := by
  unfold properties
  dsimp only
  rw [noLeft,noRight]

lemma items_none (atLeft : left.get? "items" = none) (atRight : right.get? "items" = none) :
    items recur left right path = do return (none,← optional recur (left.get? "additionalItems")
      (right.get? "additionalItems") (joinPath path "additionalItems")) := by
  unfold items
  rw [atLeft,atRight]

def checked (fs : Fields) (path : String) : Attempt m Fields := do
  let out ← .ofExcept (reconcileValues fs path)
  .ofExcept (checkBounds (Bound.fold out) path)
  return Bound.fold out

lemma objects_eq (noConditional : left.get? "if" = none) : objects lookup recur left right path = (do
    let shared ← sharedKeywords recur false left right path []
    let made ← properties lookup recur left right path
    let entries ← items recur left right path
    checked (addResidual (assembled false left right shared.1 made entries.1 entries.2) shared.2) path) := by
  have noClash : conditionalsClash left right = false := by
    unfold conditionalsClash has
    rw [noConditional]
    rfl
  unfold objects
  rw [noClash]
  rfl
end Whole
end SchemaOrder.Intersection
