import SchemaOrder.Proofs.Intersection.Merge
import SchemaOrder.Proofs.Memory
namespace SchemaOrder
open List Fields Attempt SchemaOrder.Bound Vocabulary
-- Intersection of schemas that speak about the members of objects by name and by pattern.
def Vocabulary.members : Vocabulary where
  keywords := ["type","required","properties","patternProperties","additionalProperties"]

-- Bounds and notes are left out as well.
def Json.isMemberSchema (s : Json) : Bool :=
  s.isSchemaWith .members fun fs => fs.all fun field => members.keywords.contains field.1

structure Members (fs : Fields) : Prop where
  sorted : fs.Sorted
  known : ∀ key s, fs.get? key = some s → key ∈ members.keywords
  formed : ∀ key s, fs.get? key = some s → Schemas.keywordFormed Json.isMemberSchema key s
open Acceptance Schemas
section Schemas
variable {ts : Texts} {fs : Fields} {key name : String} {s v : Json}
lemma Members.absent (members : Members fs) (unknown : key ∉ Vocabulary.members.keywords) : fs.get? key = none := by
  cases found : fs.get? key with
  | none => rfl
  | some s => exact absurd (members.known key s found) unknown

lemma isMemberSchema_obj : (Json.obj fs).isMemberSchema ↔ Members fs := by
  constructor
  · intro schema
    obtain ⟨stepped,known⟩ := isSchemaWith_obj.mp schema
    obtain ⟨sorted,_,formed,_⟩ := (step_obj _).mp stepped
    refine ⟨sorted,fun key s found => ?_,formed⟩
    exact contains_iff_mem.mp (all_eq_true.mp known _ (mem_of_get? found))
  intro members
  refine isSchemaWith_obj.mpr ⟨(step_obj _).mpr ⟨members.sorted,fun key s found => ?_,members.formed,fun _ => ?_⟩,?_⟩
  · have known := members.known key s found
    fin_cases known <;> rfl
  · exact ⟨members.absent (by decide),members.absent (by decide)⟩
  apply all_eq_true.mpr
  intro field mem
  exact contains_iff_mem.mpr (members.known _ _ (get?_of_mem members.sorted mem))

lemma isMemberSchema_cases (schema : s.isMemberSchema) :
    (∃ b, s = .bool b) ∨ ∃ fs : Fields, s = .obj fs ∧ Members fs := by
  rcases isSchemaWith_cases schema with boolean | ⟨fs,rfl,_⟩
  · exact .inl boolean
  · exact .inr ⟨fs,rfl,isMemberSchema_obj.mp schema⟩

-- The entries of `patternProperties`.
def patterned (fs : Fields) : Fields :=
  ((fs.get? "patternProperties").bind Json.fields?).getD []

lemma Members.map (members : Members fs) (key : String) (shape : Keyword.shape key = .schemaMap) :
    Sorted (((fs.get? key).bind Json.fields?).getD []) ∧
      ∀ name s, get? (((fs.get? key).bind Json.fields?).getD []) name = some s → s.isMemberSchema := by
  cases found : fs.get? key with
  | none => exact ⟨sorted_nil,nofun⟩
  | some map =>
    obtain ⟨es,rfl,sorted,good⟩ := (formed_map shape).mp (members.formed key map found)
    exact ⟨sorted,fun name s at_ => good (name,s) (mem_of_get? at_)⟩

lemma mem_matching (members : Members fs) : s ∈ matching ts fs name ↔
    ∃ pat, (patterned fs).get? pat = some s ∧ ts.hasMatch pat name := by
  have sorted : (patterned fs).Sorted := (members.map _ rfl).1
  change s ∈ (filter _ (patterned fs)).map Prod.snd ↔ _
  simp only [mem_map,mem_filter,Prod.exists,get?_iff_mem sorted]
  constructor
  · rintro ⟨pat,t,⟨mem,matched⟩,rfl⟩
    exact ⟨pat,mem,matched⟩
  rintro ⟨pat,mem,matched⟩
  exact ⟨pat,s,⟨mem,matched⟩,rfl⟩

lemma matching_nil (members : Members fs) : matching ts fs name = [] ↔
    ∀ pat s, (patterned fs).get? pat = some s → ts.hasMatch pat name = false := by
  constructor
  · intro none pat s found
    apply Bool.eq_false_iff.mpr
    intro matched
    have mem : s ∈ matching ts fs name := (mem_matching members).mpr ⟨pat,found,matched⟩
    rw [none] at mem
    cases mem
  intro unmatched
  apply eq_nil_iff_forall_not_mem.mpr
  intro s mem
  obtain ⟨pat,found,matched⟩ := (mem_matching members).mp mem
  rw [unmatched pat s found] at matched
  cases matched

-- A member is governed by the property of its name and the patterns that match it, else by what is said about
-- further members.
lemma mem_memberRules : s ∈ memberRules ts fs name ↔ (declared fs).get? name = some s ∨
    s ∈ matching ts fs name ∨ ((declared fs).get? name = none ∧ matching ts fs name = [] ∧
      fs.get? "additionalProperties" = some s) := by
  unfold memberRules
  cases (declared fs).get? name with
  | some t =>
    change s ∈ t :: matching ts fs name ↔ _
    rw [Option.some_inj,@eq_comm _ t]
    simp
  | none => cases matching ts fs name <;> simp

lemma Members.rule (members : Members fs) (governs : s ∈ memberRules ts fs name) : s.isMemberSchema := by
  rcases mem_memberRules.mp governs with named | matched | ⟨_,_,further⟩
  · exact (members.map "properties" rfl).2 name s named
  · obtain ⟨pat,found,_⟩ := (mem_matching members).mp matched
    exact (members.map "patternProperties" rfl).2 pat s found
  · exact members.formed _ s further

-- The rules that such a schema has.
lemma accepts_members (members : Members fs) : (Json.obj fs).accepts ts v ↔
    (∀ key ∈ ["type","required"], ∀ s, fs.get? key = some s → keywordHolds ts (Json.accepts ts) key s v) ∧
      ∀ es, v = .obj es → ∀ name x, (name,x) ∈ es → ∀ rule ∈ memberRules ts fs name,rule.accepts ts x := by
  rw [accepts_obj members.sorted]
  constructor
  · intro obeys
    exact ⟨fun key _ s found => obeys.keyword key s found,obeys.member⟩
  rintro ⟨keyword,mem⟩
  refine ⟨fun key s found => ?_,mem,fun xs _ i x _ rule governs => ?_,fun c found => ?_⟩
  · have known := members.known key s found
    by_cases plain : key ∈ ["type","required"]
    · exact keyword key plain s found
    apply keywordHolds_grouped
    simp only [Vocabulary.members,mem_cons,not_mem_nil,or_false] at known plain
    rcases known with rfl | rfl | rfl | rfl | rfl
    · simp at plain
    · simp at plain
    all_goals decide
  · unfold itemRule? at governs
    rw [members.absent (by decide)] at governs
    cases governs
  · rw [members.absent (by decide)] at found
    cases found
end Schemas
namespace Intersection
section Slips
variable {ts : Texts} {a b m v z c : Json} {name : String}
-- What a set of schemas says about the members of a name.
def rulesOf (ts : Texts) (S : Set Json) (name : String) : Set Json :=
  {rule | ∃ fs, Json.obj fs ∈ S ∧ rule ∈ memberRules ts fs name}

-- A pattern of `shield` matches the name, and for `exposed` it is one of a further member. Nobody declares it.
structure Shields (ts : Texts) (name : String) (shield exposed : Fields) (c : Json) : Prop where
  unnamed : (declared shield).get? name = none
  matched : matching ts shield name ≠ []
  undeclared : (declared exposed).get? name = none
  unmatched : matching ts exposed name = []
  further : exposed.get? "additionalProperties" = some c

-- Somewhere in the value a member `z` slips past `c`.
inductive Slips (ts : Texts) : Set Json → Json → Json → Json → Prop where
  | here {S : Set Json} {members shield exposed : Fields} {name : String} {x c : Json} (shieldIn : Json.obj shield ∈ S)
      (exposedIn : Json.obj exposed ∈ S) (held : (name,x) ∈ members)
      (shields : Shields ts name shield exposed c) : Slips ts S (.obj members) x c
  | inside {S : Set Json} {members : Fields} {name : String} {x z c : Json} (held : (name,x) ∈ members)
      (deeper : Slips ts (rulesOf ts S name) x z c) : Slips ts S (.obj members) z c

lemma rulesOf_mono (within : S ⊆ T) (name : String) : rulesOf ts S name ⊆ rulesOf ts T name := by
  rintro rule ⟨fs,mem,governs⟩
  exact ⟨fs,within mem,governs⟩

lemma Slips.mono (slips : Slips ts S v z c) (within : S ⊆ T) : Slips ts T v z c := by
  induction slips generalizing T with
  | here shieldIn exposedIn held shields => exact .here (within shieldIn) (within exposedIn) held shields
  | inside held deeper ih => exact .inside held (ih (rulesOf_mono within _))

-- Where all schemas accept the value nothing slips past a schema that rejects it.
lemma Slips.accepted (slips : Slips ts S v z c) (schemas : ∀ s ∈ S, s.isMemberSchema)
    (acc : ∀ s ∈ S, s.accepts ts v) : c.accepts ts z := by
  have mem {S : Set Json} {es fs} {name} {x rule}
      (schemas : ∀ s ∈ S, s.isMemberSchema) (acc : ∀ s ∈ S, s.accepts ts (.obj es))
      (held : (name,x) ∈ es) (inside : Json.obj fs ∈ S) (governs : rule ∈ memberRules ts fs name) :
      rule.isMemberSchema ∧ rule.accepts ts x := by
    have own := isMemberSchema_obj.mp (schemas _ inside)
    exact ⟨own.rule governs,((accepts_members own).mp (acc _ inside)).2 es rfl name x held rule governs⟩
  induction slips with
  | here shieldIn exposedIn held shields =>
    refine (mem schemas acc held exposedIn (mem_memberRules.mpr (.inr (.inr ⟨?_,?_,?_⟩)))).2
    · exact shields.undeclared
    · exact shields.unmatched
    · exact shields.further
  | inside held deeper ih =>
    apply ih
    · rintro rule ⟨fs,inside,governs⟩
      exact (mem schemas acc held inside governs).1
    rintro rule ⟨fs,inside,governs⟩
    exact (mem schemas acc held inside governs).2
end Slips
-- The object `m` stands for all of `S`. Its rules for a name stand for rules of `S` for that name, by `cov`,
-- and every rule of `S` is among those unless a shield exposes it.
structure ObjectFor (ts : Texts) (cov : Set Json → Json → Prop) (S : Set Json) (m : Fields) : Prop where
  schemas : ∀ s ∈ S, s = .bool true ∨ ∃ fs, s = .obj fs ∧ Members fs
  keyword : ∀ fs : Fields, Json.obj fs ∈ S → ∀ key ∈ ["type","required"], ∀ s, fs.get? key = some s → ∀ v,
    (∀ t, m.get? key = some t → keywordHolds ts (Json.accepts ts) key t v) →
    keywordHolds ts (Json.accepts ts) key s v
  made : ∀ name, ∀ μ ∈ memberRules ts m name, ∃ R ⊆ rulesOf ts S name, cov R μ
  kept : ∀ name (fs : Fields), Json.obj fs ∈ S → ∀ rule ∈ memberRules ts fs name,
    (∃ shield, Json.obj shield ∈ S ∧ Shields ts name shield fs rule) ∨
      ∃ μ ∈ memberRules ts m name, ∃ R ⊆ rulesOf ts S name, rule ∈ R ∧ cov R μ
  undeclared : ∀ name (fs : Fields), Json.obj fs ∈ S → (declared m).get? name = none → (declared fs).get? name = none
  unmatched : ∀ name (fs : Fields), Json.obj fs ∈ S → matching ts m name = [] → matching ts fs name = []
  origin : ∀ name, matching ts m name ≠ [] → ∃ fs, Json.obj fs ∈ S ∧ matching ts fs name ≠ []

-- `m` stands for all of `S`, down to the given depth of values.
def StandsFor (ts : Texts) : Nat → Set Json → Json → Prop
  | 0, _, _ => True
  | _ + 1, S, .bool true => ∀ s ∈ S, s = .bool true
  | depth + 1, S, .obj m => ObjectFor ts (StandsFor ts depth) S m
  | _ + 1, _, _ => True
section StandsFor
variable {ts : Texts} {a b m v : Json}
lemma standsFor_false (S : Set Json) : StandsFor ts depth S (.bool false) := by
  cases depth <;> trivial

lemma standsFor_self (schema : m.isMemberSchema) : StandsFor ts depth {m} m := by
  induction depth generalizing m with
  | zero => trivial
  | succ depth ih =>
    rcases isMemberSchema_cases schema with ⟨b,rfl⟩ | ⟨fs,rfl,members⟩
    · cases b with
      | false => trivial
      | true => exact fun s mem => mem
    have only {other} (mem : Json.obj other ∈ ({.obj fs} : Set Json)) : other = fs := by
      cases mem
      rfl
    refine ⟨fun s mem => .inr ⟨fs,mem,members⟩,?_,fun name μ governs => ?_,?_,?_,?_,fun name matched => ?_⟩
    · intro other mem key _ s found v holds
      rw [only mem] at found
      exact holds s found
    · refine ⟨{μ},?_,ih (members.rule governs)⟩
      rintro _ rfl
      exact ⟨fs,rfl,governs⟩
    · intro name other mem rule governs
      rw [only mem] at governs
      refine .inr ⟨rule,governs,{rule},?_,rfl,ih (members.rule governs)⟩
      rintro _ rfl
      exact ⟨fs,rfl,governs⟩
    · intro name other mem none
      rwa [only mem]
    · intro name other mem none
      rwa [only mem]
    · exact ⟨fs,rfl,matched⟩

-- Standing for two sets is standing for their union.
lemma standsFor_union (onS : StandsFor ts depth S m) (onT : StandsFor ts depth T m) : StandsFor ts depth (S ∪ T) m := by
  cases depth with
  | zero => trivial
  | succ depth =>
    cases m with
    | bool b =>
      cases b with
      | false => trivial
      | true => exact fun s mem => mem.elim (onS s) (onT s)
    | obj fs =>
      have fromS : ∀ name, rulesOf ts S name ⊆ rulesOf ts (S ∪ T) name := rulesOf_mono Set.subset_union_left
      have fromT : ∀ name, rulesOf ts T name ⊆ rulesOf ts (S ∪ T) name := rulesOf_mono Set.subset_union_right
      constructor
      · exact fun s mem => mem.elim (onS.schemas s) (onT.schemas s)
      · exact fun other mem => mem.elim (onS.keyword other) (onT.keyword other)
      · intro name μ governs
        obtain ⟨R,within,stands⟩ := onS.made name μ governs
        exact ⟨R,within.trans (fromS name),stands⟩
      · rintro name other (mem | mem) rule governs
        · rcases onS.kept name other mem rule governs with ⟨shield,inside,shields⟩ | ⟨μ,found,R,within,inside,stands⟩
          · exact .inl ⟨shield,.inl inside,shields⟩
          · exact .inr ⟨μ,found,R,within.trans (fromS name),inside,stands⟩
        rcases onT.kept name other mem rule governs with ⟨shield,inside,shields⟩ | ⟨μ,found,R,within,inside,stands⟩
        · exact .inl ⟨shield,.inr inside,shields⟩
        · exact .inr ⟨μ,found,R,within.trans (fromT name),inside,stands⟩
      · exact fun name other mem => mem.elim (onS.undeclared name other) (onT.undeclared name other)
      · exact fun name other mem => mem.elim (onS.unmatched name other) (onT.unmatched name other)
      · intro name matched
        obtain ⟨other,mem,found⟩ := onS.origin name matched
        exact ⟨other,.inl mem,found⟩
    | _ => trivial

-- A value of what stands for all of `S` is one of all of `S` if nothing slips past a schema that rejects it.
lemma accepts_of_standsFor (schema : m.isMemberSchema) (shallow : v.depth < depth) (stands : StandsFor ts depth S m)
    (acc : m.accepts ts v) (slipping : ∀ z c, Slips ts S v z c → c.accepts ts z) : ∀ s ∈ S, s.accepts ts v := by
  induction depth generalizing S m v with
  | zero => cases shallow
  | succ depth ih =>
    rcases isMemberSchema_cases schema with ⟨b,rfl⟩ | ⟨fs,rfl,members⟩
    · subst acc
      intro s mem
      rw [stands s mem]
      exact accepts_bool ts true v
    obtain ⟨keyword,mem⟩ := (accepts_members members).mp acc
    intro s inside
    rcases stands.schemas s inside with rfl | ⟨own,rfl,ownMembers⟩
    · exact accepts_bool ts true v
    refine (accepts_members ownMembers).mpr ⟨fun key plain t found => ?_,?_⟩
    · exact stands.keyword own inside key plain t found v (keyword key plain)
    rintro es rfl name x held rule governs
    rcases stands.kept name own inside rule governs with ⟨shield,shieldIn,shields⟩ | ⟨μ,found,R,within,ruleIn,below⟩
    · exact slipping x rule (.here shieldIn inside held shields)
    have shallower : x.depth < depth := lt_of_lt_of_le (Json.depth_field held) (Nat.le_of_lt_succ shallow)
    refine ih (members.rule found) shallower below (mem es rfl name x held μ found) ?_ rule ruleIn
    intro z c slips
    exact slipping z c (.inside held (slips.mono within))
end StandsFor
-- `m` stands for whatever `a` and `b` stand for.
structure Joined (ts : Texts) (a b m : Json) : Prop where
  schema : m.isMemberSchema
  stands : ∀ depth S T, StandsFor ts depth S a → StandsFor ts depth T b → StandsFor ts depth (S ∪ T) m

-- `m` stands for whatever the schemas of `A` stand for.
def Gains (ts : Texts) (A : Set Json) (m : Json) : Prop :=
  ∀ depth (pick : Json → Set Json), (∀ μ ∈ A, StandsFor ts depth (pick μ) μ) →
    StandsFor ts depth {rule | ∃ μ ∈ A, rule ∈ pick μ} m
section Blends
variable {ts : Texts} {A : Set Json} {a b m : Json} {left right out : Fields} {name : String}
lemma joined_self (schema : m.isMemberSchema) : Joined ts m m m := ⟨schema,fun _ _ _ => standsFor_union⟩

lemma joined_false (a b : Json) : Joined ts a b (.bool false) :=
  ⟨isSchemaWith_bool false,fun _ _ _ _ _ => standsFor_false _⟩

lemma Joined.symm (joined : Joined ts a b m) : Joined ts b a m := by
  refine ⟨joined.schema,fun depth S T onB onA => ?_⟩
  rw [Set.union_comm]
  exact joined.stands depth T S onA onB

-- What accepts everything adds nothing.
lemma joined_true (schema : m.isMemberSchema) : Joined ts (.bool true) m m := by
  refine ⟨schema,fun depth S T onTrue onM => ?_⟩
  cases depth with
  | zero => trivial
  | succ depth =>
    have trues : ∀ s ∈ S, s = .bool true := onTrue
    have inT : ∀ {fs : Fields}, Json.obj fs ∈ S ∪ T → Json.obj fs ∈ T :=
      fun mem => mem.resolve_left fun inS => nomatch trues _ inS
    rcases isMemberSchema_cases schema with ⟨b,rfl⟩ | ⟨fs,rfl,members⟩
    · cases b with
      | false => trivial
      | true => exact fun s mem => mem.elim (trues s) (onM s)
    have wider : ∀ name, rulesOf ts T name ⊆ rulesOf ts (S ∪ T) name := rulesOf_mono Set.subset_union_right
    constructor
    · exact fun s mem => mem.elim (fun inS => .inl (trues s inS)) (onM.schemas s)
    · exact fun other mem => onM.keyword other (inT mem)
    · intro name μ governs
      obtain ⟨R,within,stands⟩ := onM.made name μ governs
      exact ⟨R,within.trans (wider name),stands⟩
    · intro name other mem rule governs
      rcases onM.kept name other (inT mem) rule governs with ⟨shield,inside,shields⟩ | ⟨μ,found,R,within,inside,stands⟩
      · exact .inl ⟨shield,.inr inside,shields⟩
      · exact .inr ⟨μ,found,R,within.trans (wider name),inside,stands⟩
    · exact fun name other mem => onM.undeclared name other (inT mem)
    · exact fun name other mem => onM.unmatched name other (inT mem)
    · intro name matched
      obtain ⟨other,mem,found⟩ := onM.origin name matched
      exact ⟨other,.inr mem,found⟩

lemma gains_self (m : Json) : Gains ts {m} m := by
  intro depth pick stands
  have same : {rule | ∃ μ ∈ ({m} : Set Json), rule ∈ pick μ} = pick m := by
    ext rule
    constructor
    · rintro ⟨_,rfl,inside⟩
      exact inside
    · exact fun inside => ⟨m,rfl,inside⟩
  rw [same]
  exact stands m rfl

lemma gains_false (A : Set Json) : Gains ts A (.bool false) := fun _ _ _ => standsFor_false _

lemma Gains.join (onA : Gains ts A a) (onB : Gains ts B b) (joined : Joined ts a b m) : Gains ts (A ∪ B) m := by
  intro depth pick stands
  have split : {rule | ∃ μ ∈ A ∪ B, rule ∈ pick μ} = {rule | ∃ μ ∈ A, rule ∈ pick μ} ∪ {rule | ∃ μ ∈ B, rule ∈ pick μ} := by
    ext rule
    constructor
    · rintro ⟨μ,mem | mem,inside⟩
      · exact .inl ⟨μ,mem,inside⟩
      · exact .inr ⟨μ,mem,inside⟩
    rintro (⟨μ,mem,inside⟩ | ⟨μ,mem,inside⟩)
    · exact ⟨μ,.inl mem,inside⟩
    · exact ⟨μ,.inr mem,inside⟩
  rw [split]
  exact joined.stands depth _ _ (onA depth pick fun μ mem => stands μ (.inl mem))
    (onB depth pick fun μ mem => stands μ (.inr mem))

-- What either side says about a name.
def sources (ts : Texts) (left right : Fields) (name : String) : Set Json :=
  {μ | μ ∈ memberRules ts left name ∨ μ ∈ memberRules ts right name}

-- A property of the blend stands for the properties of that name, and where one side has none for its rules instead.
structure Property (ts : Texts) (left right : Fields) (name : String) (m : Json) (A : Set Json) : Prop where
  gains : Gains ts A m
  within : A ⊆ sources ts left right name
  onLeft : ∀ μ, (declared left).get? name = some μ → μ ∈ A
  onRight : ∀ μ, (declared right).get? name = some μ → μ ∈ A
  besideLeft : (declared right).get? name = none → ∀ μ ∈ memberRules ts right name, μ ∈ A
  besideRight : (declared left).get? name = none → ∀ μ ∈ memberRules ts left name, μ ∈ A

-- The keywords of two objects, each combined by its own rule.
structure Blends (ts : Texts) (left right out : Fields) : Prop where
  members : Members out
  keyword : ∀ key ∈ ["type","required"], ∀ s, left.get? key = some s ∨ right.get? key = some s → ∀ v,
    (∀ t, out.get? key = some t → keywordHolds ts (Json.accepts ts) key t v) →
    keywordHolds ts (Json.accepts ts) key s v
  patterns : ∀ pat, Stems (Joined ts) ((patterned left).get? pat) ((patterned right).get? pat)
    ((patterned out).get? pat)
  further : Stems (Joined ts) (left.get? "additionalProperties") (right.get? "additionalProperties")
    (out.get? "additionalProperties")
  undeclared : ∀ name, (declared out).get? name = none ↔
    (declared left).get? name = none ∧ (declared right).get? name = none
  property : ∀ name m, (declared out).get? name = some m → ∃ A, Property ts left right name m A

lemma rule_of_pattern (members : Members fs) (matched : ts.hasMatch pat name)
    (found : (patterned fs).get? pat = some s) : s ∈ memberRules ts fs name :=
  mem_memberRules.mpr (.inr (.inl ((mem_matching members).mpr ⟨pat,found,matched⟩)))

-- What stems from rules of the two sides is made of them, and one of the left side goes into it.
lemma made_of_stems {l r : Option Json} (stems : Stems (Joined ts) l r (some μ))
    (onLeft : ∀ x, l = some x → x ∈ memberRules ts left name) (onRight : ∀ x, r = some x → x ∈ memberRules ts right name) :
    ∃ A ⊆ sources ts left right name, Gains ts A μ := by
  cases stems with
  | left => exact ⟨{μ},Set.singleton_subset_iff.mpr (.inl (onLeft μ rfl)),gains_self μ⟩
  | right => exact ⟨{μ},Set.singleton_subset_iff.mpr (.inr (onRight μ rfl)),gains_self μ⟩
  | both x y _ joined =>
    refine ⟨{x} ∪ {y},?_,(gains_self x).join (gains_self y) joined⟩
    rintro z (rfl | rfl)
    · exact .inl (onLeft z rfl)
    · exact .inr (onRight z rfl)

lemma kept_of_stems {r o : Option Json} (stems : Stems (Joined ts) (some μ) r o) (governs : μ ∈ memberRules ts left name)
    (onRight : ∀ x, r = some x → x ∈ memberRules ts right name) (onOut : ∀ x, o = some x → x ∈ memberRules ts out name) :
    ∃ m ∈ memberRules ts out name, ∃ A ⊆ sources ts left right name, μ ∈ A ∧ Gains ts A m := by
  cases stems with
  | left => exact ⟨μ,onOut μ rfl,{μ},Set.singleton_subset_iff.mpr (.inl governs),rfl,gains_self μ⟩
  | both _ y m joined =>
    refine ⟨m,onOut m rfl,{μ} ∪ {y},?_,.inl rfl,(gains_self μ).join (gains_self y) joined⟩
    rintro z (rfl | rfl)
    · exact .inl governs
    · exact .inr (onRight z rfl)
section
variable (blends : Blends ts left right out)
include blends
lemma Blends.swap : Blends ts right left out where
  members := blends.members
  keyword key plain s found := blends.keyword key plain s found.symm
  patterns pat := (blends.patterns pat).swap fun _ _ _ => Joined.symm
  further := blends.further.swap fun _ _ _ => Joined.symm
  undeclared name := (blends.undeclared name).trans and_comm
  property name m found := by
    obtain ⟨A,prop⟩ := blends.property name m found
    refine ⟨A,prop.gains,fun μ mem => (prop.within mem).symm,?_,?_,?_,?_⟩
    · exact prop.onRight
    · exact prop.onLeft
    · exact prop.besideRight
    · exact prop.besideLeft

lemma Blends.unmatched (lMembers : Members left) (none : matching ts out name = []) : matching ts left name = [] := by
  apply (matching_nil lMembers).mpr
  intro pat s found
  have stems := blends.patterns pat
  rw [found] at stems
  generalize (patterned right).get? pat = r at stems
  generalize made : (patterned out).get? pat = o at stems
  cases stems with
  | left => exact (matching_nil blends.members).mp none pat s made
  | both _ _ m => exact (matching_nil blends.members).mp none pat m made

lemma Blends.matched (lMembers : Members left) (rMembers : Members right)
    (some_ : matching ts out name ≠ []) : matching ts left name ≠ [] ∨ matching ts right name ≠ [] := by
  obtain ⟨μ,mem⟩ := exists_mem_of_ne_nil _ some_
  obtain ⟨pat,found,matched⟩ := (mem_matching blends.members).mp mem
  have stems := blends.patterns pat
  rw [found] at stems
  generalize atL : (patterned left).get? pat = l at stems
  generalize atR : (patterned right).get? pat = r at stems
  cases stems with
  | left => exact .inl (ne_nil_of_mem ((mem_matching lMembers).mpr ⟨pat,atL,matched⟩))
  | right => exact .inr (ne_nil_of_mem ((mem_matching rMembers).mpr ⟨pat,atR,matched⟩))
  | both l _ _ => exact .inl (ne_nil_of_mem ((mem_matching lMembers).mpr ⟨pat,atL,matched⟩))

-- Every rule of the blend is made of rules of the two sides for the same name.
lemma Blends.made (lMembers : Members left) (rMembers : Members right)
    (governs : μ ∈ memberRules ts out name) : ∃ A ⊆ sources ts left right name, Gains ts A μ := by
  rcases mem_memberRules.mp governs with named | matched | ⟨none,unmatched,further⟩
  · obtain ⟨A,prop⟩ := blends.property name μ named
    exact ⟨A,prop.within,prop.gains⟩
  · obtain ⟨pat,found,matched⟩ := (mem_matching blends.members).mp matched
    exact made_of_stems (found ▸ blends.patterns pat) (fun _ => rule_of_pattern lMembers matched)
      fun _ => rule_of_pattern rMembers matched
  · obtain ⟨noLeft,noRight⟩ := (blends.undeclared name).mp none
    exact made_of_stems (further ▸ blends.further)
      (fun _ at_ => mem_memberRules.mpr (.inr (.inr ⟨noLeft,blends.unmatched lMembers unmatched,at_⟩)))
      fun _ at_ => mem_memberRules.mpr (.inr (.inr ⟨noRight,blends.swap.unmatched rMembers unmatched,at_⟩))

-- Every rule of the left side goes into a rule of the blend, unless the right side shields the name from it.
lemma Blends.kept (lMembers : Members left) (rMembers : Members right)
    (governs : μ ∈ memberRules ts left name) : Shields ts name right left μ ∨
      ∃ m ∈ memberRules ts out name, ∃ A ⊆ sources ts left right name, μ ∈ A ∧ Gains ts A m := by
  -- a property of that name takes in the rules of the side that does not declare it
  have declaredOut : ((declared left).get? name = some μ ∨ (declared left).get? name = none) →
      ¬ ((declared left).get? name = none ∧ (declared right).get? name = none) →
      ∃ m ∈ memberRules ts out name, ∃ A ⊆ sources ts left right name, μ ∈ A ∧ Gains ts A m := by
    intro own someone
    cases found : (declared out).get? name with
    | none => exact absurd ((blends.undeclared name).mp found) someone
    | some m =>
      obtain ⟨A,prop⟩ := blends.property name m found
      refine ⟨m,mem_memberRules.mpr (.inl found),A,prop.within,?_,prop.gains⟩
      rcases own with named | none
      · exact prop.onLeft μ named
      · exact prop.besideRight none μ governs
  rcases mem_memberRules.mp governs with named | matched | ⟨none,unmatched,further⟩
  · right
    refine declaredOut (.inl named) fun absent => ?_
    rw [absent.1] at named
    cases named
  · obtain ⟨pat,found,matched⟩ := (mem_matching lMembers).mp matched
    exact .inr (kept_of_stems (found ▸ blends.patterns pat) governs (fun _ => rule_of_pattern rMembers matched)
      fun _ => rule_of_pattern blends.members matched)
  by_cases declares : (declared right).get? name = Option.none
  · by_cases shielded : matching ts right name = []
    · have bare : matching ts out name = [] := by
        apply Classical.byContradiction
        intro some_
        exact (blends.matched lMembers rMembers some_).elim (fun absurd => absurd unmatched) fun absurd => absurd shielded
      exact .inr (kept_of_stems (further ▸ blends.further) governs
        (fun _ at_ => mem_memberRules.mpr (.inr (.inr ⟨declares,shielded,at_⟩)))
        fun _ at_ => mem_memberRules.mpr (.inr (.inr ⟨(blends.undeclared name).mpr ⟨none,declares⟩,bare,at_⟩)))
    · exact .inl ⟨declares,shielded,none,unmatched,further⟩
  · right
    exact declaredOut (.inr none) fun absent => declares absent.2
end
-- Where each of `A` stands for some of `W`, what gains `A` stands for some of it too, `seed` among it.
lemma Gains.stands (gains : Gains ts A m) (seed : Json → Set Json)
    (covered : ∀ μ ∈ A, ∃ R ⊆ W, seed μ ⊆ R ∧ StandsFor ts depth R μ) :
    ∃ R ⊆ W, (∀ μ ∈ A, seed μ ⊆ R) ∧ StandsFor ts depth R m := by
  choose! pick within seeded stands using covered
  refine ⟨_,?_,fun μ mem rule inside => ?_,gains depth pick stands⟩
  · rintro rule ⟨μ,mem,inside⟩
    exact within μ mem inside
  · exact ⟨μ,mem,seeded μ mem inside⟩

lemma Blends.kept_standing (blends : Blends ts left right out) (lMembers : Members left)
    (rMembers : Members right) (onS : ObjectFor ts (StandsFor ts depth) S left)
    (onT : ObjectFor ts (StandsFor ts depth) T right) (inside : Json.obj fs ∈ S)
    (governs : rule ∈ memberRules ts fs name) : (∃ shield, Json.obj shield ∈ T ∧ Shields ts name shield fs rule) ∨
      (∃ shield, Json.obj shield ∈ S ∧ Shields ts name shield fs rule) ∨
      ∃ m ∈ memberRules ts out name, ∃ R ⊆ rulesOf ts S name ∪ rulesOf ts T name, rule ∈ R ∧ StandsFor ts depth R m := by
  rcases onS.kept name fs inside rule governs with shielded | ⟨μ,found,R,within,ruleIn,stands⟩
  · exact .inr (.inl shielded)
  rcases blends.kept lMembers rMembers found with shields | ⟨m,made,A,sourced,μIn,gains⟩
  · -- the shield of the right side comes from one of `T`, and what it exposes is what `fs` says about further members
    left
    obtain ⟨shield,shieldIn,matched⟩ := onT.origin name shields.matched
    have undeclared := onS.undeclared name fs inside shields.undeclared
    have unmatched := onS.unmatched name fs inside shields.unmatched
    refine ⟨shield,shieldIn,onT.undeclared name shield shieldIn shields.unnamed,matched,undeclared,unmatched,?_⟩
    rcases mem_memberRules.mp governs with named | byPattern | ⟨_,_,further⟩
    · rw [undeclared] at named
      cases named
    · rw [unmatched] at byPattern
      cases byPattern
    · exact further
  right
  right
  have covered x (mem : x ∈ A) : ∃ R ⊆ rulesOf ts S name ∪ rulesOf ts T name, {r | x = μ ∧ r = rule} ⊆ R ∧
      StandsFor ts depth R x := by
    by_cases same : x = μ
    · subst same
      refine ⟨R,within.trans Set.subset_union_left,?_,stands⟩
      rintro _ ⟨_,rfl⟩
      exact ruleIn
    have nothing : {r | x = μ ∧ r = rule} ⊆ (∅ : Set Json) := fun r both => absurd both.1 same
    rcases sourced mem with fromLeft | fromRight
    · obtain ⟨R,within,stands⟩ := onS.made name x fromLeft
      exact ⟨R,within.trans Set.subset_union_left,nothing.trans (Set.empty_subset R),stands⟩
    obtain ⟨R,within,stands⟩ := onT.made name x fromRight
    exact ⟨R,within.trans Set.subset_union_right,nothing.trans (Set.empty_subset R),stands⟩
  obtain ⟨R',within',seeded,stands'⟩ := gains.stands _ covered
  exact ⟨m,made,R',within',seeded μ μIn ⟨rfl,rfl⟩,stands'⟩

lemma rulesOf_union (S T : Set Json) (name : String) : rulesOf ts S name ∪ rulesOf ts T name ⊆ rulesOf ts (S ∪ T) name :=
  Set.union_subset (rulesOf_mono Set.subset_union_left name) (rulesOf_mono Set.subset_union_right name)

-- The blend of two objects stands for what they stand for.
lemma Blends.standsFor (blends : Blends ts left right out) (lMembers : Members left)
    (rMembers : Members right) (onS : ObjectFor ts (StandsFor ts depth) S left)
    (onT : ObjectFor ts (StandsFor ts depth) T right) : ObjectFor ts (StandsFor ts depth) (S ∪ T) out := by
  constructor
  · exact fun s mem => mem.elim (onS.schemas s) (onT.schemas s)
  · rintro fs (inside | inside) key plain s found v holds
    · exact onS.keyword fs inside key plain s found v fun t at_ => blends.keyword key plain t (.inl at_) v holds
    · exact onT.keyword fs inside key plain s found v fun t at_ => blends.keyword key plain t (.inr at_) v holds
  · intro name μ governs
    obtain ⟨A,sourced,gains⟩ := blends.made lMembers rMembers governs
    have covered x (mem : x ∈ A) : ∃ R ⊆ rulesOf ts (S ∪ T) name, ∅ ⊆ R ∧ StandsFor ts depth R x := by
      rcases sourced mem with fromLeft | fromRight
      · obtain ⟨R,within,stands⟩ := onS.made name x fromLeft
        exact ⟨R,within.trans (rulesOf_mono Set.subset_union_left name),Set.empty_subset R,stands⟩
      obtain ⟨R,within,stands⟩ := onT.made name x fromRight
      exact ⟨R,within.trans (rulesOf_mono Set.subset_union_right name),Set.empty_subset R,stands⟩
    obtain ⟨R,within,_,stands⟩ := gains.stands (fun _ => ∅) covered
    exact ⟨R,within,stands⟩
  · rintro name fs (inside | inside) rule governs
    · rcases blends.kept_standing lMembers rMembers onS onT inside governs with
        ⟨shield,shieldIn,shields⟩ | ⟨shield,shieldIn,shields⟩ | ⟨m,made,R,within,ruleIn,stands⟩
      · exact .inl ⟨shield,.inr shieldIn,shields⟩
      · exact .inl ⟨shield,.inl shieldIn,shields⟩
      · exact .inr ⟨m,made,R,within.trans (rulesOf_union S T name),ruleIn,stands⟩
    rcases blends.swap.kept_standing rMembers lMembers onT onS inside governs with
      ⟨shield,shieldIn,shields⟩ | ⟨shield,shieldIn,shields⟩ | ⟨m,made,R,within,ruleIn,stands⟩
    · exact .inl ⟨shield,.inl shieldIn,shields⟩
    · exact .inl ⟨shield,.inr shieldIn,shields⟩
    · rw [Set.union_comm] at within
      exact .inr ⟨m,made,R,within.trans (rulesOf_union S T name),ruleIn,stands⟩
  · rintro name fs (inside | inside) absent
    · exact onS.undeclared name fs inside ((blends.undeclared name).mp absent).1
    · exact onT.undeclared name fs inside ((blends.undeclared name).mp absent).2
  · rintro name fs (inside | inside) absent
    · exact onS.unmatched name fs inside (blends.unmatched lMembers absent)
    · exact onT.unmatched name fs inside (blends.swap.unmatched rMembers absent)
  · intro name matched
    rcases blends.matched lMembers rMembers matched with onLeft | onRight
    · obtain ⟨fs,inside,found⟩ := onS.origin name onLeft
      exact ⟨fs,.inl inside,found⟩
    obtain ⟨fs,inside,found⟩ := onT.origin name onRight
    exact ⟨fs,.inr inside,found⟩

lemma Blends.joined (blends : Blends ts left right out) (lMembers : Members left) (rMembers : Members right) :
    Joined ts (.obj left) (.obj right) (.obj out) := by
  refine ⟨isMemberSchema_obj.mpr blends.members,fun depth S T onS onT => ?_⟩
  cases depth with
  | zero => trivial
  | succ depth => exact blends.standsFor lMembers rMembers onS onT
end Blends
-- Asking for a pattern tells which names it matches. What is no regular expression matches none.
def Reads {σ : Type} (ts : Texts) (inv : σ → Prop) (lookup : Lookup (StateM σ)) : Prop :=
  ∀ pat, Ensures inv (lookup pat) fun found => ∀ name, found.any (· name) = ts.hasMatch pat name

-- The recursive step joins its two schemas.
def Joining {σ : Type} (ts : Texts) (inv : σ → Prop) (recur : Step (StateM σ)) : Prop :=
  ∀ a b path, a.isMemberSchema → b.isMemberSchema → Yields inv (recur a b path) (Joined ts a b)

-- What a property of one side becomes beside the rules of the other side for its name.
structure Takes (ts : Texts) (other : Fields) (name : String) (own m : Json) (A : Set Json) : Prop where
  schema : m.isMemberSchema
  gains : Gains ts A m
  itself : own ∈ A
  within : ∀ μ ∈ A, μ = own ∨ μ ∈ memberRules ts other name
  named : ∀ s, (declared other).get? name = some s → s ∈ A
  beside : (declared other).get? name = none → ∀ μ ∈ memberRules ts other name, μ ∈ A
section Merging
variable {ts : Texts} {σ : Type} {inv : σ → Prop} {recur : Step (StateM σ)}
  {lookup : Lookup (StateM σ)} {left right out : Fields} {key name : String} {l r m : Json}

lemma takes_false (other : Fields) (name : String) (own : Json) : ∃ A, Takes ts other name own (.bool false) A := by
  refine ⟨{μ | μ = own ∨ μ ∈ memberRules ts other name},isSchemaWith_bool false,gains_false _,.inl rfl,?_,?_,?_⟩
  · exact fun μ mem => mem
  · exact fun s found => .inr (mem_memberRules.mpr (.inl found))
  · exact fun _ μ governs => .inr governs

lemma takes_joined (found : (declared other).get? name = some r) (joined : Joined ts own r m) :
    ∃ A, Takes ts other name own m A := by
  refine ⟨{own} ∪ {r},joined.schema,(gains_self own).join (gains_self r) joined,.inl rfl,?_,?_,?_⟩
  · rintro μ (rfl | rfl)
    · exact .inl rfl
    · exact .inr (mem_memberRules.mpr (.inl found))
  · intro s at_
    rw [found] at at_
    cases at_
    exact .inr rfl
  · intro absent
    rw [found] at absent
    cases absent

lemma ensures_governing (reads : Reads ts inv lookup) (missing : (declared owner).get? name = none) :
    Ensures inv (constraints lookup owner name) fun governing => ∀ s, s ∈ governing ↔ s ∈ memberRules ts owner name := by
  have rules s : s ∈ memberRules ts owner name ↔ s ∈ matching ts owner name ∨
      (matching ts owner name = [] ∧ owner.get? "additionalProperties" = some s) := by
    rw [mem_memberRules,missing]
    simp
  refine .bind (.filterM (fun entry => ts.hasMatch entry.1 name)
    (fun entry => ts.hasMatch entry.1 name = false) (fun entry => ?_) _) ?_
  · refine .bind (reads entry.1) fun found told => ?_
    have told := told name
    cases found with
    | none => exact .pure told.symm
    | some isMatch =>
      refine .pure ?_
      change isMatch name = _ at told
      cases answer : isMatch name <;> rw [answer] at told
      all_goals exact told.symm
  rintro governing ⟨sound,complete⟩
  have same s : s ∈ governing.map Prod.snd ↔ s ∈ matching ts owner name := by
    constructor
    · intro mem
      obtain ⟨entry,inside,rfl⟩ := mem_map.mp mem
      obtain ⟨listed,matched⟩ := sound entry inside
      exact mem_map.mpr ⟨entry,mem_filter.mpr ⟨listed,matched⟩,rfl⟩
    intro mem
    obtain ⟨entry,inside,rfl⟩ := mem_map.mp mem
    obtain ⟨listed,matched⟩ := mem_filter.mp inside
    refine mem_map.mpr ⟨entry,(complete entry listed).resolve_right fun unmatched => ?_,rfl⟩
    rw [unmatched] at matched
    cases matched
  cases governing with
  | nil =>
    have none : matching ts owner name = [] := eq_nil_iff_forall_not_mem.mpr fun s mem => nomatch (same s).mpr mem
    refine .pure fun s => ?_
    rw [rules s,none]
    simp
  | cons entry rest =>
    have some_ : matching ts owner name ≠ [] := ne_nil_of_mem ((same entry.2).mp mem_cons_self)
    refine .pure fun s => (same s).trans ?_
    rw [rules s]
    simp [some_]

-- The rules of the other side are taken in one by one.
lemma yields_takes (joining : Joining ts inv recur) (reads : Reads ts inv lookup) (members : Members owner)
    (schema : own.isMemberSchema) (missing : (declared owner).get? name = none) (path : String) :
    Yields inv (constrainUndeclared lookup recur own owner name path) fun m => ∃ A, Takes ts owner name own m A := by
  refine .bind (.ask (ensures_governing reads missing)) fun governing rules => ?_
  refine .mono (.foldlM (motive := fun rest m => m.isMemberSchema ∧
    (∀ s ∈ rest, s ∈ governing) ∧ ∃ A, Gains ts A m ∧ own ∈ A ∧ (∀ μ ∈ A, μ = own ∨ μ ∈ governing) ∧
      ∀ μ ∈ governing, μ ∈ rest ∨ μ ∈ A) ?_ governing own ?_) ?_
  · rintro s rest m ⟨mSchema,toCome,A,gains,ownIn,within,taken⟩
    have inside := toCome s mem_cons_self
    refine .mono (joining m s path mSchema (members.rule ((rules s).mp inside))) fun n joined => ?_
    refine ⟨joined.schema,fun t later => toCome t (.tail _ later),A ∪ {s},
      gains.join (gains_self s) joined,.inl ownIn,?_,fun μ governs => ?_⟩
    · rintro μ (mem | rfl)
      · exact within μ mem
      · exact .inr inside
    rcases taken μ governs with waiting | done
    · rcases mem_cons.mp waiting with rfl | later
      · exact .inr (.inr rfl)
      · exact .inl later
    · exact .inr (.inl done)
  · refine ⟨schema,fun _ mem => mem,{own},gains_self own,rfl,fun μ mem => .inl mem,fun μ mem => .inl mem⟩
  · rintro m ⟨mSchema,_,A,gains,ownIn,within,taken⟩
    refine ⟨A,mSchema,gains,ownIn,fun μ mem => (within μ mem).imp_right (rules μ).mp,fun s found => ?_,?_⟩
    · rw [missing] at found
      cases found
    · exact fun _ μ governs => (taken μ ((rules μ).mpr governs)).resolve_left nofun

lemma yields_blendedProperties (joining : Joining ts inv recur) (reads : Reads ts inv lookup)
    (lMembers : Members left) (rMembers : Members right) (path : String) :
    Yields inv (properties lookup recur left right path) fun made =>
      (made = none ∧ (left.get? "properties").bind Json.fields? = none ∧ (right.get? "properties").bind Json.fields? = none) ∨
        ∃ out, made = some (.obj out) ∧ Declarations (fun name l m => ∃ A, Takes ts right name l m A)
          (fun name r m => ∃ A, Takes ts left name r m A) left right out := by
  obtain ⟨lSorted,lGood⟩ := lMembers.map "properties" rfl
  obtain ⟨rSorted,rGood⟩ := rMembers.map "properties" rfl
  have forbids : ∀ {x} {wanted other name own}, Yields inv x (fun m => ∃ A, Takes ts other name own m A) →
      Yields inv (settleProperty wanted name x) fun m => ∃ A, Takes ts other name own m A :=
    fun yields => runs_settleProperty yields (fun _ => takes_false _ _ _) fun _ _ => trivial
  refine runs_declarations _ _ lSorted rSorted path (fun name l r atL atR => forbids ?_)
    (fun name l atL missing => forbids ?_) (fun name r missing atR => forbids ?_)
  · exact (joining l r _ (lGood name l atL) (rGood name r atR)).mono fun m => takes_joined atR
  · exact yields_takes joining reads rMembers (lGood name l atL) missing _
  · exact yields_takes joining reads lMembers (rGood name r atR) missing _

-- The entries of two maps of schemas, each joined with its partner.
lemma yields_joinedMaps (joining : Joining ts inv recur) {ls rs : Fields} (lSorted : ls.Sorted)
    (rSorted : rs.Sorted) (lefts : ∀ name s, ls.get? name = some s → s.isMemberSchema)
    (rights : ∀ name s, rs.get? name = some s → s.isMemberSchema) (path : String) :
    Yields inv (schemaMaps recur (.obj ls) (.obj rs) path) fun m => ∃ out : Fields, m = .obj out ∧ out.Sorted ∧
      ∀ name, Stems (Joined ts) (ls.get? name) (rs.get? name) (out.get? name) := by
  rw [schemaMaps_eq]
  refine .bind (runs_joinMaps (fun _ => Joined ts) lSorted rSorted fun name l r atL atR => ?_)
    fun out ⟨sorted,stems⟩ => .pure ⟨out,rfl,sorted,stems⟩
  exact .orElse (joining l r _ (lefts name l atL) (rights name r atR)) fun _ _ => .pure (joined_false l r)

-- What a keyword of both sides becomes. Nothing is left over.
structure Blended (ts : Texts) (key : String) (l r m : Json) (extra : List Json) : Prop where
  spent : extra = []
  formed : keywordFormed Json.isMemberSchema key m
  narrows : key ∈ ["type","required"] → ∀ v, keywordHolds ts (Json.accepts ts) key m v →
    keywordHolds ts (Json.accepts ts) key l v ∧ keywordHolds ts (Json.accepts ts) key r v
  patterns : key = "patternProperties" → ∀ pat, Stems (Joined ts) ((l.fields?.getD []).get? pat)
    ((r.fields?.getD []).get? pat) ((m.fields?.getD []).get? pat)
  further : key = "additionalProperties" → Joined ts l r m

lemma blended_self (formed : keywordFormed Json.isMemberSchema key l) : Blended ts key l l l [] where
  spent := rfl
  formed := formed
  narrows _ _ holds := ⟨holds,holds⟩
  patterns same pat := by
    subst same
    obtain ⟨es,rfl,sorted,good⟩ := (formed_map rfl).mp formed
    change Stems (Joined ts) (get? es pat) (get? es pat) (get? es pat)
    cases found : get? es pat with
    | none => exact .neither
    | some s => exact .both s s s (joined_self (good _ (mem_of_get? found)))
  further same := by
    subst same
    exact joined_self formed

lemma yields_blended (joining : Joining ts inv recur) (known : key ∈ members.keywords)
    (inPlace : key ≠ "properties") (left : keywordFormed Json.isMemberSchema key l)
    (right : keywordFormed Json.isMemberSchema key r) (path : String) :
    Yields inv (keyword recur key l r path) fun made => Blended ts key l r made.1 made.2 := by
  have exacts : ∀ {s}, keywordFormed Json.isMemberSchema key s → s.isExact :=
    fun formed => exact_keyword (fun _ _ => exact_schema) (formed_of_with formed)
  unfold keyword
  split
  · next same =>
    rw [← (Json.deepEqual_iff (exacts left) (exacts right)).mp same]
    exact .pure (blended_self left)
  fin_cases known
  · refine .bind (.ofAny fun m made => made) fun m made => .pure ?_
    exact ⟨rfl,formed_types made,fun _ v => (holds_types made v).mp,nofun,nofun⟩
  · obtain ⟨ns,made,_⟩ := unionStrings_eq l.itemsOrNone r.itemsOrNone
    refine .pure ⟨rfl,isNames_iff.mpr ⟨ns,made⟩,fun _ v => (holds_union left right v).mp,?_,?_⟩
    all_goals exact nofun
  · exact absurd rfl inPlace
  · obtain ⟨ls,rfl,lSorted,lefts⟩ := (formed_map rfl).mp left
    obtain ⟨rs,rfl,rSorted,rights⟩ := (formed_map rfl).mp right
    refine .bind (yields_joinedMaps joining lSorted rSorted
      (fun name s found => lefts _ (mem_of_get? found)) (fun name s found => rights _ (mem_of_get? found)) _) ?_
    rintro m ⟨out,rfl,sorted,stems⟩
    refine .pure ⟨rfl,(formed_map rfl).mpr ⟨out,rfl,sorted,?_⟩,(absurd · (by decide)),fun _ => stems,nofun⟩
    rintro ⟨name,s⟩ mem
    have stemming := stems name
    rw [get?_of_mem sorted mem] at stemming
    generalize atL : ls.get? name = l at stemming
    generalize atR : rs.get? name = r at stemming
    cases stemming with
    | left => exact lefts _ (mem_of_get? atL)
    | right => exact rights _ (mem_of_get? atR)
    | both _ _ _ joined => exact joined.schema
  · refine .bind (joining l r _ left right) fun m joined => .pure ?_
    exact ⟨rfl,joined.schema,(absurd · (by decide)),nofun,fun _ => joined⟩

-- No bounds and no constants are left to be checked.
lemma settled_members (members : Members out) (path : String) : reconcileValues out path = .ok out ∧ fold out = out := by
  constructor
  · unfold reconcileValues
    rw [members.absent (by decide : "const" ∉ _),members.absent (by decide : "enum" ∉ _)]
    rfl
  have unbounded {key} (unknown : key ∉ Vocabulary.members.keywords) : value? out key = none := by
    unfold value?
    rw [members.absent unknown]
    rfl
  unfold fold dropImplied
  rw [unbounded (by decide : "minimum" ∉ _)]
  rw [unbounded (by decide : "maximum" ∉ _)]
section Assembled
variable {shared : Fields} {extra : String → List Json} {props : Option Json}
lemma Gathered.nothing_left (drawn : Gathered (Blended ts) false left right [] shared extra) (key : String) :
    extra key = [] := by
  by_cases spent : extra key = []
  · exact spent
  obtain ⟨l,r,_,atL,atR,inPlace,blended⟩ := drawn.ruled spent
  exact blended.spent

lemma members_assembled (lMembers : Members left) (rMembers : Members right)
    (drawn : Gathered (Blended ts) false left right [] shared extra)
    (formed : ∀ s, props = some s → keywordFormed Json.isMemberSchema "properties" s) :
    Members (assembled false left right shared props none none) := by
  have each key s (found : (assembled false left right shared props none none).get? key = some s) :
      key ∈ members.keywords ∧ keywordFormed Json.isMemberSchema key s := by
    cases aside : setAside false key with
    | true =>
      rw [drawn.get?_unlisted rMembers.sorted aside] at found
      split at found
      · next same =>
        subst same
        exact ⟨by decide,formed s found⟩
      · cases found
    | false =>
      rcases drawn.sources rMembers.sorted aside found with atL | atR | ⟨l,_,atL,_,blended⟩
      · exact ⟨lMembers.known key s atL,lMembers.formed key s atL⟩
      · exact ⟨rMembers.known key s atR,rMembers.formed key s atR⟩
      · exact ⟨lMembers.known key l atL,blended.formed⟩
  exact ⟨drawn.sorted_assembled,fun key s found => (each key s found).1,fun key s found => (each key s found).2⟩

lemma patterned_stems {l r o : Option Json} (stems : Stems (fun l r m => Blended ts "patternProperties" l r m []) l r o)
    (pat : String) : Stems (Joined ts) (get? ((l.bind Json.fields?).getD []) pat)
      (get? ((r.bind Json.fields?).getD []) pat) (get? ((o.bind Json.fields?).getD []) pat) := by
  cases stems with
  | neither => exact .neither
  | left l =>
    change Stems (Joined ts) (get? (l.fields?.getD []) pat) none (get? (l.fields?.getD []) pat)
    cases get? (l.fields?.getD []) pat with
    | none => exact .neither
    | some s => exact .left s
  | right r =>
    change Stems (Joined ts) none (get? (r.fields?.getD []) pat) (get? (r.fields?.getD []) pat)
    cases get? (r.fields?.getD []) pat with
    | none => exact .neither
    | some s => exact .right s
  | both l r m blended => exact blended.patterns rfl pat

-- Each property of the intersection takes in what the other side says about its name.
lemma property_of_takes (declarations : Declarations (fun name l m => ∃ A, Takes ts right name l m A)
    (fun name r m => ∃ A, Takes ts left name r m A) left right out) (found : out.get? name = some m) :
    m.isMemberSchema ∧ ∃ A, Property ts left right name m A := by
  have own : ∀ {fs} {s}, (declared fs).get? name = some s → s ∈ memberRules ts fs name :=
    fun at_ => mem_memberRules.mpr (.inl at_)
  cases atL : (declared left).get? name with
  | some l =>
    obtain ⟨made,at_,A,takes⟩ := declarations.onLeft name l atL
    rw [found] at at_
    cases at_
    refine ⟨takes.schema,A,takes.gains,fun μ mem => ?_,fun μ same => ?_,takes.named,takes.beside,fun absent => ?_⟩
    · rcases takes.within μ mem with rfl | governs
      · exact .inl (own atL)
      · exact .inr governs
    · rw [atL] at same
      cases same
      exact takes.itself
    · rw [atL] at absent
      cases absent
  | none =>
    cases atR : (declared right).get? name with
    | none =>
      rw [declarations.neither name atL atR] at found
      cases found
    | some r =>
      obtain ⟨made,at_,A,takes⟩ := declarations.onRight name r atL atR
      rw [found] at at_
      cases at_
      refine ⟨takes.schema,A,takes.gains,fun μ mem => ?_,takes.named,fun μ same => ?_,fun absent => ?_,takes.beside⟩
      · rcases takes.within μ mem with rfl | governs
        · exact .inr (own atR)
        · exact .inl governs
      · rw [atR] at same
        cases same
        exact takes.itself
      · rw [atR] at absent
        cases absent

lemma blends_assembled (lMembers : Members left) (rMembers : Members right)
    (drawn : Gathered (Blended ts) false left right [] shared extra)
    (described : (props = none ∧ (left.get? "properties").bind Json.fields? = none ∧
        (right.get? "properties").bind Json.fields? = none) ∨
      ∃ out, props = some (.obj out) ∧ Declarations (fun name l m => ∃ A, Takes ts right name l m A)
        (fun name r m => ∃ A, Takes ts left name r m A) left right out) :
    Blends ts left right (assembled false left right shared props none none) := by
  have rSorted := rMembers.sorted
  set made := assembled false left right shared props none none
  have declaredOut : declared made = _ := drawn.declared_assembled rSorted
  have stems key (inPlace : setAside false key = false) :
      Stems (fun l r m => Blended ts key l r m []) (left.get? key) (right.get? key) (made.get? key) := by
    have stems := drawn.stems rSorted inPlace props none none
    rw [drawn.nothing_left key] at stems
    exact stems
  constructor
  · refine members_assembled lMembers rMembers drawn fun s found => ?_
    rcases described with ⟨rfl,_⟩ | ⟨out,rfl,declarations⟩
    · cases found
    cases found
    refine (formed_map rfl).mpr ⟨out,rfl,declarations.sorted,fun entry mem => ?_⟩
    exact (property_of_takes declarations (get?_of_mem declarations.sorted mem)).1
  · intro key plain s source v holds
    have inPlace : setAside false key = false := by
      fin_cases plain <;> rfl
    have stemming := stems key inPlace
    generalize left.get? key = l at stemming source
    generalize right.get? key = r at stemming source
    generalize made.get? key = o at stemming holds
    cases stemming with
    | neither => rcases source with absent | absent <;> cases absent
    | left l => exact holds s (source.resolve_right nofun)
    | right r => exact holds s (source.resolve_left nofun)
    | both l r m blended =>
      obtain ⟨onLeft,onRight⟩ := blended.narrows plain v (holds m rfl)
      rcases source with same | same <;> cases same
      · exact onLeft
      · exact onRight
  · exact patterned_stems (stems "patternProperties" rfl)
  · have stemming := stems "additionalProperties" rfl
    generalize left.get? "additionalProperties" = l at stemming ⊢
    generalize right.get? "additionalProperties" = r at stemming ⊢
    generalize made.get? "additionalProperties" = o at stemming ⊢
    cases stemming with
    | neither => exact .neither
    | left l => exact .left l
    | right r => exact .right r
    | both l r m blended => exact .both l r m (blended.further rfl)
  · intro name
    rw [declaredOut]
    rcases described with ⟨rfl,noLeft,noRight⟩ | ⟨out,rfl,declarations⟩
    · unfold declared
      rw [noLeft,noRight]
      exact ⟨fun _ => ⟨rfl,rfl⟩,fun _ => rfl⟩
    · exact declarations.undeclared name
  · intro name m found
    rw [declaredOut] at found
    rcases described with ⟨rfl,_⟩ | ⟨out,rfl,declarations⟩
    · cases found
    · exact (property_of_takes declarations found).2
end Assembled
lemma yields_blends (joining : Joining texts inv recur) (reads : Reads texts inv lookup) (lMembers : Members left)
    (rMembers : Members right) (path : String) :
    Yields inv (objects lookup recur left right path) (Blends texts left right) := by
  have noClash : conditionalsClash left right = false := by
    unfold conditionalsClash Fields.has
    rw [lMembers.absent (by decide : "if" ∉ _)]
    rfl
  have noItems : items recur left right path = pure (none,none) := by
    unfold items
    rw [lMembers.absent (by decide : "items" ∉ _),lMembers.absent (by decide : "additionalItems" ∉ _),
      rMembers.absent (by decide : "items" ∉ _),rMembers.absent (by decide : "additionalItems" ∉ _)]
    rfl
  unfold objects
  rw [noClash,noItems]
  refine .bind (runs_sharedKeywords (Blended texts) lMembers.sorted path
    (fun key l r atLeft atRight inPlace => (yields_blended joining (lMembers.known key l atLeft)
      ?_ (lMembers.formed key l atLeft) (rMembers.formed key r atRight) path)) []).yields ?_
  · rintro rfl
    cases inPlace
  rintro ⟨shared,residual⟩ ⟨extra,spent,drawn⟩
  dsimp only at spent drawn
  refine .bind (yields_blendedProperties joining reads lMembers rMembers path) fun props described => ?_
  have blends := blends_assembled lMembers rMembers drawn described
  have nothing : residual = [] := by
    rw [spent]
    apply eq_nil_iff_forall_not_mem.mpr
    intro e member
    obtain ⟨field,_,inside⟩ := mem_flatMap.mp member
    rw [drawn.nothing_left field.1] at inside
    cases inside
  subst nothing
  obtain ⟨reconciled,folded⟩ := settled_members blends.members path
  change Yields inv (do
    let out ← Attempt.ofExcept (reconcileValues (assembled false left right shared props none none) path)
    Attempt.ofExcept (checkBounds (fold out) path)
    return fold out) _
  rw [reconciled]
  refine .bind (.ofAny fun out same => (Except.ok.inj same).symm) ?_
  rintro out rfl
  refine .bind (.ofAny fun _ _ => trivial) fun _ (_ : True) => .pure ?_
  rw [folded]
  exact blends

lemma foldAllOf_members (schema : a.isMemberSchema) (path : String) : foldAllOf recur a path = pure a := by
  rcases isMemberSchema_cases schema with ⟨b,rfl⟩ | ⟨fs,rfl,members⟩
  · rfl
  · exact foldAllOf_flat (s := .obj fs) (members.absent (by decide : "allOf" ∉ _)) path

lemma joining_step (joining : Joining ts inv recur) (reads : Reads ts inv lookup) :
    Joining ts inv (step lookup recur) := by
  intro a b path aSchema bSchema
  unfold step
  rw [foldAllOf_members aSchema,foldAllOf_members bSchema,pure_bind,pure_bind]
  rcases isMemberSchema_cases aSchema with ⟨x,rfl⟩ | ⟨left,rfl,lMembers⟩
  · cases x with
    | false => exact .pure (joined_false _ _)
    | true =>
      rcases isMemberSchema_cases bSchema with ⟨y,rfl⟩ | ⟨right,rfl,rMembers⟩
      · cases y with
        | false => exact .pure (joined_false _ _)
        | true => exact .pure (joined_true bSchema)
      · exact .pure (joined_true bSchema)
  · rcases isMemberSchema_cases bSchema with ⟨y,rfl⟩ | ⟨right,rfl,rMembers⟩
    · cases y with
      | false => exact .pure (joined_false _ _)
      | true => exact .pure (joined_true aSchema).symm
    · refine .bind (yields_blends joining reads lMembers rMembers path) fun out blends => ?_
      exact .pure (blends.joined lMembers rMembers)

lemma joining_mergeWithin (reads : Reads ts inv lookup) (fuel : Nat) : Joining ts inv (mergeWithin lookup fuel) := by
  induction fuel with
  | zero => exact fun _ _ _ _ _ => .outOfFuel trivial
  | succ fuel ih => exact joining_step ih reads

-- A merge accepts too much only where a member slips past a schema.
lemma ensures_merge_members (reads : Reads ts inv lookup) (aSchema : a.isMemberSchema) (bSchema : b.isMemberSchema) :
    Ensures inv (merge lookup a b) fun result => ∀ m, result = .ok m → ∀ v, m.accepts ts v →
      (∀ z c, Slips ts {a,b} v z c → c.accepts ts z) → a.accepts ts v ∧ b.accepts ts v := by
  refine .mono (ensures_merge_of_runs (.mono (joining_mergeWithin reads (budget a b) a b "" aSchema bSchema)
    fun m joined v acc slipping => ?_) fun _ v acc _ => (accepts_allOf a b v).mp acc) fun _ facts => facts.1
  have stands : StandsFor ts (v.depth + 1) ({a} ∪ {b}) m :=
    joined.stands _ {a} {b} (standsFor_self aSchema) (standsFor_self bSchema)
  have both := accepts_of_standsFor joined.schema (Nat.lt_succ_self _) stands acc slipping
  exact ⟨both a (.inl rfl),both b (.inr rfl)⟩
end Merging
theorem merge_accepts_both_iff_slipping_accepted {σ : Type} (texts : Texts) (inv : σ → Prop)
    (lookup : String → StateM σ (Option Matcher)) (reads : Reads texts inv lookup) (state : σ) (valid : inv state)
    (a b m v : Json) (left : a.isMemberSchema = true) (right : b.isMemberSchema = true)
    (merged : ((merge lookup a b).run state).1 = .ok m) (accepted : m.accepts texts v = true) :
    (a.accepts texts v = true ∧ b.accepts texts v = true) ↔ ∀ z c, Slips texts {a,b} v z c → c.accepts texts z = true := by
  constructor
  · rintro ⟨onLeft,onRight⟩ z c slips
    refine slips.accepted ?_ ?_
    · rintro s (rfl | rfl)
      · exact left
      · exact right
    · rintro s (rfl | rfl)
      · exact onLeft
      · exact onRight
  · exact (ensures_merge_members reads left right state valid).2 m merged v accepted

-- Patterns as the regular expressions they are. What is none matches nothing.
def regularTexts : Texts where
  hasMatch pat text := (Pattern.Regex.compile? pat).any (·.isMatch text)
  hasFormat _ _ := true

lemma reads_matcher : Reads regularTexts Memory.Honest (Memory.matcher (m := StateM Memory)) := by
  intro pat
  refine .bind (Memory.ensures_regex pat) fun found compiled => .pure fun name => ?_
  rw [compiled,Option.any_map]
  rfl

-- A number `n`, and any further ones whose names begin with `x`.
def countedMembers : Json :=
  .obj [("additionalProperties",.bool false),("patternProperties",.obj [("^x",.obj [])]),("properties",.obj [("n",.obj [])])]

def numericMembers : Json :=
  .obj [("additionalProperties",.obj [("type",.str "number")]),("required",.strings ["n"])]

def numericCount : Json :=
  .obj [("additionalProperties",.bool false),("patternProperties",.obj [("^x",.obj [])]),
    ("properties",.obj [("n",.obj [("type",.str "number")])]),("required",.strings ["n"])]

theorem merge_accepts_both_iff_slipping_accepted_numericCount : let v := Json.obj [("n",.digit 1),("x",.digit 2)]
    ((merge Memory.matcher countedMembers numericMembers : StateM Memory _).run {}).1 = .ok numericCount ∧
      numericCount.accepts regularTexts v = true ∧
      ∀ z c, Slips regularTexts {countedMembers,numericMembers} v z c → c.accepts regularTexts z = true :=
  ⟨rfl,by decide +kernel,(merge_accepts_both_iff_slipping_accepted regularTexts Memory.Honest Memory.matcher reads_matcher {}
    (fun _ _ found => nomatch found) countedMembers numericMembers numericCount _ (by decide) (by decide) rfl
    (by decide +kernel)).mp (by decide +kernel)⟩

theorem merge_lets_member_slip :
    let patterned := Json.obj [("additionalProperties",.bool false),("patternProperties",.obj [("^x",.obj [])])]
    let closed := Json.obj [("additionalProperties",.bool false)]
    let v := Json.obj [("x",.digit 1)]
    ((merge Memory.matcher patterned closed : StateM Memory _).run {}).1 = .ok patterned ∧
      patterned.accepts regularTexts v = true ∧ closed.accepts regularTexts v = false :=
  ⟨rfl,by decide +kernel,by decide +kernel⟩
end Intersection
end SchemaOrder
