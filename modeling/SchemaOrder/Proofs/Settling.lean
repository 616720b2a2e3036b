import SchemaOrder.Memory
import SchemaOrder.Containment
import SchemaOrder.Proofs.Negation
import SchemaOrder.Proofs.Positions
namespace SchemaOrder
open Acceptance Schemas List Vocabulary Option Json
open Pattern (Regex)
namespace Engine
-- Settling changes nothing on the values of the narrower schema, except where both schemas describe additional
-- properties: a name that only the narrower one declares is one of the wider schema's additional properties.
structure Neutral (ts : Texts) (vocab : Vocabulary) (sub sup new : Fields) : Prop where
  formed : Formed vocab new
  groups : ∀ key ∈ grouped, new.get? key = sup.get? key
  alike : ∀ v, v.isExact → (obj sub).accepts ts v →
    (obj new).accepts ts v = (obj sup).accepts ts v
section Keywords
variable {ts : Texts} {vocab other : Vocabulary} {sub sup middle new : Fields} {key : String}
lemma Neutral.refl (formed : Formed vocab sup) : Neutral ts vocab sub sup sup := ⟨formed,fun _ _ => rfl,fun _ _ _ => rfl⟩

lemma Neutral.trans (first : Neutral ts vocab sub sup middle) (second : Neutral ts vocab sub middle new) :
    Neutral ts vocab sub sup new where
  formed := second.formed
  groups key mem := (second.groups key mem).trans (first.groups key mem)
  alike v exact acc := (second.alike v exact acc).trans (first.alike v exact acc)

structure Replaces (ts : Texts) (vocab : Vocabulary) (sub sup : Fields) (key : String)
    (replacement : Option Json) : Prop where
  good : ∀ r, replacement = some r →
    vocab.allows key r ∧ keywordFormed (isSchema vocab) key r
  before : ∀ v, v.isExact → (obj sub).accepts ts v →
    ∀ s, sup.get? key = some s → keywordHolds ts (accepts ts) key s v
  after : ∀ v, v.isExact → (obj sub).accepts ts v →
    ∀ r, replacement = some r → keywordHolds ts (accepts ts) key r v

lemma neutral_settle (s : Settled) (formed : Formed vocab s.sup)
    (plain : key ∉ grouped) (replaces : Replaces ts vocab sub s.sup key replacement) :
    Neutral ts vocab sub s.sup (s.settle key replacement).sup := by
  have apart : ∀ k ∈ grouped, key ≠ k := fun k mem same => plain (same ▸ mem)
  cases replacement with
  | none =>
    refine ⟨formed.erase (unconditional plain),fun k mem => Fields.get?_erase_other (apart k mem),fun v exact acc => ?_⟩
    rw [Bool.eq_iff_iff,accepts_erase formed.sorted plain]
    exact ⟨fun rest => ⟨rest,replaces.before v exact acc⟩,And.left⟩
  | some r =>
    obtain ⟨allowed,good⟩ := replaces.good r rfl
    refine ⟨formed.put (unconditional plain) allowed good,fun k mem => Fields.get?_put_other (apart k mem),
      fun v exact acc => ?_⟩
    rw [Bool.eq_iff_iff,accepts_erase formed.sorted plain]
    refine (accepts_put formed.sorted plain).trans (and_congr_right fun _ => ?_)
    exact iff_of_true (replaces.after v exact acc r rfl) (replaces.before v exact acc)

lemma neutral_decide (s : Settled) (formed : Formed vocab s.sup) (plain : key ∉ grouped)
    (replaces : verdict = some true → Replaces ts vocab sub s.sup key replacement) :
    Neutral ts vocab sub s.sup (s.decide verdict key replacement violation).sup := by
  match verdict, replaces with
  | some true, replaces => exact neutral_settle s formed plain (replaces rfl)
  | some false, _ | none, _ => exact .refl formed
end Keywords
structure Ground {σ : Type} (ts : Texts) (inv : σ → Prop) (e : Engine (StateM σ)) (own other : Vocabulary) : Prop where
  literal : other.Literal
  describes : other.describesExtra
  faithful : other.has "format" → ts.Faithful
  patternless : own.has "pattern" = false
  ungrouped : own.has "patternProperties" = false
  otherUngrouped : other.has "patternProperties" = false
  formats : ∀ format, own.allows "format" (.str format) → other.allows "format" (.str format)
  inclusions : ∀ format wider, own.allows "format" (.str format) → Format.within format wider →
    ∀ text, ts.hasFormat format text → ts.hasFormat wider text
  matches_ : other.has "pattern" → ∀ pat, Ensures inv (e.matcher pat) fun found =>
    ∀ isMatch, found = some isMatch → ∀ text, isMatch text = ts.hasMatch pat text
section Stages
variable {σ : Type} {ts : Texts} {inv : σ → Prop} {e : Engine (StateM σ)} {own other : Vocabulary} {sub : Fields}
  {path : String}
section
variable (ground : Ground ts inv e own other) (formed : Formed own sub)
include ground formed
lemma settlePattern_neutral (s : Settled)
    (otherFormed : Formed other s.sup) : Ensures inv (e.settlePattern sub path s) fun t => Neutral ts other sub s.sup t.sup := by
  have unnamed : sub.get? "pattern" = none := formed.absent ground.patternless
  unfold settlePattern
  split
  · exact .pure (.refl otherFormed)
  next pat found =>
  obtain ⟨written,atPattern,isText⟩ := bind_eq_some_iff.mp found
  have known := has_of_allows (otherFormed.allowed _ _ atPattern)
  have verdict : Ensures inv (e.patternVerdict sub pat) fun verdict => verdict = some true →
      ∀ v, v.isExact → (obj sub).accepts ts v → v.str?.all (ts.hasMatch pat) := by
    unfold patternVerdict
    split
    · next values literals =>
      refine .bind (ground.matches_ known pat) fun found law => .pure fun answer v exact acc => ?_
      obtain ⟨isMatch,here,all⟩ := map_eq_some_iff.mp answer
      have mem := Negation.mem_literals (exact_schema (isSchema_obj.mpr formed)) exact ((accepts_obj formed.sorted).mp acc) literals
      refine (all_eq_true _ _).mpr fun text isText => ?_
      rw [← law isMatch here text]
      exact all_eq_true.mp all text (mem_filterMap.mpr ⟨v,mem,isText⟩)
    · rw [unnamed]
      exact .pure nofun
  refine .bind verdict fun verdict holds => .pure ?_
  refine neutral_decide s otherFormed (by decide) fun yes => ⟨?_,?_,?_⟩
  · rw [unnamed]
    exact nofun
  · intro v exact acc t atKey
    rw [atPattern] at atKey
    cases atKey
    change (v.str?.all fun text => written.str?.all fun p => ts.hasMatch p text)
    rw [isText]
    exact holds yes v exact acc
  · rw [unnamed]
    exact nofun

-- Values with an answer of their own have the format; a format of their own may lie within it.
lemma hasFormat_of_verdict
    (known : other.has "format") {format : String} {v : Json} (exact : v.isExact) (acc : (obj sub).accepts ts v)
    (yes : formatVerdict sub format = some true) : v.str?.all (ts.hasFormat format) := by
  have obeys := (accepts_obj formed.sorted).mp acc
  refine (all_eq_true _ _).mpr fun text isText => ?_
  unfold formatVerdict at yes
  split at yes
  · next values literals =>
    have mem := Negation.mem_literals (exact_schema (isSchema_obj.mpr formed)) exact obeys literals
    dsimp only at yes
    split at yes
    · cases yes
    split at yes
    · next all =>
      have answer := all_eq_true.mp all _ (mem_map_of_mem mem)
      cases v with
      | str t =>
        cases isText
        obtain ⟨test,tested,passes⟩ := map_eq_some_iff.mp (beq_iff_eq.mp answer)
        rw [ground.faithful known format test tested]
        exact passes
      | _ => cases isText
    · cases yes
  · split at yes
    · next named found =>
      obtain ⟨written,atFormat,isName⟩ := bind_eq_some_iff.mp found
      have allowed := formed.allowed _ _ atFormat
      have holds := obeys.keyword _ _ atFormat
      cases written with
      | str name =>
        cases isName
        split at yes
        · next within =>
          refine ground.inclusions _ _ allowed within text ?_
          exact (all_eq_true _ _).mp holds text isText
        · split at yes <;> cases yes
      | _ => cases isName
    · cases yes

lemma settleFormat_neutral (path : String) (s : Settled)
    (otherFormed : Formed other s.sup) : Neutral ts other sub s.sup (settleFormat sub path s).sup := by
  unfold settleFormat
  split
  · exact .refl otherFormed
  next format found =>
  obtain ⟨written,atFormat,isText⟩ := bind_eq_some_iff.mp found
  refine neutral_decide s otherFormed (by decide) fun yes => ⟨?_,?_,?_⟩
  · intro r atOwn
    have good := formed.formed _ _ atOwn
    have allowed := formed.allowed _ _ atOwn
    cases r with
    | str name => exact ⟨ground.formats name allowed,rfl⟩
    | _ => cases good
  · intro v exact acc t atKey
    rw [atFormat] at atKey
    cases atKey
    change (v.str?.all fun text => written.str?.all fun f => ts.hasFormat f text)
    rw [isText]
    have known := has_of_allows (otherFormed.allowed _ _ atFormat)
    exact hasFormat_of_verdict ground formed known exact acc yes
  · intro v exact acc r atOwn
    exact ((accepts_obj formed.sorted).mp acc).keyword _ _ atOwn

lemma settleNegation_neutral (path : String) (s : Settled)
    (otherFormed : Formed other s.sup) : Neutral ts other sub s.sup (settleNegation sub path s).sup := by
  unfold settleNegation
  split
  · exact .refl otherFormed
  next negated atNot =>
  have schema : negated.isSchema other := by
    have good := otherFormed.formed _ _ atNot
    rwa [formed_subSchema rfl] at good
  split
  · exact .refl otherFormed
  refine neutral_decide s otherFormed (by decide) fun yes =>
    ⟨nofun,?_,nofun⟩
  intro v exact acc t atKey
  rw [atNot] at atKey
  cases atKey
  have disjoint : relation sub negated.normalize = .disjoint := by
    unfold negationVerdict at yes
    split at yes
    · next answer => exact answer
    all_goals cases yes
  have rejected := relation_disjoint ground.literal ground.faithful formed
    (isSchema_normalize ground.literal schema) disjoint exact acc
  rw [alike_normalize schema v exact] at rejected
  change (!negated.accepts ts v)
  rw [rejected]
  rfl
end
end Stages
inductive Strays : Json → Json → Json → Prop where
  | extra {sub sup extra wider ms : Fields} {name : String} {x : Json}
    (ownExtra : sub.get? "additionalProperties" = some (.obj extra))
    (otherExtra : sup.get? "additionalProperties" = some (.obj wider))
    (held : (name,x) ∈ ms) (undeclared : (declared sup).get? name = none)
    (declares : (declared sub).get? name ≠ none) : Strays (.obj sub) (.obj sup) (.obj ms)
  | inside {sub sup : Fields} {path : String} {p : Paired} {v x : Json}
    (mem : p ∈ pairedPositions sub sup path .settling) (reaches : p.slot.Reaches sup v x)
    (strays : Strays p.left p.right x) : Strays (.obj sub) (.obj sup) v

structure Settles (ts : Texts) (vocab : Vocabulary) (sub sup settled : Json) : Prop where
  schema : settled.isSchema vocab
  flat : sub.fields? = none ∨ sup.fields? = none → settled = sup
  alike : ∀ v, v.isExact → sub.accepts ts v → ¬ Strays sub sup v →
    settled.accepts ts v = sup.accepts ts v

structure Underway (ts : Texts) (vocab : Vocabulary) (sub sup : Fields) (rest : List Paired) (now : Fields) : Prop where
  formed : Formed vocab now
  declares : ∀ name, (declared now).get? name = none ↔ (declared sup).get? name = none
  pending : ∀ p ∈ rest, p.slot.get? now = some p.right
  apart : rest.Pairwise fun p q => p.slot.Apart q.slot
  alike : ∀ v, v.isExact → (obj sub).accepts ts v → ¬ Strays (.obj sub) (.obj sup) v →
    (obj now).accepts ts v = (obj sup).accepts ts v
section Walk
variable {σ : Type} {ts : Texts} {inv : σ → Prop} {e : Engine (StateM σ)} {own other : Vocabulary} {sub sup now : Fields}
  {path : String} {p : Paired} {rest : List Paired} {v x : Json}

lemma reaches_congr {slot : Slot} (declares : ∀ name, (declared now).get? name = none ↔ (declared sup).get? name = none)
    (reaches : slot.Reaches now v x) : slot.Reaches sup v x := by
  cases reaches with
  | member held => exact .member held
  | extra held undeclared => exact .extra held ((declares _).mp undeclared)
  | item held => exact .item held
  | entry held => exact .entry held

-- What a position of `sup` reaches is accepted by the schema of `sub` there, or it strays.
lemma settled_alike (shared : p.Shared own other sub sup) (formed : Formed own sub)
    (plain : sub.get? "patternProperties" = none) (mem : p ∈ pairedPositions sub sup path .settling)
    (settles : Settles ts other p.left p.right settled) (exact : v.isExact)
    (acc : (obj sub).accepts ts v) (stays : ¬ Strays (.obj sub) (.obj sup) v)
    (reaches : p.slot.Reaches sup v x) : settled.accepts ts x = p.right.accepts ts x := by
  have obeys := (accepts_obj formed.sorted).mp acc
  have common : p.slot.Reaches sub v x → settled.accepts ts x = p.right.accepts ts x := fun ownReaches =>
    settles.alike x (reaches.exact exact) (ownReaches.accepted plain obeys shared.atLeft shared.leftSchema)
      fun strays => stays (.inside mem reaches strays)
  obtain ⟨slot,left,right,at_⟩ := p
  cases reaches with
  | member held => exact common (.member held)
  | item held => exact common (.item held)
  | entry held => exact common (.entry held)
  | @extra name ms _ held undeclared =>
    cases declares : (declared sub).get? name with
    | none => exact common (.extra held declares)
    | some s =>
      rcases isSchema_cases shared.leftSchema with ⟨b,rfl⟩ | ⟨extra,rfl,_⟩
      · rw [settles.flat (.inl rfl)]
      rcases isSchema_cases shared.rightSchema with ⟨b,rfl⟩ | ⟨wider,rfl,_⟩
      · rw [settles.flat (.inr rfl)]
      exact absurd (.extra shared.atLeft shared.atRight held undeclared (by simp [declares])) stays

lemma underway_place (ground : Ground ts inv e own other) (formed : Formed own sub)
    (supFormed : Formed other sup) (mem : p ∈ pairedPositions sub sup path .settling)
    (settles : Settles ts other p.left p.right settled) (underway : Underway ts other sub sup (p :: rest) now) :
    Underway ts other sub sup rest (p.slot.place now settled) := by
  have plain : sub.get? "patternProperties" = none := formed.absent ground.ungrouped
  have shared := Paired.shared_positions formed supFormed plain mem
  have found := underway.pending p mem_cons_self
  have placed := Slot.formed_place underway.formed shared.settling found settles.schema ground.describes
  obtain ⟨first,later⟩ := pairwise_cons.mp underway.apart
  refine ⟨placed,fun name => ?_,fun q pending => ?_,later,fun v exact acc stays => ?_⟩
  · exact (Slot.declared_place_none shared.settling found).trans (underway.declares name)
  · rw [Slot.get?_place_other (first q pending)]
    exact underway.pending q (.tail _ pending)
  refine trans ?_ (underway.alike v exact acc stays)
  refine Slot.accepts_place underway.formed placed shared.settling
    (underway.formed.absent ground.otherUngrouped) found shared.rightSchema settles.schema fun x reaches => ?_
  exact settled_alike shared formed plain mem settles exact acc stays (reaches_congr underway.declares reaches)

lemma underway_start (ground : Ground ts inv e own other) (formed : Formed own sub) (supFormed : Formed other sup)
    (neutral : Neutral ts other sub sup now) : Underway ts other sub sup (pairedPositions sub sup path .settling) now where
  formed := neutral.formed
  declares name := by
    unfold declared
    rw [neutral.groups _ (by decide)]
  pending p mem := by
    have shared := Paired.shared_positions formed supFormed (formed.absent ground.ungrouped) mem
    exact (Slot.get?_eq_of_keyword (neutral.groups _ shared.settling.keyword_grouped)).trans shared.atRight
  apart := Paired.apart_positions (Paired.sorted_map formed) sup path .settling
  alike v exact acc _ := neutral.alike v exact acc

lemma ensures_reconcileWithin (ground : Ground ts inv e own other) (depth : Nat) {sub sup : Json} {path : String}
    (schema : sub.isSchema own) (otherSchema : sup.isSchema other) :
    Ensures inv (e.reconcileWithin depth sub sup path) fun result => Settles ts other sub sup result.1 := by
  induction depth generalizing sub sup path with
  | zero => exact .pure ⟨otherSchema,fun _ => rfl,fun _ _ _ _ => rfl⟩
  | succ depth ih =>
    rcases isSchema_cases schema with ⟨b,rfl⟩ | ⟨subFields,rfl,formed⟩
    · exact .pure ⟨otherSchema,fun _ => rfl,fun _ _ _ _ => rfl⟩
    rcases isSchema_cases otherSchema with ⟨b,rfl⟩ | ⟨supFields,rfl,otherFormed⟩
    · exact .pure ⟨otherSchema,fun _ => rfl,fun _ _ _ _ => rfl⟩
    have plain : subFields.get? "patternProperties" = none := formed.absent ground.ungrouped
    refine .bind (settlePattern_neutral ground formed _ otherFormed) fun s first => ?_
    have second := first.trans (settleFormat_neutral ground formed path s first.formed)
    have third := second.trans (settleNegation_neutral ground formed path _ second.formed)
    -- Along the fold the positions still to come hold what `sup` had there.
    refine .bind (.foldlM (motive := fun rest s => rest ⊆ pairedPositions subFields supFields path .settling ∧
      Underway ts other subFields supFields rest s.sup) ?_ _ _
      ⟨Subset.refl _,underway_start ground formed otherFormed third⟩) fun s done => .pure ?_
    · intro p rest s ⟨within,underway⟩
      have mem := within mem_cons_self
      have shared := Paired.shared_positions formed otherFormed plain mem
      refine .bind (ih shared.leftSchema shared.rightSchema) fun result settles => .pure ?_
      exact ⟨fun q later => within (.tail _ later),underway_place ground formed otherFormed mem settles underway⟩
    · exact ⟨isSchema_obj.mpr done.2.formed,fun absent => absent.elim nofun nofun,done.2.alike⟩
end Walk
end Engine
def Texts.library : Texts where
  hasMatch pat text := (Regex.compile? pat).all (·.isMatch text)
  hasFormat format text := (Format.test? format).all (· text)

lemma Texts.library_faithful : library.Faithful := by
  intro format test known text
  change (Format.test? format).all (· text) = _
  rw [known]
  rfl
namespace Vocabulary
def settling (formats : String → Bool) : Vocabulary where
  keywords := ["type","const","enum","format","not","required","properties","additionalProperties","items"]
  formats := formats

lemma settling_allows_format {formats : String → Bool} {format : String} :
    (settling formats).allows "format" (.str format) = formats format := by
  change (true && true && (false || formats format)) = formats format
  simp
end Vocabulary
namespace Engine
lemma settling_ground {ts : Texts} {formats : String → Bool} (e : Engine (StateM Memory)) (faithful : ts.Faithful)
    (inclusions : ∀ pair ∈ Format.inclusions, formats pair.1 →
      ∀ text, ts.hasFormat pair.1 text → ts.hasFormat pair.2 text) :
    Ground ts (fun _ => True) e (.settling formats) (.settling fun _ => true) where
  literal := ⟨rfl,rfl⟩
  describes := rfl
  faithful _ := faithful
  patternless := rfl
  ungrouped := rfl
  otherUngrouped := rfl
  formats _ _ := settling_allows_format
  inclusions format wider allowed within text holds := by
    rcases Bool.or_eq_true_iff.mp within with same | listed
    · rwa [← eq_of_beq same]
    · exact inclusions _ (contains_iff_mem.mp listed) allowed text holds
  matches_ known := nomatch known

theorem reconcile_neutral_unless_strays (texts : Texts) (formats : String → Bool) (settings : Settings) (memory : Memory)
    (sub sup v : Json) (path : String) (faithful : texts.Faithful) (inclusions : ∀ pair ∈ Format.inclusions, formats pair.1 = true →
      ∀ text, texts.hasFormat pair.1 text = true → texts.hasFormat pair.2 text = true)
    (schema : sub.isSchema (.settling formats) = true) (otherSchema : sup.isSchema (.settling fun _ => true) = true)
    (exact : v.isExact = true) (accepted : sub.accepts texts v = true) (stays : ¬ Strays sub sup v) :
    (((Memory.engine settings : Engine (StateM Memory)).reconcile sub sup path).run memory).1.1.accepts texts v =
      sup.accepts texts v :=
  have ground := settling_ground (Memory.engine settings) faithful inclusions
  (ensures_reconcileWithin ground sub.depth schema otherSchema memory trivial).2.alike v exact accepted stays
section Instances
def locators : Json :=
  .obj [("additionalProperties",.obj [("type",.str "integer")]),("properties",.obj [("a",.obj [("format",.str "uri")])])]

def widerLocators : Json :=
  .obj [("additionalProperties",.obj [("not",.obj [("type",.str "string")])]),
    ("properties",.obj [("a",.obj [("format",.str "iri")])])]

def locatorValue : Json :=
  .obj [("a",.null),("b",.digit 7)]

lemma uri_within_iri : ∀ pair ∈ Format.inclusions, (pair.1 == "uri") →
    ∀ text, Texts.library.hasFormat pair.1 text → Texts.library.hasFormat pair.2 text := by
  intro pair listed named text holds
  fin_cases listed
  · cases named
  · cases named
  · change Format.isUri text at holds
    unfold Format.isUri at holds
    rw [Bool.and_assoc] at holds
    exact (Bool.and_eq_true_iff.mp holds).2
  · cases named

lemma not_strays_flat {sub sup : Fields} {v : Json} (absent : ∀ key ∈ Walk.keywords .settling, sub.get? key = none) :
    ¬ Strays (.obj sub) (.obj sup) v := by
  intro strays
  cases strays with
  | extra ownExtra => rw [absent _ (by decide)] at ownExtra; cases ownExtra
  | inside mem =>
    obtain ⟨key,visited,mem⟩ := mem_flatMap.mp mem
    rw [absent key visited] at mem
    cases mem

lemma locators_stay : ¬ Strays locators widerLocators locatorValue := by
  intro strays
  cases strays with
  | extra _ _ held undeclared declares =>
    rcases mem_cons.mp held with same | held
    · cases same; cases undeclared
    cases mem_singleton.mp held
    exact declares rfl
  | inside mem reaches strays =>
    rcases mem_cons.mp mem with rfl | mem
    · exact not_strays_flat (by decide) strays
    cases mem_singleton.mp mem
    exact not_strays_flat (by decide) strays

theorem reconcile_neutral_on_locators :
    (((Memory.engine {} : Engine (StateM Memory)).reconcile locators widerLocators "").run {}).1.1.accepts Texts.library
      locatorValue = widerLocators.accepts Texts.library locatorValue :=
  reconcile_neutral_unless_strays .library (· == "uri") {} {} locators widerLocators locatorValue ""
    Texts.library_faithful uri_within_iri (by decide) (by decide) (by decide) (by decide) locators_stay

def declaredNumber : Json :=
  .obj [("additionalProperties",.obj [("type",.str "string")]),("properties",.obj [("a",.obj [("type",.str "number")])])]

def noNumbers : Json :=
  .obj [("additionalProperties",.obj [("not",.obj [("type",.str "number")])])]

theorem reconcile_loses_negation :
    let result := (((Memory.engine {} : Engine (StateM Memory)).reconcile declaredNumber noNumbers "").run {}).1
    let v := Json.obj [("a",.digit 1)]
    result.2.isEmpty = true ∧ declaredNumber.accepts Texts.library v = true ∧ noNumbers.accepts Texts.library v = false ∧
      result.1.accepts Texts.library v = true := by
  decide
end Instances
end Engine
end SchemaOrder
