import SchemaOrder.Proofs.Containment
import SchemaOrder.Proofs.Memory
namespace SchemaOrder
open Acceptance Schemas List Fields Vocabulary Option Json Memory
open Pattern (Regex)
-- When a positive answer is right without exception: where only plain keywords stand beside the unions of `sub` and its
-- additional properties are not described, no value escapes.
inductive PlainUnions : Json → Prop where
  | single {s : Json} (undivided : s.field? "anyOf" = none) (unmerged : s.field? "allOf" = none) : PlainUnions s
  | union {fs : Fields} {bs : List Json} (found : fs.get? "anyOf" = some (.arr bs))
    (beside : (fs.without ["anyOf"]).Plain) (each : ∀ branch ∈ bs, PlainUnions branch) :
    PlainUnions (.obj fs)
namespace PlainUnions
variable {s : Json}
lemma beside_plain {fs : Fields} {key : String} {t : Json} (beside : (fs.without ["anyOf"]).Plain)
    (found : fs.get? key = some t) (other : key ≠ "anyOf") : plain.has key := by
  refine beside key t ?_
  rw [get?_without,if_neg (by simpa using other)]
  exact found

lemma unmerged (plain : PlainUnions s) : s.field? "allOf" = none := by
  cases plain with
  | single _ unmerged => exact unmerged
  | @union fs bs found beside each =>
    cases at_ : fs.get? "allOf" with
    | none => exact at_
    | some t => exact absurd (beside_plain beside at_ (by decide)) (by decide)

lemma normalize (plain : PlainUnions s) : PlainUnions s.normalize := by
  induction plain with
  | single undivided unmerged =>
    refine .single ?_ ?_
    · rw [field?_normalize (by decide),undivided]; rfl
    · rw [field?_normalize (by decide),unmerged]; rfl
  | @union fs bs found beside each ih =>
    rw [normalize_obj]
    have at_ : ∀ key, key ∉ ["const","enum","type"] → (Normal.settle (mapFields Json.normalize fs)).get? key =
        (fs.get? key).map (mapKeyword Json.normalize key) := fun key other =>
      (Normal.get?_settle other _).trans (Replacement.get?_mapFields _ _ _)
    refine @union _ (bs.map Json.normalize) ?_ (fun key t held => ?_) fun branch mem => ?_
    · rw [at_ _ (by decide),found]
      rfl
    · rw [get?_without] at held
      split at held
      · cases held
      next other =>
      by_cases written : key ∈ ["const","enum","type"]
      · fin_cases written <;> decide
      rw [at_ key written] at held
      obtain ⟨old,own,_⟩ := map_eq_some_iff.mp held
      exact beside_plain beside own (by simpa using other)
    · obtain ⟨old,inside,rfl⟩ := mem_map.mp mem
      exact ih old inside

lemma inherited (inherits : Intersection.Inherits s m) (plain : PlainUnions s) : PlainUnions m := by
  cases plain with
  | single undivided unmerged =>
    exact .single ((inherits.lists _ (by decide)).trans undivided) ((inherits.lists _ (by decide)).trans unmerged)
  | @union fs bs found beside each =>
    have atUnion : m.field? "anyOf" = some (.arr bs) := (inherits.lists _ (by decide)).trans found
    cases m with
    | obj merged =>
      refine .union atUnion (fun key t held => ?_) each
      rw [get?_without] at held
      split at held
      · cases held
      next other =>
      rcases inherits.plain key t held with known | own
      · exact known
      obtain ⟨u,own⟩ := isSome_iff_exists.mp own
      exact beside_plain beside own (by simpa using other)
    | _ => cases atUnion
end PlainUnions
namespace Engine
variable {σ : Type} {ts : Texts} {inv : σ → Prop} {e : Engine (StateM σ)} {own other : Vocabulary}
  {schema sub sup branch v : Json} {beside : Fields}

-- Straying needs two descriptions of additional properties.
lemma not_strays_undescribed (undescribed : own.describesExtra = false) (ungrouped : own.has "patternProperties" = false)
    (good : sub.isSchema own) (otherSchema : sup.isSchema other) : ¬ Strays sub sup v := by
  intro strays
  induction strays with
  | extra ownExtra =>
    have allowed := (isSchema_obj.mp good).allowed _ _ ownExtra
    rcases (allows_extra.mp allowed).2 with describes | flat
    · rw [undescribed] at describes
      cases describes
    · cases flat
  | inside mem reaches strays ih =>
    have formed := isSchema_obj.mp good
    have shared := Paired.shared_positions formed (isSchema_obj.mp otherSchema) (formed.absent ungrouped) mem
    exact ih shared.leftSchema shared.rightSchema

-- At a cut beside plain keywords the part is made, and it keeps the common values.
lemma cut_keeps (reliable : Reliable ts inv e own other) (good : schema.isSchema own)
    (plain : PlainUnions schema) (cut : Cut schema beside branch) (valid : inv s) (exact : v.isExact)
    (onBeside : (obj beside).accepts ts v) (onBranch : branch.accepts ts v) :
    ∃ part, ((e.withBeside beside branch).run s).1 = some part ∧ part.accepts ts v ∧ PlainUnions part := by
  obtain ⟨formed,branchGood,_⟩ := cut_spec reliable good cut
  -- a cut at a type leaves the schema whole beside one plain keyword, a cut at a union leaves its branches
  have sides : beside.Plain ∧ PlainUnions branch := by
    cases cut with
    | @type types t =>
      refine ⟨fun key s found => ?_,plain⟩
      rw [get?_cons] at found
      split at found
      · next same => exact same ▸ by decide
      · cases found
    | @union split branch found mem =>
      cases plain with
      | single undivided _ =>
        rcases isSchema_cases good with ⟨b,rfl⟩ | ⟨fs,rfl,ownFormed⟩
        · cases found
        unfold Split.of? at found
        dsimp only at found
        rw [show get? fs "anyOf" = none from undivided,ownFormed.absent reliable.ownUnions] at found
        cases found
      | @union fs bs atUnion plain each =>
        unfold Split.of? at found
        dsimp only at found
        rw [atUnion] at found
        cases found
        exact ⟨plain,each branch mem⟩
  obtain ⟨besidePlain,branchPlain⟩ := sides
  -- an intersection with plain keywords loses no common value and leaves the unions of the branch
  have kept : Ensures inv (e.withBeside beside branch) fun found =>
      ∃ part, found = some part ∧ part.accepts ts v ∧ PlainUnions part := by
    unfold withBeside
    split
    · refine .pure ⟨_,rfl,?_,branchPlain.normalize⟩
      rw [alike_normalize branchGood v exact]
      exact onBranch
    have met : Ensures inv (e.intersect? (.obj beside) branch) fun found =>
        ∃ m, found = some m ∧ m.accepts ts v ∧ Intersection.Inherits branch m := by
      refine .bind (ensures_intersect_plain reliable.merges reliable.ownClosed formed besidePlain branchGood
        branchPlain.unmerged exact onBeside onBranch) fun result found => .pure ?_
      obtain ⟨m,rfl,facts⟩ := found
      exact ⟨m,rfl,facts⟩
    have spec := ensures_intersect? ts reliable.toSteady reliable.ownClosed (isSchema_obj.mpr formed) branchGood
    refine .bind (met.and spec) fun found facts => .pure ?_
    obtain ⟨⟨m,rfl,acc,inherits⟩,good⟩ := facts
    refine ⟨m.normalize,rfl,?_,(branchPlain.inherited inherits).normalize⟩
    rw [alike_normalize (good m rfl).1 v exact]
    exact acc
  exact (kept s valid).2

lemma not_escapes (reliable : Reliable ts inv e own other) (undescribed : own.describesExtra = false)
    (otherSchema : sup.isSchema other) (unions : ∀ split, Split.of? sup = some split → split.kind = .anyOf)
    (good : schema.isSchema own) (plain : PlainUnions schema) (exact : v.isExact) : ¬ Escapes ts inv e sup schema v := by
  intro escapes
  induction escapes with
  | lost cut valid onBeside onBranch rejected =>
    obtain ⟨part,made,acc,_⟩ := cut_keeps reliable good plain cut valid exact onBeside onBranch
    rw [rejected part made] at acc
    cases acc
  | strays faces acc strays =>
    exact not_strays_undescribed undescribed reliable.ungrouped good
      (faces_below reliable otherSchema unions faces).1 strays
  | inside cut valid made escapes ih =>
    obtain ⟨partGood,onBeside,onBranch⟩ := made_spec reliable good cut valid made
    have acc := escapes.accepted reliable partGood exact
    -- the value that escapes from the part is one of it, so the part is as plain as the schema was
    obtain ⟨part,same,_,partPlain⟩ := cut_keeps reliable good plain cut valid exact (onBeside _ exact acc)
      (onBranch _ exact acc)
    rw [made] at same
    cases same
    exact ih partGood partPlain exact
end Engine
namespace Memory
end Memory
namespace Vocabulary
def textless (describes : Bool) : Vocabulary where
  keywords := mergeable.keywords.filter fun key => !contains ["oneOf","pattern","format"] key
  describesExtra := describes

lemma has_mono {own other : Vocabulary} (fewer : own.keywords ⊆ other.keywords) {key : String}
    (known : own.has key) : other.has key := by
  unfold has at known ⊢
  rw [Bool.or_eq_true_iff] at known ⊢
  exact known.imp_left fun listed => contains_iff_mem.mpr (fewer (contains_iff_mem.mp listed))

lemma ungrouped_of_mergeable {vocab : Vocabulary} (fewer : vocab.keywords ⊆ mergeable.keywords) :
    vocab.has "patternProperties" = false :=
  Bool.eq_false_iff.mpr fun known => nomatch has_mono fewer known

lemma allows_mono {own other : Vocabulary} (fewer : own.keywords ⊆ other.keywords)
    (describes : own.describesExtra → other.describesExtra) (formats : other.formats = fun _ => true)
    (key : String) (s : Json) (allowed : own.allows key s) : other.allows key s := by
  unfold allows at allowed ⊢
  simp only [Bool.and_eq_true,Bool.or_eq_true] at allowed ⊢
  obtain ⟨⟨known,extra⟩,_⟩ := allowed
  refine ⟨⟨has_mono fewer known,extra.imp_left (Or.imp_right describes)⟩,.inr ?_⟩
  rw [formats]
  cases s.str? <;> rfl
end Vocabulary
namespace Engine
lemma textless_reliable {ts : Texts} {inv : Memory → Prop} {other : Vocabulary} (settings : Settings)
    (describes : Bool) (fewer : (textless true).keywords ⊆ other.keywords)
    (mergeable : other.keywords ⊆ mergeable.keywords)
    (describesExtra : other.describesExtra) (formats : other.formats = fun _ => true)
    (faithful : other.has "format" → ts.Faithful)
    (matcher : ∀ pat, Ensures inv (Memory.matcher pat : StateM Memory (Option Matcher)) fun found =>
      other.has "pattern" → ∀ isMatch, found = some isMatch → ∀ text, isMatch text = ts.hasMatch pat text) :
    Reliable ts inv (engine settings) (.textless describes) other where
  literal := ⟨has_mono fewer rfl,has_mono fewer rfl⟩
  describes := describesExtra
  faithful := faithful
  patternless := rfl
  ungrouped := rfl
  otherUngrouped := ungrouped_of_mergeable mergeable
  formats _ allowed := nomatch allowed
  inclusions _ _ allowed := nomatch allowed
  matches_ known pat := .mono (matcher pat) fun _ law => law known
  merges := rfl
  matcher pat := .mono (matcher pat) fun _ _ => trivial
  ownClosed := ⟨rfl,rfl,rfl,rfl,fun _ => has_mono filter_sublist.subset⟩
  ownLiteral := ⟨rfl,rfl⟩
  ownUnions := rfl
  closed := ⟨has_mono fewer rfl,has_mono fewer rfl,has_mono fewer rfl,has_mono fewer rfl,fun _ => has_mono mergeable⟩
  canonical := ⟨has_mono fewer rfl,describesExtra,ungrouped_of_mergeable mergeable⟩
  wider := allows_mono fewer (fun _ => describesExtra) formats
end Engine
inductive LoneUnions : Json → Prop where
  | single {s : Json} (undivided : s.field? "anyOf" = none) : LoneUnions s
  | union {bs : List Json} (each : ∀ branch ∈ bs, LoneUnions branch) :
    LoneUnions (.obj [("anyOf",.arr bs)])
namespace Vocabulary
def elementary : Vocabulary where
  keywords := ["type","const","enum","uniqueItems","required","properties","additionalProperties","items","additionalItems",
    "not","anyOf"]
  describesExtra := false

lemma elementary_textless (describes : Bool) (key : String) (s : Json) (allowed : elementary.allows key s) :
    (textless describes).allows key s := by
  have fewer : elementary.keywords ⊆ (textless describes).keywords := by cases describes <;> decide
  exact allows_mono fewer (absurd · (by decide)) rfl key s allowed
end Vocabulary
lemma LoneUnions.plain (lone : LoneUnions s) (schema : s.isSchema .elementary) : PlainUnions s := by
  induction lone with
  | @single s undivided =>
    refine .single undivided ?_
    rcases isSchema_cases schema with ⟨b,rfl⟩ | ⟨fs,rfl,formed⟩
    · rfl
    · exact formed.absent rfl
  | @union bs each ih =>
    obtain ⟨ms,same,schemas⟩ := (formed_list rfl).mp ((isSchema_obj.mp schema).formed "anyOf" _ rfl)
    cases same
    exact .union rfl nofun fun branch mem => ih branch mem (schemas branch mem)
namespace Engine
theorem accepts_of_isSubset (texts : Texts) (settings : Settings) (memory : Memory) (sub sup v : Json)
    (schema : sub.isSchema .elementary = true) (otherSchema : sup.isSchema .elementary = true) (lone : LoneUnions sub)
    (positive : (((Memory.engine settings : Engine (StateM Memory)).check sub sup).run memory).1.isSubset = true)
    (exact : v.isExact = true) (accepted : sub.accepts texts v = true) : sup.accepts texts v = true := by
  have reliable : Reliable texts (fun _ => True) (Memory.engine settings) (.textless false) (.textless true) :=
    textless_reliable settings false (List.Subset.refl _) List.filter_sublist.subset rfl rfl (fun known => nomatch known)
      fun pattern _ _ => ⟨trivial,fun known => nomatch known⟩
  have good : sub.isSchema (.textless false) = true :=
    isSchema_mono (Vocabulary.elementary_textless false) schema
  have otherGood : sup.isSchema (.textless true) = true :=
    isSchema_mono (Vocabulary.elementary_textless true) otherSchema
  have unions : ∀ split, Split.of? sup.normalize = some split → split.kind = .anyOf :=
    fun split found => union_kind (isSchema_normalize reliable.literal otherGood) rfl found
  refine ((ensures_check reliable good otherGood unions memory trivial).2 positive v exact accepted).resolve_right ?_
  exact not_escapes reliable rfl (isSchema_normalize reliable.literal otherGood) unions
    (isSchema_normalize reliable.ownLiteral good) (lone.plain schema).normalize exact

def countsOrLetter : Json :=
  .obj [("anyOf",.arr [.obj [("minimum",.digit 1),("type",.str "integer")],
    .obj [("const",.str "a")]])]

def integerOrText : Json :=
  .obj [("anyOf",.arr [.obj [("type",.str "integer")],.obj [("not",.obj [("type",.str "null")]),("type",.str "string")]])]

lemma countsOrLetter_lone : LoneUnions countsOrLetter := by
  refine .union fun branch mem => .single ?_
  fin_cases mem <;> rfl

lemma countsOrLetter_isSubset :
    (((engine {} : Engine (StateM Memory)).check countsOrLetter integerOrText).run {}).1.isSubset := by
  decide +kernel

theorem accepts_of_isSubset_countsOrLetter :
    countsOrLetter.isSchema .elementary = true ∧ integerOrText.isSchema .elementary = true ∧
      integerOrText.accepts .library (.digit 5) = true :=
  ⟨by decide,by decide,accepts_of_isSubset .library {} {} countsOrLetter integerOrText _ (by decide) (by decide)
    countsOrLetter_lone countsOrLetter_isSubset (by decide) (by decide)⟩

-- An `oneOf` of `sup` is read as an `anyOf`, so a value of two branches passes.
example :
    let sub := obj [("anyOf",.arr [.obj [("type",.str "integer")]]),("minimum",.digit 0)]
    let sup := obj [("oneOf",.arr [.obj [("type",.str "integer")],.obj [("type",.str "number")]])]
    let v := digit 1
    (((engine {} : Engine (StateM Memory)).check sub sup).run {}).1.isSubset ∧
      sub.accepts .library v ∧ sup.accepts .library v = false := by
  decide +kernel

end Engine
end SchemaOrder
