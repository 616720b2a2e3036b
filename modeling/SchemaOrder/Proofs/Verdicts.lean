import SchemaOrder.Proofs.Checks
import SchemaOrder.Proofs.Changes
namespace SchemaOrder
open Json
namespace Report
-- A failure without an explanation could only come from an intersection that differs from the schema and shows no
-- difference, which exact values exclude, or from a check that runs out of fuel, which it does not.
def Agrees (r : Report) : Prop :=
  r.isSubset ↔ r.differences = []

lemma agrees_holds (merged : Json) : (holds merged).Agrees := ⟨fun _ => rfl,fun _ => rfl⟩

lemma agrees_refuses {merged : Option Json} {differences : List Difference} (some : differences ≠ []) :
    Agrees ⟨false,merged,differences⟩ :=
  ⟨nofun,fun none => absurd none some⟩

lemma agrees_all (each : ∀ r ∈ parts, r.Agrees) : (all parts).Agrees := by
  unfold Agrees all
  rw [List.all_eq_true,List.flatMap_eq_nil_iff]
  exact forall_congr' fun r => forall_congr' fun mem => each r mem
end Report
namespace Engine
variable {σ : Type} {e : Engine (StateM σ)} {sub sup : Json} {path : String}
lemma equivalent_refl (s : Json) : equivalent s s := by
  unfold equivalent compareSchemas compareText
  rw [if_neg (String.lt_irrefl _),if_pos rfl]
  rfl

section
variable (merges : e.Merges)
include merges
-- An intersection that is not equivalent to the schema differs from it somewhere.
lemma ensures_settledAgrees (subExact : sub.isExact)
    (supExact : sup.isExact) : Always (e.checkSettled sub sup path) Report.Agrees := by
  have steady : Steady (fun _ => True) e := ⟨merges,fun _ => ensures_any _⟩
  have merged := Intersection.ensures_mergeRoot (fun _ => rfl) steady.matcher (isExact_eq sub ▸ subExact)
    (isExact_eq sup ▸ supExact)
  refine .bind (ensures_found steady merged) fun result facts => ?_
  cases result with
  | error c => exact .pure (Report.agrees_refuses (by simp))
  | ok common =>
    have exact : common.normalize.isExact := isExact_eq _ ▸ orderly_normalize (facts common rfl).1
    refine .pure ?_
    cases verdict : equivalent common.normalize sub with
    | true => exact ⟨fun _ => rfl,fun _ => rfl⟩
    | false =>
      refine Report.agrees_refuses fun none => ?_
      rw [← eq_of_no_differences subExact exact none,equivalent_refl] at verdict
      cases verdict

lemma ensures_atomicAgrees (subExact : sub.isExact)
    (supExact : sup.isExact) : Always (e.checkAtomic sub sup path) Report.Agrees := by
  unfold checkAtomic
  split
  · exact .pure (Report.agrees_holds sub)
  refine .bind (ensures_reconcileOrderly sub.depth (isExact_eq sub ▸ subExact) (isExact_eq sup ▸ supExact)) ?_
  rintro ⟨settled,failures⟩ ord
  dsimp only
  split
  · exact ensures_settledAgrees merges subExact (isExact_eq settled ▸ ord)
  next some =>
  have failed : failures ≠ [] := by simpa using some
  unfold checkFailed
  split
  · exact .pure (Report.agrees_refuses failed)
  · exact .bind (ensures_any _) fun _ _ => .pure (Report.agrees_refuses failed)

lemma judging_agrees : Judging Num.isWhole e e Report.Agrees where
  whole _ := rfl
  merges := merges
  primitive _ _ _ _ := rfl
  matcher := rfl
  patternWithin := rfl
  atomic sub sup path subOrderly supOrderly := Concur.of_ensures (ensures_atomicAgrees merges
    (isExact_eq sub ▸ subOrderly) (isExact_eq sup ▸ supOrderly))
  holds := Report.agrees_holds
  nothing := ⟨fun _ => rfl,fun _ => rfl⟩
  noBranch _ _ _ _ := Report.agrees_refuses (by simp)
  all _ each := Report.agrees_all each

lemma ensures_checkAgrees (subExact : sub.isExact)
    (supExact : sup.isExact) (apart : sub.typesApart) : Always (e.check sub sup) Report.Agrees :=
  (concur_check (judging_agrees merges) (isExact_eq sub ▸ subExact) (isExact_eq sup ▸ supExact) apart).2
end
end Engine
theorem isSubset_iff_no_differences (settings : Settings) (memory : Memory) (sub sup : Json)
    (subExact : sub.isExact = true) (supExact : sup.isExact = true) (apart : sub.typesApart = true) :
    let report := (((Memory.engine settings : Engine (StateM Memory)).check sub sup).run memory).1
    report.isSubset = true ↔ report.differences = [] :=
  (Engine.ensures_checkAgrees rfl subExact supExact apart memory trivial).2

def boundedTextsOrWhole : Json :=
  .obj [("anyOf",.arr [.obj [("type",.arr [.str "integer",.str "string"])],.obj [("pattern",.str "^a+$")]]),
    ("maxLength",.digit 4)]

theorem isSubset_iff_no_differences_boundedTextsOrWhole :
    let sup := Json.obj [("oneOf",.arr [.obj [("type",.str "string")],.obj [("minimum",.digit 0)]])]
    boundedTextsOrWhole.isExact = true ∧ sup.isExact = true ∧ boundedTextsOrWhole.typesApart = true ∧
      ∀ memory : Memory,
        let report := (((Memory.engine {} : Engine (StateM Memory)).check boundedTextsOrWhole sup).run memory).1
        report.isSubset = true ↔ report.differences = [] :=
  ⟨by decide,by decide,by decide,fun memory => isSubset_iff_no_differences {} memory boundedTextsOrWhole _ (by decide)
    (by decide) (by decide)⟩
end SchemaOrder
