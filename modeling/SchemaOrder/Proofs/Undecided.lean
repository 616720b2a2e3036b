import SchemaOrder.Proofs.Branches
namespace SchemaOrder.Resolution
open List Fields Acceptance
-- Conditionals that stay are among the entries of an `allOf` that a branch brought along, or below a property that has
-- no conditional of its own and for that is not visited.
def propertiesOf (s : Json) : Fields := declared (s.fields?.getD [])

-- A conditional at the root, among the entries of `allOf`, or so in a schema at most `levels` properties below.
def remains : (levels : Nat) → Json → Bool
  | 0, s => hasConditional s
  | levels + 1, s => hasConditional s || (propertiesOf s).any fun prop => remains levels prop.2

-- The properties of the schema with its branches merged in.
def offered (settings : Settings) (data : Json) (fields : Fields) : Fields :=
  declared (merged (Engine.forgetful settings) (sifted fields) (branches (Engine.forgetful settings) data fields))

inductive Leaves (settings : Settings) : (levels : Nat) → (schema data : Json) → Prop where
  | entry (left : (brought (branches (Engine.forgetful settings) data fields)).any asksAmong) :
    Leaves settings levels (.obj fields) data
  | unvisited (member : (name,s) ∈ offered settings data fields) (plain : hasConditional s = false)
    (deeper : remains levels s) : Leaves settings (levels + 1) (.obj fields) data
  | visited (member : (name,s) ∈ offered settings data fields) (conditional : hasConditional s)
    (leaves : Leaves settings levels s (nestedData data name)) : Leaves settings (levels + 1) (.obj fields) data
section Visits
variable {resolve : Json → Json → StateM Unit Resolution} {data : Json}
lemma declared_withProperties (fields : Fields) :
    declared (withProperties resolve data fields) = (declared fields).map (resolvedProperty resolve data) := by
  unfold withProperties declared
  cases found : fields.get? "properties" with
  | none => simp [found]
  | some s => cases s with
    | obj props =>
      dsimp only
      split
      · rw [get?_put_self]
        rfl
      next unconditional =>
      have kept prop (mem : prop ∈ props) : resolvedProperty resolve data prop = prop := by
        rw [resolvedProperty,if_neg fun conditional => unconditional (any_eq_true.mpr ⟨prop,mem,conditional⟩)]
      rw [found]
      exact ((map_congr_left kept).trans (map_id' props)).symm
    | _ => simp [found,Json.fields?]

lemma hasConditional_withProperties (fields : Fields) :
    hasConditional (.obj (withProperties resolve data fields)) = hasConditional (.obj fields) := by
  rw [hasConditional_obj,hasConditional_obj,get?_withProperties (by decide),get?_withProperties (by decide)]
end Visits
section Settings
variable {settings : Settings}
lemma declared_passes (fields : Fields) (data : Json) :
    declared (passes (Engine.forgetful settings) data fields) = offered settings data fields := by
  unfold offered declared
  rw [get?_passes (by decide)]

-- A property that is visited nests less deep, so there are levels enough for it however deep one looks.
lemma remains_resolveWithin (fits : Fits (fun _ => true) n s) (data : Json) (levels : Nat) :
    remains levels ((resolveWithin (Engine.forgetful settings) (n + 1) s data).run ()).1.resolved ↔
      Leaves settings levels s data := by
  have passed {n fields} (fits : Fits (fun _ => true) n (.obj fields)) := fits_passes (fun _ => rfl)
    (show Engine.Steady (fun _ => True) (Engine.forgetful settings) from ⟨rfl,fun _ => ensures_any _⟩) fits
  induction levels generalizing n s data with
  | zero =>
    cases s with
    | obj fields =>
      rw [run_resolveWithin,remains,hasConditional_withProperties,(passed fits data).2]
      exact ⟨.entry,fun | .entry left => left⟩
    | _ => exact ⟨nofun,nofun⟩
  | succ levels ih =>
    cases s with
    | obj fields =>
      have inner {name s} (member : (name,s) ∈ offered settings data fields) :
          remains levels (resolvedProperty (resolveWithin (Engine.forgetful settings) n) data (name,s)).2 ↔
            if hasConditional s then Leaves settings levels s (nestedData data name) else remains levels s := by
        unfold resolvedProperty
        dsimp only
        split
        · obtain ⟨orderly,below⟩ := fits_declared (passed fits data).1 (declared_passes fields data ▸ member)
          obtain ⟨n,rfl⟩ := Nat.exists_eq_succ_of_ne_zero (Nat.ne_zero_of_lt below)
          exact ih ⟨orderly,Nat.le_of_lt_succ below⟩ _
        · rfl
      rw [run_resolveWithin,remains,hasConditional_withProperties,(passed fits data).2]
      change (_ || (declared (withProperties _ data _)).any _) ↔ _
      rw [declared_withProperties,declared_passes,Bool.or_eq_true,any_map,any_eq_true]
      constructor
      · rintro (left | ⟨⟨name,s⟩,member,left⟩)
        · exact .entry left
        replace left := (inner member).mp left
        split at left
        · next conditional => exact .visited member conditional left
        · next plain => exact .unvisited member (Bool.eq_false_iff.mpr plain) left
      intro leaves
      cases leaves with
      | entry left => exact .inl left
      | unvisited member plain deeper => exact .inr ⟨_,member,(inner member).mpr (by rwa [plain])⟩
      | visited member conditional leaves => exact .inr ⟨_,member,(inner member).mpr (by rwa [if_pos conditional])⟩
    | _ => exact ⟨nofun,nofun⟩
end Settings
-- None of the conditionals stays at the root, and one stays below just if the schema `Leaves` one.
theorem outcome_remains_iff (settings : Settings) (memory : Memory) (faithful : memory.Faithful settings) (s d : Json)
    (orderly : s.Orderly) :
    let resolved := (((Memory.engine settings : Engine (StateM Memory)).resolve s d).run memory).1.resolved
    resolved.field? "if" = none ∧ ∀ levels, (remains levels resolved = true ↔ Leaves settings levels s d) := by
  rw [Engine.resolve,Memory.resolveWithin_forgetful faithful]
  refine ⟨?_,remains_resolveWithin ⟨orderly,Nesting.nesting_le_depth s⟩ d⟩
  cases s with
  | obj fields =>
    rw [run_resolveWithin]
    exact (get?_withProperties (by decide) _).trans if_passes
  | _ => rfl

def propertyWith (name : String) (s : Json) : Json := .single "properties" (.single name s)

theorem outcome_remains_iff_property : let s := propertyWith "a" conditionalText
    remains 9 (((Memory.engine {} : Engine (StateM Memory)).resolve s .emptyObj).run {}).1.resolved = false ∧
      ¬ Leaves {} 9 s .emptyObj := by
  have left := (outcome_remains_iff {} {} Memory.faithful_empty (propertyWith "a" conditionalText) .emptyObj (by decide +kernel)).2 9
  have none : remains 9 (((Memory.engine {} : Engine (StateM Memory)).resolve (propertyWith "a" conditionalText) .emptyObj).run
    {}).1.resolved = false := by rfl
  exact ⟨none,fun leaves => Bool.false_ne_true (none.symm.trans (left.mpr leaves))⟩

-- The property `a` has no conditional of its own, and the branch brings one along.
theorem conditionals_left : let hidden := propertyWith "a" (propertyWith "b" conditionalText)
    let brought := Json.single "allOf" (.arr [conditionalText])
    (((Memory.engine {} : Engine (StateM Memory)).resolve hidden .emptyObj).run {}).1.resolved = hidden ∧
      remains 2 hidden = true ∧
      (((Memory.engine {} : Engine (StateM Memory)).resolve (.obj [("if",.bool true),("then",brought)]) .emptyObj).run
        {}).1.resolved = brought ∧ remains 0 brought = true :=
  ⟨by rfl,by rfl,by rfl,by rfl⟩
end SchemaOrder.Resolution
