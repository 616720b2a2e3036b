import SchemaOrder.Proofs.Intersection.Rules
-- Intersection of two schemas of one keyword each.
namespace SchemaOrder.Intersection
open List Fields SchemaOrder.Bound
-- Nothing is checked where no constants are left and no two bounds.
lemma settled_lone {out : Fields} (noConst : out.get? "const" = none) (noEnum : out.get? "enum" = none)
    (lone : ∀ k l, k ≠ l → value? out k = none ∨ value? out l = none) (path : String) :
    reconcileValues out path = .ok out ∧ fold out = out ∧ checkBounds out path = .ok () := by
  have kept side {soft strict} (apart : soft ≠ strict) : dropImplied side soft strict out = out := by
    unfold dropImplied
    rcases lone soft strict apart with none | none <;> simp [none]
  refine ⟨by simp [reconcileValues,noConst,noEnum],?_,?_⟩
  · rw [fold,kept .lower (by decide),kept .upper (by decide)]
  have none : pairs.find? (fun p => p.empties out) = none := by
    refine find?_eq_none.mpr fun p mem => ?_
    have apart : p.lower ≠ p.upper := (by decide : ∀ p ∈ pairs, p.lower ≠ p.upper) p mem
    unfold Pair.empties
    rcases lone p.lower p.upper apart with none | none <;> simp [none]
  rw [checkBounds,none]
variable {m : Type → Type} [Monad m] [LawfulMonad m] {key : String}
lemma objects_single (apart : key ∉ ["if","allOf","properties","items","additionalItems","const","enum"])
    (lookup : Lookup m) (recur : Step m) (path : String) (merged : keyword recur key a b path = pure (v,extra)) :
    objects lookup recur [(key,a)] [(key,b)] path = pure (addResidual [(key,v)] extra) := by
  simp only [mem_cons,not_mem_nil,or_false,not_or] at apart
  obtain ⟨notIf,notAllOf,notProperties,notItems,notMore,notConst,notEnum⟩ := apart
  have single {k} s (other : key ≠ k) : get? [(key,s)] k = none := by
    rw [get?_cons,if_neg other]
    rfl
  have unclashed : conditionalsClash [(key,a)] [(key,b)] = false := by
    simp [conditionalsClash,has,single a notIf]
  have inPlace : setAside false key = false := by simp [setAside,notProperties,notItems,notMore]
  have atKey : get? [(key,b)] key = some b := by rw [get?_cons,if_pos rfl]
  have shared : sharedKeywords recur false [(key,a)] [(key,b)] path [] = pure ([(key,v)],extra) := by
    simp only [sharedKeywords,foldlM_cons,inPlace,atKey,merged,pure_bind,Bool.false_eq_true,if_false]
    rfl
  have rest : rightKeywords false [(key,a)] [(key,b)] [(key,v)] = [(key,v)] := by
    simp [rightKeywords,has,get?_cons]
  have undeclared : properties lookup recur [(key,a)] [(key,b)] path = pure none := by
    simp [properties,single _ notProperties]
  have unlisted : items recur [(key,a)] [(key,b)] path = pure (none,none) := by
    simp [items,optional,single _ notItems,single _ notMore]
  have only k (other : k ≠ "allOf") (apart : key ≠ k) : (addResidual [(key,v)] extra).get? k = none := by
    rw [get?_addResidual other,single v apart]
  have unbounded k (apart : key ≠ k) : value? (addResidual [(key,v)] extra) k = none := by
    unfold value?
    by_cases residual : k = "allOf"
    · subst residual
      unfold addResidual
      split
      · rw [single v apart]
        rfl
      rw [get?_put_self]
      rfl
    · rw [only k residual apart]
      rfl
  have lone k l (differ : k ≠ l) : value? (addResidual [(key,v)] extra) k = none ∨
      value? (addResidual [(key,v)] extra) l = none := by
    by_cases own : key = k
    · exact .inr (unbounded l (own ▸ differ))
    · exact .inl (unbounded k own)
  obtain ⟨reconciled,folded,checked⟩ := settled_lone (only "const" (by decide) notConst) (only "enum" (by decide) notEnum) lone path
  unfold objects
  simp only [unclashed,shared,pure_bind,undeclared,unlisted,rest,Bool.false_eq_true,if_false,leftConditional,putOption,
    reconciled]
  change (pure (addResidual [(key,v)] extra) >>= fun out => Attempt.ofExcept (checkBounds (fold out) path) >>=
    fun _ => pure (fold out)) = _
  rw [pure_bind,folded,checked]
  exact pure_bind () _

-- What becomes of the keyword, and beside it what cannot be said by one keyword.
lemma merge_single (apart : key ∉ ["if","allOf","properties","items","additionalItems","const","enum"])
    (lookup : Lookup m) (extra : List Json)
    (merged : ∀ recur : Step m, keyword recur key a b "" = pure (v,extra)) :
    merge lookup (.single key a) (.single key b) = pure (.ok (.obj (addResidual [(key,v)] extra))) := by
  have flat s : (Json.single key s).field? "allOf" = none := by
    change get? [(key,s)] "allOf" = none
    rw [get?_cons,if_neg fun same => apart (by simp [same])]
    rfl
  refine merge_of_step fun recur => ?_
  unfold step
  rw [foldAllOf_flat (flat a),foldAllOf_flat (flat b),pure_bind,pure_bind]
  change (objects lookup recur [(key,a)] [(key,b)] "" >>= fun made => pure (Json.obj made)) = _
  rw [objects_single apart lookup recur "" (merged recur),pure_bind]
end SchemaOrder.Intersection
