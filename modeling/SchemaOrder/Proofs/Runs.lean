import Mathlib
import SchemaOrder.Intersection
namespace SchemaOrder
open List
variable {σ α β : Type} {inv : σ → Prop} {weaker : α → Prop} {goal : β → Prop}
-- What a computation with a memory gives back, whatever the memory holds.
def Ensures (inv : σ → Prop) (x : StateM σ α) (post : α → Prop) : Prop :=
  ∀ s, inv s → inv (x.run s).2 ∧ post (x.run s).1

abbrev Always (x : StateM σ α) (post : α → Prop) : Prop := Ensures (fun _ => True) x post

lemma answer_bind (x : StateM Unit α) (f : α → StateM Unit β) : ((x >>= f).run ()).1 = ((f (x.run ()).1).run ()).1 := rfl

lemma ensures_any (x : StateM σ α) : Always x fun _ => True := fun _ _ => ⟨trivial,trivial⟩
namespace Ensures
variable {x : StateM σ α} {post : α → Prop}
lemma pure (holds : post a) : Ensures inv (pure a : StateM σ α) post := fun _ valid => ⟨valid,holds⟩

lemma bind {next : α → StateM σ β} (first : Ensures inv x post)
    (rest : ∀ a, post a → Ensures inv (next a) goal) : Ensures inv (x >>= next) goal := by
  intro s valid
  obtain ⟨kept,holds⟩ := first s valid
  exact rest _ holds _ kept

lemma mono (ensures : Ensures inv x post) (imp : ∀ a, post a → weaker a) : Ensures inv x weaker :=
  fun s valid => ⟨(ensures s valid).1,imp _ (ensures s valid).2⟩

lemma and {other : α → Prop} (left : Ensures inv x post) (right : Ensures inv x other) :
    Ensures inv x fun a => post a ∧ other a :=
  fun s valid => ⟨(left s valid).1,(left s valid).2,(right s valid).2⟩

lemma get : Ensures inv (getThe σ : StateM σ σ) inv := fun _ valid => ⟨valid,valid⟩

lemma modify {f : σ → σ} (keeps : ∀ s, inv s → inv (f s)) : Ensures inv (modifyThe σ f : StateM σ PUnit) fun _ => True :=
  fun s valid => ⟨keeps s valid,trivial⟩

-- What a computation returns it returned from a state of `inv`.
lemma reached (ensures : Ensures inv x post) : Ensures inv x fun a => ∃ s, inv s ∧ (x.run s).1 = a :=
  fun s valid => ⟨(ensures s valid).1,s,valid,rfl⟩

-- `motive` follows the entries that are still to come.
lemma foldlM {f : β → α → StateM σ β} {motive : List α → β → Prop}
    (step : ∀ a rest b, motive (a :: rest) b → Ensures inv (f b a) (motive rest)) :
    ∀ (l : List α) (b : β), motive l b → Ensures inv (l.foldlM f b) (motive [])
  | [], _, holds => pure holds
  | a :: rest, b, holds => by
    exact bind (step a rest b holds) fun c next => foldlM step rest c next

lemma sublist_filterM {p : α → StateM σ Bool} (each : ∀ a, Ensures inv (p a) fun _ => True) (l : List α) :
    Ensures inv (l.filterM p) fun kept => kept.Sublist l := by
  have aux : ∀ rest seen, Ensures inv (rest.filterAuxM p seen) fun kept =>
      ∃ more : List α, kept = more.reverse ++ seen ∧ more.Sublist rest := by
    intro rest
    induction rest with
    | nil => exact fun seen => pure ⟨[],rfl,Sublist.slnil⟩
    | cons a rest ih =>
      refine fun seen => bind (each a) fun keep _ => ?_
      cases keep with
      | true =>
        refine mono (ih (a :: seen)) fun kept ⟨more,same,part⟩ => ⟨a :: more,?_,part.cons_cons a⟩
        rw [same,reverse_cons,append_assoc,singleton_append]
      | false => exact mono (ih seen) fun kept ⟨more,same,part⟩ => ⟨more,same,part.cons a⟩
  refine bind (aux l []) fun kept ⟨more,same,part⟩ => pure ?_
  rw [same,append_nil,reverse_reverse]
  exact part

-- What a filter keeps it was told to keep, and what it drops it was told to drop.
lemma filterM {p : α → StateM σ Bool} (yes no : α → Prop)
    (each : ∀ a, Ensures inv (p a) fun keep => if keep then yes a else no a) (l : List α) :
    Ensures inv (l.filterM p) fun kept => (∀ a ∈ kept, a ∈ l ∧ yes a) ∧ ∀ a ∈ l, a ∈ kept ∨ no a := by
  have aux : ∀ (rest seen : List α), Ensures inv (rest.filterAuxM p seen) fun kept =>
      (∀ a ∈ kept, a ∈ seen ∨ (a ∈ rest ∧ yes a)) ∧ (∀ a ∈ seen, a ∈ kept) ∧ ∀ a ∈ rest, a ∈ kept ∨ no a := by
    intro rest
    induction rest with
    | nil =>
      intro seen
      exact pure ⟨fun _ mem => .inl mem,fun _ mem => mem,nofun⟩
    | cons a rest ih =>
      intro seen
      refine bind (each a) fun keep told => ?_
      cases keep with
      | true =>
        refine mono (ih (a :: seen)) fun kept ⟨sound,old,complete⟩ => ⟨fun b mem => ?_,?_,?_⟩
        · rcases sound b mem with inSeen | ⟨later,keeps⟩
          · rcases mem_cons.mp inSeen with rfl | older
            · exact .inr ⟨.head _,told⟩
            · exact .inl older
          · exact .inr ⟨.tail _ later,keeps⟩
        · exact fun b mem => old b (.tail _ mem)
        · intro b mem
          rcases mem_cons.mp mem with rfl | later
          · exact .inl (old b mem_cons_self)
          · exact complete b later
      | false =>
        refine mono (ih seen) fun kept ⟨sound,old,complete⟩ => ⟨fun b mem => ?_,old,?_⟩
        · exact (sound b mem).imp_right fun ⟨later,keeps⟩ => ⟨.tail _ later,keeps⟩
        intro b mem
        rcases mem_cons.mp mem with rfl | later
        · exact .inr told
        · exact complete b later
  refine bind (aux l []) fun kept ⟨sound,_,complete⟩ => pure ⟨fun a mem => ?_,fun a mem => ?_⟩
  · exact (sound a (mem_reverse.mp mem)).resolve_left not_mem_nil
  · exact (complete a mem).imp_left mem_reverse.mpr
end Ensures
def Finds (inv : σ → Prop) (x : OptionT (StateM σ) α) (post : α → Prop) : Prop :=
  Ensures inv x.run fun found => ∀ a, found = some a → post a
namespace Finds
variable {x : OptionT (StateM σ) α} {post : α → Prop}
lemma pure (holds : post a) : Finds inv (pure a : OptionT (StateM σ) α) post :=
  Ensures.pure fun _ same => Option.some.inj same ▸ holds

lemma fail : Finds inv (OptionT.fail : OptionT (StateM σ) α) post := Ensures.pure nofun

lemma lift {y : StateM σ α} (ensures : Ensures inv y post) : Finds inv (OptionT.lift y) post :=
  .bind ensures fun _ holds => .pure fun _ same => Option.some.inj same ▸ holds

lemma bind {next : α → OptionT (StateM σ) β} (first : Finds inv x post)
    (rest : ∀ a, post a → Finds inv (next a) goal) : Finds inv (x >>= next) goal := by
  unfold Finds
  rw [OptionT.run_bind]
  refine .bind first fun found holds => ?_
  cases found with
  | none => exact .pure nofun
  | some a => exact rest a (holds a rfl)

lemma mono (finds : Finds inv x post) (imp : ∀ a, post a → weaker a) : Finds inv x weaker :=
  Ensures.mono finds fun _ holds a same => imp a (holds a same)
end Finds
def Concur (x y : StateM σ α) (post : α → Prop) : Prop :=
  x = y ∧ Always x post
namespace Concur
variable {x y : StateM σ α} {post : α → Prop}
lemma of_ensures (ensures : Always x post) : Concur x x post := ⟨rfl,ensures⟩

lemma pure (holds : post a) : Concur (pure a : StateM σ α) (pure a) post := of_ensures (.pure holds)

-- What follows has to agree only on the values that are returned.
lemma bind {f g : α → StateM σ β} (first : Concur x y post)
    (rest : ∀ a, post a → Concur (f a) (g a) goal) : Concur (x >>= f) (y >>= g) goal := by
  obtain ⟨rfl,ensures⟩ := first
  refine ⟨funext fun s => ?_,.bind ensures fun a holds => (rest a holds).2⟩
  exact congrFun (rest _ (ensures s trivial).2).1 _

lemma mono (concur : Concur x y post) (imp : ∀ a, post a → weaker a) : Concur x y weaker := ⟨concur.1,concur.2.mono imp⟩
end Concur
def ConcurAnswer (x y : OptionT (StateM σ) α) (post : α → Prop) : Prop :=
  Concur x.run y.run fun found => ∃ a, found = some a ∧ post a
namespace ConcurAnswer
variable {x y : OptionT (StateM σ) α} {post : α → Prop}
lemma pure (holds : post a) : ConcurAnswer (pure a : OptionT (StateM σ) α) (pure a) post := Concur.pure ⟨a,rfl,holds⟩

lemma lift {x y : StateM σ α} (concur : Concur x y post) : ConcurAnswer (OptionT.lift x) (OptionT.lift y) post :=
  .bind concur fun a holds => .pure ⟨a,rfl,holds⟩

lemma bind {f g : α → OptionT (StateM σ) β} (first : ConcurAnswer x y post)
    (rest : ∀ a, post a → ConcurAnswer (f a) (g a) goal) : ConcurAnswer (x >>= f) (y >>= g) goal := by
  unfold ConcurAnswer
  rw [OptionT.run_bind,OptionT.run_bind]
  refine .bind first fun found answer => ?_
  obtain ⟨a,rfl,holds⟩ := answer
  exact rest a holds
end ConcurAnswer
namespace Attempt
def Admits (refuses tires : Prop) (post : α → Prop) : Option (Except Conflict α) → Prop
  | some (.ok a) => post a
  | some (.error _) => refuses
  | none => tires

def Runs (inv : σ → Prop) (refuses tires : Prop) (x : Attempt (StateM σ) α) (post : α → Prop) : Prop :=
  Ensures inv x.run.run (Admits refuses tires post)

abbrev Yields (inv : σ → Prop) (x : Attempt (StateM σ) α) (post : α → Prop) : Prop := Runs inv True True x post

abbrev Settles (inv : σ → Prop) (refuses : Prop) (x : Attempt (StateM σ) α) (post : α → Prop) : Prop :=
  Runs inv refuses True x post

abbrev Ends (inv : σ → Prop) (x : Attempt (StateM σ) α) (post : α → Prop) : Prop := Runs inv True False x post

abbrev Returns (inv : σ → Prop) (x : Attempt (StateM σ) α) (post : α → Prop) : Prop := Runs inv False False x post
namespace Runs
variable {refuses tires : Prop} {x : Attempt (StateM σ) α} {post : α → Prop}
lemma pure (holds : post a) : Runs inv refuses tires (pure a : Attempt (StateM σ) α) post := Ensures.pure holds

lemma conflict (refused : refuses) : Runs inv refuses tires (conflict c : Attempt (StateM σ) α) post :=
  Ensures.pure refused

lemma outOfFuel (tired : tires) : Runs inv refuses tires (outOfFuel : Attempt (StateM σ) α) post := Ensures.pure tired

lemma ofExcept (holds : ∀ a, y = .ok a → post a) (refused : ∀ c, y = .error c → refuses) :
    Runs inv refuses tires (ofExcept y : Attempt (StateM σ) α) post := by
  cases y with
  | error c => exact Ensures.pure (refused c rfl)
  | ok a => exact .pure (holds a rfl)

lemma ofAny (holds : ∀ a, y = .ok a → post a) : Runs inv True tires (Attempt.ofExcept y : Attempt (StateM σ) α) post :=
  ofExcept holds fun _ _ => trivial

lemma ofOk (same : y = .ok a) (holds : post a) : Runs inv refuses tires (Attempt.ofExcept y : Attempt (StateM σ) α) post := by
  rw [same]
  exact .pure holds

lemma ask (ensures : Ensures inv y post) : Runs inv refuses tires (ask y) post :=
  .bind ensures fun _ holds => .pure holds

lemma bind {next : α → Attempt (StateM σ) β} (first : Runs inv refuses tires x post)
    (rest : ∀ a, post a → Runs inv refuses tires (next a) goal) : Runs inv refuses tires (x >>= next) goal := by
  unfold Runs
  rw [ExceptT.run_bind,OptionT.run_bind]
  refine .bind first fun result admitted => ?_
  match result, admitted with
  | none, tired => exact .pure tired
  | some (.error _), refused => exact .pure refused
  | some (.ok a), holds => exact rest a holds

-- The fallback runs only where the first attempt is refused.
lemma orElse {first : Prop} {fallback : Conflict → Attempt (StateM σ) α} (attempt : Runs inv first tires x post)
    (second : first → ∀ c, Runs inv refuses tires (fallback c) post) : Runs inv refuses tires (x.orElse fallback) post := by
  unfold Runs Attempt.orElse
  rw [ExceptT.run_tryCatch,OptionT.run_bind]
  refine .bind attempt fun result admitted => ?_
  match result, admitted with
  | none, tired => exact .pure tired
  | some (.error c), refused => exact second refused c
  | some (.ok a), holds => exact .pure holds
section
variable (runs : Runs inv refuses tires x post)
include runs
lemma weaken {wider longer : Prop}
    (refused : refuses → wider) (tired : tires → longer) (holds : ∀ a, post a → weaker a) : Runs inv wider longer x weaker := by
  refine .mono runs fun result admitted => ?_
  match result, admitted with
  | none, admitted => exact tired admitted
  | some (.error _), admitted => exact refused admitted
  | some (.ok a), admitted => exact holds a admitted

lemma mono (holds : ∀ a, post a → weaker a) : Runs inv refuses tires x weaker := runs.weaken id id holds

lemma imp {wider : Prop} (refused : refuses → wider) : Runs inv wider tires x post :=
  runs.weaken refused id fun _ holds => holds

lemma yields : Yields inv x post := runs.weaken (fun _ => trivial) (fun _ => trivial) fun _ holds => holds

lemma and {other : α → Prop} (yields : Yields inv x other) : Runs inv refuses tires x fun a => post a ∧ other a := by
  refine Ensures.mono (Ensures.and runs yields) fun result admitted => ?_
  match result, admitted with
  | none, admitted | some (.error _), admitted => exact admitted.1
  | some (.ok _), admitted => exact admitted
end
lemma any (x : Attempt (StateM σ) α) : Yields (fun _ => True) x fun _ => True := by
  refine Ensures.mono (ensures_any _) fun result _ => ?_
  match result with
  | none | some (.error _) | some (.ok _) => trivial

lemma answers (runs : Runs inv refuses False x post) (valid : inv s) : ∃ result, (x.run.run.run s).1 = some result := by
  have admitted := (runs s valid).2
  generalize (x.run.run.run s).1 = result at admitted
  match result, admitted with
  | some result, _ => exact ⟨result,rfl⟩

lemma foldlM {f : β → α → Attempt (StateM σ) β} {motive : List α → β → Prop}
    (step : ∀ a rest b, motive (a :: rest) b → Runs inv refuses tires (f b a) (motive rest)) :
    ∀ (l : List α) (b : β), motive l b → Runs inv refuses tires (l.foldlM f b) (motive [])
  | [], _, holds => pure holds
  | a :: rest, b, holds => by
    exact bind (step a rest b holds) fun c next => foldlM step rest c next
end Runs
lemma settles_of_returns {ι : Type} {common : ι → Prop} {keeps : ι → α → Prop}
    {post : α → Prop} (yields : Yields inv x post) (returns : ∀ i, common i → Returns inv x (keeps i)) :
    Settles inv (∀ i, ¬ common i) x fun a => post a ∧ ∀ i, common i → keeps i a := by
  intro s valid
  obtain ⟨kept,admitted⟩ := yields s valid
  have each := fun i shared => (returns i shared s valid).2
  refine ⟨kept,?_⟩
  generalize (x.run.run.run s).1 = result at admitted each
  match result, admitted, each with
  | none, _, _ => trivial
  | some (.error _), _, each => exact each
  | some (.ok _), holds, each => exact ⟨holds,each⟩
end Attempt
end SchemaOrder
