import SchemaOrder.Memory
import SchemaOrder.Proofs.Runs
import SchemaOrder.Proofs.Simulation
namespace SchemaOrder
open List
section Tables
variable {κ β : Type} [DecidableEq κ] {truth : κ → β} {table : List (κ × β)}
-- What a checker remembers is what it would find out anew. Asking for a pattern keeps it so.
def Truthful (truth : κ → β) (table : List (κ × β)) : Prop :=
  ∀ key known, table.lookup key = some known → known = truth key

lemma Truthful.cons (truthful : Truthful truth table) (key : κ) : Truthful truth ((key,truth key) :: table) := by
  intro asked known found
  rw [lookup_cons] at found
  split at found
  · next same =>
    rw [eq_of_beq same]
    exact (Option.some.inj found).symm
  · exact truthful asked known found

-- An entry made twice says the same twice, so that nothing changes for those who ask.
lemma Truthful.lookup_cons (truthful : Truthful truth table) (key : κ)
    (found : table.lookup asked = some known) : ((key,truth key) :: table).lookup asked = some known := by
  rw [List.lookup_cons]
  split
  · next same => rw [truthful asked known found,eq_of_beq same]
  · exact found

lemma lookup_filter_ne (other : asked ≠ key) (table : List (κ × β)) :
    (table.filter fun entry => entry.1 ≠ key).lookup asked = table.lookup asked := by
  induction table with
  | nil => rfl
  | cons entry rest ih =>
    obtain ⟨k,v⟩ := entry
    by_cases same : k = key
    · have differs : (asked == k) = false := beq_false_of_ne (same ▸ other)
      rw [filter_cons_of_neg (by simpa using same),ih,lookup_cons,differs]
    · rw [filter_cons_of_pos (by simpa using same),lookup_cons,lookup_cons,ih]
end Tables
def Simulation.forgetful {σ : Type} (inv : σ → Prop) : Simulation (StateM σ) (StateM Unit) where
  rel x y := Ensures inv x (· = (y.run ()).1)
  pure _ := .pure rfl
  bind related next := .bind related fun _ same => same ▸ next _
namespace Memory
open Pattern (Regex)
def Honest (memory : Memory) : Prop :=
  ∀ pat known, memory.regex? pat = some known → known = Regex.compile? pat

lemma Honest.addRegex {memory : Memory} (honest : memory.Honest) (pat : String) :
    (memory.addRegex pat (Regex.compile? pat)).Honest :=
  Truthful.cons honest pat

lemma ensures_regex (pat : String) :
    Ensures Honest (regex pat : StateM Memory (Option Regex)) fun found => found = Regex.compile? pat := by
  refine .bind .get fun memory honest => ?_
  cases known : memory.regex? pat with
  | none => exact .bind (.modify fun _ valid => Honest.addRegex valid pat) fun _ _ => .pure rfl
  | some r => exact .pure (honest pat r known)

def compiled (pat : String) : StateM Unit (Option Matcher) := pure ((Regex.compile? pat).map Regex.isMatch)

lemma forgetful_matcher (pat : String) :
    (Simulation.forgetful Honest).rel (matcher pat : StateM Memory (Option Matcher)) (compiled pat) := by
  change Ensures Honest (matcher pat) (· = (Regex.compile? pat).map Regex.isMatch)
  refine .bind (ensures_regex pat) fun found same => .pure ?_
  rw [same]
end Memory
end SchemaOrder
