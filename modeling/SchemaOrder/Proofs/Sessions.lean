import SchemaOrder.Proofs.Engines
import SchemaOrder.Proofs.Memory
import SchemaOrder.Session
namespace SchemaOrder
open Pattern (Regex Sampler)
namespace Memory
-- Sessions do not depend on their history.
def assess (effort : Pattern.Effort) (q : Question) : Option Bool := do
  let sup ← Regex.compile? q.sup
  let sub ← Regex.compile? q.sub
  let s ← Sampler.ofPattern? q.sub effort.maxRepeat effort.maxLength
  Pattern.probe (s.sample Random.Stream.source) sub.isMatch sup.isMatch q.samples (effort.attempts q.samples) []
    (.ofSeed (.ofNat effort.seed))

def estimate (effort : Pattern.Effort) (q : Question) : Option Bool :=
  if q.sub = q.sup || Pattern.isTrivial q.sup then some true else assess effort q

structure Faithful (settings : Settings) (memory : Memory) : Prop where
  regexes : Truthful Regex.compile? memory.regexes
  samplers : Truthful (Sampler.ofPattern? · settings.maxRepeat settings.maxSampleLength) memory.samplers
  verdicts : Truthful (assess settings.effort) memory.verdicts

structure Extends (older newer : Memory) : Prop where
  regexes : ∀ pat known, older.regex? pat = some known → newer.regex? pat = some known
  samplers : ∀ pat known, older.sampler? pat = some known → newer.sampler? pat = some known
  verdicts : ∀ q known, older.verdict? q = some known → newer.verdict? q = some known

structure Grown (settings : Settings) (older memory : Memory) : Prop extends Faithful settings memory where
  grown : older.Extends memory
variable {settings : Settings} {older memory : Memory}
lemma faithful_empty : Faithful settings {} := ⟨nofun,nofun,nofun⟩

lemma extends_refl (memory : Memory) : memory.Extends memory :=
  ⟨fun _ _ found => found,fun _ _ found => found,fun _ _ found => found⟩

lemma Extends.trans (first : older.Extends memory) (second : memory.Extends newer) : older.Extends newer where
  regexes pat known found := second.regexes pat known (first.regexes pat known found)
  samplers pat known found := second.samplers pat known (first.samplers pat known found)
  verdicts q known found := second.verdicts q known (first.verdicts q known found)

lemma Grown.addRegex (grown : Grown settings older memory) (pat : String) :
    Grown settings older (memory.addRegex pat (Regex.compile? pat)) where
  regexes := grown.regexes.cons pat
  samplers := grown.samplers
  verdicts := grown.verdicts
  grown := {
    regexes := fun _ _ found => grown.regexes.lookup_cons pat (grown.grown.regexes _ _ found)
    samplers := grown.grown.samplers
    verdicts := grown.grown.verdicts }

lemma Grown.addSampler (grown : Grown settings older memory) (pat : String) : Grown settings older
    (memory.addSampler pat (Sampler.ofPattern? pat settings.maxRepeat settings.maxSampleLength)) where
  regexes := grown.regexes
  samplers := grown.samplers.cons pat
  verdicts := grown.verdicts
  grown := {
    regexes := grown.grown.regexes
    samplers := fun _ _ found => grown.samplers.lookup_cons pat (grown.grown.samplers _ _ found)
    verdicts := grown.grown.verdicts }

lemma verdict?_setVerdict (memory : Memory) (q asked : Question) (verdict : Option Bool) :
    (memory.setVerdict q verdict).verdict? asked = if asked = q then some verdict else memory.verdict? asked := by
  change ((q,verdict) :: memory.verdicts.filter fun entry => entry.1 ≠ q).lookup asked = _
  rw [List.lookup_cons]
  by_cases same : asked = q
  · simp [same]
  rw [if_neg same,lookup_filter_ne same,beq_false_of_ne same]
  rfl

lemma Grown.setVerdict (grown : Grown settings older memory) (q : Question) :
    Grown settings older (memory.setVerdict q (assess settings.effort q)) where
  regexes := grown.regexes
  samplers := grown.samplers
  verdicts := by
    intro asked known found
    change (memory.setVerdict _ _).verdict? asked = some known at found
    rw [verdict?_setVerdict] at found
    split at found
    · next same =>
      rw [same]
      exact (Option.some.inj found).symm
    · exact grown.verdicts asked known found
  grown := {
    regexes := grown.grown.regexes
    samplers := grown.grown.samplers
    verdicts := by
      intro asked known found
      have kept := grown.grown.verdicts asked known found
      rw [verdict?_setVerdict]
      split
      · next same => rw [grown.verdicts asked known kept,same]
      · exact kept }

lemma grown_regex (pat : String) :
    Ensures (Grown settings older) (regex pat : StateM Memory (Option Regex)) (· = Regex.compile? pat) := by
  refine .bind .get fun memory grown => ?_
  cases known : memory.regex? pat with
  | none => exact .bind (.modify fun _ valid => valid.addRegex pat) fun _ _ => .pure rfl
  | some r => exact .pure (grown.regexes pat r known)

lemma grown_sampler (pat : String) :
    Ensures (Grown settings older) (sampler pat settings.maxRepeat settings.maxSampleLength : StateM Memory (Option Sampler))
      (· = Sampler.ofPattern? pat settings.maxRepeat settings.maxSampleLength) := by
  refine .bind .get fun memory grown => ?_
  cases known : memory.sampler? pat with
  | none => exact .bind (.modify fun _ valid => valid.addSampler pat) fun _ _ => .pure rfl
  | some s => exact .pure (grown.samplers pat s known)

lemma grown_judge (q : Question) :
    Ensures (Grown settings older) (judgeWith (.seeded settings.sampleSeed) settings.effort q : StateM Memory (Option Bool))
      (· = assess settings.effort q) := by
  refine .bind (grown_regex q.sup) fun sup isSup => ?_
  cases sup with
  | none => exact .pure (by rw [assess,← isSup]; rfl)
  | some sup =>
    refine .bind (grown_regex q.sub) fun sub isSub => ?_
    cases sub with
    | none => exact .pure (by rw [assess,← isSup,← isSub]; rfl)
    | some sub =>
      refine .bind (grown_sampler q.sub) fun s isSampler => ?_
      have whole : assess settings.effort q = s.bind fun s =>
          Pattern.probe (s.sample Random.Stream.source) sub.isMatch sup.isMatch q.samples (settings.effort.attempts q.samples) []
            (.ofSeed (.ofNat settings.effort.seed)) := by
        rw [assess,← isSup,← isSub,isSampler]
        rfl
      rw [whole]
      cases s with
      | none | some s => exact .pure rfl

lemma grown_matcher (pat : String) : Ensures (Grown settings older) (matcher pat : StateM Memory (Option Matcher))
    (· = (Regex.compile? pat).map Regex.isMatch) := by
  refine .bind (grown_regex pat) fun found same => .pure ?_
  rw [same]

lemma grown_patternWithin (q : Question) :
    Ensures (Grown settings older) (patternWithin settings.effort q : StateM Memory (Option Bool))
      (· = estimate settings.effort q) := by
  unfold patternWithin patternWithinWith estimate
  split
  · exact .pure rfl
  refine .bind .get fun memory grown => ?_
  cases known : memory.verdict? q with
  | some verdict => exact .pure (grown.verdicts q verdict known)
  | none =>
    refine .bind (grown_judge q) fun verdict same => ?_
    rw [same]
    exact .bind (.modify fun _ valid => valid.setVerdict q) fun _ _ => .pure rfl

lemma grown_patternsEquivalent (q : Question) :
    Ensures (Grown settings older) (patternsEquivalent settings.effort q : StateM Memory (Option Bool))
      (· = if q.sub = q.sup then some true else (estimate settings.effort q).bind fun forward =>
        (estimate settings.effort { q with sub := q.sup, sup := q.sub }).map (forward && ·)) := by
  unfold patternsEquivalent patternsEquivalentWith
  split
  · exact .pure rfl
  refine .bind (grown_patternWithin q) fun forward isForward => ?_
  rw [← isForward]
  cases forward with
  | none => exact .pure rfl
  | some forward =>
    refine .bind (grown_patternWithin _) fun backward isBackward => ?_
    rw [← isBackward]
    cases backward with
    | none | some backward => exact .pure rfl
end Memory
def Engine.plain (settings : Settings) : Engine Id where
  primitive := Intersection.merge fun pat => (Regex.compile? pat).map Regex.isMatch
  matcher pat := (Regex.compile? pat).map Regex.isMatch
  patternWithin sub sup := Memory.estimate settings.effort ⟨sub,sup,settings.sampleCount⟩
namespace Memory
variable (settings : Settings) (older : Memory)
def simulation : Simulation (StateM Memory) Id where
  rel x value := Ensures (Grown settings older) x (· = value)
  pure _ := .pure rfl
  bind related next := .bind related fun _ same => same ▸ next _

lemma simulation_engines : (simulation settings older).Engines (engine settings) (Engine.plain settings) where
  primitive := (simulation settings older).merge grown_matcher
  matcher := grown_matcher
  patternWithin _ _ := grown_patternWithin _
end Memory
namespace Request
open Memory
-- The reply does not depend on `older`, nor on the memory that has grown from it.
lemma answer_certain (settings : Settings) (r : Request) (asks : r ≠ .forget) :
    ∃ reply, ∀ older, Ensures (Grown settings older) (r.answer settings : StateM Memory Reply) (· = reply) := by
  have replied : ∀ {α} {reply : α → Reply} {value} {question},
      (∀ older, Ensures (Grown settings older) question (· = value)) →
        ∃ answer, ∀ older, Ensures (Grown settings older) (do return reply (← question)) (· = answer) :=
    fun certain => ⟨_,fun older => .bind (certain older) fun _ same => .pure (congrArg _ same)⟩
  have engines := simulation_engines settings
  cases r with
  | check sub sup | isSubset sub sup => exact replied fun older => (engines older).check sub sup
  | connect source target => exact replied fun older => (engines older).check source target
  | equal a b => exact ⟨_,fun _ => .pure rfl⟩
  | intersect a b => exact replied fun older => (engines older).intersection? a b
  | normalize schema => exact ⟨_,fun _ => .pure rfl⟩
  | resolve schema data => exact replied fun older => (engines older).resolve schema data
  | checkResolved sub sup subData supData =>
    exact replied fun older => (engines older).checkResolved sub sup subData supData
  | patternWithin sub sup => exact replied fun _ => grown_patternWithin _
  | patternsEquivalent sub sup => exact replied fun _ => grown_patternsEquivalent _
  | forget => exact absurd rfl asks

lemma answer_step (settings : Settings) (r : Request) (faithful : memory.Faithful settings) :
    ((r.answer settings : StateM Memory Reply).run memory).1 = ((r.answer settings : StateM Memory Reply).run {}).1 ∧
      ((r.answer settings : StateM Memory Reply).run memory).2.Faithful settings ∧
        (r ≠ .forget → memory.Extends ((r.answer settings : StateM Memory Reply).run memory).2) := by
  by_cases forgets : r = .forget
  · subst forgets
    exact ⟨rfl,faithful_empty,fun asks => absurd rfl asks⟩
  obtain ⟨reply,certain⟩ := answer_certain settings r forgets
  obtain ⟨grown,same⟩ := certain memory memory ⟨faithful,extends_refl memory⟩
  obtain ⟨_,fresh⟩ := certain {} {} ⟨faithful_empty,extends_refl {}⟩
  exact ⟨same.trans fresh.symm,grown.toFaithful,fun _ => grown.grown⟩
end Request
namespace Session
open Memory
lemma run_faithful (settings : Settings) (requests : List Request) {memory : Memory} (faithful : memory.Faithful settings) :
    let after := (requests.mapM fun r => (r.answer settings : StateM Memory Reply)).run memory
    after.1 = requests.map (fun r => ((r.answer settings : StateM Memory Reply).run {}).1) ∧ after.2.Faithful settings ∧
      (Request.forget ∉ requests → memory.Extends after.2) := by
  induction requests generalizing memory with
  | nil => exact ⟨rfl,faithful,fun _ => extends_refl memory⟩
  | cons r rest ih =>
    obtain ⟨same,kept,extended⟩ := r.answer_step settings faithful
    obtain ⟨replies,valid,later⟩ := ih kept
    rw [List.mapM_cons]
    refine ⟨?_,valid,fun stays => ?_⟩
    · exact congr (congrArg List.cons same) replies
    rw [List.mem_cons,not_or] at stays
    exact (extended (symm stays.1)).trans (later stays.2)

theorem replies_eq_fresh (settings : Settings) (before during : List Request) :
    replies settings (before ++ during) = (before ++ during).map (fun r => (r.answer settings : StateM Memory Reply).run' {}) ∧
      (Request.forget ∉ during → (memory settings before).Extends (memory settings (before ++ during))) := by
  refine ⟨(run_faithful settings _ faithful_empty).1,fun stays => ?_⟩
  have valid := (run_faithful settings before faithful_empty).2.1
  have later := (run_faithful settings during valid).2.2 stays
  unfold memory run
  rw [List.mapM_append]
  exact later

theorem replies_eq_fresh_patternSession :
    let before : List Request := [.patternWithin "^a+$" "^[ab]+$",.forget,.patternWithin "^a+$" "^[ab]+$"]
    let during : List Request := [.check (.single "pattern" (.str "^a+$")) (.single "pattern" (.str "^[ab]+$")),
      .patternsEquivalent "^a+$" "^[ab]+$"]
    Request.forget ∉ during ∧
      replies {} (before ++ during) = (before ++ during).map (fun r => (r.answer {} : StateM Memory Reply).run' {}) ∧
        (memory {} before).Extends (memory {} (before ++ during)) := by
  intro before during
  have stays : Request.forget ∉ during := by simp [during]
  exact ⟨stays,(replies_eq_fresh {} before during).1,(replies_eq_fresh {} before during).2 stays⟩
end Session
end SchemaOrder
