import SchemaOrder.Proofs.Sessions
namespace SchemaOrder
open Pattern (Regex Sampler)
-- Verdicts on patterns come with a word that shows them.
def Question.Shown (limit : Nat) (q : Question) (within : Bool) : Prop :=
  ∃ sub sup word, Regex.compile? q.sub = some sub ∧ Regex.compile? q.sup = some sup ∧
    word.length ≤ limit ∧ sub.isMatch word ∧ sup.isMatch word = within
namespace Pattern
lemma length_sample {σ : Type} {source : Random.Source σ} {s : Sampler} {state : σ} {word : String}
    (drawn : (s.sample source state).1 = some word) : word.length ≤ s.maxLength := by
  unfold Sampler.sample at drawn
  dsimp only at drawn
  split at drawn
  · next short => exact Option.some.inj drawn ▸ short
  · cases drawn

-- The words seen so far are in both patterns, which is what a yes at the end rests on.
lemma probe_shown {σ : Type} {draw : σ → Option String × σ} {inSub inSup : String → Bool} {short : String → Prop}
    (drawn : ∀ state word, (draw state).1 = some word → short word) (wanted : Nat) :
    ∀ (attempts : Nat) (seen : List String) (state : σ), (∀ word ∈ seen, short word ∧ inSub word ∧ inSup word) →
      probe draw inSub inSup wanted attempts seen state = some within →
        ∃ word, short word ∧ inSub word ∧ inSup word = within := by
  have settled {seen} (fitted : ∀ word ∈ seen, short word ∧ inSub word ∧ inSup word)
      (found : outcome seen = some within) : ∃ word, short word ∧ inSub word ∧ inSup word = within := by
    cases seen with
    | nil => cases found
    | cons word rest =>
      obtain rfl : true = within := Option.some.inj found
      exact ⟨word,fitted word List.mem_cons_self⟩
  -- on the attempts that are left; what was seen so far lies in both patterns
  intro attempts
  induction attempts with
  | zero => exact fun seen _ fitted found => settled fitted found
  | succ attempts ih =>
    intro seen state fitted found
    unfold probe at found
    split at found
    · exact settled fitted found
    have fresh := drawn state
    generalize draw state = drawing at fresh found
    obtain ⟨word,state⟩ := drawing
    cases word with
    | none => exact ih seen state fitted found
    | some word =>
      dsimp only at found
      split at found
      · exact ih seen state fitted found
      next counts =>
      rw [Bool.or_eq_true,not_or,Bool.not_eq_true,Bool.not_eq_true,Bool.not_eq_false'] at counts
      have isShort := fresh word rfl
      split at found
      · next fits =>
        refine ih (word :: seen) state (fun other mem => ?_) found
        rcases List.mem_cons.mp mem with rfl | older
        · exact ⟨isShort,counts.2,fits⟩
        · exact fitted other older
      · next fails =>
        obtain rfl : false = within := Option.some.inj found
        exact ⟨word,isShort,counts.2,Bool.not_eq_true _ ▸ fails⟩
end Pattern
def Session.memoryWith (settings : Settings) (history : List (Request × (Question → Dice))) : Memory :=
  ((history.mapM fun entry => (entry.1.answerWith entry.2 settings : StateM Memory Reply)).run {}).2

lemma Session.memoryWith_seeded (settings : Settings) (requests : List Request) :
    memoryWith settings (requests.map fun r => (r,fun _ => .seeded settings.sampleSeed)) = memory settings requests := by
  unfold memoryWith memory run
  rw [List.mapM_map]
  rfl
namespace Memory
variable {settings : Settings} {memory : Memory}
structure Grounded (settings : Settings) (memory : Memory) : Prop where
  honest : memory.Honest
  limited : ∀ pat s, memory.sampler? pat = some (some s) → s.maxLength = settings.maxSampleLength
  shown : ∀ q within, memory.verdict? q = some (some within) → q.Shown settings.maxSampleLength within

lemma grounded_empty : Grounded settings {} := ⟨nofun,nofun,nofun⟩

lemma maxLength_ofPattern? (built : Sampler.ofPattern? pat maxRepeat maxLength = some s) : s.maxLength = maxLength := by
  obtain ⟨_,_,rfl⟩ := Option.map_eq_some_iff.mp built
  rfl

lemma Grounded.addRegex (grounded : Grounded settings memory) (pat : String) :
    Grounded settings (memory.addRegex pat (Regex.compile? pat)) :=
  ⟨grounded.honest.addRegex pat,grounded.limited,grounded.shown⟩

lemma Grounded.addSampler (grounded : Grounded settings memory) (pat : String) : Grounded settings
    (memory.addSampler pat (Sampler.ofPattern? pat settings.maxRepeat settings.maxSampleLength)) where
  honest := grounded.honest
  limited asked s found := by
    change ((pat,_) :: memory.samplers).lookup asked = some (some s) at found
    rw [List.lookup_cons] at found
    split at found
    · exact maxLength_ofPattern? (Option.some.inj found)
    · exact grounded.limited asked s found
  shown := grounded.shown

lemma Grounded.setVerdict (grounded : Grounded settings memory)
    (shown : ∀ within, verdict = some within → q.Shown settings.maxSampleLength within) :
    Grounded settings (memory.setVerdict q verdict) where
  honest := grounded.honest
  limited := grounded.limited
  shown asked within found := by
    rw [verdict?_setVerdict] at found
    split at found
    · next same => exact same ▸ shown within (Option.some.inj found)
    · exact grounded.shown asked within found

lemma grounded_regex (pat : String) :
    Ensures (Grounded settings) (regex pat : StateM Memory (Option Regex)) (· = Regex.compile? pat) := by
  refine .bind .get fun memory grounded => ?_
  cases known : memory.regex? pat with
  | none => exact .bind (.modify fun _ valid => valid.addRegex pat) fun _ _ => .pure rfl
  | some r => exact .pure (grounded.honest pat r known)

lemma grounded_matcher (pat : String) :
    Ensures (Grounded settings) (matcher pat : StateM Memory (Option Matcher)) fun _ => True :=
  .bind (grounded_regex pat) fun _ _ => .pure trivial

lemma grounded_sampler (pat : String) :
    Ensures (Grounded settings) (sampler pat settings.maxRepeat settings.maxSampleLength : StateM Memory (Option Sampler))
      fun found => ∀ s, found = some s → s.maxLength = settings.maxSampleLength := by
  refine .bind .get fun memory grounded => ?_
  cases known : memory.sampler? pat with
  | none =>
    exact .bind (.modify fun _ valid => valid.addSampler pat) fun _ _ => .pure fun _ built => maxLength_ofPattern? built
  | some found => exact .pure fun s same => grounded.limited pat s (same ▸ known)

lemma grounded_judge (dice : Dice) (q : Question) :
    Ensures (Grounded settings) (judgeWith dice settings.effort q : StateM Memory (Option Bool))
      fun verdict => ∀ within, verdict = some within → q.Shown settings.maxSampleLength within := by
  have unknown : Ensures (Grounded settings) (pure none : StateM Memory (Option Bool))
      fun verdict => ∀ within, verdict = some within → q.Shown settings.maxSampleLength within :=
    .pure nofun
  refine .bind (grounded_regex q.sup) fun sup isSup => ?_
  cases sup with
  | none => exact unknown
  | some sup =>
    refine .bind (grounded_regex q.sub) fun sub isSub => ?_
    cases sub with
    | none => exact unknown
    | some sub =>
      refine .bind (grounded_sampler q.sub) fun s limited => ?_
      cases s with
      | none => exact unknown
      | some s =>
        refine .pure fun within found => ?_
        have drawn : ∀ state word, (s.sample dice.source state).1 = some word → word.length ≤ settings.maxSampleLength :=
          fun _ _ drawn => limited s rfl ▸ Pattern.length_sample drawn
        obtain ⟨word,short,inSub,inSup⟩ := Pattern.probe_shown drawn q.samples _ [] _ nofun found
        exact ⟨sub,sup,word,isSub.symm,isSup.symm,short,inSub,inSup⟩

lemma grounded_patternWithin (dice : Question → Dice) (q : Question) :
    Ensures (Grounded settings) (patternWithinWith dice settings.effort q : StateM Memory (Option Bool))
      fun verdict => ∀ within, verdict = some within →
        (within ∧ (q.sub = q.sup ∨ Pattern.isTrivial q.sup)) ∨ q.Shown settings.maxSampleLength within := by
  unfold patternWithinWith
  split
  · next settled =>
    refine .pure fun within found => .inl ⟨(Option.some.inj found).symm,?_⟩
    simpa using settled
  refine .bind .get fun memory grounded => ?_
  cases known : memory.verdict? q with
  | some verdict => exact .pure fun within same => .inr (grounded.shown q within (same ▸ known))
  | none =>
    refine .bind (grounded_judge (dice q) q) fun verdict shown => ?_
    exact .bind (.modify fun _ valid => valid.setVerdict shown)
      fun _ _ => .pure fun within found => .inr (shown within found)

lemma grounded_patternsEquivalent (dice : Question → Dice) (q : Question) :
    Ensures (Grounded settings) (patternsEquivalentWith dice settings.effort q : StateM Memory (Option Bool)) fun _ => True := by
  unfold patternsEquivalentWith
  split
  · exact .pure trivial
  refine .bind (grounded_patternWithin dice q) fun forward _ => ?_
  cases forward with
  | none => exact .pure trivial
  | some forward =>
    refine .bind (grounded_patternWithin dice _) fun backward _ => ?_
    cases backward with
    | none | some backward => exact .pure trivial
variable (settings)
def grounding : Simulation (StateM Memory) (StateM Memory) where
  rel x _ := Ensures (Grounded settings) x fun _ => True
  pure _ := .pure trivial
  bind related next := .bind related fun a _ => next a

lemma grounding_engines (dice : Question → Dice) :
    (grounding settings).Engines (engineWith dice settings) (engineWith dice settings) where
  primitive := (grounding settings).merge grounded_matcher
  matcher := grounded_matcher
  patternWithin _ _ := (grounded_patternWithin dice _).mono fun _ _ => trivial
end Memory
open Memory
lemma Request.answerWith_grounded (settings : Settings) (dice : Question → Dice) (r : Request)
    (grounded : Grounded settings memory) : Grounded settings ((r.answerWith dice settings : StateM Memory Reply).run memory).2 := by
  have replied : ∀ {α} {reply : α → Reply} {question}, Ensures (Grounded settings) question (fun _ => True) →
        Grounded settings ((do return reply (← question) : StateM Memory Reply).run memory).2 :=
    fun kept => (kept memory grounded).1
  have engines := grounding_engines settings dice
  cases r with
  | check sub sup | isSubset sub sup => exact replied (engines.check sub sup)
  | connect source target => exact replied (engines.check source target)
  | equal a b => exact grounded
  | intersect a b => exact replied (engines.intersection? a b)
  | normalize schema => exact grounded
  | resolve schema data => exact replied (engines.resolve schema data)
  | checkResolved sub sup subData supData => exact replied (engines.checkResolved sub sup subData supData)
  | patternWithin sub sup => exact replied ((grounded_patternWithin dice _).mono fun _ _ => trivial)
  | patternsEquivalent sub sup => exact replied (grounded_patternsEquivalent dice _)
  | forget => exact grounded_empty

lemma Session.memoryWith_grounded (settings : Settings) (history : List (Request × (Question → Dice))) :
    Grounded settings (memoryWith settings history) := by
  have run : ∀ {memory}, Grounded settings memory → Grounded settings
        ((history.mapM fun entry => (entry.1.answerWith entry.2 settings : StateM Memory Reply)).run memory).2 := by
    induction history with
    | nil => exact fun grounded => grounded
    | cons entry rest ih =>
      intro memory grounded
      rw [List.mapM_cons]
      exact ih (entry.1.answerWith_grounded settings entry.2 grounded)
  exact run grounded_empty
namespace Session
lemma shown_of_grounded {settings : Settings} {memory : Memory} (grounded : Grounded settings memory) (dice : Question → Dice)
    {q : Question} {within : Bool}
    (found : ((patternWithinWith dice settings.effort q : StateM Memory (Option Bool)).run memory).1 = some within)
    (unsettled : within → q.sub ≠ q.sup ∧ Pattern.isTrivial q.sup = false) : q.Shown settings.maxSampleLength within := by
  rcases (grounded_patternWithin dice q memory grounded).2 within found with ⟨isTrue,settled⟩ | shown
  · obtain ⟨apart,constrains⟩ := unsettled isTrue
    rcases settled with same | trivially
    · exact absurd same apart
    rw [constrains] at trivially
    cases trivially
  · exact shown

-- After every history, and whatever numbers are drawn in it and now: if a verdict is a no, or a yes that the look of the
-- two patterns does not settle, then both patterns compile and a word within the length limit shows it. A session whose
-- numbers come from its seed is one such history.
theorem patternWithin_shown (settings : Settings) (q : Question) :
    (∀ (history : List (Request × (Question → Dice))) (dice : Question → Dice) (within : Bool),
      ((patternWithinWith dice settings.effort q : StateM Memory (Option Bool)).run (memoryWith settings history)).1 = some within →
        (within = true → q.sub ≠ q.sup ∧ Pattern.isTrivial q.sup = false) → q.Shown settings.maxSampleLength within) ∧
    ∀ (requests : List Request) (within : Bool),
      ((patternWithin settings.effort q : StateM Memory (Option Bool)).run (memory settings requests)).1 = some within →
        (within = true → q.sub ≠ q.sup ∧ Pattern.isTrivial q.sup = false) → q.Shown settings.maxSampleLength within := by
  refine ⟨fun history dice within found unsettled => ?_,fun requests within found unsettled => ?_⟩
  · exact shown_of_grounded (memoryWith_grounded settings history) dice found unsettled
  · rw [← memoryWith_seeded] at found
    exact shown_of_grounded (memoryWith_grounded settings _) (fun _ => .seeded settings.sampleSeed) found unsettled

def counting : Question → Dice :=
  let draw limit n := (@Fin.ofNat (limit + 1) Nat.instNeZeroSucc n,n + 1)
  fun _ => ⟨Nat,⟨draw,draw⟩,0⟩

def patternHistory : List (Request × (Question → Dice)) :=
  [(.patternWithin "ab?" "b$",counting),(.forget,counting),(.patternWithin "ab?" "^a",counting)]

theorem patternWithin_shown_counting : let settings : Settings := { sampleCount := 2, maxSampleLength := 5 }
    let asked : Question → Option Bool := fun q =>
      ((patternWithinWith counting settings.effort q : StateM Memory (Option Bool)).run (memoryWith settings patternHistory)).1
    (asked ⟨"ab?","b$",3⟩ = some false ∧ Question.Shown 5 ⟨"ab?","b$",3⟩ false) ∧
      asked ⟨"ab?","^a",2⟩ = some true ∧ Question.Shown 5 ⟨"ab?","^a",2⟩ true := by
  intro settings asked
  have ending : Pattern.isTrivial "b$" = false := by cbv
  have starting : Pattern.isTrivial "^a" = false := by cbv
  have no : asked ⟨"ab?","b$",3⟩ = some false := by
    simp only [asked,memoryWith,patternHistory,List.mapM_cons,Request.answerWith,patternWithinWith,ending,starting]
    decide +kernel
  have yes : asked ⟨"ab?","^a",2⟩ = some true := by
    simp only [asked,memoryWith,patternHistory,List.mapM_cons,Request.answerWith,patternWithinWith,ending,starting]
    decide +kernel
  exact ⟨⟨no,(patternWithin_shown settings _).1 patternHistory counting false no (absurd · Bool.false_ne_true)⟩,
    yes,(patternWithin_shown settings _).1 patternHistory counting true yes fun _ => ⟨by decide,starting⟩⟩
end Session
end SchemaOrder
