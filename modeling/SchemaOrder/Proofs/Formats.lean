import Mathlib
import SchemaOrder.Format
namespace SchemaOrder.Format
open List
variable {cs rest : List Char} {c : Char}
-- A grammar says which pieces a text consists of; the scanners read from the left and keep what they are in.
lemma ascii_forall {P : Char → Prop} (each : ∀ n < 128, P (.ofNat n)) (c : Char) (ascii : c.toNat < 128) : P c := by
  have holds := each c.toNat ascii
  rwa [Char.ofNat_toNat] at holds

lemma ascii_listed {signs : List Char} (ascii : signs.all (·.toNat < 128)) (listed : c ∈ signs) : c.toNat < 128 :=
  of_decide_eq_true (all_eq_true.mp ascii c listed)
section Inclusions
lemma isLetterOrDigit_ascii (letter : isLetterOrDigit c) : c.toNat < 128 := by
  simp only [isLetterOrDigit,isLetter,isDigit,Bool.or_eq_true,Bool.and_eq_true,decide_eq_true_iff] at letter
  rcases letter with (⟨_,most⟩ | ⟨_,most⟩) | ⟨_,most⟩ <;> exact (show c.toNat ≤ _ from most).trans_lt (by decide)

lemma isAlphanumeric_ascii (letter : isLetterOrDigit c) : Unicode.isAlphanumeric c := by
  have each : ∀ n < 128, isLetterOrDigit (.ofNat n) → (Char.ofNat n).isAlphanum := by decide +kernel
  have ascii := ascii_forall (P := fun c => isLetterOrDigit c → c.isAlphanum) each c (isLetterOrDigit_ascii letter) letter
  rw [Unicode.isAlphanumeric,ascii,Bool.true_or,Bool.true_or]

lemma mail_not_blank (mail : isMailChar c) : (!Unicode.isWhiteSpace c) := by
  have each : ∀ n < 128, isMailChar (.ofNat n) → !Unicode.isWhiteSpace (.ofNat n) := by decide +kernel
  refine ascii_forall (P := fun c => isMailChar c → !Unicode.isWhiteSpace c) each c ?_ mail
  rcases Bool.or_eq_true_iff.mp mail with letter | sign
  · exact isLetterOrDigit_ascii letter
  · exact ascii_listed (by rfl) (contains_iff_mem.mp sign)

lemma isLabel_mono {narrow wide : Char → Bool} (included : ∀ c, narrow c → wide c) (label : isLabel narrow cs) :
    isLabel wide cs := by
  unfold isLabel at label ⊢
  simp only [Bool.and_eq_true,all_eq_true,Bool.or_eq_true] at label ⊢
  exact ⟨label.1,fun c mem => (label.2 c mem).imp_right (included c)⟩

lemma mem_splitAt (separator : Char) (mem : c ∈ cs) : c = separator ∨ ∃ part ∈ splitAt separator cs, c ∈ part := by
  induction cs with
  | nil => cases mem
  | cons d cs ih =>
    unfold splitAt
    split
    · next separates =>
      rcases mem_cons.mp mem with rfl | later
      · exact .inl separates
      · exact (ih later).imp_right fun ⟨part,among,inside⟩ => ⟨part,.tail _ among,inside⟩
    rcases mem_cons.mp mem with rfl | later
    · split <;> exact .inr ⟨_,.head _,.head _⟩
    refine (ih later).imp_right fun ⟨part,among,inside⟩ => ?_
    split
    · next none => rw [none] at among; cases among
    next found =>
    rw [found] at among
    rcases mem_cons.mp among with rfl | other
    · exact ⟨_,.head _,.tail _ inside⟩
    · exact ⟨part,.tail _ other,inside⟩

lemma domain_mail (labels : ∀ label ∈ splitAt '.' cs, isLabel isLetterOrDigit label) : ∀ c ∈ cs, isMailChar c := by
  intro c mem
  have letters c letter : isMailChar c := Bool.or_eq_true_iff.mpr (.inl letter)
  rcases mem_splitAt '.' mem with rfl | ⟨label,among,inside⟩
  · decide
  have label := labels label among
  simp only [isLabel,Bool.and_eq_true,all_eq_true,Bool.or_eq_true,decide_eq_true_iff] at label
  rcases label.2 c inside with rfl | letter
  · decide
  · exact letters c letter

lemma idnEmail_of_email (s : String) (mail : isEmail s) : isIdnEmail s := by
  unfold isEmail at mail
  unfold isIdnEmail
  split at mail
  · next user domain _ =>
    simp only [Bool.and_eq_true,all_eq_true] at mail ⊢
    refine ⟨⟨⟨mail.1.1,?_⟩,fun c mem => mail_not_blank (mail.1.2 c mem)⟩,fun c mem =>
      mail_not_blank (domain_mail mail.2 c mem)⟩
    cases domain with
    | nil => cases mail.2 [] mem_cons_self
    | cons => rfl
  · cases mail

lemma idnHostname_of_hostname (s : String) (host : isHostname s) : isIdnHostname s := by
  simp only [isHostname,isIdnHostname,isHostOf,Bool.and_eq_true,all_eq_true] at host ⊢
  exact ⟨host.1,fun label among => isLabel_mono (fun _ => isAlphanumeric_ascii) (host.2 label among)⟩
end Inclusions
-- The table of inclusions is true of the formats: what fits one format fits every format that the table puts around it.
theorem accepts_of_within (sub sup : String) (included : within sub sup) (s : String)
    (fits : accepts? (.str s) sub = some true) : accepts? (.str s) sup = some true := by
  rcases Bool.or_eq_true_iff.mp included with same | listed
  · rwa [← eq_of_beq same]
  · simp only [inclusions,contains_iff_mem,mem_cons,not_mem_nil,or_false,Prod.mk.injEq] at listed
    rcases listed with ⟨rfl,rfl⟩ | ⟨rfl,rfl⟩ | ⟨rfl,rfl⟩ | ⟨rfl,rfl⟩
    · exact congrArg some (idnEmail_of_email s (Option.some.inj fits))
    · exact congrArg some (idnHostname_of_hostname s (Option.some.inj fits))
    · -- the narrower test is the wider one for ASCII texts
      have uri : isUri s := Option.some.inj fits
      simp only [isUri,Bool.and_assoc,Bool.and_eq_true] at uri
      exact congrArg some (Bool.and_eq_true_iff.mpr uri.2)
    · have reference : isUriReference s := Option.some.inj fits
      simp only [isUriReference,Bool.and_assoc,Bool.and_eq_true] at reference
      exact congrArg some (Bool.and_eq_true_iff.mpr reference.2)

theorem accepts_of_within_mail : within "email" "idn-email" ∧ accepts? (.str "a.b@c-d.e") "idn-email" = some true := by
  have listed : within "email" "idn-email" := by decide
  have fits : accepts? (.str "a.b@c-d.e") "email" = some true := by decide +kernel
  exact ⟨listed,accepts_of_within _ _ listed _ fits⟩
section Pointers
-- Every tilde is followed by the number of an escape.
def Escaped (cs : List Char) : Prop :=
  ∀ after, '~' :: after <:+ cs → after.head? = some '0' ∨ after.head? = some '1'

structure Token (cs : List Char) : Prop where
  unsplit : '/' ∉ cs
  escaped : Escaped cs

def Pointer (cs : List Char) : Prop :=
  ∃ tokens : List (List Char), (∀ token ∈ tokens, Token token) ∧ cs = tokens.flatMap ('/' :: ·)

lemma escaped_nil : Escaped [] := by
  intro after suffix
  cases suffix_nil.mp suffix

lemma escaped_cons : Escaped (c :: rest) ↔ (c = '~' → rest.head? = some '0' ∨ rest.head? = some '1') ∧ Escaped rest := by
  constructor
  · intro escaped
    refine ⟨?_,fun after suffix => escaped after (suffix.trans (suffix_cons c rest))⟩
    rintro rfl
    exact escaped rest suffix_rfl
  rintro ⟨first,later⟩ after suffix
  rcases suffix_cons_iff.mp suffix with whole | within
  · obtain ⟨rfl,rfl⟩ := cons.inj whole
    exact first rfl
  · exact later after within

lemma tildesEscaped_iff : tildesEscaped cs ↔ Escaped cs := by
  fun_induction tildesEscaped cs with
  | case1 => simp [escaped_nil]
  | case2 rest ih | case3 rest ih => simp [escaped_cons,ih]
  | case4 c rest zero one ih =>
    rw [Bool.and_eq_true,ih,escaped_cons,decide_eq_true_iff]
    refine and_congr_left fun _ => ⟨fun other tilde => absurd tilde other,fun followed tilde => ?_⟩
    cases rest with
    | nil => simp at followed; exact followed tilde
    | cons d rest =>
      rcases followed tilde with number | number
      · cases number
        exact zero rest tilde rfl
      cases number
      exact one rest tilde rfl

lemma escaped_append (ends : rest.head? ≠ some '0' ∧ rest.head? ≠ some '1') :
    Escaped (cs ++ rest) ↔ Escaped cs ∧ Escaped rest := by
  induction cs with
  | nil => simp [escaped_nil]
  | cons c cs ih =>
    rw [cons_append,escaped_cons,escaped_cons,ih,and_assoc]
    refine and_congr_left fun _ => ?_
    cases cs with
    | nil => simp [ends]
    | cons d cs => rfl

lemma flatMap_ends (tokens : List (List Char)) : (tokens.flatMap ('/' :: ·)).head? ≠ some '0' ∧
    (tokens.flatMap ('/' :: ·)).head? ≠ some '1' := by
  cases tokens <;> simp

-- What stands before the first slash, and the tokens behind it.
lemma tokens_of_escaped (escaped : Escaped cs) : ∃ first : List Char, ∃ tokens : List (List Char), Token first ∧
    (∀ token ∈ tokens, Token token) ∧ cs = first ++ tokens.flatMap ('/' :: ·) := by
  induction cs with
  | nil => exact ⟨[],[],⟨by simp,escaped_nil⟩,by simp,rfl⟩
  | cons c cs ih =>
    obtain ⟨first,tokens,token,others,rfl⟩ := ih (escaped_cons.mp escaped).2
    by_cases slash : c = '/'
    · exact ⟨[],first :: tokens,⟨by simp,escaped_nil⟩,forall_mem_cons.mpr ⟨token,others⟩,by rw [slash]; rfl⟩
    · exact ⟨c :: first,tokens,⟨by simp [Ne.symm slash,token.unsplit],((escaped_append (flatMap_ends _)).mp escaped).1⟩,others,rfl⟩

lemma escaped_tokens {tokens : List (List Char)} (each : ∀ token ∈ tokens, Token token) :
    Escaped (tokens.flatMap ('/' :: ·)) := by
  induction tokens with
  | nil => exact escaped_nil
  | cons token tokens ih =>
    obtain ⟨first,others⟩ := forall_mem_cons.mp each
    rw [flatMap_cons,cons_append,escaped_cons,escaped_append (flatMap_ends _)]
    exact ⟨by simp,first.escaped,ih others⟩

lemma isPointerText_iff : isPointerText cs ↔ Pointer cs := by
  unfold isPointerText
  rw [Bool.or_eq_true,Bool.and_eq_true,tildesEscaped_iff,List.isEmpty_iff,decide_eq_true_iff]
  constructor
  · rintro (rfl | ⟨slash,escaped⟩)
    · exact ⟨[],by simp,rfl⟩
    obtain ⟨first,tokens,token,others,rfl⟩ := tokens_of_escaped escaped
    cases first with
    | nil => exact ⟨tokens,others,rfl⟩
    | cons c first =>
      cases slash
      exact absurd mem_cons_self token.unsplit
  · rintro ⟨tokens,each,rfl⟩
    have escaped := escaped_tokens each
    cases tokens with
    | nil => exact .inl rfl
    | cons => exact .inr ⟨rfl,escaped⟩

-- A decimal number without leading zeros.
structure Decimal (cs : List Char) : Prop where
  nonempty : cs ≠ []
  digits : ∀ c ∈ cs, isDigit c
  leading : cs.head? = some '0' → cs.length = 1

def RelativePointer (cs : List Char) : Prop :=
  ∃ digits rest, cs = digits ++ rest ∧ Decimal digits ∧ (rest = ['#'] ∨ Pointer rest)

lemma isRelativeJsonPointer_iff (s : String) : isRelativeJsonPointer s ↔ RelativePointer s.toList := by
  unfold isRelativeJsonPointer
  simp only [Bool.and_eq_true,Bool.or_eq_true,decide_eq_true_iff,isPointerText_iff]
  constructor
  · rintro ⟨⟨nonempty,leading⟩,rest⟩
    refine ⟨_,_,takeWhile_append_dropWhile.symm,⟨by simpa using nonempty,fun c mem => mem_takeWhile_imp mem,fun zero => ?_⟩,rest⟩
    rcases leading with single | other
    · exact single
    · simp [zero] at other
  rintro ⟨digits,rest,whole,decimal,tail⟩
  have stops : rest.head?.all (!isDigit ·) := by
    rcases tail with rfl | ⟨tokens,_,rfl⟩
    · decide
    cases tokens with
    | nil => rfl
    | cons => exact (by decide : (!isDigit '/'))
  have read : s.toList.takeWhile isDigit = digits ∧ s.toList.dropWhile isDigit = rest := by
    rw [whole,takeWhile_append_of_pos decimal.digits,dropWhile_append_of_pos decimal.digits]
    cases rest with
    | nil => simp
    | cons c rest => simp at stops; simp [stops]
  rw [read.1,read.2]
  refine ⟨⟨by simpa using decimal.nonempty,?_⟩,tail⟩
  by_cases zero : digits.head? = some '0'
  · exact .inl (decimal.leading zero)
  · exact .inr (by simpa using zero)
end Pointers
section Templates
inductive Piece where
  | text (cs : List Char)
  | expression (cs : List Char)

def Piece.inner : Piece → List Char
  | .text cs | .expression cs => cs

def Piece.written : Piece → List Char
  | .text cs => cs
  | .expression cs => '\x7b' :: cs ++ ['\x7d']

def Unbraced (cs : List Char) : Prop := '\x7b' ∉ cs ∧ '\x7d' ∉ cs

-- Text and expressions in braces, none with a brace inside.
def Template (cs : List Char) : Prop :=
  ∃ pieces : List Piece, (∀ piece ∈ pieces, Unbraced piece.inner) ∧ cs = pieces.flatMap Piece.written

lemma Template.cons (template : Template rest) (piece : Piece) (unbraced : Unbraced piece.inner) :
    Template (piece.written ++ rest) := by
  obtain ⟨pieces,each,rfl⟩ := template
  exact ⟨piece :: pieces,forall_mem_cons.mpr ⟨unbraced,each⟩,rfl⟩

lemma bracesBalanced_append (inside : Bool) (unbraced : Unbraced cs) (rest : List Char) :
    bracesBalanced inside (cs ++ rest) = bracesBalanced inside rest := by
  induction cs with
  | nil => rfl
  | cons c cs ih =>
    obtain ⟨noOpen,noClose⟩ := unbraced
    rw [cons_append,bracesBalanced,if_neg (by rintro rfl; exact noOpen mem_cons_self),
      if_neg (by rintro rfl; exact noClose mem_cons_self)]
    exact ih ⟨fun mem => noOpen (.tail _ mem),fun mem => noClose (.tail _ mem)⟩

lemma bracesBalanced_template (template : Template cs) : bracesBalanced false cs := by
  obtain ⟨pieces,each,rfl⟩ := template
  induction pieces with
  | nil => rfl
  | cons piece pieces ih =>
    obtain ⟨first,others⟩ := forall_mem_cons.mp each
    cases piece with
    | text cs => exact (bracesBalanced_append false first _).trans (ih others)
    | expression cs =>
      change bracesBalanced true (cs ++ ['\x7d'] ++ _)
      rw [append_assoc]
      exact (bracesBalanced_append true first _).trans (ih others)

-- In the middle of an expression its end is still to come.
lemma template_of_balanced (inside : Bool) (balanced : bracesBalanced inside cs) :
    if inside then ∃ first rest, Unbraced first ∧ Template rest ∧ cs = first ++ '\x7d' :: rest else Template cs := by
  induction cs generalizing inside with
  | nil =>
    cases inside
    · exact ⟨[],by simp,rfl⟩
    · cases balanced
  | cons c cs ih =>
    unfold bracesBalanced at balanced
    split at balanced
    · next opens =>
      rw [Bool.and_eq_true] at balanced
      cases inside
      · obtain ⟨first,rest,unbraced,template,rfl⟩ := ih true balanced.2
        have whole := template.cons (.expression first) unbraced
        rw [opens]
        simpa [Piece.written] using whole
      · cases balanced.1
    next unopened =>
    split at balanced
    · next closes =>
      rw [Bool.and_eq_true] at balanced
      cases inside
      · cases balanced.1
      · exact ⟨[],cs,⟨by simp,by simp⟩,ih false balanced.2,by rw [closes]; rfl⟩
    next unclosed =>
    have unbraced {first} (unbraced : Unbraced first) : Unbraced (c :: first) := by
      exact ⟨by simp [Ne.symm unopened,unbraced.1],by simp [Ne.symm unclosed,unbraced.2]⟩
    cases inside
    · exact (ih false balanced).cons (.text [c]) (unbraced ⟨by simp,by simp⟩)
    obtain ⟨first,rest,free,template,rfl⟩ := ih true balanced
    exact ⟨c :: first,rest,unbraced free,template,rfl⟩
end Templates
-- Pointers, relative pointers and templates of addresses are accepted exactly where they follow their grammars.
theorem accepts_scanned_iff (s : String) :
    (accepts? (.str s) "json-pointer" = some true ↔ Pointer s.toList) ∧
    (accepts? (.str s) "relative-json-pointer" = some true ↔ RelativePointer s.toList) ∧
    (accepts? (.str s) "uri-template" = some true ↔ Template s.toList) := by
  refine ⟨?_,?_,?_⟩
  · change some (isJsonPointer s) = some true ↔ _
    rw [Option.some_inj]
    exact isPointerText_iff
  · change some (isRelativeJsonPointer s) = some true ↔ _
    rw [Option.some_inj]
    exact isRelativeJsonPointer_iff s
  · change some (isUriTemplate s) = some true ↔ _
    rw [Option.some_inj]
    exact ⟨template_of_balanced false,bracesBalanced_template⟩
section Times
variable {digit wide : Char → Bool} {limit : ℕ}
-- Two digits. The range holds of the digits from `0` to `9`.
def Field (digit : Char → Bool) (limit : ℕ) (cs : List Char) : Prop :=
  ∃ a b, cs = [a,b] ∧ digit a ∧ digit b ∧ (isDigit a → isDigit b → digitValue a * 10 + digitValue b < limit)

def Fraction (digit : Char → Bool) (cs : List Char) : Prop :=
  cs = [] ∨ ∃ ds, ds ≠ [] ∧ (∀ d ∈ ds, digit d) ∧ cs = '.' :: ds

def Offset (digit : Char → Bool) (cs : List Char) : Prop :=
  cs = [] ∨ cs = ['Z'] ∨ cs = ['z'] ∨ ∃ sign hour minute, (sign = '+' ∨ sign = '-') ∧ Field digit 24 hour ∧
    Field digit 60 minute ∧ cs = sign :: (hour ++ ':' :: minute)

-- Hours, minutes and seconds with room for a leap second, then perhaps a fraction and an offset.
def Time (digit : Char → Bool) (cs : List Char) : Prop :=
  ∃ hour minute second fraction offset, Field digit 24 hour ∧ Field digit 60 minute ∧ Field digit 61 second ∧
    Fraction digit fraction ∧ Offset digit offset ∧
    cs = hour ++ ':' :: (minute ++ ':' :: (second ++ (fraction ++ offset)))

lemma Field.mono (field : Field digit limit cs) (included : ∀ c ∈ cs, digit c → wide c) : Field wide limit cs := by
  obtain ⟨a,b,rfl,first,second,below⟩ := field
  exact ⟨a,b,rfl,included a (by simp) first,included b (by simp) second,below⟩

lemma Field.digits (field : Field digit limit cs) : ∀ c ∈ cs, digit c := by
  obtain ⟨a,b,rfl,first,second,_⟩ := field
  simp [first,second]

lemma Time.mono (time : Time digit cs) (included : ∀ c ∈ cs, digit c → wide c) : Time wide cs := by
  obtain ⟨hour,minute,second,fraction,offset,h,m,s,f,o,rfl⟩ := time
  refine ⟨hour,minute,second,fraction,offset,h.mono (by grind),m.mono (by grind),s.mono (by grind),?_,?_,rfl⟩
  · rcases f with rfl | ⟨ds,nonempty,digits,rfl⟩
    · exact .inl rfl
    · exact .inr ⟨ds,nonempty,fun d mem => included d (by simp [mem]) (digits d mem),rfl⟩
  rcases o with none | upper | lower | ⟨sign,hour,minute,signed,h,m,rfl⟩
  · exact .inl none
  · exact .inr (.inl upper)
  · exact .inr (.inr (.inl lower))
  · exact .inr (.inr (.inr ⟨sign,hour,minute,signed,h.mono fun c mem => included c (by simp [mem]),
      m.mono fun c mem => included c (by simp [mem]),rfl⟩))

lemma Time.signs (time : Time digit cs) : ∀ c ∈ cs, digit c ∨ c ∈ [':','.','Z','z','+','-'] := by
  obtain ⟨hour,minute,second,fraction,offset,h,m,s,f,o,rfl⟩ := time
  have fraction_ : ∀ c ∈ fraction, digit c ∨ c = '.' := by
    rcases f with rfl | ⟨ds,_,digits,rfl⟩ <;> grind
  have offset_ : ∀ c ∈ offset, digit c ∨ c ∈ [':','Z','z','+','-'] := by
    rcases o with rfl | rfl | rfl | ⟨sign,hour,minute,signed,h,m,rfl⟩
    · simp
    · simp
    · simp
    · grind [h.digits,m.digits]
  grind [h.digits,m.digits,s.digits]

lemma skip_eq_some {c : Char} : skip c cs = some rest ↔ cs = c :: rest := by
  cases cs with
  | nil | cons d cs => simp [skip]

lemma isDecimal_ascii (c : Char) (ascii : c.toNat < 128) : Unicode.isDecimal c = isDigit c :=
  ascii_forall (P := fun c => Unicode.isDecimal c = isDigit c) (by decide +kernel) c ascii

lemma isDecimal_of_isDigit (digit : isDigit c) : Unicode.isDecimal c := by
  rwa [isDecimal_ascii c (isLetterOrDigit_ascii (Bool.or_eq_true_iff.mpr (.inr digit)))]

-- Digits outside ASCII are read as zero, which is in every range.
lemma timeField?_iff (pos : 0 < limit) : (∃ n, timeField? cs = some (n,rest) ∧ n < limit) ↔
    ∃ field, Field Unicode.isDecimal limit field ∧ cs = field ++ rest := by
  have value {a b} (first : isDigit a) (second : isDigit b) : numberOf 10 [a,b] = digitValue a * 10 + digitValue b := by
    simp [numberOf,hexValue,first,second]
  constructor
  · rintro ⟨n,read,below⟩
    rcases cs with _ | ⟨a,_ | ⟨b,cs⟩⟩
    · cases read
    · cases read
    simp only [timeField?] at read
    split at read
    · next ascii =>
      cases read
      obtain ⟨first,second⟩ := Bool.and_eq_true_iff.mp ascii
      rw [value first second] at below
      exact ⟨[a,b],⟨a,b,rfl,isDecimal_of_isDigit first,isDecimal_of_isDigit second,fun _ _ => below⟩,rfl⟩
    next other =>
    split at read
    · next decimal =>
      cases read
      obtain ⟨first,second⟩ := Bool.and_eq_true_iff.mp decimal
      exact ⟨[a,b],⟨a,b,rfl,first,second,fun digit digit' => absurd (Bool.and_eq_true_iff.mpr ⟨digit,digit'⟩) other⟩,rfl⟩
    · cases read
  · rintro ⟨_,⟨a,b,rfl,first,second,below⟩,rfl⟩
    by_cases ascii : isDigit a && isDigit b
    · obtain ⟨digit,digit'⟩ := Bool.and_eq_true_iff.mp ascii
      exact ⟨_,if_pos ascii,value digit digit' ▸ below digit digit'⟩
    · exact ⟨0,(if_neg ascii).trans (if_pos (Bool.and_eq_true_iff.mpr ⟨first,second⟩)),pos⟩

lemma fraction?_sound (read : fraction? digit cs = some rest) : ∃ fraction, Fraction digit fraction ∧ cs = fraction ++ rest := by
  unfold fraction? at read
  split at read
  · next ds =>
    split at read
    · next first =>
      cases read
      refine ⟨'.' :: ds.takeWhile digit,.inr ⟨_,?_,fun d mem => mem_takeWhile_imp mem,rfl⟩,?_⟩
      · cases ds with
        | nil => cases first
        | cons d ds => simp [show digit d from first]
      · rw [cons_append,takeWhile_append_dropWhile]
    · cases read
  · cases read
    exact ⟨[],.inl rfl,rfl⟩

lemma fraction?_complete {fraction : List Char} (fits : Fraction digit fraction)
    (stops : ∀ c, rest.head? = some c → digit c = false ∧ c ≠ '.') : fraction? digit (fraction ++ rest) = some rest := by
  rcases fits with rfl | ⟨ds,nonempty,digits,rfl⟩
  · unfold fraction?
    split
    · next same => exact absurd rfl (stops '.' (by rw [← nil_append rest,same]; rfl)).2
    · rfl
  have first : (ds ++ rest).head?.any digit := by
    cases ds with
    | nil => exact absurd rfl nonempty
    | cons d ds => exact digits d mem_cons_self
  refine (if_pos first).trans ?_
  change some ((ds ++ rest).dropWhile digit) = _
  rw [dropWhile_append_of_pos digits]
  cases rest with
  | nil => rfl
  | cons c rest => rw [dropWhile_cons_of_neg (by simp [(stops c rfl).1])]

lemma timeOffset?_iff : timeOffset? cs = some [] ↔ Offset Unicode.isDecimal cs := by
  constructor
  · intro read
    unfold timeOffset? at read
    split at read
    · exact .inl rfl
    · cases read
      exact .inr (.inl rfl)
    · cases read
      exact .inr (.inr (.inl rfl))
    next sign cs _ _ =>
    split at read
    · next signed =>
      simp only [Option.bind_eq_bind,Option.bind_eq_some_iff,skip_eq_some,Prod.exists] at read
      obtain ⟨h,_,readHour,_,rfl,m,_,readMinute,done⟩ := read
      split at done
      · next fits =>
        cases done
        obtain ⟨inDay,inHour⟩ := Bool.and_eq_true_iff.mp fits
        obtain ⟨hour,isHour,rfl⟩ := (timeField?_iff (by decide)).mp ⟨h,readHour,of_decide_eq_true inDay⟩
        obtain ⟨minute,isMinute,rfl⟩ := (timeField?_iff (by decide)).mp ⟨m,readMinute,of_decide_eq_true inHour⟩
        refine .inr (.inr (.inr ⟨sign,hour,minute,?_,isHour,isMinute,by rw [append_nil]⟩))
        simpa using signed
      · cases done
    · cases read
  · rintro (rfl | rfl | rfl | ⟨sign,hour,minute,signed,isHour,isMinute,rfl⟩)
    · rfl
    · rfl
    · rfl
    obtain ⟨h,readHour,inDay⟩ := (timeField?_iff (by decide)).mpr ⟨hour,isHour,(rfl : _ = hour ++ ':' :: minute)⟩
    obtain ⟨m,readMinute,inHour⟩ := (timeField?_iff (by decide)).mpr ⟨minute,isMinute,(append_nil minute).symm⟩
    rcases signed with rfl | rfl <;> simp [timeOffset?,readHour,skip,readMinute,isOffset,inDay,inHour]

lemma offset_stops (offset : Offset Unicode.isDecimal cs) (front : cs.head? = some c) :
    Unicode.isDecimal c = false ∧ c ≠ '.' := by
  have listed : c ∈ ['Z','z','+','-'] := by
    rcases offset with rfl | rfl | rfl | ⟨sign,_,_,rfl | rfl,_,_,rfl⟩ <;> cases front <;> simp
  rw [isDecimal_ascii c (ascii_listed (by rfl) listed)]
  simp only [mem_cons,not_mem_nil,or_false] at listed
  rcases listed with rfl | rfl | rfl | rfl <;> exact ⟨rfl,by decide⟩

lemma isTime_iff (s : String) : isTime s ↔ Time Unicode.isDecimal s.toList := by
  unfold isTime
  simp only [beq_iff_eq,Option.bind_eq_bind,Option.bind_eq_some_iff,skip_eq_some,Prod.exists]
  constructor
  · rintro ⟨h,_,readHour,_,rfl,m,_,readMinute,_,rfl,n,_,readSecond,_,readFraction,_,readOffset,done⟩
    split at done
    · next fits =>
      cases done
      simp only [isClockTime,Bool.and_eq_true,decide_eq_true_iff] at fits
      obtain ⟨hour,isHour,whole⟩ := (timeField?_iff (by decide)).mp ⟨h,readHour,fits.1.1⟩
      obtain ⟨minute,isMinute,rfl⟩ := (timeField?_iff (by decide)).mp ⟨m,readMinute,fits.1.2⟩
      obtain ⟨second,isSecond,rfl⟩ := (timeField?_iff (by decide)).mp ⟨n,readSecond,Nat.lt_succ_of_le fits.2⟩
      obtain ⟨fraction,isFraction,rfl⟩ := fraction?_sound readFraction
      exact ⟨hour,minute,second,fraction,_,isHour,isMinute,isSecond,isFraction,timeOffset?_iff.mp readOffset,whole⟩
    · cases done
  · rintro ⟨hour,minute,second,fraction,offset,isHour,isMinute,isSecond,isFraction,isOffset,whole⟩
    obtain ⟨h,readHour,inDay⟩ := (timeField?_iff (by decide)).mpr ⟨hour,isHour,whole⟩
    obtain ⟨m,readMinute,inHour⟩ := (timeField?_iff (by decide)).mpr ⟨minute,isMinute,rfl⟩
    obtain ⟨n,readSecond,inMinute⟩ := (timeField?_iff (by decide)).mpr ⟨second,isSecond,rfl⟩
    refine ⟨h,_,readHour,_,rfl,m,_,readMinute,_,rfl,n,_,readSecond,_,fraction?_complete isFraction fun _ => offset_stops isOffset,_,
      timeOffset?_iff.mpr isOffset,if_pos ?_⟩
    simp [isClockTime,inDay,inHour,Nat.le_of_lt_succ inMinute]
end Times
-- Times are accepted exactly where they follow the grammar with decimal digits of any script, and the range of a number
-- is checked where its digits are ASCII. So the grammar proper is met exactly by the accepted texts whose decimal digits
-- are all ASCII.
theorem accepts_time_iff (s : String) :
    (accepts? (.str s) "time" = some true ↔ Time Unicode.isDecimal s.toList) ∧
    (Time isDigit s.toList ↔
      accepts? (.str s) "time" = some true ∧ ∀ c ∈ s.toList, Unicode.isDecimal c → isDigit c) := by
  have accepted : accepts? (.str s) "time" = some true ↔ Time Unicode.isDecimal s.toList := by
    change some (isTime s) = some true ↔ _
    rw [Option.some_inj]
    exact isTime_iff s
  refine ⟨accepted,fun time => ⟨accepted.mpr (time.mono fun _ _ => isDecimal_of_isDigit),fun c member decimal => ?_⟩,
    fun ⟨fits,ascii⟩ => (accepted.mp fits).mono ascii⟩
  rcases time.signs c member with digit | sign
  · exact digit
  · rwa [← isDecimal_ascii c (ascii_listed (by rfl) sign)]

-- The hour is read as zero.
theorem time_accepts_foreign_digits : accepts? (.str "٢٥:00:00") "time" = some true ∧ ¬ Time isDigit "٢٥:00:00".toList := by
  refine ⟨by decide +kernel,fun time => ?_⟩
  rcases time.signs '٢' (by simp) with digit | sign
  · exact absurd digit (by decide)
  · simp at sign
end SchemaOrder.Format
