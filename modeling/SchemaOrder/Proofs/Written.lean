import SchemaOrder.Proofs.Numerals
import SchemaOrder.Proofs.Values
namespace SchemaOrder.Json
open Numeral (isNumeral)
variable {r r' : List Char}
-- The text of a value determines it: each piece can be taken off the front, and only a number needs something behind
-- it.
def hexValue (c : Char) : Nat :=
  if c.toNat < 58 then c.toNat - 48 else c.toNat - 87

def unescape : List Char → Option (Char × List Char)
  | '\\' :: 'u' :: _ :: _ :: high :: low :: rest => some (Char.ofNat (16 * hexValue high + hexValue low),rest)
  | '\\' :: 'n' :: rest => some ('\n',rest)
  | '\\' :: 'r' :: rest => some ('\r',rest)
  | '\\' :: 't' :: rest => some ('\t',rest)
  | '\\' :: 'b' :: rest => some ('\x08',rest)
  | '\\' :: 'f' :: rest => some ('\x0c',rest)
  | '\\' :: c :: rest => some (c,rest)
  | c :: rest => some (c,rest)
  | [] => none

lemma hexValue_hexDigit : ∀ n < 16, hexValue (hexDigit n) = n := by decide

lemma unescape_escapeChar (c : Char) (rest : List Char) : unescape (escapeChar c ++ rest) = some (c,rest) := by
  unfold escapeChar
  split
  any_goals rfl
  next backslash _ _ _ _ _ =>
    split
    · change some (Char.ofNat (16 * hexValue (hexDigit (c.toNat / 16)) + hexValue (hexDigit (c.toNat % 16))),rest) = _
      rw [hexValue_hexDigit _ (by omega),hexValue_hexDigit _ (by omega),Nat.div_add_mod,Char.ofNat_toNat]
    · rw [unescape.eq_def]
      split <;> simp_all

lemma escapeChar_front (c : Char) : ∃ front rest, escapeChar c = front :: rest ∧ front ≠ '"' := by
  unfold escapeChar
  split
  any_goals exact ⟨_,_,rfl,by decide⟩
  next quote _ _ _ _ _ _ =>
    split
    · exact ⟨_,_,rfl,by decide⟩
    · exact ⟨c,[],rfl,quote⟩

lemma literal_cancel {cs ds : List Char}
    (same : cs.flatMap escapeChar ++ '"' :: r = ds.flatMap escapeChar ++ '"' :: r') : cs = ds ∧ r = r' := by
  have apart : ∀ c rest tail, '"' :: tail ≠ escapeChar c ++ rest := by
    intro c rest tail eq
    obtain ⟨front,more,written,differs⟩ := escapeChar_front c
    rw [written] at eq
    exact differs (List.cons.inj eq).1.symm
  induction cs generalizing ds with
  | nil =>
    cases ds with
    | nil => exact ⟨rfl,(List.cons.inj same).2⟩
    | cons d ds =>
      rw [List.flatMap_cons,List.append_assoc] at same
      exact absurd same (apart d _ r)
  | cons c cs ih =>
    cases ds with
    | nil =>
      rw [List.flatMap_cons,List.append_assoc] at same
      exact absurd same.symm (apart c _ r')
    | cons d ds =>
      rw [List.flatMap_cons,List.flatMap_cons,List.append_assoc,List.append_assoc] at same
      have read := congrArg unescape same
      rw [unescape_escapeChar,unescape_escapeChar,Option.some.injEq,Prod.mk.injEq] at read
      obtain ⟨rfl,rest⟩ := read
      obtain ⟨rfl,rfl⟩ := ih rest
      exact ⟨rfl,rfl⟩

lemma quote_cancel (same : quote s ++ r = quote t ++ r') : s = t ∧ r = r' := by
  unfold quote at same
  simp only [List.cons_append,List.append_assoc,List.cons.injEq,true_and] at same
  obtain ⟨chars,rest⟩ := literal_cancel same
  exact ⟨String.toList_inj.mp chars,rest⟩

def frontKind : List Char → Nat
  | 'n' :: _ => 0
  | 't' :: _ => 1
  | 'f' :: _ => 2
  | '"' :: _ => 3
  | '[' :: _ => 4
  | '\x7b' :: _ => 5
  | c :: _ => if c = '-' ∨ c.isDigit then 6 else 7
  | [] => 7

def textKind : Json → Nat
  | .null => 0
  | .bool true => 1
  | .bool false => 2
  | .str _ => 3
  | .arr _ => 4
  | .obj _ => 5
  | .num _ => 6

lemma frontKind_number (number : c = '-' ∨ c.isDigit) (r : List Char) : frontKind (c :: r) = 6 := by
  unfold frontKind
  split
  case h_7 front => cases front; exact if_pos number
  case h_8 front => cases front
  all_goals next front => cases front; exact absurd number (by decide)

lemma frontKind_chars (v : Json) (r : List Char) : frontKind (v.chars ++ r) = v.textKind := by
  cases v with
  | bool b => cases b <;> rfl
  | num n =>
    obtain ⟨front,rest,written,number⟩ := n.text_front
    change frontKind (n.text ++ r) = 6
    rw [written]
    exact frontKind_number number _
  | _ => rfl

def enclosed (close : Char) : List (List Char) → List Char
  | [] => [close]
  | piece :: rest => piece ++ (if rest.isEmpty then [close] else ',' :: enclosed close rest)

lemma charsItems_eq (xs : List Json) : charsItems xs = enclosed ']' (xs.map chars) := by
  induction xs with
  | nil => rfl
  | cons v rest ih =>
    cases rest with
    | nil => rfl
    | cons w more =>
      rw [charsItems,ih]
      · rfl
      · simp

def charsField (field : String × Json) : List Char :=
  quote field.1 ++ ':' :: field.2.chars

lemma charsFields_eq (fs : Fields) : charsFields fs = enclosed '\x7d' (fs.map charsField) := by
  induction fs with
  | nil => rfl
  | cons field rest ih =>
    cases rest with
    | nil => simp [charsFields,enclosed,charsField]
    | cons w more =>
      rw [charsFields,ih]
      · simp [enclosed,charsField]
      · simp

lemma enclosed_cancel {α : Type} {write : α → List Char} {close : Char} {xs ys : List α}
    {ends : List Char → Prop} (other : close ≠ ',') (atClose : ∀ tail, ends (close :: tail)) (atComma : ∀ tail, ends (',' :: tail))
    (cancel : ∀ x ∈ xs, ∀ y ∈ ys, ∀ r r', ends r → ends r' → write x ++ r = write y ++ r' → x = y ∧ r = r')
    (opens : ∀ x, x ∈ xs ∨ x ∈ ys → ∀ r tail, close :: tail ≠ write x ++ r)
    (same : enclosed close (xs.map write) ++ r = enclosed close (ys.map write) ++ r') : xs = ys ∧ r = r' := by
  induction xs generalizing ys with
  | nil =>
    cases ys with
    | nil => exact ⟨rfl,(List.cons.inj same).2⟩
    | cons y ys =>
      simp only [List.map_cons,enclosed,List.append_assoc] at same
      exact absurd same (opens y (.inr List.mem_cons_self) _ _)
  | cons x xs ih =>
    cases ys with
    | nil =>
      simp only [List.map_cons,enclosed,List.append_assoc] at same
      exact absurd same.symm (opens x (.inl List.mem_cons_self) _ _)
    | cons y ys =>
      have stops (l : List α) tail : ends
          ((if (l.map write).isEmpty then [close] else ',' :: enclosed close (l.map write)) ++ tail) := by
        cases l with
        | nil => exact atClose tail
        | cons => exact atComma _
      simp only [List.map_cons,enclosed,List.append_assoc] at same
      obtain ⟨rfl,rest⟩ := cancel x List.mem_cons_self y List.mem_cons_self _ _ (stops xs r) (stops ys r') same
      cases xs with
      | nil =>
        cases ys with
        | nil => exact ⟨rfl,(List.cons.inj rest).2⟩
        | cons => exact absurd (List.cons.inj rest).1 other
      | cons =>
        cases ys with
        | nil => exact absurd (List.cons.inj rest).1.symm other
        | cons =>
          obtain ⟨tails,after⟩ := ih
            (fun a inXs b inYs => cancel a (List.mem_cons_of_mem _ inXs) b (List.mem_cons_of_mem _ inYs))
            (fun a mem => opens a (mem.imp (List.mem_cons_of_mem _) (List.mem_cons_of_mem _))) (List.cons.inj rest).2
          rw [tails]
          exact ⟨rfl,after⟩

lemma chars_open (v : Json) (r tail : List Char) : ']' :: tail ≠ v.chars ++ r := by
  intro eq
  have kind := frontKind_chars v r
  rw [← eq] at kind
  cases v with
  | bool b => cases b <;> cases kind
  | _ => cases kind

def Ends (r : List Char) : Prop :=
  ∀ c, r.head? = some c → isNumeral c = false

lemma ends_cons (other : isNumeral c = false) : Ends (c :: r) := by
  intro d front
  cases front
  exact other

lemma takeWhile_numeral (numeral : ∀ c ∈ cs, isNumeral c) (ends : Ends r) : (cs ++ r).takeWhile isNumeral = cs := by
  rw [List.takeWhile_append_of_pos numeral]
  cases r with
  | nil => simp
  | cons c r => simp [ends c rfl]

lemma text_cancel {m n : Num} (ends : Ends r) (ends' : Ends r') (same : m.text ++ r = n.text ++ r') :
    m = n ∧ r = r' := by
  have digits := congrArg (List.takeWhile isNumeral) same
  rw [takeWhile_numeral m.text_numeral ends,takeWhile_numeral n.text_numeral ends'] at digits
  rw [digits] at same
  exact ⟨Num.text_injective digits,List.append_cancel_left same⟩

-- The text of a value can be taken off the front of what is written.
lemma chars_cancel {v w : Json} (ends : Ends r) (ends' : Ends r')
    (same : v.chars ++ r = w.chars ++ r') : v = w ∧ r = r' := by
  induction v using byDepth generalizing w r r' with
  | step v ih =>
    have kinds : v.textKind = w.textKind := by
      rw [← frontKind_chars v r,← frontKind_chars w r',same]
    cases v with
    | null => cases w with
      | null => exact ⟨rfl,List.append_cancel_left same⟩
      | bool b => cases b <;> cases kinds
      | _ => cases kinds
    | bool a => cases a <;> cases w with
      | bool b => cases b <;> first | exact ⟨rfl,List.append_cancel_left same⟩ | cases kinds
      | _ => cases kinds
    | num a => cases w with
      | num b =>
        obtain ⟨rfl,rest⟩ := text_cancel ends ends' same
        exact ⟨rfl,rest⟩
      | bool b => cases b <;> cases kinds
      | _ => cases kinds
    | str s => cases w with
      | str t =>
        obtain ⟨rfl,rest⟩ := quote_cancel same
        exact ⟨rfl,rest⟩
      | bool b => cases b <;> cases kinds
      | _ => cases kinds
    | arr xs => cases w with
      | arr ys =>
        have inside := (List.cons.inj same).2
        rw [charsItems_eq,charsItems_eq] at inside
        obtain ⟨rfl,rest⟩ := enclosed_cancel (by decide) (fun _ => ends_cons (by decide)) (fun _ => ends_cons (by decide))
          (fun x inXs _ _ _ _ => ih x (depth_item inXs))
          (fun x _ => chars_open x) inside
        exact ⟨rfl,rest⟩
      | bool b => cases b <;> cases kinds
      | _ => cases kinds
    | obj xs => cases w with
      | obj ys =>
        have inside := (List.cons.inj same).2
        rw [charsFields_eq,charsFields_eq] at inside
        obtain ⟨rfl,rest⟩ := enclosed_cancel (by decide) (fun _ => ends_cons (by decide)) (fun _ => ends_cons (by decide))
            (fun x inXs y _ r r' ends ends' same => by
          obtain ⟨k,a⟩ := x
          simp only [charsField,List.append_assoc] at same
          obtain ⟨rfl,after⟩ := quote_cancel same
          obtain ⟨rfl,rest⟩ := ih a (depth_field inXs) ends ends' (List.cons.inj after).2
          exact ⟨rfl,rest⟩) (fun x _ r tail eq => absurd (List.cons.inj eq).1 (by decide)) inside
        exact ⟨rfl,rest⟩
      | bool b => cases b <;> cases kinds
      | _ => cases kinds

lemma text_injective {v w : Json} (same : v.text = w.text) : v = w := by
  have written : v.chars ++ [] = w.chars ++ [] := by
    rw [List.append_nil,List.append_nil]
    exact String.ofList_injective same
  have ends : Ends [] := by
    intro c front
    cases front
  exact (chars_cancel ends ends written).1
end SchemaOrder.Json
