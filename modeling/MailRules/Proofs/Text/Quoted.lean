import MailRules.Text.Quoted
import Mathlib.Algebra.Group.Nat.Defs
import Mathlib.Data.Nat.Basic
import Mathlib.Tactic.SplitIfs

/-!
# Quoted texts can be told apart

A text in quotation marks is known from its spelling, whatever is written after it.

* `hexDigits_append_inj`: numbers in a fixed width of digits.
* `Escape` says how a character may stand between marks, and `Escape.append_inj` that one spelling
  stands for one character, since none is the beginning of another.
* `quotedChars_append_inj` and `quoted_append_inj` are whole texts.
-/

namespace MailRules

/-! ### Digits -/

theorem digitChar_inj {n m : Nat} (hn : n < 16) (hm : m < 16) (h : n.digitChar = m.digitChar) :
    n = m := by
  have hall : ∀ i : Fin 16, ∀ j : Fin 16, (i : Nat).digitChar = (j : Nat).digitChar → i = j := by
    decide
  exact congrArg Fin.val (hall ⟨n, hn⟩ ⟨m, hm⟩ h)

theorem length_hexDigits {w n : Nat} (hw : 0 < w) (h : n < 16 ^ w) :
    (hexDigits false w n).length = w := by
  have hlen := (Nat.length_toDigits_le_iff (by decide) hw).2 h
  simp only [hexDigits, Bool.false_eq_true, if_false, List.length_append, List.length_replicate]
  omega

theorem hexDigits_one {n : Nat} (h : n < 16) : hexDigits false 1 n = [n.digitChar] := by
  simp [hexDigits, Nat.toDigits_of_lt_base h]

/-- The last digit of a number is its remainder, and the others are those of its quotient. -/
theorem hexDigits_succ {w : Nat} (hw : 0 < w) (n : Nat) :
    hexDigits false (w + 1) n = hexDigits false w (n / 16) ++ [(n % 16).digitChar] := by
  unfold hexDigits
  simp only [Bool.false_eq_true, if_false]
  by_cases hn : n < 16
  · -- a number of one digit is written after zeros, and so is its quotient
    have hzero : List.replicate (w - 1) '0' ++ ['0'] = List.replicate w '0' := by
      rw [← List.replicate_succ', Nat.sub_add_cancel hw]
    rw [Nat.toDigits_of_lt_base hn, Nat.div_eq_of_lt hn, Nat.mod_eq_of_lt hn,
      Nat.toDigits_of_lt_base (by decide)]
    simp [← hzero]
  · rw [Nat.toDigits_of_base_le (by decide) (by omega)]
    simp

theorem hexDigits_inj {w n m : Nat} (hw : 0 < w) (hn : n < 16 ^ w) (hm : m < 16 ^ w)
    (h : hexDigits false w n = hexDigits false w m) : n = m := by
  induction w, hw using Nat.le_induction generalizing n m with
  | base =>
    rw [hexDigits_one (by omega), hexDigits_one (by omega)] at h
    exact digitChar_inj (by omega) (by omega) (List.singleton_inj.1 h)
  | succ w hw ih =>
    rw [hexDigits_succ hw, hexDigits_succ hw] at h
    obtain ⟨hquot, hrem⟩ := List.append_inj' h rfl
    have hdiv : n / 16 = m / 16 := ih (by omega) (by omega) hquot
    have hmod : n % 16 = m % 16 :=
      digitChar_inj (Nat.mod_lt n (by decide)) (Nat.mod_lt m (by decide))
        (List.singleton_inj.1 hrem)
    omega

/-- Numbers in a fixed width are told apart, whatever follows. -/
theorem hexDigits_append_inj {w n m : Nat} {r r' : List Char} (hw : 0 < w) (hn : n < 16 ^ w)
    (hm : m < 16 ^ w) (h : hexDigits false w n ++ r = hexDigits false w m ++ r') :
    n = m ∧ r = r' := by
  obtain ⟨hdigits, hr⟩ := List.append_inj h (by rw [length_hexDigits hw hn, length_hexDigits hw hm])
  exact ⟨hexDigits_inj hw hn hm hdigits, hr⟩

/-! ### Characters between marks -/

/-- The characters that are written as one letter after a backslash, behind their letters. -/
def escapeLetters (mark : Char) : List (Char × Char) :=
  [(mark, mark), ('\\', '\\'), ('n', '\n'), ('r', '\r'), ('t', '\t')]

/-- The letters after which a code point is written, with the number of its digits. -/
def escapeWidths : List (Char × Nat) := [('x', 2), ('u', 4), ('U', 8)]

/-- How a character may stand between marks. -/
inductive Escape (mark c : Char) : List Char → Prop
  | plain (hm : c ≠ mark) (hb : c ≠ '\\') : Escape mark c [c]
  | letter {k : Char} (h : (k, c) ∈ escapeLetters mark) : Escape mark c ['\\', k]
  | code {k : Char} {w : Nat} (h : (k, w) ∈ escapeWidths) (hc : c.toNat < 16 ^ w) :
      Escape mark c ('\\' :: k :: hexDigits false w c.toNat)

section

variable {mark c d k : Char} {v w : Nat} {s t r r' : List Char}

theorem toNat_lt (c : Char) : c.toNat < 16 ^ 8 := by
  have hval : c.toNat < 2 ^ 32 := c.val.toNat_lt
  omega

theorem escape_escapeChar (mark c : Char) : Escape mark c (escapeChar mark c) := by
  unfold escapeChar
  split_ifs with hself hn hr ht _ hx hu
  · exact .letter (by rcases hself with rfl | rfl <;> simp [escapeLetters])
  · exact .letter (by simp [escapeLetters, hn])
  · exact .letter (by simp [escapeLetters, hr])
  · exact .letter (by simp [escapeLetters, ht])
  · exact .plain (fun h => hself (.inl h)) fun h => hself (.inr h)
  · exact .code (by simp [escapeWidths]) hx
  · exact .code (by simp [escapeWidths]) hu
  · exact .code (by simp [escapeWidths]) (toNat_lt c)

theorem escapeLetters_inj (hm : mark = '\'' ∨ mark = '"') (hc : (k, c) ∈ escapeLetters mark)
    (hd : (k, d) ∈ escapeLetters mark) : c = d := by
  have hall : ∀ p ∈ escapeLetters mark, ∀ q ∈ escapeLetters mark, p.1 = q.1 → p.2 = q.2 := by
    rcases hm with rfl | rfl <;> decide
  exact hall _ hc _ hd rfl

theorem escapeWidths_inj (hv : (k, v) ∈ escapeWidths) (hw : (k, w) ∈ escapeWidths) : v = w := by
  have hall : ∀ p ∈ escapeWidths, ∀ q ∈ escapeWidths, p.1 = q.1 → p.2 = q.2 := by decide
  exact hall _ hv _ hw rfl

/-- A letter that stands for a character does not begin a code point. -/
theorem notMem_escapeWidths (hm : mark = '\'' ∨ mark = '"') (hc : (k, c) ∈ escapeLetters mark) :
    (k, w) ∉ escapeWidths := by
  have hall : ∀ p ∈ escapeLetters mark, ∀ q ∈ escapeWidths, p.1 ≠ q.1 := by
    rcases hm with rfl | rfl <;> decide
  exact fun hw => hall _ hc _ hw rfl

theorem pos_of_mem_escapeWidths (hw : (k, w) ∈ escapeWidths) : 0 < w := by
  have hall : ∀ p ∈ escapeWidths, 0 < p.2 := by decide
  exact hall _ hw

namespace Escape

/-- No character between marks is spelled as the mark. -/
theorem cons_ne (h : Escape mark c s) (hm : mark ≠ '\\') : s ++ r ≠ mark :: r' := by
  cases h with
  | plain hc _ => exact fun h => hc (List.cons.inj h).1
  | letter _ | code _ _ => exact fun h => hm (List.cons.inj h).1.symm

/-- **One spelling stands for one character**, and none is the beginning of another. -/
theorem append_inj (hm : mark = '\'' ∨ mark = '"') (hc : Escape mark c s) (hd : Escape mark d t)
    (h : s ++ r = t ++ r') : c = d ∧ r = r' := by
  cases hc with
  | plain _ hb =>
    cases hd with
    | plain _ _ => exact List.cons.inj h
    | letter _ | code _ _ => exact absurd (List.cons.inj h).1 hb
  | letter hc =>
    cases hd with
    | plain _ hb => exact absurd (List.cons.inj h).1.symm hb
    | letter hd =>
      obtain ⟨rfl, hr⟩ := List.cons.inj (List.cons.inj h).2
      exact ⟨escapeLetters_inj hm hc hd, hr⟩
    | code hw _ =>
      obtain ⟨rfl, -⟩ := List.cons.inj (List.cons.inj h).2
      exact absurd hw (notMem_escapeWidths hm hc)
  | code hv hc =>
    cases hd with
    | plain _ hb => exact absurd (List.cons.inj h).1.symm hb
    | letter hd =>
      obtain ⟨rfl, -⟩ := List.cons.inj (List.cons.inj h).2
      exact absurd hv (notMem_escapeWidths hm hd)
    | code hw hd =>
      obtain ⟨rfl, hr⟩ := List.cons.inj (List.cons.inj h).2
      obtain rfl := escapeWidths_inj hv hw
      obtain ⟨hcode, hr⟩ := hexDigits_append_inj (pos_of_mem_escapeWidths hv) hc hd hr
      exact ⟨Char.toNat_inj.1 hcode, hr⟩

end Escape

/-! ### Whole texts -/

theorem quoteMark_cases (s : List Char) : quoteMark s = '\'' ∨ quoteMark s = '"' := by
  unfold quoteMark
  split_ifs <;> simp

/-- Between the same marks, texts are told apart by their characters. -/
theorem flatMap_escapeChar_inj (hm : mark = '\'' ∨ mark = '"')
    (h : s.flatMap (escapeChar mark) ++ mark :: r = t.flatMap (escapeChar mark) ++ mark :: r') :
    s = t ∧ r = r' := by
  have hne : mark ≠ '\\' := by rcases hm with rfl | rfl <;> decide
  induction s generalizing t with
  | nil =>
    cases t with
    | nil => exact ⟨rfl, (List.cons.inj h).2⟩
    | cons d t =>
      rw [List.flatMap_cons, List.append_assoc] at h
      exact absurd h.symm ((escape_escapeChar mark d).cons_ne hne)
  | cons c s ih =>
    cases t with
    | nil =>
      rw [List.flatMap_cons, List.append_assoc] at h
      exact absurd h ((escape_escapeChar mark c).cons_ne hne)
    | cons d t =>
      rw [List.flatMap_cons, List.flatMap_cons, List.append_assoc, List.append_assoc] at h
      obtain ⟨rfl, hrest⟩ := (escape_escapeChar mark c).append_inj hm (escape_escapeChar mark d) h
      obtain ⟨rfl, hr⟩ := ih hrest
      exact ⟨rfl, hr⟩

/-- **A text in quotation marks is known from its spelling**, whatever follows it. -/
theorem quotedChars_append_inj (h : quotedChars s ++ r = quotedChars t ++ r') : s = t ∧ r = r' := by
  simp only [quotedChars, List.cons_append, List.append_assoc, List.nil_append] at h
  obtain ⟨hmark, h⟩ := List.cons.inj h
  rw [← hmark] at h
  exact flatMap_escapeChar_inj (quoteMark_cases s) h

theorem quoted_append_inj {s t : String} (h : (quoted s).toList ++ r = (quoted t).toList ++ r') :
    s = t ∧ r = r' := by
  simp only [quoted, String.toList_ofList] at h
  obtain ⟨hchars, hr⟩ := quotedChars_append_inj h
  exact ⟨String.toList_inj.1 hchars, hr⟩

end

end MailRules
