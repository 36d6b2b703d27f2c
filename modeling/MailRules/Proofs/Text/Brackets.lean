import Mathlib.Data.List.Basic
import Mathlib.Tactic.SplitIfs

/-!
# Quotation marks and brackets in a text

A text is read from left to right.  Quotation marks open and close in turn, and brackets inside of
them are characters as others.

* `quotesOpen` says whether quotation marks are open behind a text, `quotedParts` what stands inside
  of them, and `outside` what does not.
* `bracketDepth` is how many more brackets a text opens than it closes.
* `WellBracketed` says that all that a text opens is closed in its place.  It is a scan that keeps
  what is `Pending`, and well bracketed texts are made of others by `append`, `quote` and `group`.
-/

namespace MailRules

/-- Whether a character opens a group. -/
def isOpening (x : Char) : Bool :=
  x = '\x7b' || x = '('

/-- Whether a character closes a group. -/
def isClosing (x : Char) : Bool :=
  x = '\x7d' || x = ')'

theorem isClosing_of_isOpening {x : Char} (h : isOpening x = true) : isClosing x = false := by
  obtain rfl | rfl : x = '\x7b' ∨ x = '(' := by simpa [isOpening] using h
  all_goals rfl

theorem isOpening_of_isClosing {x : Char} (h : isClosing x = true) : isOpening x = false := by
  obtain rfl | rfl : x = '\x7d' ∨ x = ')' := by simpa [isClosing] using h
  all_goals rfl

/-! ### Quotation marks -/

/-- Whether quotation marks are open behind a text, given whether they are before it. -/
def quotesOpen (q : Bool) : List Char → Bool
  | [] => q
  | x :: s => quotesOpen (if x = '"' then !q else q) s

/-- What stands inside each pair of quotation marks.  Where marks are open before the text, or
behind it, the part of the pair that is there counts. -/
def quotedParts : Bool → List Char → List (List Char)
  | q, [] => if q then [[]] else []
  | false, x :: s => quotedParts (x = '"') s
  | true, x :: s =>
    if x = '"' then [] :: quotedParts false s else (quotedParts true s).modifyHead (x :: ·)

/-- The characters of a text that stand outside of quotation marks. -/
def outside (q : Bool) : List Char → List Char
  | [] => []
  | x :: s => if x = '"' then outside (!q) s else if q then outside q s else x :: outside q s

variable {q : Bool} {s t : List Char}

theorem quotesOpen_append (q : Bool) (s t : List Char) :
    quotesOpen q (s ++ t) = quotesOpen (quotesOpen q s) t := by
  induction s generalizing q with
  | nil => rfl
  | cons x s ih => exact ih _

theorem quotesOpen_of_not_mem (h : '"' ∉ s) : quotesOpen q s = q := by
  induction s with
  | nil => rfl
  | cons x s ih =>
    obtain ⟨hx, hs⟩ : '"' ≠ x ∧ '"' ∉ s := by simpa using h
    rw [quotesOpen, if_neg hx.symm, ih hs]

theorem quotedParts_of_not_mem (h : '"' ∉ s) : quotedParts false s = [] := by
  induction s with
  | nil => rfl
  | cons x s ih =>
    obtain ⟨hx, hs⟩ : '"' ≠ x ∧ '"' ∉ s := by simpa using h
    rw [quotedParts, decide_eq_false hx.symm, ih hs]

theorem quotedParts_ne_nil (s : List Char) : quotedParts true s ≠ [] := by
  cases s with
  | nil => simp [quotedParts]
  | cons x s =>
    rw [quotedParts]
    split_ifs
    · exact List.cons_ne_nil _ _
    · simpa using quotedParts_ne_nil s

/-- Behind closed quotation marks the pairs are counted anew. -/
theorem quotedParts_append (h : quotesOpen q s = false) (t : List Char) :
    quotedParts q (s ++ t) = quotedParts q s ++ quotedParts false t := by
  induction s generalizing q with
  | nil =>
    obtain rfl : q = false := h
    rfl
  | cons x s ih =>
    rw [quotesOpen] at h
    cases q with
    | false => exact ih (by by_cases hx : x = '"' <;> simpa [hx] using h)
    | true =>
      by_cases hx : x = '"'
      · have := ih (q := false) (by simpa [hx] using h)
        simp [quotedParts, hx, this]
      · have := ih (q := true) (by simpa [hx] using h)
        obtain ⟨p, ps, hps⟩ := List.exists_cons_of_ne_nil (quotedParts_ne_nil s)
        simp [quotedParts, hx, this, hps]

theorem outside_append (q : Bool) (s t : List Char) :
    outside q (s ++ t) = outside q s ++ outside (quotesOpen q s) t := by
  induction s generalizing q with
  | nil => rfl
  | cons x s ih =>
    simp only [List.cons_append, outside, quotesOpen]
    split_ifs <;> simp [ih]

/-! ### Brackets -/

/-- How many more brackets are opened than closed outside of quotation marks. -/
def bracketDepth (q : Bool) (s : List Char) : Int :=
  (outside q s).countP isOpening - (outside q s).countP isClosing

@[simp] theorem bracketDepth_nil (q : Bool) : bracketDepth q [] = 0 := by
  simp [bracketDepth, outside]

theorem bracketDepth_append (q : Bool) (s t : List Char) :
    bracketDepth q (s ++ t) = bracketDepth q s + bracketDepth (quotesOpen q s) t := by
  simp only [bracketDepth, outside_append, List.countP_append]
  omega

theorem bracketDepth_quote (q : Bool) (s : List Char) :
    bracketDepth q ('"' :: s) = bracketDepth (!q) s := by
  simp [bracketDepth, outside]

theorem bracketDepth_quoted {x : Char} (h : x ≠ '"') (s : List Char) :
    bracketDepth true (x :: s) = bracketDepth true s := by
  simp [bracketDepth, outside, h]

/-- A character outside of quotation marks may open or close a group. -/
theorem bracketDepth_cons {x : Char} (h : x ≠ '"') (s : List Char) :
    bracketDepth false (x :: s) = bracketDepth false s + (if isOpening x then 1 else 0) -
      (if isClosing x then 1 else 0) := by
  simp only [bracketDepth, outside, h, List.countP_cons, if_false, Bool.false_eq_true]
  split_ifs <;> omega

/-- What is neither a bracket nor a quotation mark does not count. -/
theorem bracketDepth_plain {x : Char} (hx : x ≠ '"') (ho : isOpening x = false)
    (hc : isClosing x = false) (q : Bool) (s : List Char) :
    bracketDepth q (x :: s) = bracketDepth q s := by
  cases q with
  | false => simp [bracketDepth_cons hx, ho, hc]
  | true => exact bracketDepth_quoted hx s

/-! ### Matching brackets -/

/-- The bracket that closes a group. -/
def closingOf (x : Char) : Char :=
  if x = '(' then ')' else '\x7d'

/-- What a text has opened and not closed yet: quotation marks, and groups, with the brackets that
close them, the last one first. -/
structure Pending where
  /-- Whether quotation marks are open. -/
  quoted : Bool := false
  /-- The brackets that close the open groups. -/
  awaited : List Char := []
  deriving DecidableEq

namespace Pending

/-- What is open behind one more character.  Inside of quotation marks only a quotation mark counts,
and outside of them only the group that was opened last can be closed. -/
def after? (p : Pending) (x : Char) : Option Pending :=
  if x = '"' then some { p with quoted := !p.quoted }
  else if p.quoted then some p
  else if isOpening x then some { p with awaited := closingOf x :: p.awaited }
  else if isClosing x then
    if p.awaited.head? = some x then some { p with awaited := p.awaited.tail } else none
  else some p

/-- What is open within some groups. -/
def within (p : Pending) (outer : List Char) : Pending :=
  { p with awaited := p.awaited ++ outer }

theorem after?_within {p p' : Pending} {x : Char} (h : p.after? x = some p')
    (outer : List Char) : (p.within outer).after? x = some (p'.within outer) := by
  unfold after? at h
  split_ifs at h with hquote hq ho hc hhead <;> obtain rfl := Option.some.inj h
  · simp [after?, within, hquote]
  · simp [after?, within, hquote, hq]
  · simp [after?, within, hquote, hq, ho]
  · obtain ⟨rest, hrest⟩ := List.head?_eq_some_iff.1 hhead
    simp [after?, within, hquote, hq, ho, hc, hrest]
  · simp [after?, within, hquote, hq, ho, hc]

theorem foldlM_within {p p' : Pending} {s : List Char} (h : s.foldlM after? p = some p')
    (outer : List Char) : s.foldlM after? (p.within outer) = some (p'.within outer) := by
  induction s generalizing p with
  | nil =>
    obtain rfl := Option.some.inj h
    rfl
  | cons x s ih =>
    obtain ⟨p₁, hx, hs⟩ := Option.bind_eq_some_iff.1 h
    exact Option.bind_eq_some_iff.2 ⟨_, after?_within hx outer, ih hs⟩

end Pending

/-- Whether a text closes its quotation marks and its groups, each by the bracket of its kind. -/
def WellBracketed (s : List Char) : Prop :=
  s.foldlM Pending.after? {} = some {}

instance (s : List Char) : Decidable (WellBracketed s) :=
  inferInstanceAs (Decidable (_ = _))

namespace WellBracketed

theorem nil : WellBracketed [] := rfl

/-- **A well bracketed text leaves open what is open before it.** -/
theorem foldlM (h : WellBracketed s) (awaited : List Char) :
    s.foldlM Pending.after? { awaited } = some { awaited } :=
  Pending.foldlM_within h awaited

theorem append (hs : WellBracketed s) (ht : WellBracketed t) : WellBracketed (s ++ t) := by
  rw [WellBracketed, List.foldlM_append, hs]
  exact ht

theorem flatten {ts : List (List Char)} (h : ∀ t ∈ ts, WellBracketed t) :
    WellBracketed ts.flatten := by
  induction ts with
  | nil => exact .nil
  | cons t ts ih =>
    obtain ⟨ht, hts⟩ := List.forall_mem_cons.1 h
    exact ht.append (ih hts)

/-- A text of neither brackets nor quotation marks. -/
theorem of_plain (h : ∀ x ∈ s, x ≠ '"' ∧ isOpening x = false ∧ isClosing x = false) :
    WellBracketed s := by
  induction s with
  | nil => exact .nil
  | cons x s ih =>
    obtain ⟨⟨hquote, ho, hc⟩, hs⟩ := List.forall_mem_cons.1 h
    have hx : Pending.after? {} x = some {} := by simp [Pending.after?, hquote, ho, hc]
    rw [WellBracketed, List.foldlM_cons, hx]
    exact ih hs

/-- Inside of quotation marks, brackets do not count. -/
theorem quote (h : '"' ∉ s) : WellBracketed ('"' :: (s ++ ['"'])) := by
  have hinside : s.foldlM Pending.after? { quoted := true } = some { quoted := true } := by
    induction s with
    | nil => rfl
    | cons x s ih =>
      obtain ⟨hx, hs⟩ : '"' ≠ x ∧ '"' ∉ s := by simpa using h
      have hstep : Pending.after? { quoted := true } x = some { quoted := true } := by
        simp [Pending.after?, hx.symm]
      rw [List.foldlM_cons, hstep]
      exact ih hs
  have hopen : Pending.after? {} '"' = some { quoted := true } := rfl
  rw [WellBracketed, List.foldlM_cons, hopen, Option.bind_eq_bind, Option.bind_some,
    List.foldlM_append, hinside]
  rfl

theorem group {x : Char} (hx : isOpening x = true) (h : WellBracketed s) :
    WellBracketed (x :: (s ++ [closingOf x])) := by
  have hopen : Pending.after? {} x = some { awaited := [closingOf x] } := by
    obtain rfl | rfl : x = '\x7b' ∨ x = '(' := by simpa [isOpening] using hx
    all_goals rfl
  have hclose : Pending.after? { awaited := [closingOf x] } (closingOf x) = some {} := by
    obtain rfl | rfl : x = '\x7b' ∨ x = '(' := by simpa [isOpening] using hx
    all_goals rfl
  rw [WellBracketed, List.foldlM_cons, hopen, Option.bind_eq_bind, Option.bind_some,
    List.foldlM_append, h.foldlM, Option.bind_eq_bind, Option.bind_some, List.foldlM_cons, hclose]
  rfl

end WellBracketed

/-! ### Blanks -/

/-- Whether a character is neither a space nor a line feed. -/
def isVisible (x : Char) : Bool :=
  x ≠ ' ' && x ≠ '\n'

theorem quotesOpen_filter_isVisible (q : Bool) (s : List Char) :
    quotesOpen q (s.filter isVisible) = quotesOpen q s := by
  induction s generalizing q with
  | nil => rfl
  | cons x s ih =>
    rw [List.filter_cons, quotesOpen]
    split_ifs with hv hx hx
    · rw [quotesOpen, if_pos hx, ih]
    · rw [quotesOpen, if_neg hx, ih]
    · exact absurd (hx ▸ rfl) hv
    · exact ih q

theorem bracketDepth_filter_isVisible (q : Bool) (s : List Char) :
    bracketDepth q (s.filter isVisible) = bracketDepth q s := by
  induction s generalizing q with
  | nil => rfl
  | cons x s ih =>
    rw [List.filter_cons]
    split_ifs with hv
    · by_cases hx : x = '"'
      · rw [hx, bracketDepth_quote, bracketDepth_quote, ih]
      · cases q with
        | false => rw [bracketDepth_cons hx, bracketDepth_cons hx, ih]
        | true => rw [bracketDepth_quoted hx, bracketDepth_quoted hx, ih]
    · obtain rfl | rfl : x = ' ' ∨ x = '\n' := by
        by_contra hne
        exact hv (by simpa [isVisible] using hne)
      all_goals rw [ih, bracketDepth_plain (by decide) rfl rfl]

end MailRules
