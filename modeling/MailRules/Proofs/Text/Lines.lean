import MailRules.Text.Lines
import Mathlib.Data.List.DropRight
import Mathlib.Tactic.SplitIfs

/-!
# Lines of texts

* `splitAtChar_flatMap` cuts a text into the parts that it was put together from, and
  `splitAtChar_append` says which parts of a text are those of its beginning.
* `ended` puts a line feed behind each of some lines; lines without line feeds are known from the
  text (`ended_inj`).
* `linesKeeping` loses nothing (`flatten_linesKeeping`).  A text that is `Complete` ends with the
  end of a line, and its lines are followed by those of what comes behind it
  (`linesKeeping_append`).
-/

namespace MailRules

/-! ### Parts between the occurrences of a character -/

theorem splitAtChar_eq_splitOn (sep : Char) (s : List Char) :
    splitAtChar sep s = s.splitOn sep := by
  induction s with
  | nil => rfl
  | cons x s ih =>
    have hne : s.splitOn sep ≠ [] := List.splitOnP_ne_nil _ s
    rw [splitAtChar, ih]
    unfold List.splitOn at hne ⊢
    rw [List.splitOnP_cons_eq_if_modifyHead]
    obtain ⟨p, ps, hps⟩ := List.exists_cons_of_ne_nil hne
    by_cases hx : x = sep <;> simp [hx, hps]

theorem exists_splitAtChar (sep : Char) (s : List Char) : ∃ p ps, splitAtChar sep s = p :: ps := by
  have hne : s.splitOn sep ≠ [] := List.splitOnP_ne_nil _ s
  rw [splitAtChar_eq_splitOn]
  exact List.exists_cons_of_ne_nil hne

theorem splitAtChar_append_cons {sep : Char} {s : List Char} (h : sep ∉ s) (t : List Char) :
    splitAtChar sep (s ++ sep :: t) = s :: splitAtChar sep t := by
  induction s with
  | nil => simp [splitAtChar]
  | cons x s ih =>
    obtain ⟨hx, hs⟩ : sep ≠ x ∧ sep ∉ s := by simpa using h
    rw [List.cons_append, splitAtChar, if_neg hx.symm, ih hs]

/-- **A text is cut into the parts that it was put together from.** -/
theorem splitAtChar_flatMap {sep : Char} {parts : List (List Char)} {last : List Char}
    (h : ∀ p ∈ parts, sep ∉ p) (hlast : sep ∉ last) :
    splitAtChar sep ((parts.flatMap fun p => p ++ [sep]) ++ last) = parts ++ [last] := by
  induction parts with
  | nil =>
    rw [List.flatMap_nil, List.nil_append, List.nil_append, splitAtChar_eq_splitOn,
      List.splitOn_eq_singleton hlast]
  | cons p parts ih =>
    obtain ⟨hp, hparts⟩ := List.forall_mem_cons.1 h
    rw [List.flatMap_cons, List.append_assoc, List.append_assoc, List.singleton_append,
      splitAtChar_append_cons hp, ih hparts, List.cons_append]

theorem not_mem_of_mem_splitAtChar {sep : Char} {s part : List Char}
    (h : part ∈ splitAtChar sep s) : sep ∉ part := by
  induction s generalizing part with
  | nil =>
    obtain rfl := List.mem_singleton.1 h
    exact List.not_mem_nil
  | cons x s ih =>
    obtain ⟨p, ps, hps⟩ := exists_splitAtChar sep s
    rw [splitAtChar, hps] at h
    rw [hps] at ih
    split_ifs at h with hx <;> rcases List.mem_cons.1 h with rfl | h
    · exact List.not_mem_nil
    · exact ih h
    · simpa [Ne.symm hx] using ih List.mem_cons_self
    · exact ih (List.mem_cons_of_mem _ h)

/-- Lines, each of them ended by a line feed. -/
def ended (ls : List (List Char)) : List Char :=
  ls.flatMap fun l => l ++ ['\n']

@[simp] theorem ended_nil : ended [] = [] := rfl

@[simp] theorem ended_cons (l : List Char) (ls : List (List Char)) :
    ended (l :: ls) = l ++ '\n' :: ended ls := by
  simp [ended]

@[simp] theorem ended_append (ls ls' : List (List Char)) :
    ended (ls ++ ls') = ended ls ++ ended ls' := by
  simp [ended]

/-- The lines of a text make up the text. -/
theorem ended_splitAtChar (s : List Char) : ended (splitAtChar '\n' s) = s ++ ['\n'] := by
  induction s with
  | nil => rfl
  | cons x s ih =>
    obtain ⟨p, ps, hps⟩ := exists_splitAtChar '\n' s
    rw [splitAtChar, hps]
    rw [hps] at ih
    split_ifs with hx
    · rw [hx, ended_cons, ih]
      rfl
    · simpa using ih

/-- **Lines are known from their text.** -/
theorem ended_inj {ls ls' : List (List Char)} (hls : ∀ l ∈ ls, '\n' ∉ l)
    (hls' : ∀ l ∈ ls', '\n' ∉ l) (h : ended ls = ended ls') : ls = ls' := by
  have hparts := splitAtChar_flatMap hls (List.not_mem_nil (a := '\n'))
  have hparts' := splitAtChar_flatMap hls' (List.not_mem_nil (a := '\n'))
  rw [List.append_nil] at hparts hparts'
  rw [ended, ended] at h
  rw [← h, hparts] at hparts'
  exact List.append_cancel_right hparts'

/-- Parts of a beginning of a text are parts of the text, but that the last may go on. -/
theorem splitAtChar_append {sep : Char} {s : List Char} {above below : List (List Char)}
    {part : List Char} (h : splitAtChar sep s = above ++ part :: below) (t : List Char) :
    ∃ more below', splitAtChar sep (s ++ t) = above ++ (part ++ more) :: below' := by
  induction s generalizing above part with
  | nil =>
    obtain ⟨more, below', ht⟩ := exists_splitAtChar sep t
    cases above with
    | nil =>
      obtain ⟨rfl, -⟩ := List.cons.inj h
      exact ⟨more, below', ht⟩
    | cons a above => simp [splitAtChar] at h
  | cons x s ih =>
    rw [List.cons_append, splitAtChar]
    rw [splitAtChar] at h
    split_ifs at h ⊢ with hx
    · cases above with
      | nil =>
        obtain ⟨rfl, -⟩ := List.cons.inj h
        exact ⟨[], splitAtChar sep (s ++ t), rfl⟩
      | cons a above =>
        obtain ⟨rfl, hrest⟩ := List.cons.inj h
        obtain ⟨more, below', heq⟩ := ih hrest
        exact ⟨more, below', by rw [heq, List.cons_append]⟩
    · obtain ⟨p, ps, hps⟩ := exists_splitAtChar sep s
      rw [hps] at h
      cases above with
      | nil =>
        obtain ⟨rfl, rfl⟩ := List.cons.inj h
        obtain ⟨more, below', heq⟩ := ih (show splitAtChar sep s = [] ++ p :: ps from hps)
        exact ⟨more, below', by rw [heq]; rfl⟩
      | cons a above =>
        obtain ⟨rfl, rfl⟩ := List.cons.inj h
        obtain ⟨more, below', heq⟩ := ih (List.cons_append ▸ hps)
        exact ⟨more, below', by rw [heq]; rfl⟩

theorem exists_trimEnd (drop : Char → Bool) (s : List Char) :
    ∃ t, s = trimEnd drop s ++ t ∧ ∀ x ∈ t, drop x = true := by
  refine ⟨(s.reverse.takeWhile drop).reverse, ?_, fun x hx => ?_⟩
  · rw [trimEnd, ← List.reverse_append, List.takeWhile_append_dropWhile, List.reverse_reverse]
  · exact List.mem_takeWhile_imp (List.mem_reverse.1 hx)

/-! ### Lines with their boundaries -/

/-- A text ends in a line boundary. -/
def Complete (s : List Char) : Prop :=
  ∃ x, s.getLast? = some x ∧ isLineEnd x = true

theorem flatten_linesKeeping (s : List Char) : (linesKeeping s).flatten = s := by
  fun_induction linesKeeping s <;> simp_all

theorem linesKeeping_injective {s t : List Char} (h : linesKeeping s = linesKeeping t) : s = t := by
  rw [← flatten_linesKeeping s, h, flatten_linesKeeping]

theorem linesKeeping_ne_nil {s : List Char} (h : s ≠ []) : linesKeeping s ≠ [] := by
  rintro hnil
  rw [← flatten_linesKeeping s, hnil] at h
  exact h rfl

theorem Complete.append {t : List Char} (ht : Complete t) (s : List Char) : Complete (s ++ t) := by
  obtain ⟨x, hx, hend⟩ := ht
  exact ⟨x, by rw [List.getLast?_append, hx]; rfl, hend⟩

theorem Complete.tail {x : Char} {s : List Char} (h : Complete (x :: s)) : s = [] ∨ Complete s := by
  cases s with
  | nil => exact .inl rfl
  | cons y s => exact .inr (by simpa [Complete, List.getLast?_cons_cons] using h)

/-- A line of a complete text ends in a boundary. -/
theorem complete_of_mem_linesKeeping {s : List Char} (hs : s = [] ∨ Complete s) :
    ∀ l ∈ linesKeeping s, Complete l := by
  have htail : ∀ {x : Char} {r : List Char}, x :: r = [] ∨ Complete (x :: r) →
      r = [] ∨ Complete r := fun h => (h.resolve_left (List.cons_ne_nil _ _)).tail
  fun_induction linesKeeping s with
  | case1 => simp
  | case2 rest ih =>
    exact List.forall_mem_cons.2 ⟨⟨'\n', rfl, rfl⟩, ih (htail (.inr (htail hs |>.resolve_left
      (List.cons_ne_nil _ _))))⟩
  | case3 x rest _ hx ih => exact List.forall_mem_cons.2 ⟨⟨x, rfl, hx⟩, ih (htail hs)⟩
  | case4 x rest _ hx hnil ih =>
    have hrest : rest = [] := by rw [← flatten_linesKeeping rest, hnil]; rfl
    subst hrest
    rcases hs with hs | ⟨y, hy, hend⟩
    · cases hs
    · obtain rfl : x = y := by simpa using hy
      exact absurd hend hx
  | case5 x rest _ hx l ls hlines ih =>
    rw [hlines] at ih
    obtain ⟨⟨y, hy, hend⟩, hls⟩ := List.forall_mem_cons.1 (ih (htail hs))
    refine List.forall_mem_cons.2 ⟨⟨y, ?_, hend⟩, hls⟩
    cases l with
    | nil => cases hy
    | cons z l => rwa [List.getLast?_cons_cons]

/-- **Behind a line boundary the lines are counted anew**, unless the boundary goes on. -/
theorem linesKeeping_append {s t : List Char} (hs : s = [] ∨ Complete s)
    (ht : t.head? ≠ some '\n') : linesKeeping (s ++ t) = linesKeeping s ++ linesKeeping t := by
  have htail : ∀ {x : Char} {r : List Char}, x :: r = [] ∨ Complete (x :: r) →
      r = [] ∨ Complete r := fun h => (h.resolve_left (List.cons_ne_nil _ _)).tail
  -- no boundary of two characters comes into being
  have hpair : ∀ {x : Char} {r : List Char}, (∀ r', x = '\r' → r = '\n' :: r' → False) →
      ∀ r', x = '\r' → r ++ t = '\n' :: r' → False := by
    intro x r h r' hx heq
    cases r with
    | nil => exact ht (by rw [← List.nil_append t, heq]; rfl)
    | cons y r => exact h r hx (by rw [(List.cons.inj heq).1])
  fun_induction linesKeeping s with
  | case1 => rfl
  | case2 rest ih =>
    rw [List.cons_append, List.cons_append, linesKeeping, ih (htail (.inr (htail hs |>.resolve_left
      (List.cons_ne_nil _ _))))]
    rfl
  | case3 x rest hcrlf hx ih =>
    rw [List.cons_append, linesKeeping, if_pos hx, ih (htail hs)]
    · rfl
    · exact hpair hcrlf
  | case4 x rest hcrlf hx hnil ih =>
    have hrest : rest = [] := by rw [← flatten_linesKeeping rest, hnil]; rfl
    subst hrest
    rcases hs with hs | ⟨y, hy, hend⟩
    · cases hs
    · obtain rfl : x = y := by simpa using hy
      exact absurd hend hx
  | case5 x rest hcrlf hx l ls hlines ih =>
    rw [List.cons_append, linesKeeping, if_neg hx, ih (htail hs), hlines]
    · rfl
    · exact hpair hcrlf

/-- The lines of complete texts one after the other are those of each. -/
theorem linesKeeping_flatten {ts : List (List Char)}
    (h : ∀ t ∈ ts, Complete t ∧ t.head? ≠ some '\n') :
    linesKeeping ts.flatten = ts.flatMap linesKeeping := by
  induction ts with
  | nil => rfl
  | cons t ts ih =>
    obtain ⟨⟨ht, -⟩, hts⟩ := List.forall_mem_cons.1 h
    rw [List.flatten_cons, linesKeeping_append (.inr ht), ih hts, List.flatMap_cons]
    cases ts with
    | nil => simp
    | cons u ts =>
      obtain ⟨⟨⟨y, hy, -⟩, hu⟩, -⟩ := List.forall_mem_cons.1 hts
      cases u with
      | nil => cases hy
      | cons z u => simpa using hu

theorem ne_nil_of_mem_linesKeeping {s l : List Char} (h : l ∈ linesKeeping s) : l ≠ [] := by
  fun_induction linesKeeping s <;> simp_all <;> rcases h with rfl | h <;> simp_all

/-- The first line of a text begins as the text does. -/
theorem exists_linesKeeping_cons (x : Char) (s : List Char) :
    ∃ l ls, linesKeeping (x :: s) = (x :: l) :: ls := by
  obtain ⟨l, ls, hl⟩ := List.exists_cons_of_ne_nil (linesKeeping_ne_nil (List.cons_ne_nil x s))
  obtain ⟨y, l, rfl⟩ := List.exists_cons_of_ne_nil
    (ne_nil_of_mem_linesKeeping (hl ▸ List.mem_cons_self))
  have hflat := flatten_linesKeeping (x :: s)
  rw [hl, List.flatten_cons, List.cons_append] at hflat
  exact ⟨l, ls, by rw [hl, (List.cons.inj hflat).1]⟩

/-- A text without boundaries but for a line feed at its end is one line. -/
theorem linesKeeping_line {s : List Char} (h : ∀ x ∈ s, isLineEnd x = false) :
    linesKeeping (s ++ ['\n']) = [s ++ ['\n']] := by
  induction s with
  | nil => rfl
  | cons x s ih =>
    obtain ⟨hx, hs⟩ := List.forall_mem_cons.1 h
    rw [List.cons_append, linesKeeping, if_neg (by simp [hx]), ih hs]
    rintro rest rfl
    cases hx

end MailRules
