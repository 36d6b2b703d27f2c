import MailRules.Proofs.Condition.Text
import MailRules.Proofs.Text.Brackets
import MailRules.Text.Blank

/-!
# One term for each argument

An argument is put in quotation marks so that it stays one term.  Spaces and tabs bring the marks
about, other blanks do not, and an argument with one of these becomes several terms.

* `cutAt` cuts a text at all blanks outside of quotation marks.  Which characters are blanks is left
  open, as long as a space is one and a quotation mark is not.  A row of terms that close their marks
  is cut into the pieces of each (`cutAt_words`).
* The term for an argument is cut into one more piece than it has blanks, unless it is in marks
  (`length_cutAt_argTerm`), and without its marks it is the argument (`unquoted_argTerm`).  With no
  blanks but spaces and tabs, all terms are in one piece (`staysWhole_of_isTermBreak`).
* `Leaf.argText_oneTermEach_iff` says when the arguments of a leaf are one term each;
  `Leaf.lineBreak_two_terms` is one that is two.
-/

namespace MailRules

/-! ### Cutting at blanks -/

/-- A text cut at the blanks outside of quotation marks, given whether marks are open before it. -/
def cutAt (blank : Char → Bool) (q : Bool) : List Char → List (List Char)
  | [] => [[]]
  | x :: s =>
    if !q && blank x then [] :: cutAt blank q s
    else (cutAt blank (if x = '"' then !q else q) s).modifyHead (x :: ·)

/-- A term without the quotation marks around it. -/
def unquoted (s : List Char) : List Char :=
  if isQuoted s then s.tail.dropLast else s

section

variable {blank : Char → Bool} {q : Bool} {s : List Char} {ts : List (List Char)}

theorem cutAt_ne_nil (blank : Char → Bool) (q : Bool) (s : List Char) : cutAt blank q s ≠ [] := by
  induction s generalizing q with
  | nil => exact List.cons_ne_nil _ _
  | cons x s ih =>
    rw [cutAt]
    by_cases hcut : (!q && blank x) = true
    · rw [if_pos hcut]
      exact List.cons_ne_nil _ _
    · rw [if_neg hcut, ne_eq, List.modifyHead_eq_nil_iff]
      exact ih _

/-- What closes its quotation marks is cut for itself if a space follows. -/
theorem cutAt_append_space (hspace : blank ' ' = true) (hquote : blank '"' = false)
    (hs : quotesOpen q s = false) (t : List Char) :
    cutAt blank q (s ++ ' ' :: t) = cutAt blank q s ++ cutAt blank false t := by
  induction s generalizing q with
  | nil =>
    obtain rfl : q = false := hs
    simp [cutAt, hspace]
  | cons x s ih =>
    rw [quotesOpen] at hs
    rw [List.cons_append, cutAt, cutAt]
    by_cases hcut : (!q && blank x) = true
    · have hx : x ≠ '"' := by
        rintro rfl
        simp [hquote] at hcut
      rw [if_neg hx] at hs
      rw [if_pos hcut, if_pos hcut, ih hs, List.cons_append]
    · rw [if_neg hcut, if_neg hcut, ih hs]
      -- the character joins the first piece, and what stands before the space has one
      obtain ⟨p, ps, hps⟩ := List.exists_cons_of_ne_nil
        (cutAt_ne_nil blank (if x = '"' then !q else q) s)
      rw [hps, List.cons_append, List.modifyHead_cons, List.modifyHead_cons, List.cons_append]

/-- **A row of terms is cut into the pieces of each.** -/
theorem cutAt_words (hspace : blank ' ' = true) (hquote : blank '"' = false) (hne : ts ≠ [])
    (hts : ∀ t ∈ ts, quotesOpen false t = false) :
    cutAt blank false (words ts) = ts.flatMap (cutAt blank false) := by
  obtain ⟨t, ts, rfl⟩ := List.exists_cons_of_ne_nil hne
  induction ts generalizing t with
  | nil => simp [words_cons, spaced]
  | cons u ts ih =>
    obtain ⟨ht, hus⟩ := List.forall_mem_cons.1 hts
    rw [List.flatMap_cons, words_cons, spaced_eq (List.cons_ne_nil u ts),
      cutAt_append_space hspace hquote ht, ih u (List.cons_ne_nil u ts) hus]

/-- Up to the closing quotation mark nothing is cut. -/
theorem cutAt_quoted (hquote : blank '"' = false) (hs : '"' ∉ s) :
    cutAt blank false ('"' :: (s ++ ['"'])) = ['"' :: (s ++ ['"'])] := by
  have hinside : cutAt blank true (s ++ ['"']) = [s ++ ['"']] := by
    induction s with
    | nil => rfl
    | cons x s ih =>
      obtain ⟨hx, hs⟩ : '"' ≠ x ∧ '"' ∉ s := by simpa using hs
      simp [cutAt, hx.symm, ih hs]
  simp [cutAt, hquote, hinside]

/-- Without quotation marks every blank cuts. -/
theorem length_cutAt (hs : '"' ∉ s) : (cutAt blank false s).length = 1 + s.countP blank := by
  induction s with
  | nil => rfl
  | cons x s ih =>
    obtain ⟨hx, hs⟩ : '"' ≠ x ∧ '"' ∉ s := by simpa using hs
    rw [cutAt, if_neg hx.symm, List.countP_cons]
    by_cases hb : blank x = true
    · simp [hb, ih hs]
      omega
    · simp [hb, ih hs]

theorem cutAt_of_no_blank (hs : '"' ∉ s) (hb : ∀ x ∈ s, blank x = false) :
    cutAt blank false s = [s] := by
  induction s with
  | nil => rfl
  | cons x s ih =>
    obtain ⟨hx, hs⟩ : '"' ≠ x ∧ '"' ∉ s := by simpa using hs
    obtain ⟨hbx, hbs⟩ := List.forall_mem_cons.1 hb
    simp [cutAt, hbx, hx.symm, ih hs hbs]

/-! ### Terms for arguments -/

theorem quotesOpen_argTerm (hs : '"' ∉ s) : quotesOpen false (argTerm s) = false := by
  unfold argTerm
  split_ifs
  · simp [quotesOpen, quotesOpen_append, quotesOpen_of_not_mem hs]
  · exact quotesOpen_of_not_mem hs

/-- Whether the term for an argument is in one piece: if there are blanks in it, it is in quotation
marks. -/
def StaysWhole (blank : Char → Bool) (s : List Char) : Prop :=
  ∀ x ∈ s, blank x = true → needsQuotes s = true

/-- Where only characters that bring about quotation marks are blanks, all terms stay whole. -/
theorem staysWhole_of_isTermBreak (hbreak : ∀ x, blank x = true → isTermBreak x = true)
    (hs : '"' ∉ s) : StaysWhole blank s := by
  intro x hx hb
  by_contra hplain
  have := not_isTermBreak (Bool.eq_false_iff.2 hplain) hs x hx
  exact absurd (hbreak x hb) (Bool.eq_false_iff.1 this)

theorem length_cutAt_argTerm (hquote : blank '"' = false) (hs : '"' ∉ s) :
    (cutAt blank false (argTerm s)).length = 1 + if needsQuotes s then 0 else s.countP blank := by
  unfold argTerm
  split_ifs
  · rw [cutAt_quoted hquote hs]
    rfl
  · exact length_cutAt hs

theorem length_cutAt_argTerm_eq_one_iff (hquote : blank '"' = false) (hs : '"' ∉ s) :
    (cutAt blank false (argTerm s)).length = 1 ↔ StaysWhole blank s := by
  rw [length_cutAt_argTerm hquote hs]
  split_ifs with hq
  · simp [StaysWhole, hq]
  · simp [StaysWhole, hq, List.countP_eq_zero]

theorem cutAt_argTerm (hquote : blank '"' = false) (hs : '"' ∉ s) (h : StaysWhole blank s) :
    cutAt blank false (argTerm s) = [argTerm s] := by
  unfold argTerm
  split_ifs with hq
  · exact cutAt_quoted hquote hs
  · exact cutAt_of_no_blank hs fun x hx => Bool.eq_false_iff.2 fun hb => hq (h x hx hb)

/-- **A term without its quotation marks is the argument.** -/
theorem unquoted_argTerm (hs : '"' ∉ s) : unquoted (argTerm s) = s := by
  unfold argTerm
  split_ifs
  · have hquoted : isQuoted ('"' :: (s ++ ['"'])) = true := by
      simp [isQuoted, List.getLast?_cons]
    rw [unquoted, if_pos hquoted]
    simp
  · have hplain : isQuoted s = false := by
      cases s with
      | nil => rfl
      | cons x s =>
        obtain ⟨hx, -⟩ : '"' ≠ x ∧ '"' ∉ s := by simpa using hs
        simp [isQuoted, hx.symm]
    rw [unquoted, hplain, if_neg Bool.false_ne_true]

end

section

variable {α β : Type} {f : α → List β}

theorem length_le_length_flatMap (h : ∀ x, f x ≠ []) (xs : List α) :
    xs.length ≤ (xs.flatMap f).length := by
  induction xs with
  | nil => exact Nat.le_refl _
  | cons x xs ih =>
    have hpos := List.length_pos_iff.2 (h x)
    rw [List.flatMap_cons, List.length_append, List.length_cons]
    omega

/-- Lists that are not empty have as many members together as there are lists exactly if each has
one. -/
theorem length_flatMap_eq_iff (h : ∀ x, f x ≠ []) (xs : List α) :
    (xs.flatMap f).length = xs.length ↔ ∀ x ∈ xs, (f x).length = 1 := by
  induction xs with
  | nil => simp
  | cons x xs ih =>
    have hpos := List.length_pos_iff.2 (h x)
    have hrest := length_le_length_flatMap h xs
    rw [List.flatMap_cons, List.length_append, List.length_cons, List.forall_mem_cons]
    constructor
    · intro hlen
      exact ⟨by omega, ih.1 (by omega)⟩
    · rintro ⟨hone, hall⟩
      have := ih.2 hall
      omega

end

namespace Leaf

/-- **When arguments are one term each.**  The arguments of a leaf stand in a row, in the brackets of
their group if there are several.  Cut at all blanks outside of quotation marks, the row falls into
the pieces of each argument, and these are as many as the arguments, and the arguments themselves
without their marks, exactly if every argument with a blank is in marks. -/
theorem argText_oneTermEach_iff {blank : Char → Bool} (hspace : blank ' ' = true)
    (hquote : blank '"' = false) {l : Leaf} (hl : l.Worded) (hm : l.Meaningful) :
    ∃ text row, l.argText = .ok text ∧
      text.toList = (if 1 < l.args.length then l.grouping.enclose row else row) ∧
      cutAt blank false row = l.args.flatMap (fun a => cutAt blank false (argTerm a.toList)) ∧
      ((cutAt blank false row).length = l.args.length ↔
        ∀ a ∈ l.args, StaysWhole blank a.toList) ∧
      ((cutAt blank false row).map unquoted = l.args.map String.toList ↔
        ∀ a ∈ l.args, StaysWhole blank a.toList) := by
  obtain ⟨text, htext, hchars⟩ := hl.argText_eq hm
  have hcut : cutAt blank false (words (l.args.map fun a => argTerm a.toList)) =
      l.args.flatMap fun a => cutAt blank false (argTerm a.toList) := by
    rw [cutAt_words hspace hquote (by simpa using hm.1), List.flatMap_map]
    exact List.forall_mem_map.2 fun a ha => quotesOpen_argTerm (hl.chars ha).2
  have hlength : (cutAt blank false (words (l.args.map fun a => argTerm a.toList))).length =
      l.args.length ↔ ∀ a ∈ l.args, StaysWhole blank a.toList := by
    rw [hcut, length_flatMap_eq_iff (fun a => cutAt_ne_nil _ _ _) l.args]
    exact forall₂_congr fun a ha => length_cutAt_argTerm_eq_one_iff hquote (hl.chars ha).2
  refine ⟨text, _, htext, hchars, hcut, hlength, ?_, ?_⟩
  · intro h
    have hlen := congrArg List.length h
    rw [List.length_map, List.length_map] at hlen
    exact hlength.1 hlen
  · intro h
    have hone : (l.args.flatMap fun a => cutAt blank false (argTerm a.toList)) =
        l.args.map fun a => argTerm a.toList := by
      rw [List.map_eq_flatMap]
      exact List.flatMap_congr fun a ha => cutAt_argTerm hquote (hl.chars ha).2 (h a ha)
    rw [hcut, hone, List.map_map]
    exact List.map_congr_left fun a ha => unquoted_argTerm (hl.chars ha).2

/-- A leaf with a space in its first argument and a line break in its second. -/
def lineBreak : Leaf where
  field := .subject
  grouping := .or
  args := ["a b", "c\nd"]

theorem worded_lineBreak : lineBreak.Worded ∧ lineBreak.Meaningful :=
  ⟨⟨by decide, rfl, by decide⟩, by decide, fun _ => .inr rfl⟩

/-- The two arguments are not one term each. -/
theorem argText_oneTermEach_iff_lineBreak :
    isBlank ' ' = true ∧ isBlank '"' = false ∧ lineBreak.Worded ∧ lineBreak.Meaningful ∧
      ∃ text row, lineBreak.argText = .ok text ∧ text.toList = '\x7b' :: (row ++ ['\x7d']) ∧
        (cutAt isBlank false row).length ≠ 2 := by
  obtain ⟨hl, hm⟩ := worded_lineBreak
  have hspace : isBlank ' ' = true := by decide
  have hquote : isBlank '"' = false := by decide
  obtain ⟨text, row, htext, hrow, -, hlength, -⟩ := argText_oneTermEach_iff hspace hquote hl hm
  refine ⟨hspace, hquote, hl, hm, text, row, htext, hrow, fun htwo => ?_⟩
  have hwhole := hlength.1 htwo "c\nd" (by decide)
  exact absurd (hwhole '\n' (by decide) (by decide)) (by decide)

/-- **A line break is not protected**, so an argument that has one is read as two terms. -/
theorem lineBreak_two_terms :
    lineBreak.argText = .ok "\x7b\"a b\" c\nd\x7d" ∧
      cutAt isBlank false "\"a b\" c\nd".toList = ["\"a b\"".toList, ['c'], ['d']] :=
  ⟨by decide, by decide⟩

end Leaf

end MailRules
