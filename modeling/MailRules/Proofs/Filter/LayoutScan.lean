import MailRules.Filter.Layout
import MailRules.Proofs.Text.Brackets
import MailRules.Proofs.Text.Lines
import Mathlib.Data.List.Basic
import Mathlib.Tactic.SplitIfs

/-!
# Scans of queries

The layout of a query is written by a scan that goes from one character to the next.  Here the scan
keeps the lines it has written and their levels.

* `Step` says what a scan does with one character, and `step_after` that it does nothing else.
* `Sound` is what every step keeps up: each line begins with a character that is not a space, at the
  level that the brackets above it give, and ends outside of quotation marks.
* `text_foldl` says that the text of a scan is the layout, `contents_foldl` that without the
  indentation it is the query without the spaces outside of quotation marks.
-/

namespace MailRules

/-- Whether a scan is inside of quotation marks. -/
def LayoutState.quoted (state : LayoutState) : Bool :=
  state = .inQuotes

namespace LayoutState

@[simp] theorem quoted_inTerm : inTerm.quoted = false := rfl

@[simp] theorem quoted_betweenTerms : betweenTerms.quoted = false := rfl

@[simp] theorem quoted_inQuotes : inQuotes.quoted = true := rfl

theorem quoted_eq_false {state : LayoutState} : state.quoted = false ↔ state ≠ .inQuotes := by
  simp [quoted]

end LayoutState

/-- A text without the spaces outside of quotation marks. -/
def unspaced (q : Bool) : List Char → List Char
  | [] => []
  | x :: s =>
    let rest := unspaced (if x = '"' then !q else q) s
    if x = ' ' && !q then rest else x :: rest

theorem unspaced_cons (q : Bool) (x : Char) (s : List Char) :
    unspaced q (x :: s) = unspaced q [x] ++ unspaced (quotesOpen q [x]) s := by
  simp only [unspaced, quotesOpen]
  split_ifs <;> rfl

theorem unspaced_sublist (q : Bool) (s : List Char) : (unspaced q s).Sublist s := by
  induction s generalizing q with
  | nil => exact .slnil
  | cons x s ih =>
    rw [unspaced]
    split_ifs
    all_goals first | exact (ih _).cons _ | exact (ih _).cons_cons _

theorem filter_isVisible_unspaced (q : Bool) (s : List Char) :
    (unspaced q s).filter isVisible = s.filter isVisible := by
  induction s generalizing q with
  | nil => rfl
  | cons x s ih =>
    rw [unspaced]
    split_ifs with h hx hx
    · simp [hx] at h
    · obtain ⟨rfl, -⟩ : x = ' ' ∧ q = false := by simpa using h
      rw [ih, List.filter_cons_of_neg (by decide)]
    all_goals rw [List.filter_cons, List.filter_cons, ih]

theorem quotedParts_unspaced (q : Bool) (s : List Char) :
    quotedParts q (unspaced q s) = quotedParts q s := by
  induction s generalizing q with
  | nil => rfl
  | cons x s ih =>
    by_cases hx : x = '"'
    · cases q <;> simp [unspaced, quotedParts, hx, ih]
    · by_cases hspace : x = ' ' <;> cases q <;> simp [unspaced, quotedParts, hx, hspace, ih]

theorem space_not_mem_outside_unspaced (q : Bool) (s : List Char) :
    ' ' ∉ outside q (unspaced q s) := by
  induction s generalizing q with
  | nil => simp [unspaced, outside]
  | cons x s ih =>
    by_cases hx : x = '"'
    · simpa [unspaced, outside, hx] using ih _
    by_cases hspace : x = ' '
    · cases q <;> simp [unspaced, outside, hspace, ih]
    · cases q <;> simp [unspaced, outside, hx, hspace, ih, Ne.symm hspace]

/-! ### Scans -/

/-- A line of a layout: its level, and what stands on it after the indentation. -/
structure LayoutLine where
  /-- How far the line is indented, in levels. -/
  level : Int
  /-- What stands on it. -/
  content : List Char := []

/-- A line as it is written. -/
def LayoutLine.text (l : LayoutLine) : List Char :=
  List.replicate (2 * l.level.toNat) ' ' ++ l.content

/-- What stands on some lines, without their indentation. -/
def contents (ls : List LayoutLine) : List Char :=
  ls.flatMap LayoutLine.content

/-- Where a scan stands: the lines that are done, the one that is being written, and the level of
the next one. -/
structure LayoutScan where
  /-- The lines that are done. -/
  done : List LayoutLine := []
  /-- The line that is being written. -/
  line : LayoutLine
  /-- The level of the next line. -/
  level : Int
  /-- Whether a term or quotation marks are open. -/
  state : LayoutState := .betweenTerms

namespace LayoutScan

/-- The lines that a scan has begun. -/
def lines (sc : LayoutScan) : List LayoutLine :=
  sc.done ++ [sc.line]

/-- What a scan has written. -/
def text (sc : LayoutScan) : List Char :=
  (sc.done.flatMap fun l => l.text ++ ['\n']) ++ sc.line.text

/-- A character on the current line. -/
def write (sc : LayoutScan) (x : Char) (state : LayoutState) : LayoutScan :=
  { sc with line := { sc.line with content := sc.line.content ++ [x] }, state }

/-- A new line at some level, after lines that are done. -/
def below (done : List LayoutLine) (level : Int) : LayoutScan where
  done := done
  line := { level }
  level := level

/-- A scan after one more character. -/
def after (sc : LayoutScan) (x : Char) : LayoutScan :=
  if sc.state = .inQuotes then sc.write x (if x = '"' then .inTerm else .inQuotes)
  else if x = ' ' then if sc.state = .betweenTerms then sc else below sc.lines sc.level
  else if isOpening x then below (sc.write x .betweenTerms).lines (sc.level + 1)
  else if isClosing x then below (sc.lines ++ [⟨sc.level - 1, [x]⟩]) (sc.level - 1)
  else sc.write x (if x = ':' then .betweenTerms else if x = '"' then .inQuotes else .inTerm)

@[simp] theorem write_level (sc : LayoutScan) (x : Char) (state : LayoutState) :
    (sc.write x state).level = sc.level := rfl

@[simp] theorem write_state (sc : LayoutScan) (x : Char) (state : LayoutState) :
    (sc.write x state).state = state := rfl

@[simp] theorem below_level (done : List LayoutLine) (level : Int) :
    (below done level).level = level := rfl

@[simp] theorem below_state (done : List LayoutLine) (level : Int) :
    (below done level).state = .betweenTerms := rfl

@[simp] theorem text_write (sc : LayoutScan) (x : Char) (state : LayoutState) :
    (sc.write x state).text = sc.text ++ [x] := by
  simp [text, write, LayoutLine.text]

@[simp] theorem text_below_lines (sc : LayoutScan) (level : Int) :
    (below sc.lines level).text = sc.text ++ freshLine level := by
  simp [text, below, lines, LayoutLine.text, freshLine]

theorem text_below_lines_concat (sc : LayoutScan) (l : LayoutLine) (level : Int) :
    (below (sc.lines ++ [l]) level).text =
      sc.text ++ freshLine l.level ++ l.content ++ freshLine level := by
  simp [text, below, lines, LayoutLine.text, freshLine]

theorem layoutFrom_unquoted {state : LayoutState} (h : state ≠ .inQuotes) (level : Int) (x : Char)
    (rest : List Char) : layoutFrom level state (x :: rest) =
      if x = ' ' then
        if state = .betweenTerms then layoutFrom level .betweenTerms rest
        else freshLine level ++ layoutFrom level .betweenTerms rest
      else if isOpening x then
        x :: (freshLine (level + 1) ++ layoutFrom (level + 1) .betweenTerms rest)
      else if isClosing x then
        freshLine (level - 1) ++ x :: (freshLine (level - 1) ++
          layoutFrom (level - 1) .betweenTerms rest)
      else x :: layoutFrom level
        (if x = ':' then .betweenTerms else if x = '"' then .inQuotes else .inTerm) rest := by
  rw [layoutFrom]
  · unfold isOpening isClosing
    split_ifs <;> simp_all
  · exact h

/-- **One character is scanned as the layout says.** -/
theorem text_after (sc : LayoutScan) (x : Char) (rest : List Char) :
    (sc.after x).text ++ layoutFrom (sc.after x).level (sc.after x).state rest =
      sc.text ++ layoutFrom sc.level sc.state (x :: rest) := by
  by_cases hq : sc.state = .inQuotes
  · simp [after, hq, layoutFrom]
  rw [layoutFrom_unquoted hq]
  by_cases hspace : x = ' '
  · by_cases hst : sc.state = .betweenTerms <;> simp [after, hspace, hst, hq]
  by_cases ho : isOpening x
  · simp [after, hq, hspace, ho]
  by_cases hc : isClosing x
  · simp [after, hq, hspace, ho, hc, text_below_lines_concat]
  · simp [after, hq, hspace, ho, hc]

/-- **The text of a scan is the layout.** -/
theorem text_foldl (sc : LayoutScan) (s : List Char) :
    (s.foldl after sc).text = sc.text ++ layoutFrom sc.level sc.state s := by
  induction s generalizing sc with
  | nil => simp [layoutFrom]
  | cons x s ih => rw [List.foldl_cons, ih, text_after]

/-! ### Steps of a scan -/

/-- What a scan does with one character. -/
inductive Step (sc : LayoutScan) : Char → LayoutScan → Prop
  /-- Inside of quotation marks all characters are written. -/
  | quoted {x : Char} (h : sc.state.quoted = true) :
      Step sc x (sc.write x (if x = '"' then .inTerm else .inQuotes))
  /-- A space before a term is left out. -/
  | dropped (h : sc.state.quoted = false) : Step sc ' ' sc
  /-- A space behind a term ends the line. -/
  | ended (h : sc.state.quoted = false) : Step sc ' ' (below sc.lines sc.level)
  /-- An opening bracket is written, and the lines below are indented more. -/
  | opened {x : Char} (h : sc.state.quoted = false) (hx : isOpening x = true) :
      Step sc x (below (sc.write x .betweenTerms).lines (sc.level + 1))
  /-- A closing bracket stands on a line of its own, indented less. -/
  | closed {x : Char} (h : sc.state.quoted = false) (hx : isClosing x = true) :
      Step sc x (below (sc.lines ++ [⟨sc.level - 1, [x]⟩]) (sc.level - 1))
  /-- Any other character is written. -/
  | plain {x : Char} {state : LayoutState} (h : sc.state.quoted = false) (hspace : x ≠ ' ')
      (ho : isOpening x = false) (hc : isClosing x = false)
      (hst : state.quoted = decide (x = '"')) :
      Step sc x (sc.write x state)

theorem step_after (sc : LayoutScan) (x : Char) : Step sc x (sc.after x) := by
  by_cases hq : sc.state = .inQuotes
  · rw [after, if_pos hq]
    exact .quoted (by simp [hq])
  have hquoted := LayoutState.quoted_eq_false.2 hq
  rw [after, if_neg hq]
  by_cases hspace : x = ' '
  · obtain rfl := hspace
    by_cases hst : sc.state = .betweenTerms
    · simpa [hst] using .dropped hquoted
    · simpa [hst] using .ended hquoted
  rw [if_neg hspace]
  by_cases ho : isOpening x
  · rw [if_pos ho]
    exact .opened hquoted ho
  by_cases hc : isClosing x
  · rw [if_neg ho, if_pos hc]
    exact .closed hquoted hc
  · rw [if_neg ho, if_neg hc]
    refine .plain hquoted hspace (Bool.eq_false_iff.2 ho) (Bool.eq_false_iff.2 hc) ?_
    by_cases hcolon : x = ':'
    · simp [hcolon]
    · by_cases hx : x = '"' <;> simp [hx, hcolon]

variable {sc sc' : LayoutScan} {x : Char}

theorem Step.quoted_eq (h : Step sc x sc') : sc'.state.quoted = quotesOpen sc.state.quoted [x] := by
  cases h with
  | quoted h => by_cases hx : x = '"' <;> simp [quotesOpen, h, hx]
  | dropped h | ended h => simp [quotesOpen, h]
  | opened h hx | closed h hx =>
    have hne : x ≠ '"' := by rintro rfl; cases hx
    simp [quotesOpen, h, hne]
  | plain h _ _ _ hst => by_cases hx : x = '"' <;> simp_all [quotesOpen]

/-- **Only a space outside of quotation marks is not written.** -/
theorem Step.contents_eq (h : Step sc x sc') :
    contents sc'.lines = contents sc.lines ++ unspaced sc.state.quoted [x] := by
  cases h with
  | quoted h => simp [contents, lines, write, unspaced, h]
  | dropped h | ended h => simp [contents, lines, below, unspaced, h]
  | opened h hx | closed h hx =>
    have hne : x ≠ ' ' := by rintro rfl; cases hx
    simp [contents, lines, below, write, unspaced, h, hne]
  | plain h hspace => simp [contents, lines, write, unspaced, h, hspace]

theorem Step.level_eq (h : Step sc x sc') :
    sc'.level = sc.level + bracketDepth sc.state.quoted [x] := by
  cases h with
  | quoted h =>
    by_cases hx : x = '"'
    · simp [hx, h, bracketDepth_quote]
    · simp [h, bracketDepth_quoted hx]
  | dropped h | ended h => simp [h, bracketDepth_cons, isOpening, isClosing]
  | opened h hx =>
    have hne : x ≠ '"' := by rintro rfl; cases hx
    have hc : isClosing x = false := isClosing_of_isOpening hx
    simp [h, bracketDepth_cons hne, hx, hc]
  | closed h hx =>
    have hne : x ≠ '"' := by rintro rfl; cases hx
    have ho : isOpening x = false := isOpening_of_isClosing hx
    simp [h, bracketDepth_cons hne, hx, ho]
    omega
  | plain h _ ho hc =>
    by_cases hx : x = '"'
    · simp [hx, h, bracketDepth_quote]
    · simp [h, bracketDepth_cons hx, ho, hc]

theorem contents_foldl (sc : LayoutScan) (s : List Char) :
    contents (s.foldl after sc).lines = contents sc.lines ++ unspaced sc.state.quoted s := by
  induction s generalizing sc with
  | nil => simp [unspaced]
  | cons x s ih =>
    rw [List.foldl_cons, ih, (step_after sc x).contents_eq, (step_after sc x).quoted_eq,
      List.append_assoc, ← unspaced_cons]

/-! ### Sound scans -/

/-- Some lines as a layout writes them: each begins with a character that is not a space, at the
level that the brackets above it give. -/
def Aligned (base : Int) (ls : List LayoutLine) : Prop :=
  ∀ above l, above ++ [l] <+: ls → ∀ x rest, l.content = x :: rest →
    x ≠ ' ' ∧ l.level = base + bracketDepth false (contents above) - if isClosing x then 1 else 0

theorem aligned_concat {base : Int} {ls : List LayoutLine} {l : LayoutLine} (h : Aligned base ls)
    (hl : ∀ x rest, l.content = x :: rest → x ≠ ' ' ∧
      l.level = base + bracketDepth false (contents ls) - if isClosing x then 1 else 0) :
    Aligned base (ls ++ [l]) := by
  intro above l' hpre
  rcases List.prefix_concat_iff.1 hpre with heq | hpre
  · obtain ⟨rfl, rfl⟩ := List.append_inj' heq rfl |>.imp id List.singleton_inj.1
    exact hl
  · exact h above l' hpre

theorem Aligned.of_append {base : Int} {ls more : List LayoutLine}
    (h : Aligned base (ls ++ more)) : Aligned base ls :=
  fun above l hpre => h above l (hpre.trans (List.prefix_append ls more))

/-- What every scan keeps up that begins at some level: only the last line may end inside of
quotation marks, and a new line is at the current level. -/
structure Sound (base : Int) (sc : LayoutScan) : Prop where
  /-- Lines are indented by the brackets before them. -/
  aligned : Aligned base sc.lines
  /-- No line that is done ends inside of quotation marks. -/
  closed : ∀ l ∈ sc.done, quotesOpen false l.content = false
  /-- Marks are open behind the last line if the scan is inside of them. -/
  quoted : quotesOpen false sc.line.content = sc.state.quoted
  /-- The level is the number of brackets that are open. -/
  level : sc.level = base + bracketDepth false (contents sc.lines)
  /-- A new line is at the current level. -/
  fresh : sc.line.content = [] → sc.line.level = sc.level

theorem sound_start (base : Int) : Sound base ⟨[], ⟨base, []⟩, base, .betweenTerms⟩ where
  aligned := aligned_concat (show Aligned base [] from fun above l hpre => by simp at hpre)
    (fun x rest h => by cases h)
  closed := by simp
  quoted := rfl
  level := by simp [lines, contents]
  fresh _ := rfl

theorem quotesOpen_contents {ls : List LayoutLine}
    (h : ∀ l ∈ ls, quotesOpen false l.content = false) :
    quotesOpen false (contents ls) = false := by
  induction ls with
  | nil => rfl
  | cons l ls ih =>
    obtain ⟨hl, hls⟩ := List.forall_mem_cons.1 h
    have heq : contents (l :: ls) = l.content ++ contents ls := rfl
    rw [heq, quotesOpen_append, hl, ih hls]

theorem contents_append (ls ls' : List LayoutLine) :
    contents (ls ++ ls') = contents ls ++ contents ls' :=
  List.flatMap_append

variable {base : Int}

theorem Sound.level_after (h : Sound base sc) (hs : Step sc x sc') :
    sc'.level = base + bracketDepth false (contents sc'.lines) := by
  have hq : quotesOpen false (contents sc.lines) = sc.state.quoted := by
    rw [lines, contents_append, quotesOpen_append, quotesOpen_contents h.closed, ← h.quoted]
    simp [contents]
  have hx : bracketDepth sc.state.quoted (unspaced sc.state.quoted [x]) =
      bracketDepth sc.state.quoted [x] := by
    rw [← bracketDepth_filter_isVisible, filter_isVisible_unspaced, bracketDepth_filter_isVisible]
  rw [hs.level_eq, h.level, hs.contents_eq, bracketDepth_append, hq, hx, Int.add_assoc]

/-- A character keeps the lines aligned, if it can begin the last one. -/
theorem Sound.aligned_write (h : Sound base sc)
    (hx : sc.line.content = [] → x ≠ ' ' ∧ isClosing x = false) (state : LayoutState) :
    Aligned base (sc.write x state).lines := by
  refine aligned_concat h.aligned.of_append fun y rest hl => ?_
  rcases hcontent : sc.line.content with - | ⟨z, zs⟩
  · obtain ⟨hspace, hc⟩ := hx hcontent
    have hcontents : contents sc.lines = contents sc.done := by simp [contents, lines, hcontent]
    obtain rfl : x = y := by simpa [write, hcontent] using congrArg List.head? hl
    have hlevel : sc.line.level = base + bracketDepth false (contents sc.done) := by
      rw [h.fresh hcontent, h.level, hcontents]
    simp [hspace, hc, write, hlevel]
  · obtain rfl : z = y := by simpa [write, hcontent] using congrArg List.head? hl
    exact h.aligned sc.done sc.line List.prefix_rfl z zs hcontent

theorem aligned_below {ls : List LayoutLine} (h : Aligned base ls) (level : Int) :
    Aligned base (below ls level).lines :=
  aligned_concat h fun x rest hl => by cases hl

theorem Sound.quotesOpen_concat (h : Sound base sc) (x : Char) :
    quotesOpen false (sc.line.content ++ [x]) = quotesOpen sc.state.quoted [x] := by
  rw [quotesOpen_append, h.quoted]

/-- A line that ends outside of quotation marks may be done. -/
theorem Sound.closed_concat (h : Sound base sc) {l : LayoutLine}
    (hl : quotesOpen false l.content = false) :
    ∀ l' ∈ sc.done ++ [l], quotesOpen false l'.content = false := by
  intro l' hmem
  rcases List.mem_append.1 hmem with hdone | hlast
  · exact h.closed l' hdone
  · rwa [List.mem_singleton.1 hlast]

/-- **A step of a sound scan is sound.** -/
theorem Sound.step (h : Sound base sc) (hs : Step sc x sc') : Sound base sc' := by
  have hlevel := h.level_after hs
  have hstate := hs.quoted_eq
  have hline := h.quoted
  cases hs with
  | quoted hq =>
    have hne : sc.line.content ≠ [] := by
      intro hnil
      rw [hnil, hq] at hline
      cases hline
    refine ⟨h.aligned_write (fun hnil => absurd hnil hne) _, h.closed, ?_, hlevel, ?_⟩
    · rw [hstate, ← h.quotesOpen_concat x]
      rfl
    · simp [write]
  | dropped hq => exact h
  | ended hq =>
    rw [hq] at hline
    exact ⟨aligned_below h.aligned _, h.closed_concat hline, rfl, hlevel, fun _ => rfl⟩
  | opened hq hx =>
    have hwritten : quotesOpen false (sc.line.content ++ [x]) = false := by
      rw [h.quotesOpen_concat, ← hstate, below_state]
      rfl
    have hwrite := h.aligned_write (x := x)
      (fun _ => ⟨by rintro rfl; exact absurd hx (by decide), isClosing_of_isOpening hx⟩)
      .betweenTerms
    exact ⟨aligned_below hwrite _, h.closed_concat hwritten, rfl, hlevel, fun _ => rfl⟩
  | closed hq hx =>
    have hbracket : quotesOpen false [x] = false := by
      rw [hq] at hstate
      exact hstate.symm
    have hnew : Aligned base (sc.lines ++ [⟨sc.level - 1, [x]⟩]) := by
      refine aligned_concat h.aligned fun y rest hl => ?_
      obtain ⟨rfl, -⟩ := List.cons.inj hl
      refine ⟨by rintro rfl; exact absurd hx (by decide), ?_⟩
      rw [h.level, if_pos hx]
    refine ⟨aligned_below hnew _, fun l hl => ?_, rfl, hlevel, fun _ => rfl⟩
    rcases List.mem_append.1 hl with hl | hl
    · exact h.closed_concat (hline.trans hq) l hl
    · rwa [List.mem_singleton.1 hl]
  | plain hq hspace ho hc hst =>
    refine ⟨h.aligned_write (fun _ => ⟨hspace, hc⟩) _, h.closed, ?_, hlevel, ?_⟩
    · rw [hstate, ← h.quotesOpen_concat x]
      rfl
    · simp [write]

/-- **Every scan from the beginning is sound.** -/
theorem Sound.foldl (h : Sound base sc) (s : List Char) : Sound base (s.foldl after sc) := by
  induction s generalizing sc with
  | nil => exact h
  | cons x s ih => exact ih (h.step (step_after sc x))

/-- Lines with others below them end outside of quotation marks. -/
theorem Sound.closed_above (h : Sound base sc) {ls ls' : List LayoutLine} {l : LayoutLine}
    (heq : sc.lines = ls ++ l :: ls') : ∀ k ∈ ls, quotesOpen false k.content = false := by
  obtain ⟨more, hdone, -⟩ | ⟨more, rfl, hlast⟩ := List.append_eq_append_iff.1 heq.symm
  · intro k hk
    exact h.closed k (hdone ▸ List.mem_append_left _ hk)
  · obtain ⟨rfl, -⟩ | ⟨-, hempty⟩ := List.singleton_eq_append_iff.1 hlast
    · rw [List.append_nil]
      exact h.closed
    · cases hempty

/-! ### The text of a scan -/

theorem filter_isVisible_lines (ls : List LayoutLine) :
    (ls.map LayoutLine.text).flatten.filter isVisible = (contents ls).filter isVisible := by
  induction ls with
  | nil => rfl
  | cons l ls ih =>
    have hindent : (List.replicate (2 * l.level.toNat) ' ').filter isVisible = [] := by
      simp [isVisible]
    rw [List.map_cons, List.flatten_cons, List.filter_append, ih, LayoutLine.text,
      List.filter_append, hindent, List.nil_append, ← List.filter_append]
    rfl

theorem filter_isVisible_text (sc : LayoutScan) :
    sc.text.filter isVisible = (contents sc.lines).filter isVisible := by
  have hdone : (sc.done.flatMap fun l => l.text ++ ['\n']).filter isVisible =
      (sc.done.map LayoutLine.text).flatten.filter isVisible := by
    induction sc.done with
    | nil => rfl
    | cons l ls ih => simp [ih, isVisible]
  rw [text, List.filter_append, hdone, ← filter_isVisible_lines]
  simp [lines]

/-- Indentation and line feeds are outside of the quotation marks. -/
theorem Sound.quotedParts_text (h : Sound base sc) :
    quotedParts false sc.text = quotedParts false (contents sc.lines) := by
  have hindent (l : LayoutLine) : quotedParts false l.text = quotedParts false l.content := by
    have hmem : '"' ∉ List.replicate (2 * l.level.toNat) ' ' := by simp
    rw [LayoutLine.text, quotedParts_append (quotesOpen_of_not_mem hmem),
      quotedParts_of_not_mem hmem, List.nil_append]
  have hopen (l : LayoutLine) : quotesOpen false l.text = quotesOpen false l.content := by
    have hmem : '"' ∉ List.replicate (2 * l.level.toNat) ' ' := by simp
    rw [LayoutLine.text, quotesOpen_append, quotesOpen_of_not_mem hmem]
  have hclosed := h.closed
  rw [text, lines]
  generalize sc.done = done at hclosed ⊢
  induction done with
  | nil => simpa [contents] using hindent sc.line
  | cons l ls ih =>
    obtain ⟨hl, hls⟩ := List.forall_mem_cons.1 hclosed
    have heq : contents (l :: ls ++ [sc.line]) = l.content ++ contents (ls ++ [sc.line]) := by
      simp [contents]
    rw [List.flatMap_cons, List.append_assoc, List.append_assoc, quotedParts_append (hopen l ▸ hl),
      heq, quotedParts_append hl, hindent]
    exact congrArg _ (ih hls)

theorem splitAtChar_text {sc : LayoutScan} (h : ∀ l ∈ sc.lines, '\n' ∉ l.content) :
    splitAtChar '\n' sc.text = sc.lines.map LayoutLine.text := by
  have hline (l : LayoutLine) (hl : l ∈ sc.lines) : '\n' ∉ l.text := by
    simpa [LayoutLine.text] using h l hl
  have hparts : splitAtChar '\n' (((sc.done.map LayoutLine.text).flatMap fun p => p ++ ['\n']) ++
      sc.line.text) = sc.done.map LayoutLine.text ++ [sc.line.text] := splitAtChar_flatMap
    (fun p hp => by
      obtain ⟨l, hl, rfl⟩ := List.mem_map.1 hp
      exact hline l (List.mem_append_left _ hl))
    (hline sc.line (List.mem_append_right _ (List.mem_singleton_self _)))
  simpa [text, lines, List.flatMap_map] using hparts

end LayoutScan

end MailRules
