import MailRules.Proofs.Filter.LayoutScan

/-!
# The layout of a query

A query that is laid out is the text of its scan without the blanks at the end, so what holds of a
scan's lines holds of the lines that are shown.

* `indentQuery_layout` says what a layout changes, and how deep its lines are.
-/

namespace MailRules

/-- The scan of a whole query whose lines are at some level. -/
def layoutScan (base : Int) (s : List Char) : LayoutScan :=
  s.foldl LayoutScan.after ⟨[], ⟨base, []⟩, base, .betweenTerms⟩

theorem sound_layoutScan (base : Int) (s : List Char) : (layoutScan base s).Sound base :=
  (LayoutScan.sound_start base).foldl s

theorem contents_layoutScan (base : Int) (s : List Char) :
    contents (layoutScan base s).lines = unspaced false s :=
  LayoutScan.contents_foldl _ s

theorem text_layoutScan (base : Int) (s : List Char) : (layoutScan base s).text =
    List.replicate (2 * base.toNat) ' ' ++ layoutFrom base .betweenTerms s := by
  rw [layoutScan, LayoutScan.text_foldl]
  simp [LayoutScan.text, LayoutLine.text]

theorem lineFeed_not_mem_layoutScan {base : Int} {s : List Char} (h : '\n' ∉ s) :
    ∀ l ∈ (layoutScan base s).lines, '\n' ∉ l.content := by
  intro l hl hmem
  have hcontents : '\n' ∈ contents (layoutScan base s).lines := List.mem_flatMap.2 ⟨l, hl, hmem⟩
  rw [contents_layoutScan] at hcontents
  exact h ((unspaced_sublist false s).subset hcontents)

/-- No line contains a space outside of quotation marks, but for its indentation. -/
theorem space_not_mem_layoutScan {base : Int} {s : List Char} {l : LayoutLine}
    (h : l ∈ (layoutScan base s).lines) : ' ' ∉ outside false l.content := by
  obtain ⟨ls, ls', hlines⟩ := List.append_of_mem h
  have hclosed := LayoutScan.quotesOpen_contents ((sound_layoutScan base s).closed_above hlines)
  have hnone := space_not_mem_outside_unspaced false s
  rw [← contents_layoutScan base, hlines, LayoutScan.contents_append, outside_append,
    hclosed] at hnone
  have hcons : contents (l :: ls') = l.content ++ contents ls' := rfl
  rw [hcons, outside_append] at hnone
  exact fun hmem => hnone (List.mem_append_right _ (List.mem_append_left _ hmem))

/-- A query is shown as it is, or as the text of its scan without the blanks at the end. -/
theorem indentQuery_cases (query : String) (level : Int) :
    indentQuery query level = query ∨
      ∃ shown blank, (indentQuery query level).toList = '\n' :: shown ∧
        (layoutScan (level + 1) query.toList).text = shown ++ blank ∧
        ∀ x ∈ blank, isVisible x = false := by
  by_cases hbreaks : layoutBreaks .betweenTerms query.toList
  · right
    obtain ⟨blank, heq, hblank⟩ := exists_trimEnd (fun c => c = '\n' || c = ' ')
      (layoutScan (level + 1) query.toList).text
    refine ⟨_, blank, ?_, heq, fun x hx => ?_⟩
    · simp only [indentQuery, if_pos hbreaks, String.toList_ofList, text_layoutScan]
    · have := hblank x hx
      simp [isVisible] at this ⊢
      tauto
  · exact .inl (if_neg hbreaks)

theorem filter_isVisible_indentQuery (query : String) (level : Int) :
    (indentQuery query level).toList.filter isVisible = query.toList.filter isVisible := by
  rcases indentQuery_cases query level with heq | ⟨shown, blank, heq, htext, hblank⟩
  · rw [heq]
  have hnone : blank.filter isVisible = [] := by simpa using hblank
  calc (indentQuery query level).toList.filter isVisible
      = shown.filter isVisible := by rw [heq, List.filter_cons_of_neg (by decide)]
    _ = (layoutScan (level + 1) query.toList).text.filter isVisible := by
        rw [htext, List.filter_append, hnone, List.append_nil]
    _ = query.toList.filter isVisible := by
        rw [LayoutScan.filter_isVisible_text, contents_layoutScan, filter_isVisible_unspaced]

theorem quotedParts_indentQuery {query : String} (h : quotesOpen false query.toList = false)
    (level : Int) :
    quotedParts false (indentQuery query level).toList = quotedParts false query.toList := by
  have hvisible := filter_isVisible_indentQuery query level
  rcases indentQuery_cases query level with heq | ⟨shown, blank, heq, htext, hblank⟩
  · rw [heq]
  rw [heq, List.filter_cons_of_neg (by decide)] at hvisible
  have hshown : quotesOpen false shown = false := by
    rw [← quotesOpen_filter_isVisible, hvisible, quotesOpen_filter_isVisible, h]
  have hmark : '"' ∉ blank := fun hmem => absurd (hblank _ hmem) (by decide)
  calc quotedParts false (indentQuery query level).toList
      = quotedParts false shown := by rw [heq, quotedParts, decide_eq_false (by decide)]
    _ = quotedParts false (layoutScan (level + 1) query.toList).text := by
        rw [htext, quotedParts_append hshown, quotedParts_of_not_mem hmark, List.append_nil]
    _ = quotedParts false query.toList := by
        rw [(sound_layoutScan _ _).quotedParts_text, contents_layoutScan, quotedParts_unspaced]

theorem replicate_append_cons_inj {c x y : Char} (hx : x ≠ c) (hy : y ≠ c) {n m : Nat}
    {r t : List Char} (h : List.replicate n c ++ x :: r = List.replicate m c ++ y :: t) :
    n = m ∧ x = y := by
  induction n generalizing m with
  | zero =>
    cases m with
    | zero => exact ⟨rfl, (List.cons.inj h).1⟩
    | succ m => exact absurd (List.cons.inj h).1 hx
  | succ n ih =>
    cases m with
    | zero => exact absurd (List.cons.inj h).1.symm hy
    | succ m => exact (ih (List.cons.inj h).2).imp_left (congrArg _)

/-- The lines of a shown query are those of its scan; the last one may be cut off at its end. -/
theorem exists_line_of_shown {query : String} {level : Int} {shown blank : List Char}
    (hfeed : '\n' ∉ query.toList)
    (htext : (layoutScan (level + 1) query.toList).text = shown ++ blank)
    {above below : List (List Char)} {line : List Char}
    (h : splitAtChar '\n' shown = above ++ line :: below) :
    ∃ ls l ls' more, (layoutScan (level + 1) query.toList).lines = ls ++ l :: ls' ∧
      above = ls.map LayoutLine.text ∧ l.text = line ++ more := by
  obtain ⟨more, below', hall⟩ := splitAtChar_append h blank
  rw [← htext, LayoutScan.splitAtChar_text (lineFeed_not_mem_layoutScan hfeed)] at hall
  obtain ⟨ls, rest, hlines, habove, hrest⟩ := List.map_eq_append_iff.1 hall
  obtain ⟨l, ls', rfl, hl, -⟩ := List.map_eq_cons_iff.1 hrest
  exact ⟨ls, l, ls', more, hlines, habove.symm, hl⟩

theorem indent_of_shown {query : String} {level : Int} {shown blank : List Char}
    (hfeed : '\n' ∉ query.toList)
    (htext : (layoutScan (level + 1) query.toList).text = shown ++ blank)
    {above below : List (List Char)} {n : Nat} {x : Char} {rest : List Char} (hx : x ≠ ' ')
    (h : splitAtChar '\n' shown = above ++ (List.replicate n ' ' ++ x :: rest) :: below) :
    n = 2 *
      (level + 1 + bracketDepth false above.flatten - if isClosing x then 1 else 0).toNat := by
  obtain ⟨ls, l, ls', more, hlines, rfl, hl⟩ := exists_line_of_shown hfeed htext h
  have hpre : ls ++ [l] <+: (layoutScan (level + 1) query.toList).lines :=
    ⟨ls', by simp [hlines]⟩
  have hdepth : bracketDepth false (ls.map LayoutLine.text).flatten =
      bracketDepth false (contents ls) := by
    rw [← bracketDepth_filter_isVisible, LayoutScan.filter_isVisible_lines,
      bracketDepth_filter_isVisible]
  rcases hcontent : l.content with - | ⟨y, ys⟩
  · have hmem : x ∈ l.text := by simp [hl]
    rw [LayoutLine.text, hcontent, List.append_nil] at hmem
    exact absurd (List.eq_of_mem_replicate hmem) hx
  · obtain ⟨hy, hlevel⟩ := (sound_layoutScan _ _).aligned ls l hpre y ys hcontent
    rw [LayoutLine.text, hcontent, List.append_assoc, List.cons_append] at hl
    obtain ⟨rfl, rfl⟩ := replicate_append_cons_inj hy hx hl
    rw [hdepth, hlevel]

/-- **The layout of a query only adds and drops blanks.**  Apart from spaces and line feeds, a query
is shown as it is; if its quotation marks are closed, so are the parts inside of them, in their
order.  On the lines of a query that is laid out, what is visible stands as deep as the brackets
before it say, and a closing bracket one level above. -/
theorem indentQuery_layout (query : String) (level : Int) :
    (indentQuery query level).toList.filter isVisible = query.toList.filter isVisible ∧
    (quotesOpen false query.toList = false →
      quotedParts false (indentQuery query level).toList = quotedParts false query.toList) ∧
    ('\n' ∉ query.toList → indentQuery query level ≠ query →
      ∃ shown, (indentQuery query level).toList = '\n' :: shown ∧
        ∀ above line below, splitAtChar '\n' shown = above ++ line :: below →
          ∀ n x rest, line = List.replicate n ' ' ++ x :: rest → x ≠ ' ' →
            n = 2 * (level + 1 + bracketDepth false above.flatten -
              if isClosing x then 1 else 0).toNat) := by
  refine ⟨filter_isVisible_indentQuery query level, fun h => quotedParts_indentQuery h level,
    fun hfeed hne => ?_⟩
  rcases indentQuery_cases query level with heq | ⟨shown, blank, heq, htext, -⟩
  · exact absurd heq hne
  refine ⟨shown, heq, fun above line below hlines n x rest hline hx => ?_⟩
  subst hline
  exact indent_of_shown hfeed htext hx hlines

/-- A query that closes more groups than it opens, and has a bracket inside of quotation marks. -/
def unbalancedQuery : String := "a:(b  \"(c d\" ) e) f"

theorem indentQuery_layout_unbalancedQuery :
    quotedParts false (indentQuery unbalancedQuery 0).toList = ["(c d".toList] ∧
    ∃ shown, (indentQuery unbalancedQuery 0).toList = '\n' :: shown ∧
      ∀ above line below, splitAtChar '\n' shown = above ++ line :: below →
        ∀ n x rest, line = List.replicate n ' ' ++ x :: rest → x ≠ ' ' →
          n = 2 * (0 + 1 + bracketDepth false above.flatten - if isClosing x then 1 else 0).toNat :=
  have h := indentQuery_layout unbalancedQuery 0
  ⟨(h.2.1 (by decide)).trans (by decide), h.2.2 (by decide) (by decide)⟩

end MailRules
