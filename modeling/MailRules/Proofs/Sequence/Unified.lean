import MailRules.Proofs.Sequence.Matching
import MailRules.Proofs.Text.Lines
import MailRules.Sequence.Unified

/-!
# Unified differences show what differs

A difference of two lists of lines shows a change exactly if the lists differ.

* A span is `Changed` if it shows lines; where blocks leave something out there is one
  (`exists_changed`), and it gets into a hunk (`exists_changed_hunk`).
* A list and itself have no hunks (`hunks_self`).
* `textLines_unifiedDiff` gives the lines of the text that is shown, and
  `showsChange_unifiedDiff_iff` says when one of them is marked.
-/

namespace MailRules

namespace Sequence

variable {xs ys : List String} {s : Span} {ss group : List Span} {n : Int}

/-! ### Spans that change something -/

/-- A span that is not equal, with lines on one side at least. -/
structure Changed (xs ys : List String) (s : Span) : Prop where
  replaced : s.equal = false
  lines : (between xs s.a1 s.a2) ≠ [] ∨ between ys s.b1 s.b2 ≠ []

theorem between_ne_nil {α : Type} {xs : List α} {i j : Nat} (hij : i < j) (hj : j ≤ xs.length) :
    between xs i j ≠ [] := by
  have hposition (k : Nat) : position xs.length k = k := by
    rw [position, if_neg (by omega), Int.toNat_natCast]
  have hlen : (between xs i j).length = j - i := by
    simp [between, hposition, Nat.min_eq_left hj]
  intro hnil
  rw [hnil, List.length_nil] at hlen
  omega

theorem mem_of_mem_between {α : Type} {xs : List α} {i j : Int} {x : α} (h : x ∈ between xs i j) :
    x ∈ xs :=
  List.mem_of_mem_take (List.mem_of_mem_drop h)

theorem Chain.le {α : Type} {xs ys : List α} {i j i' j' : Nat} {ms : List Block}
    (h : Chain xs ys i j ms i' j') : i ≤ i' ∧ j ≤ j' := by
  induction h with
  | nil hi hj => exact ⟨hi, hj⟩
  | cons hi hj _ _ ih => omega

/-- Lists that differ behind a block of equal members differ behind it. -/
theorem drop_ne_of_agree {α : Type} {xs ys : List α} {i j size : Nat}
    (heq : ∀ k < size, xs[i + k]? = ys[j + k]?) (hne : xs.drop i ≠ ys.drop j) :
    xs.drop (i + size) ≠ ys.drop (j + size) := by
  intro hdrop
  refine hne (List.ext_getElem? fun k => ?_)
  rw [List.getElem?_drop, List.getElem?_drop]
  rcases Nat.lt_or_ge k size with hk | hk
  · exact heq k hk
  · have hk' := congrArg (·[k - size]?) hdrop
    simp only [List.getElem?_drop] at hk'
    convert hk' using 2 <;> omega

/-- **What blocks leave out is a change**, if the lists differ. -/
theorem exists_changed {i j : Nat} {ms : List Block}
    (h : Chain xs ys i j ms xs.length ys.length) (hne : xs.drop i ≠ ys.drop j) :
    ∃ s ∈ editsFrom i j xs.length ys.length ms, Changed xs ys s := by
  generalize hla : xs.length = la at h
  generalize hlb : ys.length = lb at h
  -- a gap before two positions is a change
  have hgap : ∀ {i j i' j' : Nat}, i' ≤ la → j' ≤ lb → i < i' ∨ j < j' →
      Changed xs ys ⟨false, i, i', j, j'⟩ := fun hi' hj' hlt =>
    ⟨rfl, hlt.imp (fun hi => between_ne_nil hi (hla ▸ hi')) fun hj => between_ne_nil hj (hlb ▸ hj')⟩
  induction h with
  | @nil i j i' j' hi hj =>
    subst hla hlb
    have hlt : i < xs.length ∨ j < ys.length := by
      by_contra hnone
      rw [List.drop_of_length_le (by omega), List.drop_of_length_le (by omega)] at hne
      exact hne rfl
    rw [editsFrom, if_pos hlt]
    exact ⟨_, List.mem_singleton_self _, hgap (Nat.le_refl _) (Nat.le_refl _) hlt⟩
  | @cons i j i' j' m ms hi hj eq rest ih =>
    rw [editsFrom]
    by_cases hlt : i < m.a ∨ j < m.b
    · have hle := rest.le
      refine ⟨⟨false, i, m.a, j, m.b⟩, ?_, hgap (by omega) (by omega) hlt⟩
      rw [if_pos hlt]
      exact List.mem_append_left _ (List.mem_singleton_self _)
    · obtain ⟨rfl, rfl⟩ : i = m.a ∧ j = m.b := by omega
      obtain ⟨s, hs, hchanged⟩ := ih (drop_ne_of_agree eq hne) hla hlb hgap
      exact ⟨s, List.mem_append_right _ (List.mem_cons_of_mem _ hs), hchanged⟩

/-! ### Hunks -/

theorem mem_trimFirst (he : s.equal = false) (h : s ∈ ss) : s ∈ trimFirst n ss := by
  cases ss with
  | nil => exact h
  | cons t ss =>
    rw [trimFirst]
    rcases List.mem_cons.1 h with rfl | h
    · simp [he]
    · exact List.mem_cons_of_mem _ h

theorem mem_trimLast (he : s.equal = false) (h : s ∈ ss) : s ∈ trimLast n ss := by
  fun_induction trimLast n ss with
  | case1 => exact h
  | case2 t =>
    obtain rfl := List.mem_singleton.1 h
    simp [he]
  | case3 t ss _ ih =>
    rcases List.mem_cons.1 h with rfl | h
    · exact List.mem_cons_self
    · exact List.mem_cons_of_mem _ (ih h)

theorem showsChange_of_mem (he : s.equal = false) (h : s ∈ group) : showsChange group = true := by
  match group with
  | [t] =>
    obtain rfl := List.mem_singleton.1 h
    simp [showsChange, he]
  | _ :: _ :: _ => rfl

/-- A span that is not equal gets into a group. -/
theorem exists_mem_groupSpans (he : s.equal = false) (h : s ∈ group ∨ s ∈ ss) :
    ∃ g ∈ groupSpans n group ss, s ∈ g := by
  induction ss generalizing group with
  | nil =>
    have hmem : s ∈ group := by simpa using h
    rw [groupSpans, if_pos (showsChange_of_mem he hmem)]
    exact ⟨group, List.mem_singleton_self _, hmem⟩
  | cons t ss ih =>
    rw [groupSpans]
    split_ifs with hcut
    · have hst : s ≠ t := by
        rintro rfl
        rw [he] at hcut
        cases hcut.1
      rcases h with h | h
      · exact ⟨_, List.mem_cons_self, List.mem_append_left _ h⟩
      · have hmem : s ∈ ss := (List.mem_cons.1 h).resolve_left hst
        exact (ih (.inr hmem)).imp fun g hg => ⟨List.mem_cons_of_mem _ hg.1, hg.2⟩
    · refine ih ?_
      rcases h with h | h
      · exact .inl (List.mem_append_left _ h)
      · rcases List.mem_cons.1 h with rfl | h
        · exact .inl (List.mem_append_right _ (List.mem_singleton_self _))
        · exact .inr h

/-- **Lists that differ have a hunk with a change.** -/
theorem exists_changed_hunk (n : Int) (h : xs ≠ ys) :
    ∃ g ∈ hunks n xs ys, ∃ s ∈ g, Changed xs ys s := by
  have hchain := chain_matchingBlocks xs (markPopular ys)
  have hlen : (markPopular ys).length = ys.length := by
    simpa using congrArg List.length (map_fst_markPopular ys)
  rw [map_fst_markPopular, hlen] at hchain
  obtain ⟨s, hs, hchanged⟩ := exists_changed hchain (by simpa using h)
  simp only [hunks, List.isEmpty_iff, if_neg (List.ne_nil_of_mem hs)]
  have htrimmed := mem_trimLast (n := n) hchanged.replaced (mem_trimFirst (n := n)
    hchanged.replaced hs)
  exact (exists_mem_groupSpans hchanged.replaced (.inr htrimmed)).imp fun g hg =>
    ⟨hg.1, s, hg.2, hchanged⟩

/-- **A list and itself have no hunks.** -/
theorem hunks_self (hn : 0 ≤ n) (xs : List String) : hunks n xs xs = [] := by
  have hblocks := matchingBlocks_self (consistent_markPopular xs)
  have hlen : (markPopular xs).length = xs.length := by
    simpa using congrArg List.length (map_fst_markPopular xs)
  rw [map_fst_markPopular, hlen] at hblocks
  -- one span of lines that are equal is cut down to the context, and not shown
  have hone : ∀ k : Nat, groupSpans n [] (trimLast n (trimFirst n [⟨true, 0, k, 0, k⟩])) = [] := by
    intro k
    simp only [trimFirst, trimLast, groupSpans, if_true, List.nil_append]
    rw [if_neg (by omega)]
    rfl
  unfold hunks
  rw [hblocks]
  cases xs with
  | nil => exact hone 1
  | cons x xs =>
    have hmark : markPopular (x :: xs) ≠ [] := by
      intro hnil
      rw [hnil] at hlen
      cases hlen
    rw [if_neg hmark]
    simpa [editsFrom] using hone (x :: xs).length

/-! ### What is shown -/

/-- The text of a difference shows a change: below its two headers a line begins with a mark. -/
def ShowsChange (text : String) : Prop :=
  ∃ l ∈ (textLines text).drop 2, l.toList.head? = some '-' ∨ l.toList.head? = some '+'

/-- A line of a difference: it is complete, and a mark stands before it. -/
structure Marked (l : String) : Prop where
  complete : Complete l.toList
  head : ∃ x ∈ [' ', '-', '+', '@'], l.toList.head? = some x

theorem marked_append {mark : String} {x : Char} (hmark : mark.toList = [x])
    (hx : x ∈ [' ', '-', '+', '@']) {l : String} (hl : Complete l.toList) :
    Marked (mark ++ l) := by
  refine ⟨?_, x, hx, ?_⟩
  · rw [String.toList_append]
    exact hl.append _
  · rw [String.toList_append, hmark]
    rfl

theorem marked_of_mem_spanLines (hxs : ∀ l ∈ xs, Complete l.toList)
    (hys : ∀ l ∈ ys, Complete l.toList) {l : String} (h : l ∈ spanLines xs ys s) : Marked l := by
  unfold spanLines at h
  split_ifs at h
  · obtain ⟨l, hl, rfl⟩ := List.mem_map.1 h
    exact marked_append (x := ' ') rfl (by decide) (hxs l (mem_of_mem_between hl))
  · rcases List.mem_append.1 h with h | h <;> obtain ⟨l, hl, rfl⟩ := List.mem_map.1 h
    · exact marked_append (x := '-') rfl (by decide) (hxs l (mem_of_mem_between hl))
    · exact marked_append (x := '+') rfl (by decide) (hys l (mem_of_mem_between hl))

theorem marked_of_mem_hunkLines (hxs : ∀ l ∈ xs, Complete l.toList)
    (hys : ∀ l ∈ ys, Complete l.toList) {l : String} (h : l ∈ hunkLines xs ys group) :
    Marked l := by
  unfold hunkLines at h
  split at h
  · rcases List.mem_cons.1 h with rfl | h
    · refine ⟨?_, '@', by decide, ?_⟩
      · rw [String.toList_append]
        exact Complete.append ⟨'\n', rfl, rfl⟩ _
      · simp
    · obtain ⟨s, -, hl⟩ := List.mem_flatMap.1 h
      exact marked_of_mem_spanLines hxs hys hl
  · cases h

/-- A change is shown by a line with its mark. -/
theorem Changed.exists_line (h : Changed xs ys s) :
    ∃ l ∈ spanLines xs ys s, l.toList.head? = some '-' ∨ l.toList.head? = some '+' := by
  rw [spanLines, if_neg (by simp [h.replaced])]
  rcases h.lines with hne | hne
  · obtain ⟨l, hl⟩ := List.exists_mem_of_ne_nil _ hne
    exact ⟨"-" ++ l, List.mem_append_left _ (List.mem_map_of_mem hl), .inl (by simp)⟩
  · obtain ⟨l, hl⟩ := List.exists_mem_of_ne_nil _ hne
    exact ⟨"+" ++ l, List.mem_append_right _ (List.mem_map_of_mem hl), .inr (by simp)⟩

theorem mem_hunkLines {l : String} (hs : s ∈ group) (hl : l ∈ spanLines xs ys s) :
    l ∈ hunkLines xs ys group := by
  unfold hunkLines
  split
  · exact List.mem_cons_of_mem _ (List.mem_flatMap_of_mem hs hl)
  · rename_i hnone
    cases group with
    | nil => cases hs
    | cons t ts => exact absurd (List.getLast?_cons ..) (hnone t _ rfl)

/-- The lines of marked lines one after the other are the lines of each. -/
theorem textLines_join {ls : List String} (h : ∀ l ∈ ls, Marked l) :
    textLines (String.join ls) = ls.flatMap textLines := by
  have hlines : linesKeeping (ls.map String.toList).flatten =
      (ls.map String.toList).flatMap linesKeeping := linesKeeping_flatten fun t ht => by
    obtain ⟨l, hl, rfl⟩ := List.mem_map.1 ht
    obtain ⟨x, hx, heq⟩ := (h l hl).head
    refine ⟨(h l hl).complete, ?_⟩
    rw [heq]
    rintro hfeed
    obtain rfl := Option.some.inj hfeed
    exact absurd hx (by decide)
  rw [textLines, String.toList_join, List.flatMap_def, hlines, List.flatMap_map, List.map_flatMap]
  rfl

theorem textLines_header {mark name : String}
    (h : ∀ x ∈ (mark ++ name).toList, isLineEnd x = false) :
    textLines (mark ++ name ++ "\n") = [mark ++ name ++ "\n"] := by
  have hline : (mark ++ name ++ "\n").toList = (mark ++ name).toList ++ ['\n'] := by simp
  rw [textLines, hline, linesKeeping_line h, List.map_singleton, ← hline, String.ofList_toList]

/-- The first line of a line with a mark has the mark. -/
theorem exists_textLines_head {l : String} {x : Char} (h : l.toList.head? = some x) :
    ∃ l' ∈ textLines l, l'.toList.head? = some x := by
  obtain ⟨s, hs⟩ := List.head?_eq_some_iff.1 h
  obtain ⟨first, rest, hlines⟩ := exists_linesKeeping_cons x s
  refine ⟨String.ofList (x :: first), ?_, by simp⟩
  rw [textLines, hs, hlines]
  exact List.mem_cons_self

/-- The lines of a difference: its two headers, and then those of its hunks. -/
theorem textLines_unifiedDiff {oldName newName : String}
    (hold : ∀ x ∈ oldName.toList, isLineEnd x = false)
    (hnew : ∀ x ∈ newName.toList, isLineEnd x = false)
    (hxs : ∀ l ∈ xs, Complete l.toList) (hys : ∀ l ∈ ys, Complete l.toList)
    (hne : hunks n xs ys ≠ []) :
    textLines (unifiedDiff oldName newName n xs ys) =
      ("--- " ++ oldName ++ "\n") :: ("+++ " ++ newName ++ "\n") ::
        ((hunks n xs ys).flatMap (hunkLines xs ys)).flatMap textLines := by
  have hdiff : unifiedDiff oldName newName n xs ys = String.join
      (["--- " ++ oldName ++ "\n", "+++ " ++ newName ++ "\n"] ++
        (hunks n xs ys).flatMap (hunkLines xs ys)) := by
    unfold unifiedDiff
    split
    · exact absurd ‹_› hne
    · rfl
  have hmarked : ∀ l ∈ ["--- " ++ oldName ++ "\n", "+++ " ++ newName ++ "\n"] ++
      (hunks n xs ys).flatMap (hunkLines xs ys), Marked l := by
    intro l hl
    rcases List.mem_append.1 hl with hl | hl
    · have hfeed : Complete "\n".toList := ⟨'\n', rfl, rfl⟩
      rcases List.mem_pair.1 hl with rfl | rfl
      · refine ⟨?_, '-', by decide, by simp⟩
        rw [String.toList_append]
        exact hfeed.append _
      · refine ⟨?_, '+', by decide, by simp⟩
        rw [String.toList_append]
        exact hfeed.append _
    · obtain ⟨g, -, hl⟩ := List.mem_flatMap.1 hl
      exact marked_of_mem_hunkLines hxs hys hl
  have hheader : ∀ {mark name : String}, (∀ x ∈ mark.toList, isLineEnd x = false) →
      (∀ x ∈ name.toList, isLineEnd x = false) →
      textLines (mark ++ name ++ "\n") = [mark ++ name ++ "\n"] := fun hmark hname =>
    textLines_header fun x hx => by
      rw [String.toList_append] at hx
      exact (List.mem_append.1 hx).elim (hmark x) (hname x)
  have hminus : ∀ x ∈ "--- ".toList, isLineEnd x = false := by simp [isLineEnd]
  have hplus : ∀ x ∈ "+++ ".toList, isLineEnd x = false := by simp [isLineEnd]
  rw [hdiff, textLines_join hmarked, List.flatMap_append, List.flatMap_cons, List.flatMap_cons,
    hheader hminus hold, hheader hplus hnew]
  rfl

/-- **A difference shows a change exactly if the lists differ**, for lists of complete lines. -/
theorem showsChange_unifiedDiff_iff {oldName newName : String}
    (hold : ∀ x ∈ oldName.toList, isLineEnd x = false)
    (hnew : ∀ x ∈ newName.toList, isLineEnd x = false) (hn : 0 ≤ n)
    (hxs : ∀ l ∈ xs, Complete l.toList) (hys : ∀ l ∈ ys, Complete l.toList) :
    ShowsChange (unifiedDiff oldName newName n xs ys) ↔ xs ≠ ys := by
  constructor
  · rintro ⟨l, hl, -⟩ rfl
    rw [unifiedDiff, hunks_self hn] at hl
    cases hl
  intro hne
  obtain ⟨g, hg, s, hs, hchanged⟩ := exists_changed_hunk n hne
  obtain ⟨l, hl, hhead⟩ := hchanged.exists_line
  have hmem : l ∈ (hunks n xs ys).flatMap (hunkLines xs ys) :=
    List.mem_flatMap_of_mem hg (mem_hunkLines hs hl)
  rw [ShowsChange, textLines_unifiedDiff hold hnew hxs hys (List.ne_nil_of_mem hg)]
  rcases hhead with hhead | hhead
  · obtain ⟨l', hl', hhead'⟩ := exists_textLines_head hhead
    exact ⟨l', List.mem_flatMap_of_mem hmem hl', .inl hhead'⟩
  · obtain ⟨l', hl', hhead'⟩ := exists_textLines_head hhead
    exact ⟨l', List.mem_flatMap_of_mem hmem hl', .inr hhead'⟩

end Sequence

end MailRules
