import MailRules.Proofs.Diff.Filters
import MailRules.Proofs.Text.Quoted
import Mathlib.Data.List.Infix

/-!
# The content of a filter is known from its text

A digest stands for a filter because it is taken of a text that spells out the content, and that
text belongs to one content only.

* `append_inj_of_prefixFree`: values whose spellings do not begin one another are told apart,
  whatever is written after them.  Flags and categories are such values (`flagText_append_inj`,
  `categoryText_append_inj`), and so are quoted texts.
* `same_of_contentText` reads the content off the text, value by value; `contentText_eq_iff` says
  that the text and the content determine each other.
* So digests distinguish contents as far as the hash function distinguishes texts
  (`digestsDistinguish_iff`).
-/

namespace MailRules

/-! ### Values inside a text -/

theorem append_inj_of_prefixFree {α : Type} (spelled : α → List Char)
    (hfree : ∀ a b, spelled a <+: spelled b → a = b) {a b : α} {r r' : List Char}
    (h : spelled a ++ r = spelled b ++ r') : a = b ∧ r = r' := by
  have hab : a = b := by
    have ha : spelled a <+: spelled b ++ r' := h ▸ List.prefix_append _ _
    rcases List.prefix_or_prefix_of_prefix ha (List.prefix_append _ _) with hab | hba
    · exact hfree a b hab
    · exact (hfree b a hba).symm
  exact ⟨hab, List.append_cancel_left (hab ▸ h)⟩

namespace Filter

variable {r r' : List Char}

theorem flagText_append_inj {a b : Bool}
    (h : (flagText a).toList ++ r = (flagText b).toList ++ r') : a = b ∧ r = r' := by
  refine append_inj_of_prefixFree (fun x => (flagText x).toList) ?_ h
  decide

theorem categoryText_append_inj {a b : Option Category}
    (h : (categoryText a).toList ++ r = (categoryText b).toList ++ r') : a = b ∧ r = r' := by
  refine append_inj_of_prefixFree (fun x => (categoryText x).toList) ?_ h
  have hall : ∀ x : Option Category, x ∈ none :: Category.all.map some := by
    rintro (_ | c)
    · exact List.mem_cons_self
    · cases c <;> decide
  have hfree : ∀ x ∈ none :: Category.all.map some, ∀ y ∈ none :: Category.all.map some,
      (categoryText x).toList <+: (categoryText y).toList → x = y := by
    decide +kernel
  exact fun x y => hfree x (hall x) y (hall y)

/-! ### The whole content -/

/-- The content of a filter is read off its text, value by value. -/
theorem same_of_contentText {f g : Filter} (h : f.contentText = g.contentText) :
    f.same g = true := by
  obtain ⟨⟨sender, recipient, subject, query⟩, ⟨addLabel, category, archive, delete, important,
    notImportant, read, notSpam, star, forward⟩, id⟩ := f
  obtain ⟨⟨sender', recipient', subject', query'⟩, ⟨addLabel', category', archive', delete',
    important', notImportant', read', notSpam', star', forward'⟩, id'⟩ := g
  have hchars := congrArg String.toList h
  simp only [contentText, String.toList_join, List.flatMap_cons, List.flatMap_nil] at hchars
  -- each value ends where its spelling does, and then a fixed text leads to the next one
  obtain ⟨hsender, hchars⟩ := quoted_append_inj (List.append_cancel_left hchars)
  obtain ⟨hrecipient, hchars⟩ := quoted_append_inj (List.append_cancel_left hchars)
  obtain ⟨hsubject, hchars⟩ := quoted_append_inj (List.append_cancel_left hchars)
  obtain ⟨hquery, hchars⟩ := quoted_append_inj (List.append_cancel_left hchars)
  obtain ⟨hlabel, hchars⟩ := quoted_append_inj (List.append_cancel_left hchars)
  obtain ⟨hcategory, hchars⟩ := categoryText_append_inj (List.append_cancel_left hchars)
  obtain ⟨harchive, hchars⟩ := flagText_append_inj (List.append_cancel_left hchars)
  obtain ⟨hdelete, hchars⟩ := flagText_append_inj (List.append_cancel_left hchars)
  obtain ⟨himportant, hchars⟩ := flagText_append_inj (List.append_cancel_left hchars)
  obtain ⟨hnotImportant, hchars⟩ := flagText_append_inj (List.append_cancel_left hchars)
  obtain ⟨hread, hchars⟩ := flagText_append_inj (List.append_cancel_left hchars)
  obtain ⟨hnotSpam, hchars⟩ := flagText_append_inj (List.append_cancel_left hchars)
  obtain ⟨hstar, hchars⟩ := flagText_append_inj (List.append_cancel_left hchars)
  obtain ⟨hforward, -⟩ := quoted_append_inj (List.append_cancel_left hchars)
  subst hsender hrecipient hsubject hquery hlabel hcategory harchive hdelete himportant
    hnotImportant hread hnotSpam hstar hforward
  exact same_iff.2 rfl

theorem contentText_eq_of_same {f g : Filter} (h : f.same g = true) :
    f.contentText = g.contentText := by
  obtain ⟨hcriteria, haction⟩ := Prod.mk.inj (same_iff.1 h)
  simp only [contentText, hcriteria, haction]

end Filter

/-- Digests distinguish contents unless the hash function takes the same value at the texts of two
of them. -/
theorem digestsDistinguish_iff {fs : List Filter} :
    DigestsDistinguish fs ↔ Set.InjOn sha256Hex {t | ∃ f ∈ fs, f.contentText = t} := by
  constructor
  · rintro h _ ⟨f, hf, rfl⟩ _ ⟨g, hg, rfl⟩ hfg
    exact Filter.contentText_eq_of_same (h f hf g hg hfg)
  · intro h f hf g hg hfg
    exact Filter.same_of_contentText (h ⟨f, hf, rfl⟩ ⟨g, hg, rfl⟩ hfg)

/-- **The text of a filter's content is that of one content only**: two filters have the same text
exactly if they are the same, that is, if they agree in all criteria and in their whole action,
whatever their ids. -/
theorem Filter.contentText_eq_iff (f g : Filter) :
    (f.contentText = g.contentText ↔ f.same g = true) ∧
      (f.same g = true ↔ f.criteria = g.criteria ∧ f.action = g.action) :=
  ⟨⟨same_of_contentText, contentText_eq_of_same⟩, same_iff.trans Prod.mk_inj⟩

end MailRules
