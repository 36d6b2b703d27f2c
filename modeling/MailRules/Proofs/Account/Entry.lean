import MailRules.Account.Client
import MailRules.Proofs.Config.Checked
import MailRules.Proofs.Result

/-!
# Entries and their stored forms

An entry that can be read is known by the ids and names of its stored form, in whatever form it is
kept.

* `filterId_of_read` and `labelId_of_read` are what the account looks at when it searches for an
  entry.
* `read_patchLabel` is the stored form of a changed label.
* `readAll` are the stored forms of all entries, if every entry has one.
-/

namespace MailRules

variable {α : Type}

/-! ### Ids and names -/

namespace Entry

theorem filterId_of_read {e : FilterEntry} {r : RemoteFilter}
    (h : e.read readRemoteFilter = .ok r) : e.filterId = (r.id.map Value.str).getD .null := by
  cases e with
  | stored f =>
    cases h
    rfl
  | document v =>
    obtain ⟨ms, rfl, hr⟩ := readObject_eq_ok.1 h
    simp only [Checked.ap_eq_ok, Checked.map_eq_ok] at hr
    obtain ⟨_, _, ⟨_, _, ⟨o, ho, rfl⟩, _, rfl⟩, _, rfl⟩ := hr
    exact of_optional_text ho

/-- What a label's document has to say. -/
theorem read_document_iff {v : Value} {l : RemoteLabel} :
    readRemoteLabel v = .ok l ↔
      ∃ ms, v = .map ms ∧ Value.member? "id" ms = some (.str l.id) ∧
        Value.member? "name" ms = some (.str l.name) ∧
        optional ms ["type"] (readChoice LabelKind.ofName?) = .ok l.kind ∧
        optional ms ["color"] readRemoteColor = .ok l.color := by
  constructor
  · intro h
    obtain ⟨ms, rfl, hr⟩ := readObject_eq_ok.1 h
    simp only [Checked.ap_eq_ok, Checked.map_eq_ok, required_eq_ok, readText_eq_ok] at hr
    obtain ⟨_, _, ⟨_, _, ⟨_, _, ⟨_, ⟨_, hid, rfl⟩, rfl⟩, ⟨_, hname, rfl⟩, rfl⟩, hkind, rfl⟩, hcolor,
      rfl⟩ := hr
    exact ⟨ms, rfl, hid, hname, hkind, hcolor⟩
  · rintro ⟨ms, rfl, hid, hname, hkind, hcolor⟩
    refine readObject_eq_ok.2 ⟨ms, rfl, ?_⟩
    simp only [Checked.ap_eq_ok, Checked.map_eq_ok, required_eq_ok, readText_eq_ok]
    exact ⟨_, _, ⟨_, _, ⟨_, _, ⟨_, ⟨_, hid, rfl⟩, rfl⟩, ⟨_, hname, rfl⟩, rfl⟩, hkind, rfl⟩, hcolor,
      rfl⟩

theorem labelId_of_read {e : LabelEntry} {l : RemoteLabel}
    (h : e.read readRemoteLabel = .ok l) : e.labelId = .str l.id := by
  cases e with
  | stored k =>
    cases h
    rfl
  | document v =>
    obtain ⟨ms, rfl, hid, -⟩ := read_document_iff.1 h
    simp [labelId, documentMember, Value.get?, hid]

/-! ### Changed labels -/

theorem read_patchLabel {e : LabelEntry} {l : RemoteLabel} (h : e.read readRemoteLabel = .ok l)
    (name : String) (color : Option LabelColor) :
    (e.patchLabel name color).read readRemoteLabel =
      .ok { l with name, color := color.orElse fun _ => l.color } := by
  cases e with
  | stored k =>
    cases h
    rfl
  | document v =>
    obtain ⟨ms, rfl, hid, hname, hkind, hcolor⟩ := read_document_iff.1 h
    refine read_document_iff.2 ⟨_, rfl, ?_⟩
    cases color with
    | none =>
      simp only [member?_putMember_of_ne, member?_putMember_self, ne_eq, String.reduceEq,
        not_false_eq_true, hid, true_and]
      rw [optional_congr (member?_putMember_of_ne (by decide)),
        optional_congr (member?_putMember_of_ne (by decide))]
      exact ⟨hkind, hcolor⟩
    | some c =>
      simp only [member?_putMember_of_ne, member?_putMember_self, ne_eq, String.reduceEq,
        not_false_eq_true, hid, true_and]
      rw [optional_congr (member?_putMember_of_ne (by decide)),
        optional_congr (member?_putMember_of_ne (by decide)),
        optional_of_member member?_putMember_self]
      exact ⟨hkind, rfl⟩

/-! ### All entries -/

/-- The stored forms of entries, if every entry has one. -/
def readAll (read : Value → Checked α) : List (Entry α) → Option (List α)
  | [] => some []
  | e :: es => match e.read read with
    | .ok a => (readAll read es).map (a :: ·)
    | .refused _ => none

theorem readAll_eq_some {read : Value → Checked α} {es : List (Entry α)} {rs : List α} :
    readAll read es = some rs ↔ List.Forall₂ (fun e r => e.read read = .ok r) es rs := by
  induction es generalizing rs with
  | nil => simp [readAll, eq_comm]
  | cons e es ih =>
    simp only [readAll]
    cases he : e.read read with
    | ok a =>
      simp only [Option.map_eq_some_iff, ih, List.forall₂_cons_left_iff, he, Checked.ok.injEq]
      grind
    | refused ps => simp [List.forall₂_cons_left_iff, he]

end Entry

end MailRules
