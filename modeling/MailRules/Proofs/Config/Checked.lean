import MailRules.Config.Schema
import MailRules.Proofs.Result

/-!
# Readings that succeed

A reading of a document value that succeeds is put together from readings that succeed, and no
member is left over.

* `Checked.ap_eq_ok` and its like take a reading apart, `sequence_eq_ok` that of a list.
* `readObject_eq_ok`, `required_eq_ok` and `readText_eq_ok` say what was read, and
  `optional_of_findNamed` what is read where a member may be absent.
* `otherMembers_eq_nil_iff` says when all members of a mapping are accounted for.
* `member?_putMember_self` and `member?_putMember_of_ne` are the members of a changed mapping.
-/

namespace MailRules

variable {α β : Type} {ms : Members}

/-! ### Readings that succeed -/

namespace Checked

@[simp] theorem map_eq_ok {f : α → β} {x : Checked α} {b : β} :
    x.map f = .ok b ↔ ∃ a, x = .ok a ∧ f a = b := by
  cases x <;> simp [map]

@[simp] theorem ap_eq_ok {f : Checked (α → β)} {x : Checked α} {b : β} :
    f.ap x = .ok b ↔ ∃ g a, f = .ok g ∧ x = .ok a ∧ g a = b := by
  cases f <;> cases x <;> simp [ap]

@[simp] theorem within_eq_ok {name : String} {x : Checked α} {a : α} :
    x.within name = .ok a ↔ x = .ok a := by
  cases x <;> simp [within]

@[simp] theorem orRefused_eq_ok {x : Checked α} {ps : List Problem} {a : α} :
    x.orRefused ps = .ok a ↔ x = .ok a ∧ ps = [] := by
  cases x <;> cases ps <;> simp [orRefused]

theorem closed_eq_ok {names : List (List String)} {x : Checked α} {a : α} :
    x.closed names ms = .ok a ↔ x = .ok a ∧ otherMembers names ms = [] :=
  orRefused_eq_ok

theorem sequence_eq_ok {i : Nat} {xs : List (Checked α)} {as : List α} :
    sequence i xs = .ok as ↔ xs = as.map .ok := by
  induction xs generalizing i as with
  | nil =>
    rw [eq_comm (a := ([] : List _)), List.map_eq_nil_iff, eq_comm (a := as)]
    exact ⟨Checked.ok.inj, congrArg _⟩
  | cons x xs ih =>
    simp only [sequence, ap_eq_ok, map_eq_ok, within_eq_ok, ih]
    cases as with
    | nil => simp
    | cons b bs => simp

end Checked

theorem readText_eq_ok {v : Value} {s : String} : readText v = .ok s ↔ v = .str s := by
  constructor
  · intro h
    unfold readText at h
    split at h
    · cases h
      rfl
    · cases h
  · rintro rfl
    rfl

theorem required_eq_ok {ms : Members} {name : String} {read : Value → Checked α} {a : α} :
    required ms [name] read = .ok a ↔ ∃ v, Value.member? name ms = some v ∧ read v = .ok a := by
  unfold required findNamed findNamed
  cases Value.member? name ms <;> simp [Checked.refuse]

/-- A text that may be absent is read from nothing, from null, or from a text. -/
theorem of_optional_text {ms : Members} {name : String} {o : Option String}
    (h : optional ms [name] readText = .ok o) :
    (Value.member? name ms).getD .null = (o.map Value.str).getD .null := by
  unfold optional defaulted findNamed findNamed at h
  cases hm : Value.member? name ms with
  | none =>
    simp only [hm] at h
    cases h
    rfl
  | some v =>
    simp only [hm, Checked.within_eq_ok] at h
    unfold nullable at h
    split at h
    · cases h
      rfl
    · obtain ⟨s, hs, rfl⟩ := Checked.map_eq_ok.1 h
      rw [readText_eq_ok.1 hs]
      rfl

theorem nullable_of_ne {read : Value → Checked α} {v : Value} (h : v ≠ .null) :
    nullable read v = (read v).map some := by
  cases v with
  | scalar k => cases k <;> first | exact absurd rfl h | rfl
  | _ => rfl

theorem readList_of_ne {read : Value → Checked α} {v : Value} (h : ∀ vs, v ≠ .list vs) :
    readList read v = Checked.refuse .notList := by
  cases v with
  | list vs => exact absurd rfl (h vs)
  | _ => rfl

theorem optional_of_findNamed {ms : Members} {names : List String} {name : String}
    {read : Value → Checked α} {v : Value} (h : findNamed ms names = some (name, v)) :
    optional ms names read = (nullable read v).within name := by
  rw [optional, defaulted, h]

theorem optional_of_findNamed_eq_none {ms : Members} {names : List String}
    {read : Value → Checked α} (h : findNamed ms names = none) :
    optional ms names read = .ok none := by
  rw [optional, defaulted, h]

/-- Only the member of the given name matters. -/
theorem optional_congr {ms ms' : Members} {name : String} {read : Value → Checked α}
    (h : Value.member? name ms = Value.member? name ms') :
    optional ms [name] read = optional ms' [name] read := by
  unfold optional defaulted findNamed findNamed
  rw [h]

theorem optional_of_member {ms : Members} {name : String} {read : Value → Checked α} {v : Value}
    (h : Value.member? name ms = some v) :
    optional ms [name] read = (nullable read v).within name :=
  optional_of_findNamed (by rw [findNamed, h])

theorem readObject_eq_ok {read : Members → Checked α} {v : Value} {a : α} :
    readObject read v = .ok a ↔ ∃ ms, v = .map ms ∧ read ms = .ok a := by
  cases v <;> simp [readObject, Checked.refuse]

/-! ### Members -/

theorem member?_cons_str {name s : String} {v : Value} {ms : Members} :
    Value.member? name ((.str s, v) :: ms) = if s = name then some v else Value.member? name ms :=
  rfl

theorem member?_cons_of_ne {name : String} {k : Scalar} {v : Value} {ms : Members}
    (h : k ≠ .str name) : Value.member? name ((k, v) :: ms) = Value.member? name ms := by
  cases k with
  | str s => rw [member?_cons_str, if_neg fun hs => h (congrArg _ hs)]
  | _ => rfl

theorem findNamed_eq_none {names : List String} :
    findNamed ms names = none ↔ ∀ n ∈ names, Value.member? n ms = none := by
  induction names with
  | nil => simp [findNamed]
  | cons n names ih =>
    cases h : Value.member? n ms <;> simp [findNamed, h, ih]

theorem mem_of_member? {name : String} {v : Value} (h : Value.member? name ms = some v) :
    (.str name, v) ∈ ms := by
  induction ms with
  | nil => cases h
  | cons m ms ih =>
    obtain ⟨k, w⟩ := m
    by_cases hk : k = .str name
    · rw [hk, member?_cons_str, if_pos rfl] at h
      rw [hk, Option.some.inj h]
      exact List.mem_cons_self
    · rw [member?_cons_of_ne hk] at h
      exact List.mem_cons_of_mem _ (ih h)

/-- What is read under some names stands under one of them. -/
theorem of_findNamed {names : List String} {n : String} {v : Value}
    (h : findNamed ms names = some (n, v)) : n ∈ names ∧ Value.member? n ms = some v := by
  induction names with
  | nil => cases h
  | cons m names ih =>
    rw [findNamed] at h
    cases hm : Value.member? m ms with
    | none =>
      obtain ⟨hn, hv⟩ := ih (by simpa [hm] using h)
      exact ⟨List.mem_cons_of_mem _ hn, hv⟩
    | some w =>
      obtain ⟨rfl, rfl⟩ : m = n ∧ w = v := by simpa [hm] using h
      exact ⟨List.mem_cons_self, hm⟩

/-- All members are accounted for if each is the one that is read under one of its names. -/
theorem otherMembers_eq_nil_iff {names : List (List String)} :
    otherMembers names ms = [] ↔
      ∀ m ∈ ms, ∃ ns ∈ names, ∃ n v, findNamed ms ns = some (n, v) ∧ m.1 = .str n := by
  unfold otherMembers
  rw [List.filterMap_eq_nil_iff]
  refine forall₂_congr fun m _ => ?_
  obtain ⟨k, w⟩ := m
  cases k with
  | str s => simp [List.mem_filterMap]
  | _ => simp

/-! ### Members of a changed mapping -/

theorem sameName_str {k : Scalar} {s : String} : k.sameName (.str s) = true ↔ k = .str s := by
  have hne : k.sameName (.str s) = false → k ≠ .str s → (k.sameName (.str s) = true ↔ k = .str s) :=
    fun h hk => iff_of_false (Bool.eq_false_iff.1 h) hk
  cases k with
  | str t => exact decide_eq_true_iff.trans ⟨congrArg _, Scalar.str.inj⟩
  | float x =>
    -- a text is no number, whatever the other side is
    refine hne ?_ Scalar.noConfusion
    cases h : (Scalar.float x).whole? with
    | none => simp only [Scalar.sameName, h]
    | some i =>
      simp only [Scalar.sameName, h]
      rfl
  | _ => exact hne rfl Scalar.noConfusion

theorem member?_putMember_self {name : String} {v : Value} {ms : Members} :
    Value.member? name (Value.putMember (.str name) v ms) = some v := by
  induction ms with
  | nil => simp [Value.putMember, member?_cons_str]
  | cons m ms ih =>
    obtain ⟨k, w⟩ := m
    by_cases hk : k = .str name
    · simp [Value.putMember, hk, sameName_str, member?_cons_str]
    · rw [Value.putMember, if_neg (by simpa [sameName_str] using hk), member?_cons_of_ne hk, ih]

theorem str_sameName {k : Scalar} {s : String} : (Scalar.str s).sameName k = true ↔ k = .str s := by
  cases k with
  | str t =>
    exact decide_eq_true_iff.trans ⟨fun h => congrArg _ h.symm, fun h => (Scalar.str.inj h).symm⟩
  | _ => exact iff_of_false Bool.false_ne_true Scalar.noConfusion

theorem member?_putMember_of_name_ne {name : String} {k : Scalar} {v : Value} {ms : Members}
    (h : k ≠ .str name) : Value.member? name (Value.putMember k v ms) = Value.member? name ms := by
  induction ms with
  | nil => rw [Value.putMember, member?_cons_of_ne h]
  | cons m ms ih =>
    obtain ⟨k', w⟩ := m
    by_cases hn : k' = .str name
    · have hsame : ¬k'.sameName k = true := by rwa [hn, str_sameName]
      rw [Value.putMember, if_neg hsame, hn, member?_cons_str, member?_cons_str, if_pos rfl,
        if_pos rfl]
    · rw [Value.putMember]
      split
      · rw [member?_cons_of_ne hn, member?_cons_of_ne hn]
      · rw [member?_cons_of_ne hn, member?_cons_of_ne hn, ih]

theorem member?_putMember_of_ne {name other : String} {v : Value} {ms : Members}
    (h : name ≠ other) :
    Value.member? name (Value.putMember (.str other) v ms) = Value.member? name ms :=
  member?_putMember_of_name_ne fun hs => h (Scalar.str.inj hs).symm

end MailRules
