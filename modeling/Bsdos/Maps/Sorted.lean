import Mathlib.Data.List.Perm.Basic
import Mathlib.Data.List.Sort

namespace Sorting
variable {α β κ : Type} [LinearOrder κ] {key : α → κ}

/-- `sort_by`, which is stable. -/
def sortBy (key : α → κ) (entries : List α) : List α := entries.insertionSort fun a b => key a ≤ key b

theorem orderedInsert_filter (k : κ) (a : α) (entries : List α) :
    (entries.orderedInsert (fun a b => key a ≤ key b) a).filter (key · = k) = (a :: entries).filter (key · = k) := by
  induction entries with
  | nil => rfl
  | cons b entries ih =>
    by_cases before : key a ≤ key b
    · rw [List.orderedInsert_cons, if_pos before]
    · rw [List.orderedInsert_cons, if_neg before, List.filter_cons, ih]
      by_cases here : key a = k
      · have other : key b ≠ k := fun same => before (by rw [here, same])
        simp [here, other]
      · simp [here, List.filter_cons]

/-- Entries with the same key stay in their order. -/
theorem sortBy_filter (k : κ) (entries : List α) :
    (sortBy key entries).filter (key · = k) = entries.filter (key · = k) := by
  induction entries with
  | nil => rfl
  | cons a entries ih =>
    rw [sortBy, List.insertionSort_cons, orderedInsert_filter, List.filter_cons, List.filter_cons]
    exact congrArg (fun rest => if decide (key a = k) = true then a :: rest else rest) ih

theorem sortBy_sorted (entries : List α) : (sortBy key entries).Pairwise fun a b => key a ≤ key b := by
  have total : Std.Total fun a b : α => key a ≤ key b := ⟨fun a b => le_total (key a) (key b)⟩
  have trans : IsTrans α fun a b => key a ≤ key b := ⟨fun a b c before after => le_trans before after⟩
  exact List.pairwise_insertionSort _ entries

theorem sortBy_perm (entries : List α) : (sortBy key entries).Perm entries := List.perm_insertionSort _ entries

/-- What is kept of a list and sorted does not depend on the order of the list if no two things that are
kept have the same key. -/
theorem sortBy_filterMap_iff {f : β → Option α} {names : List β} :
    (∀ names' : List β, names'.Perm names → sortBy key (names'.filterMap f) = sortBy key (names.filterMap f)) ↔
      ∀ a ∈ names.filterMap f, ∀ a' ∈ names.filterMap f, key a = key a' → a = a' := by
  constructor
  · intro same
    by_contra ties
    simp only [not_forall] at ties
    obtain ⟨a, member, a', member', tied, differ⟩ := ties
    obtain ⟨n, inside, kept⟩ := List.mem_filterMap.mp member
    obtain ⟨n', inside', kept'⟩ := List.mem_filterMap.mp member'
    have first {m : β} {b : α} (there : m ∈ names) (keeps : f m = some b) (key_b : key b = key a) :
        ((sortBy key (names.filterMap f)).filter (key · = key a)).head? = some b := by
      obtain ⟨before, after, whole⟩ := List.append_of_mem there
      have moved : (m :: (before ++ after)).Perm names := whole ▸ List.perm_middle.symm
      rw [← same _ moved, sortBy_filter, List.filterMap_cons_some keeps, List.filter_cons_of_pos (by simpa using key_b)]
      rfl
    exact differ (Option.some.inj ((first inside kept rfl).symm.trans (first inside' kept' tied.symm)))
  · intro distinct names' perm
    have entries : (names'.filterMap f).Perm (names.filterMap f) := perm.filterMap f
    refine ((sortBy_perm _).trans (entries.trans (sortBy_perm _).symm)).eq_of_pairwise ?_ (sortBy_sorted _) (sortBy_sorted _)
    intro a a' member member' before after
    exact distinct a (entries.mem_iff.mp ((sortBy_perm _).mem_iff.mp member)) a' ((sortBy_perm _).mem_iff.mp member')
      (le_antisymm before after)

end Sorting
