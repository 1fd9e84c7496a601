import Mathlib.Data.List.TakeWhile

namespace Search

variable {α : Type} [DecidableEq α]

/-- What is before an element where it is first, and what is after it. -/
def cut (sep : α) (as : List α) : Option (List α × List α) :=
  match as.dropWhile (· ≠ sep) with
  | [] => none
  | _ :: back => some (as.takeWhile (· ≠ sep), back)

theorem cut_iff {sep : α} {as front back : List α} : cut sep as = some (front, back) ↔ as = front ++ sep :: back ∧ sep ∉ front := by
  constructor
  · intro found
    rw [cut] at found
    split at found
    · cases found
    · rename_i first rest dropped
      cases found
      have whole := List.takeWhile_append_dropWhile (p := fun a => decide (a ≠ sep)) (l := as)
      have same : first = sep := by
        have stopped := List.head?_dropWhile_not (fun a => decide (a ≠ sep)) as
        rw [dropped, List.head?_cons] at stopped
        exact of_not_not fun other => by simp [other] at stopped
      subst same
      rw [← dropped, whole]
      exact ⟨rfl, fun inside => absurd (List.mem_takeWhile_imp inside) (by simp)⟩
  · rintro ⟨rfl, free⟩
    have pass : ∀ a ∈ front, decide (a ≠ sep) = true := fun a member => decide_eq_true fun same => free (same ▸ member)
    rw [cut, List.dropWhile_append_of_pos pass, List.takeWhile_append_of_pos pass, List.dropWhile_cons_of_neg (by simp),
      List.takeWhile_cons_of_neg (by simp), List.append_nil]

end Search
