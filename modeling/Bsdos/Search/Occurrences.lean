import Bsdos.Search.Substring

namespace Search

variable {α : Type} [DecidableEq α] {needle hay n raw rest : List α} {m : α} {i : Nat}

/-- The first occurrence of the needle is at this position. -/
def FirstAt (needle hay : List α) (i : Nat) : Prop := needle <+: hay.drop i ∧ ∀ j, j < i → ¬ needle <+: hay.drop j

/-- How often the needle occurs. -/
def occurrences (needle : List α) : List α → Nat
  | [] => 0
  | c :: cs => (if needle <+: c :: cs then 1 else 0) + occurrences needle cs

theorem find_firstAt_iff (filled : needle ≠ []) : find needle hay = some i ↔ FirstAt needle hay i := by
  induction hay generalizing i with
  | nil =>
    rw [find, if_neg filled]
    constructor
    · intro found
      cases found
    · intro first
      exact absurd (List.prefix_nil.mp (List.drop_nil ▸ first.1)) filled
  | cons c cs ih =>
    by_cases here : needle <+: c :: cs
    · rw [find_here here]
      constructor
      · intro same
        cases same
        exact ⟨here, fun j below => absurd below (Nat.not_lt_zero j)⟩
      · intro first
        cases i with
        | zero => rfl
        | succ i => exact absurd here (first.2 0 (Nat.succ_pos i))
    · rw [find_next here, Option.map_eq_some_iff]
      constructor
      · rintro ⟨j, found, rfl⟩
        obtain ⟨there, before⟩ := ih.mp found
        rw [Nat.add_comm]
        refine ⟨there, fun k below => ?_⟩
        cases k with
        | zero => exact here
        | succ k => exact before k (Nat.lt_of_succ_lt_succ below)
      · intro first
        cases i with
        | zero => exact absurd first.1 here
        | succ i =>
          refine ⟨i, ih.mpr ⟨first.1, fun j below => first.2 (j + 1) (Nat.succ_lt_succ below)⟩, Nat.add_comm 1 i⟩

theorem find_none_iff (filled : needle ≠ []) : find needle hay = none ↔ ¬ needle <:+: hay := by
  constructor
  · exact fun none inside => find_infix inside none
  · intro absent
    cases found : find needle hay with
    | none => rfl
    | some i =>
      have there := ((find_firstAt_iff filled).mp found).1
      exact absurd (there.isInfix.trans (List.drop_suffix i hay).isInfix) absent

omit [DecidableEq α] in
/-- The first occurrence is at one position only. -/
theorem FirstAt.unique {j : Nat} (first : FirstAt needle hay i) (first' : FirstAt needle hay j) : i = j := by
  rcases Nat.lt_trichotomy i j with less | same | more
  · exact absurd first.1 (first'.2 i less)
  · exact same
  · exact absurd first'.1 (first.2 j more)

theorem occurrences_next {c : α} {cs : List α} (other : ¬ needle <+: c :: cs) :
    occurrences needle (c :: cs) = occurrences needle cs := by
  rw [occurrences, if_neg other, Nat.zero_add]

/-- Where the character that the needle begins with does not occur, neither does the needle. -/
theorem occurrences_skip (clear : m ∉ raw) : occurrences (m :: n) (raw ++ rest) = occurrences (m :: n) rest := by
  induction raw with
  | nil => rfl
  | cons c raw ih =>
    rw [List.mem_cons, not_or] at clear
    have other : ¬ m :: n <+: c :: (raw ++ rest) := fun here => clear.1 (List.cons_prefix_cons.mp here).1
    rw [List.cons_append, occurrences_next other, ih clear.2]

theorem occurrences_here (clear : m ∉ n) : occurrences (m :: n) (m :: n ++ rest) = 1 + occurrences (m :: n) rest := by
  have here : m :: n <+: m :: (n ++ rest) := List.prefix_append (m :: n) rest
  rw [List.cons_append, occurrences, if_pos here, occurrences_skip clear]

/-- A piece that begins as the needle does and goes on in another way. -/
theorem occurrences_piece {body : List α} (clear : m ∉ body) (other : ¬ n <+: body ++ rest) :
    occurrences (m :: n) (m :: body ++ rest) = occurrences (m :: n) rest := by
  have apart : ¬ m :: n <+: m :: (body ++ rest) := fun here => other (List.cons_prefix_cons.mp here).2
  rw [List.cons_append, occurrences_next apart, occurrences_skip clear]

theorem occurrences_short (short : hay.length < needle.length) : occurrences needle hay = 0 := by
  induction hay with
  | nil => rfl
  | cons c cs ih =>
    have other : ¬ needle <+: c :: cs := fun here => absurd here.length_le (Nat.not_le.mpr short)
    rw [List.length_cons] at short
    rw [occurrences_next other, ih (by omega)]

end Search
