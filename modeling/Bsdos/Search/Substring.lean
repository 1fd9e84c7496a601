import Mathlib.Data.List.Infix
import Mathlib.Tactic.Common

namespace Search

variable {α : Type} [DecidableEq α] {needle hay n raw rest : List α} {m : α}

/-- The position of the first occurrence. -/
def find (needle : List α) : List α → Option Nat
  | [] => if needle = [] then some 0 else none
  | c :: cs => if needle <+: c :: cs then some 0 else (find needle cs).map (1 + ·)

omit [DecidableEq α] in
theorem shift_shift (position : Option Nat) (a b : Nat) :
    (position.map (b + ·)).map (a + ·) = position.map (a + b + ·) := by
  rw [Option.map_map]
  congr 1
  funext i
  simp only [Function.comp_apply, Nat.add_assoc]

theorem find_here (here : needle <+: hay) : find needle hay = some 0 := by
  cases hay with
  | nil => rw [find, if_pos (List.prefix_nil.mp here)]
  | cons c cs => rw [find, if_pos here]

theorem find_next {c : α} {cs : List α} (other : ¬ needle <+: c :: cs) :
    find needle (c :: cs) = (find needle cs).map (1 + ·) := by
  rw [find, if_neg other]

theorem find_infix (inside : needle <:+: hay) : find needle hay ≠ none := by
  induction hay with
  | nil =>
    rw [find_here (List.infix_nil.mp inside ▸ List.nil_prefix)]
    simp
  | cons c cs ih =>
    by_cases here : needle <+: c :: cs
    · rw [find_here here]
      simp
    · rw [find_next here]
      have later := (List.infix_cons_iff.mp inside).resolve_left here
      simpa using ih later

/-- An occurrence is found whatever follows it. -/
theorem find_append {i : Nat} (found : find needle hay = some i) (inside : i + needle.length ≤ hay.length) (more : List α) :
    find needle (hay ++ more) = some i := by
  induction hay generalizing i with
  | nil =>
    have empty : needle = [] := List.length_eq_zero_iff.mp (by rw [List.length_nil] at inside; omega)
    subst empty
    rw [find_here List.nil_prefix] at found ⊢
    exact found
  | cons c cs ih =>
    by_cases here : needle <+: c :: cs
    · rw [find_here here] at found
      rw [find_here (here.trans (List.prefix_append _ _)), found]
    · rw [find_next here] at found
      obtain ⟨j, later, position⟩ := Option.map_eq_some_iff.mp found
      rw [List.length_cons] at inside
      have beyond : ¬ needle <+: c :: (cs ++ more) := fun wrong =>
        here (List.prefix_of_prefix_length_le wrong (List.prefix_append (c :: cs) more) (by rw [List.length_cons]; omega))
      rw [List.cons_append, find_next beyond, ih later (by omega), Option.map_some, position]

/-- What has none of the characters that the needle begins with is skipped. -/
theorem find_skip (clear : m ∉ raw) : find (m :: n) (raw ++ rest) = (find (m :: n) rest).map (raw.length + ·) := by
  induction raw with
  | nil => simp
  | cons c raw ih =>
    rw [List.mem_cons, not_or] at clear
    have other : ¬ m :: n <+: c :: (raw ++ rest) := fun here => clear.1 (List.cons_prefix_cons.mp here).1
    rw [List.cons_append, find_next other, ih clear.2, shift_shift, List.length_cons, Nat.add_comm 1]

/-- So is a piece that begins as the needle does and goes on in another way. -/
theorem find_piece {body : List α} (clear : m ∉ body) (other : ¬ n <+: body ++ rest) :
    find (m :: n) (m :: body ++ rest) = (find (m :: n) rest).map ((m :: body).length + ·) := by
  have apart : ¬ m :: n <+: m :: (body ++ rest) := fun here => other (List.cons_prefix_cons.mp here).2
  rw [List.cons_append, find_next apart, find_skip clear, shift_shift, List.length_cons, Nat.add_comm 1]

/-- Pieces that all begin with the same character. -/
def joined (m : α) (bodies : List (List α)) : List α := bodies.flatMap (m :: ·)

/-- No piece goes on as the needle does. -/
def Apart (m : α) (n rest : List α) : List (List α) → Prop
  | [] => True
  | body :: bodies => ¬ n <+: body ++ (joined m bodies ++ rest) ∧ Apart m n rest bodies

theorem find_joined {bodies : List (List α)} (clear : ∀ body ∈ bodies, m ∉ body) (apart : Apart m n rest bodies) :
    find (m :: n) (joined m bodies ++ rest) = (find (m :: n) rest).map ((joined m bodies).length + ·) := by
  induction bodies with
  | nil => simp [joined]
  | cons body bodies ih =>
    have whole : joined m (body :: bodies) = m :: body ++ joined m bodies := List.flatMap_cons
    rw [whole, List.append_assoc, find_piece (clear body List.mem_cons_self) apart.1,
      ih (fun body member => clear body (List.mem_cons_of_mem _ member)) apart.2, shift_shift, List.length_append]

omit [DecidableEq α] in
/-- Two texts without a separator that are both followed by it are compared as wholes. -/
theorem prefix_separated {a b s t : List α} (clear : m ∉ a) (clear' : m ∉ b) (here : a ++ m :: s <+: b ++ m :: t) :
    a = b ∧ s <+: t := by
  induction a generalizing b with
  | nil =>
    cases b with
    | nil => exact ⟨rfl, (List.cons_prefix_cons.mp here).2⟩
    | cons c b => exact absurd (List.cons_prefix_cons.mp here).1 fun same => clear' (same ▸ List.mem_cons_self)
  | cons c a ih =>
    cases b with
    | nil => exact absurd (List.cons_prefix_cons.mp here).1 fun same => clear (same ▸ List.mem_cons_self)
    | cons c' b =>
      obtain ⟨same, later⟩ := List.cons_prefix_cons.mp here
      obtain ⟨equal, tails⟩ := ih (fun inside => clear (List.mem_cons_of_mem _ inside))
        (fun inside => clear' (List.mem_cons_of_mem _ inside)) later
      exact ⟨by rw [same, equal], tails⟩

end Search
