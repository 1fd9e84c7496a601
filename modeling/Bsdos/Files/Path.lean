import Bsdos.Text

namespace Files
open Bsdos

/-- Where a directory is: the names that lead to it from the root of the file system. -/
abbrev Place := List String

instance (place : Place) (places : List Place) : Decidable (place ∈ places) := inferInstance

/-- One component of a path, taken from `here`. The root is its own parent. -/
def enter (here : Place) (name : String) : Place :=
  if name = "" ∨ name = "." then here
  else if name = ".." then here.dropLast
  else here ++ [name]

/-- The place a path designates, relative paths being taken from `cwd`. -/
def resolve (cwd : Place) (path : String) : Place :=
  (Text.split '/' path).foldl enter (if path.toList.head? = some '/' then [] else cwd)

/-- A name that enters the directory it names. -/
def Proper (name : String) : Prop := name ≠ "" ∧ name ≠ "." ∧ name ≠ ".."

instance {name : String} : Decidable (Proper name) := inferInstanceAs (Decidable (_ ∧ _ ∧ _))

/-- `dir` is right inside `base`. -/
def Child (base dir : Place) : Prop := ∃ name, dir = base ++ [name]

/-- Neither of two directories contains the other. -/
def Apart (dir dir' : Place) : Prop := ¬ dir <+: dir' ∧ ¬ dir' <+: dir

@[simp] theorem enter_empty (here : Place) : enter here "" = here := if_pos (Or.inl rfl)

@[simp] theorem enter_dot (here : Place) : enter here "." = here := if_pos (Or.inr rfl)

@[simp] theorem enter_dotdot (here : Place) : enter here ".." = here.dropLast := rfl

theorem Proper.enter {name : String} (proper : Proper name) (here : Place) : enter here name = here ++ [name] := by
  unfold Files.enter
  rw [if_neg (fun dot => dot.elim proper.1 proper.2.1), if_neg proper.2.2]

/-- A name is a child of every directory it is taken from exactly if it is a proper one. -/
theorem child_enter_iff {name : String} {here : Place} : Child here (enter here name) ↔ Proper name := by
  constructor
  · rintro ⟨child, inside⟩
    have longer : (enter here name).length = here.length + 1 := by rw [inside, List.length_append, List.length_singleton]
    refine ⟨?_, ?_, ?_⟩
    · rintro rfl
      rw [enter_empty] at longer
      omega
    · rintro rfl
      rw [enter_dot] at longer
      omega
    · rintro rfl
      rw [enter_dotdot, List.length_dropLast] at longer
      omega
  · intro proper
    exact ⟨name, proper.enter here⟩

/-- What is entered by a name that is not proper contains every directory entered from there. -/
theorem enter_contains {name other : String} {here : Place} (improper : ¬ Proper name) (differ : name ≠ other)
    (nonempty : other ≠ "") (filled : name ≠ "") : enter here name <+: enter here other ∨ enter here other <+: enter here name := by
  have dotted : name = "." ∨ name = ".." := by
    by_contra neither
    exact improper ⟨filled, fun dot => neither (Or.inl dot), fun dots => neither (Or.inr dots)⟩
  have above : here.dropLast <+: here := List.dropLast_prefix here
  by_cases proper : Proper other
  · have inside : here <+: enter here other := proper.enter here ▸ List.prefix_append here [other]
    rcases dotted with rfl | rfl
    · exact Or.inl (by simpa only [enter_dot] using inside)
    · exact Or.inl (by simpa only [enter_dotdot] using above.trans inside)
  · have dotted' : other = "." ∨ other = ".." := by
      by_contra neither
      exact proper ⟨nonempty, fun dot => neither (Or.inl dot), fun dots => neither (Or.inr dots)⟩
    rcases dotted with rfl | rfl <;> rcases dotted' with rfl | rfl
    · exact absurd rfl differ
    · exact Or.inr (by simpa only [enter_dot, enter_dotdot] using above)
    · exact Or.inl (by simpa only [enter_dot, enter_dotdot] using above)
    · exact absurd rfl differ

/-- Two children of one directory are apart exactly if they have different names. -/
theorem apart_child_iff {base : Place} {name other : String} : Apart (base ++ [name]) (base ++ [other]) ↔ name ≠ other := by
  have alike {a b : String} (inside : base ++ [a] <+: base ++ [b]) : a = b := by
    have same := inside.eq_of_length (by simp only [List.length_append, List.length_singleton])
    exact List.singleton_inj.mp (List.append_cancel_left same)
  constructor
  · rintro ⟨outside, _⟩ rfl
    exact outside (List.prefix_refl _)
  · intro differ
    exact ⟨fun inside => differ (alike inside), fun inside => differ (alike inside).symm⟩

/-- Two names enter directories apart from each other exactly if both are proper. -/
theorem apart_enter_iff {name other : String} {here : Place} (differ : name ≠ other) (filled : name ≠ "")
    (filled' : other ≠ "") : Apart (enter here name) (enter here other) ↔ Proper name ∧ Proper other := by
  constructor
  · rintro ⟨not_in, not_in'⟩
    refine ⟨?_, ?_⟩
    · by_contra improper
      exact (enter_contains improper differ filled' filled).elim not_in not_in'
    · by_contra improper
      exact (enter_contains improper differ.symm filled filled').elim not_in' not_in
  · rintro ⟨proper, proper'⟩
    rw [proper.enter, proper'.enter]
    exact apart_child_iff.mpr differ

end Files
