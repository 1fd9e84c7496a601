import Mathlib.Data.Set.Basic
import Mathlib.Logic.Relation

namespace Effects

/-- Who holds which of the resources that are live. -/
@[ext] structure Ledger (H R : Type) where
  live : Set R
  holds : H → Set R

namespace Ledger

variable {H R : Type}

/-- What can be done without losing track of a resource: a new one is handed to its
maker, one is destroyed by its holder, some change hands. -/
inductive Move (l l' : Ledger H R) : Prop
  | create (h : H) (r : R) : r ∉ l.live → (∀ r', r' ∈ l'.live ↔ r' ∈ l.live ∨ r' = r) →
      (∀ h' r', r' ∈ l'.holds h' ↔ r' ∈ l.holds h' ∨ h' = h ∧ r' = r) → Move l l'
  | destroy (h : H) (r : R) : r ∈ l.holds h ∨ r ∉ l.live → (∀ r', r' ∈ l'.live ↔ r' ∈ l.live ∧ r' ≠ r) →
      (∀ h' r', r' ∈ l'.holds h' ↔ r' ∈ l.holds h' ∧ (h' = h → r' ≠ r)) → Move l l'
  | transfer (giver taker : H) (given : Set R) : given ⊆ l.holds giver → (∀ r, r ∈ l'.live ↔ r ∈ l.live) →
      (∀ h r, r ∈ l'.holds h ↔ r ∈ l.holds h ∧ (h = giver → r ∉ given) ∨ h = taker ∧ r ∈ given) → Move l l'

abbrev Moves : Ledger H R → Ledger H R → Prop := Relation.ReflTransGen Move

/-- A holder lets go of all it holds, and nobody destroys it. -/
def forget (l : Ledger H R) (h : H) : Ledger H R := ⟨l.live, fun h' => {r | h' ≠ h ∧ r ∈ l.holds h'}⟩

/-- Only live resources are held, each by one holder. -/
structure Sound (l : Ledger H R) : Prop where
  live : ∀ h r, r ∈ l.holds h → r ∈ l.live
  once : ∀ h h' r, r ∈ l.holds h → r ∈ l.holds h' → h = h'

/-- Every live resource is held. -/
def Complete (l : Ledger H R) : Prop := ∀ r ∈ l.live, ∃ h, r ∈ l.holds h

variable {l l' : Ledger H R}

theorem Sound.move (sound : l.Sound) (move : Move l l') : l'.Sound := by
  cases move with
  | create h r new live holds =>
    have fresh (h' : H) : r ∉ l.holds h' := fun held => new (sound.live _ _ held)
    refine ⟨fun h' r' held => ?_, fun h₁ h₂ r' first second => ?_⟩
    · rw [live]
      exact ((holds _ _).mp held).imp (sound.live _ _) And.right
    · rcases (holds _ _).mp first with old | ⟨rfl, rfl⟩
      · rcases (holds _ _).mp second with old' | ⟨_, rfl⟩
        · exact sound.once _ _ _ old old'
        · exact absurd old (fresh _)
      · rcases (holds _ _).mp second with old' | ⟨rfl, _⟩
        · exact absurd old' (fresh _)
        · rfl
  | destroy h r owned live holds =>
    refine ⟨fun h' r' held => ?_, fun h₁ h₂ r' first second => ?_⟩
    · obtain ⟨old, kept⟩ := (holds _ _).mp held
      refine (live _).mpr ⟨sound.live _ _ old, fun same => ?_⟩
      subst same
      rcases owned with own | dead
      · exact kept (sound.once _ _ _ old own) rfl
      · exact dead (sound.live _ _ old)
    · exact sound.once _ _ _ ((holds _ _).mp first).1 ((holds _ _).mp second).1
  | transfer giver taker given owned live holds =>
    refine ⟨fun h r held => ?_, fun h₁ h₂ r first second => ?_⟩
    · rw [live]
      rcases (holds _ _).mp held with ⟨old, _⟩ | ⟨_, moved⟩
      · exact sound.live _ _ old
      · exact sound.live _ _ (owned moved)
    · rcases (holds _ _).mp first with ⟨old, kept⟩ | ⟨rfl, moved⟩
      · rcases (holds _ _).mp second with ⟨old', _⟩ | ⟨_, moved⟩
        · exact sound.once _ _ _ old old'
        · exact absurd moved (kept (sound.once _ _ _ old (owned moved)))
      · rcases (holds _ _).mp second with ⟨old', kept⟩ | ⟨rfl, _⟩
        · exact absurd moved (kept (sound.once _ _ _ old' (owned moved)))
        · rfl

theorem Complete.move (complete : l.Complete) (move : Move l l') : l'.Complete := by
  intro r alive
  cases move with
  | create h r' new live holds =>
    rcases (live _).mp alive with old | rfl
    · obtain ⟨h', held⟩ := complete r old
      exact ⟨h', (holds _ _).mpr (.inl held)⟩
    · exact ⟨h, (holds _ _).mpr (.inr ⟨rfl, rfl⟩)⟩
  | destroy h r' owned live holds =>
    obtain ⟨old, kept⟩ := (live _).mp alive
    obtain ⟨h', held⟩ := complete r old
    exact ⟨h', (holds _ _).mpr ⟨held, fun _ => kept⟩⟩
  | transfer giver taker given owned live holds =>
    obtain ⟨h, held⟩ := complete r ((live _).mp alive)
    by_cases moved : h = giver ∧ r ∈ given
    · exact ⟨taker, (holds _ _).mpr (.inr ⟨rfl, moved.2⟩)⟩
    · exact ⟨h, (holds _ _).mpr (.inl ⟨held, fun gave given => moved ⟨gave, given⟩⟩)⟩

theorem Sound.moves (sound : l.Sound) (moves : Moves l l') : l'.Sound := by
  induction moves with
  | refl => exact sound
  | tail _ move ih => exact ih.move move

theorem Complete.moves (complete : l.Complete) (moves : Moves l l') : l'.Complete := by
  induction moves with
  | refl => exact complete
  | tail _ move ih => exact ih.move move

theorem mem_forget {h h' : H} {r : R} : r ∈ (l.forget h).holds h' ↔ h' ≠ h ∧ r ∈ l.holds h' := Iff.rfl

theorem Sound.forget (sound : l.Sound) (h : H) : (l.forget h).Sound :=
  ⟨fun h' r held => sound.live h' r held.2, fun _ _ _ first second => sound.once _ _ _ first.2 second.2⟩

theorem Complete.forget (complete : l.Complete) {h : H} (empty : l.holds h = ∅) : (l.forget h).Complete := by
  intro r live
  obtain ⟨h', held⟩ := complete r live
  refine ⟨h', fun same => ?_, held⟩
  subst same
  exact (empty ▸ held : r ∈ (∅ : Set R))

end Ledger

end Effects
