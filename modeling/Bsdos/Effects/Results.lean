import Mathlib.Logic.Basic

namespace Results
variable {ε ε' α β : Type}

/-- Steps that go through have gone through one by one. -/
theorem bind_ok {x : Except ε α} {f : α → Except ε β} {b : β} (ok : x >>= f = .ok b) : ∃ a, x = .ok a ∧ f a = .ok b := by
  cases x with
  | error e => exact absurd ok nofun
  | ok a => exact ⟨a, rfl, ok⟩

theorem bind_ok_iff {x : Except ε α} {f : α → Except ε β} {b : β} : x >>= f = .ok b ↔ ∃ a, x = .ok a ∧ f a = .ok b := by
  refine ⟨bind_ok, ?_⟩
  rintro ⟨a, rfl, ok⟩
  exact ok

/-- A check that throws has not thrown. -/
theorem guard_ok {p : Prop} [Decidable p] {e : ε} {x : Except ε α} {f : β → Except ε α} {a : α} :
    (if p then throw e >>= f else x) = .ok a ↔ ¬ p ∧ x = .ok a := by
  by_cases thrown : p
  · rw [if_pos thrown]
    exact ⟨fun ok => absurd ok (by simp [throw, throwThe, MonadExceptOf.throw, bind, Except.bind]), fun ok => absurd thrown ok.1⟩
  · rw [if_neg thrown]
    exact ⟨fun ok => ⟨thrown, ok⟩, fun ok => ok.2⟩

theorem mapError_ok {x : Except ε α} {wrap : ε → ε'} {a : α} : x.mapError wrap = .ok a ↔ x = .ok a := by
  cases x with
  | error e => exact ⟨nofun, nofun⟩
  | ok a' =>
    show Except.ok a' = .ok a ↔ Except.ok a' = .ok a
    rw [Except.ok.injEq, Except.ok.injEq]

end Results
