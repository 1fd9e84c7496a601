import Bsdos.Effects.Exec

namespace Effects

variable {E : Signature} {A W ε α β : Type}

/-! Programs that can end early with an error, as `ExceptT` over `Prog`. -/

theorem run_tryBind (x : ExceptT ε (Prog E) α) (f : α → ExceptT ε (Prog E) β) :
    (x >>= f).run = x.run >>= fun
      | .ok a => (f a).run
      | .error e => Prog.ret (.error e) := rfl

@[simp] theorem run_pure (a : α) : (pure a : ExceptT ε (Prog E) α).run = Prog.ret (.ok a) := rfl

@[simp] theorem run_throw (e : ε) : (throw e : ExceptT ε (Prog E) α).run = Prog.ret (.error e) := rfl

@[simp] theorem run_liftProg (p : Prog E α) :
    (liftM p : ExceptT ε (Prog E) α).run = p >>= fun a => Prog.ret (.ok a) := rfl

@[simp] theorem run_liftExcept (r : Except ε α) : (liftM r : ExceptT ε (Prog E) α).run = Prog.ret r := rfl

theorem run_liftBind (p : Prog E α) (f : α → ExceptT ε (Prog E) β) :
    ((liftM p : ExceptT ε (Prog E) α) >>= f).run = p >>= fun a => (f a).run := by
  rw [run_tryBind, run_liftProg]
  exact bind_assoc _ _ _

theorem Prog.Only.tryBind {Q : E.Op → Prop} {x : ExceptT ε (Prog E) α} {f : α → ExceptT ε (Prog E) β}
    (first : x.run.Only Q) (rest : ∀ a, (f a).run.Only Q) : (x >>= f).run.Only Q := by
  rw [run_tryBind]
  refine first.bind fun r => ?_
  cases r with
  | ok a => exact rest a
  | error e => trivial

theorem Prog.Follows.tryBind {Γ : Type} {P : Protocol E Γ} {x : ExceptT ε (Prog E) α}
    {f : α → ExceptT ε (Prog E) β} {M : Except ε α → Γ → Prop} {post : Except ε β → Γ → Prop} {γ : Γ}
    (first : x.run.Follows P M γ)
    (ok : ∀ a γ', M (.ok a) γ' → (f a).run.Follows P post γ')
    (error : ∀ e γ', M (.error e) γ' → post (.error e) γ') : (x >>= f).run.Follows P post γ := by
  rw [run_tryBind]
  refine first.bind fun r γ' reached => ?_
  cases r with
  | ok a => exact ok a γ' reached
  | error e => exact error e γ' reached

/-- One condition on what goes through, another on what ends early. -/
def Outcome (ok : α → Prop) (error : ε → Prop) : Except ε α → Prop
  | .ok a => ok a
  | .error e => error e

theorem exec_tryBind {S : System E A W} {a : A} {x : ExceptT ε (Prog E) α}
    {f : α → ExceptT ε (Prog E) β} {w w' : W} {moments : List (Moment E W)} {value : Except ε β} :
    Exec S a (x >>= f).run w moments value w' ↔
      (∃ first v u rest, Exec S a x.run w first (.ok v) u ∧ Exec S a (f v).run u rest value w' ∧
        moments = first ++ rest) ∨
      ∃ e, Exec S a x.run w moments (.error e) w' ∧ value = .error e := by
  rw [run_tryBind, exec_bind]
  constructor
  · rintro ⟨first, r, u, rest, front, back, rfl⟩
    cases r with
    | ok v => exact Or.inl ⟨first, v, u, rest, front, back, rfl⟩
    | error e =>
      obtain ⟨rfl, rfl, rfl⟩ := back
      exact Or.inr ⟨e, by simpa only [List.append_nil] using front, rfl⟩
  · rintro (⟨first, v, u, rest, front, back, rfl⟩ | ⟨e, front, rfl⟩)
    · exact ⟨first, .ok v, u, rest, front, back, rfl⟩
    · exact ⟨moments, .error e, w', [], front, ⟨rfl, rfl, rfl⟩, (List.append_nil _).symm⟩

/-- What goes through is followed by the rest. -/
theorem exec_through {S : System E A W} {a : A} {x : ExceptT ε (Prog E) α} {f : α → ExceptT ε (Prog E) β} {w u w' : W}
    {first rest : List (Moment E W)} {v : α} {value : Except ε β} (front : Exec S a x.run w first (.ok v) u)
    (back : Exec S a (f v).run u rest value w') : Exec S a (x >>= f).run w (first ++ rest) value w' :=
  exec_tryBind.mpr (.inl ⟨first, v, u, rest, front, back, rfl⟩)

/-- What goes through has gone through in both parts. -/
theorem exec_tryBind_ok {S : System E A W} {a : A} {x : ExceptT ε (Prog E) α}
    {f : α → ExceptT ε (Prog E) β} {w w' : W} {moments : List (Moment E W)} {value : β}
    (exec : Exec S a (x >>= f).run w moments (.ok value) w') :
    ∃ first v u rest, Exec S a x.run w first (.ok v) u ∧ Exec S a (f v).run u rest (.ok value) w' ∧
      moments = first ++ rest := by
  rcases exec_tryBind.mp exec with both | ⟨e, _, wrong⟩
  · exact both
  · cases wrong

/-- A call that the first part cannot make is made by the rest, after the first part went through. -/
theorem exec_tryBind_later {S : System E A W} {a : A} {x : ExceptT ε (Prog E) α}
    {f : α → ExceptT ε (Prog E) β} {w w' : W} {moments : List (Moment E W)} {value : Except ε β}
    {Q : E.Op → Prop} {m : Moment E W} (exec : Exec S a (x >>= f).run w moments value w') (only : x.run.Only Q)
    (member : m ∈ moments) (other : ¬ Q m.op) :
    ∃ first v u rest, Exec S a x.run w first (.ok v) u ∧ Exec S a (f v).run u rest value w' ∧ m ∈ rest := by
  rcases exec_tryBind.mp exec with ⟨first, v, u, rest, front, back, rfl⟩ | ⟨e, front, _⟩
  · rcases List.mem_append.mp member with early | late
    · exact absurd (front.only only m early) other
    · exact ⟨first, v, u, rest, front, back, late⟩
  · exact absurd (front.only only m member) other

/-- The outcome of a fallible task, looked at instead of passed on. -/
def attempt (task : ExceptT ε (Prog E) α) : ExceptT ε (Prog E) (Except ε α) :=
  ExceptT.mk (task.run >>= fun r => pure (.ok r))

theorem run_attemptBind (task : ExceptT ε (Prog E) α) (f : Except ε α → ExceptT ε (Prog E) β) :
    (attempt task >>= f).run = task.run >>= fun r => (f r).run := by
  rw [run_tryBind]
  exact bind_assoc _ _ _

theorem attempt_only {Q : E.Op → Prop} {task : ExceptT ε (Prog E) α} (only : task.run.Only Q) :
    (attempt task).run.Only Q :=
  only.bind fun _ => trivial

/-- A failed attempt is an outcome like any other. -/
theorem follows_attempt {Γ : Type} {P : Protocol E Γ} {γ : Γ} {task : ExceptT ε (Prog E) α}
    {f : Except ε α → ExceptT ε (Prog E) β} {M : Except ε α → Γ → Prop} {post : Except ε β → Γ → Prop}
    (first : task.run.Follows P M γ) (rest : ∀ r γ', M r γ' → (f r).run.Follows P post γ') :
    (attempt task >>= f).run.Follows P post γ := by
  rw [run_attemptBind]
  exact first.bind rest

theorem exec_attempt {S : System E A W} {a : A} {task : ExceptT ε (Prog E) α}
    {f : Except ε α → ExceptT ε (Prog E) β} {w w' : W} {moments : List (Moment E W)} {value : Except ε β} :
    Exec S a (attempt task >>= f).run w moments value w' ↔
      ∃ first r u rest, Exec S a task.run w first r u ∧ Exec S a (f r).run u rest value w' ∧
        moments = first ++ rest := by
  rw [run_attemptBind]
  exact exec_bind

end Effects
