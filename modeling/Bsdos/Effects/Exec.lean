import Bsdos.Effects.System

namespace Effects

/-- A call of an uninterrupted execution, with the world it was made in. -/
structure Moment (E : Signature) (W : Type) where
  before : W
  op : E.Op
  result : E.Ret op

variable {E : Signature} {A W α β : Type}

/-- Actor `a` executes the program from `w` without interruption: it makes the
calls listed, in order, and ends with `value` in world `w'`. -/
def Exec (S : System E A W) (a : A) : Prog E α → W → List (Moment E W) → α → W → Prop
  | .ret value, w, moments, value', w' => moments = [] ∧ value' = value ∧ w' = w
  | .call op next, w, moments, value', w' =>
    ∃ r rest, S.may a w op r = true ∧ moments = ⟨w, op, r⟩ :: rest ∧
      Exec S a (next r) (S.effect a w op r) rest value' w'

variable {S : System E A W} {a : A}

@[simp] theorem exec_ret {value value' : α} {w w' : W} {moments : List (Moment E W)} :
    Exec S a (.ret value) w moments value' w' ↔ moments = [] ∧ value' = value ∧ w' = w := Iff.rfl

@[simp] theorem exec_call {op : E.Op} {next : E.Ret op → Prog E α} {value' : α} {w w' : W}
    {moments : List (Moment E W)} :
    Exec S a (.call op next) w moments value' w' ↔
      ∃ r rest, S.may a w op r = true ∧ moments = ⟨w, op, r⟩ :: rest ∧
        Exec S a (next r) (S.effect a w op r) rest value' w' := Iff.rfl

theorem exec_bind {p : Prog E α} {f : α → Prog E β} {w w' : W} {moments : List (Moment E W)} {value : β} :
    Exec S a (p >>= f) w moments value w' ↔
      ∃ first middle u rest, Exec S a p w first middle u ∧ Exec S a (f middle) u rest value w' ∧
        moments = first ++ rest := by
  induction p generalizing w moments with
  | ret middle =>
    constructor
    · intro exec
      exact ⟨[], middle, w, moments, ⟨rfl, rfl, rfl⟩, exec, rfl⟩
    · rintro ⟨first, _, _, rest, ⟨rfl, rfl, rfl⟩, exec, rfl⟩
      exact exec
  | call op next ih =>
    constructor
    · rintro ⟨r, tail, may, rfl, exec⟩
      obtain ⟨first, middle, u, rest, front, back, rfl⟩ := (ih r).mp exec
      exact ⟨_, middle, u, rest, ⟨r, first, may, rfl, front⟩, back, rfl⟩
    · rintro ⟨_, middle, u, rest, ⟨r, first, may, rfl, front⟩, back, rfl⟩
      exact ⟨r, first ++ rest, may, rfl, (ih r).mpr ⟨first, middle, u, rest, front, back, rfl⟩⟩

/-- Whatever the calls of a program preserve, its executions preserve. -/
theorem Exec.preserve {p : Prog E α} {Q : E.Op → Prop} {w w' : W} {moments : List (Moment E W)}
    {value : α} {I : W → Prop} (exec : Exec S a p w moments value w') (only : p.Only Q)
    (keep : ∀ u op r, Q op → S.may a u op r = true → I u → I (S.effect a u op r)) (base : I w) : I w' := by
  induction p generalizing w moments with
  | ret => obtain ⟨_, _, rfl⟩ := exec; exact base
  | call op next ih =>
    obtain ⟨r, rest, may, _, exec⟩ := exec
    exact ih r exec (only.2 r) (keep _ _ _ only.1 may base)

theorem Exec.only {p : Prog E α} {Q : E.Op → Prop} {w w' : W} {moments : List (Moment E W)}
    {value : α} (exec : Exec S a p w moments value w') (only : p.Only Q) : ∀ m ∈ moments, Q m.op := by
  induction p generalizing w moments with
  | ret => obtain ⟨rfl, _⟩ := exec; simp
  | call op next ih =>
    obtain ⟨r, rest, _, rfl, exec⟩ := exec
    intro m member
    rcases List.mem_cons.mp member with rfl | later
    · exact only.1
    · exact ih r exec (only.2 r) m later

/-- Every call of an execution is made in a world that has what the calls preserve. -/
theorem Exec.always {p : Prog E α} {Q : E.Op → Prop} {w w' : W} {moments : List (Moment E W)}
    {value : α} {I : W → Prop} (exec : Exec S a p w moments value w') (only : p.Only Q)
    (keep : ∀ u op r, Q op → S.may a u op r = true → I u → I (S.effect a u op r)) (base : I w) :
    ∀ m ∈ moments, I m.before ∧ Q m.op := by
  induction p generalizing w moments with
  | ret => obtain ⟨rfl, _⟩ := exec; simp
  | call op next ih =>
    obtain ⟨r, rest, may, rfl, exec⟩ := exec
    intro m member
    rcases List.mem_cons.mp member with rfl | later
    · exact ⟨base, only.1⟩
    · exact ih r exec (only.2 r) (keep _ _ _ only.1 may base) m later

/-- A loop keeps whatever each of its rounds keeps, given what holds of all its calls. -/
theorem Exec.each {body : α → Prog E Unit} {I : W → Prop} {Q : Moment E W → Prop} {xs : List α} {w w' : W}
    {moments : List (Moment E W)} {value : Unit} (exec : Exec S a (Prog.each body xs) w moments value w')
    (all : ∀ m ∈ moments, Q m)
    (round : ∀ x ∈ xs, ∀ u first r v, Exec S a (body x) u first r v → (∀ m ∈ first, Q m) → I u → I v) (base : I w) :
    I w' := by
  induction xs generalizing w moments with
  | nil =>
    obtain ⟨_, _, rfl⟩ := exec
    exact base
  | cons x xs ih =>
    obtain ⟨first, r, u, rest, front, back, rfl⟩ := exec_bind.mp exec
    have kept := round x (List.mem_cons_self ..) w first r u front
      (fun m member => all m (List.mem_append_left _ member)) base
    exact ih back (fun m member => all m (List.mem_append_right _ member))
      (fun y later => round y (List.mem_cons_of_mem _ later)) kept

/-- A program has an execution where each of its calls always has an answer. -/
theorem Exec.possible {Q : E.Op → Prop} (p : Prog E α) (only : p.Only Q)
    (answered : ∀ u op, Q op → ∃ r, S.may a u op r = true) (w : W) : ∃ moments value w', Exec S a p w moments value w' := by
  induction p generalizing w with
  | ret value => exact ⟨[], value, w, rfl, rfl, rfl⟩
  | call op next ih =>
    obtain ⟨r, may⟩ := answered w op only.1
    obtain ⟨rest, value, w', exec⟩ := ih r (only.2 r) (S.effect a w op r)
    exact ⟨⟨w, op, r⟩ :: rest, value, w', r, rest, may, rfl, exec⟩

end Effects
