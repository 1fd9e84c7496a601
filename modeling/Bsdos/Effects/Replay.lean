import Bsdos.Effects.Fallible

namespace Effects

variable {E : Signature} {A W : Type} [DecidableEq E.Op] {S : System E A W}

section schedule
variable [DecidableEq A]

/-- The step with a given label, where it can be taken. -/
def Config.fire (c : Config E A W) : Label S → Option (Config E A W)
  | .begin a request =>
    match c.running a, S.serve a request with
    | none, some program => some { c with running := Function.update c.running a (some program) }
    | _, _ => none
  | .act ⟨a, op, r⟩ =>
    match c.running a with
    | some (.call op' next) =>
      if same : op = op' then
        if S.may a c.world op r then
          some ⟨S.effect a c.world op r, ⟨a, op, r⟩ :: c.history,
            Function.update c.running a (some (next (same ▸ r)))⟩
        else none
      else none
    | _ => none
  | .finish a =>
    match c.running a with
    | some (.ret ()) => some { c with running := Function.update c.running a none }
    | _ => none
  | .drop a =>
    match c.running a with
    | some (.call op _) =>
      if S.droppable a op then some { c with running := Function.update c.running a none } else none
    | _ => none
  | .env change => (S.surroundings c.world change).map fun w => { c with world := w }

theorem Config.fire_step {c c' : Config E A W} {l : Label S} (fired : c.fire l = some c') :
    Step S c l c' := by
  cases l with
  | begin a request =>
    simp only [Config.fire] at fired
    split at fired
    · rename_i program idle serve
      cases fired
      exact .begin idle serve
    · cases fired
  | act event =>
    obtain ⟨a, op, r⟩ := event
    simp only [Config.fire] at fired
    split at fired
    · rename_i op' next at_work
      split at fired
      · rename_i same
        subst same
        split at fired
        · rename_i may
          cases fired
          exact .act at_work may
        · cases fired
      · cases fired
    · cases fired
  | finish a =>
    simp only [Config.fire] at fired
    split at fired
    · rename_i at_work
      cases fired
      exact .finish at_work
    · cases fired
  | drop a =>
    simp only [Config.fire] at fired
    split at fired
    · rename_i op next at_work
      split at fired
      · rename_i droppable
        cases fired
        exact .drop at_work droppable
      · cases fired
    · cases fired
  | env change =>
    obtain ⟨w, moved, rfl⟩ := Option.map_eq_some_iff.mp fired
    exact .env moved

/-- A schedule, taken step by step while `good` admits it. -/
def replay (good : Config E A W → Label S → Bool) (c : Config E A W) :
    List (Label S) → Option (Config E A W)
  | [] => some c
  | l :: schedule => if good c l then (c.fire l).bind fun c' => replay good c' schedule else none

theorem replay_reach {good : Config E A W → Label S → Bool} {ok : Config E A W → Label S → Prop}
    (sound : ∀ c l, good c l = true → ok c l) {start c : Config E A W} {schedule : List (Label S)}
    (run : replay good start schedule = some c) : Reach S ok start c := by
  induction schedule generalizing start with
  | nil => cases run; exact .start
  | cons l schedule ih =>
    simp only [replay] at run
    split at run
    · rename_i admitted
      obtain ⟨middle, fired, later⟩ := Option.bind_eq_some_iff.mp run
      exact (Reach.next .start (Config.fire_step fired) (sound _ _ admitted)).trans (ih later)
    · cases run

/-- A schedule that ends where `check` says so is a run to such a configuration. -/
theorem replay_check (good : Config E A W → Label S → Bool) {ok : Config E A W → Label S → Prop}
    (sound : ∀ c l, good c l = true → ok c l) (start : Config E A W) (schedule : List (Label S))
    (check : Config E A W → Bool) (run : (replay good start schedule).any check = true) :
    ∃ c, Reach S ok start c ∧ check c = true := by
  obtain ⟨c, run, checked⟩ := (Option.any_eq_true _ _).mp run
  exact ⟨c, replay_reach sound run, checked⟩

/-- The steps of an actor whose calls get the listed answers. -/
def calling (S : System E A W) (a : A) (answers : List ((op : E.Op) × E.Ret op)) : List (Label S) :=
  answers.map fun answer => .act ⟨a, answer.1, answer.2⟩

/-- The steps of one request served without interruption. -/
def serving (S : System E A W) (a : A) (request : S.Request) (answers : List ((op : E.Op) × E.Ret op)) :
    List (Label S) :=
  .begin a request :: calling S a answers ++ [.finish a]

end schedule

/-- The uninterrupted execution in which the calls get the listed answers. -/
def play {α : Type} (S : System E A W) (a : A) :
    Prog E α → W → List ((op : E.Op) × E.Ret op) → Option (List (Moment E W) × α × W)
  | .ret value, w, [] => some ([], value, w)
  | .call op next, w, ⟨op', answer⟩ :: answers =>
    if same : op' = op then
      let r : E.Ret op := same ▸ answer
      if S.may a w op r then
        (play S a (next r) (S.effect a w op r) answers).map fun out => (⟨w, op, r⟩ :: out.1, out.2)
      else none
    else none
  | _, _, _ => none

theorem play_exec {α : Type} {a : A} {p : Prog E α} {w : W} {answers : List ((op : E.Op) × E.Ret op)}
    {out : List (Moment E W) × α × W} (played : play S a p w answers = some out) :
    Exec S a p w out.1 out.2.1 out.2.2 := by
  induction p generalizing w answers out with
  | ret value =>
    cases answers with
    | nil => cases played; exact ⟨rfl, rfl, rfl⟩
    | cons => cases played
  | call op next ih =>
    cases answers with
    | nil => cases played
    | cons first answers =>
      obtain ⟨op', answer⟩ := first
      simp only [play] at played
      split at played
      · rename_i same
        subst same
        split at played
        · rename_i may
          obtain ⟨rest, later, rfl⟩ := Option.map_eq_some_iff.mp played
          exact ⟨answer, rest.1, may, rfl, ih answer later⟩
        · cases played
      · cases played

theorem play_check {α : Type} {a : A} {p : Prog E α} {w : W} (answers : List ((op : E.Op) × E.Ret op))
    (check : List (Moment E W) × α × W → Bool) (run : (play S a p w answers).any check = true) :
    ∃ moments value w', Exec S a p w moments value w' ∧ check (moments, value, w') = true := by
  obtain ⟨out, played, checked⟩ := (Option.any_eq_true _ _).mp run
  exact ⟨out.1, out.2.1, out.2.2, play_exec played, checked⟩

end Effects
