import Bsdos.Effects.Replay

namespace Effects

variable {E : Signature} {A W G : Type}

/-- A record kept beside a system: what is written down of an answered call and of
a change of the surroundings, given the world before it. -/
structure Observer (S : System E A W) (G : Type) where
  sees : G → A → W → (op : E.Op) → E.Ret op → G
  feels : G → W → S.Env → G

/-- The system whose world carries the record. No party can read it. -/
def System.observed (S : System E A W) (o : Observer S G) : System E A (W × G) where
  Request := S.Request
  Env := S.Env
  may a w := S.may a w.1
  effect a w op r := (S.effect a w.1 op r, o.sees w.2 a w.1 op r)
  serve := S.serve
  droppable := S.droppable
  surroundings w change := (S.surroundings w.1 change).map fun w' => (w', o.feels w.2 w.1 change)

/-- The configuration without the record. -/
def Config.unobserved (c : Config E A (W × G)) : Config E A W := ⟨c.world.1, c.history, c.running⟩

def Config.withRecord (c : Config E A W) (g : G) : Config E A (W × G) := ⟨(c.world, g), c.history, c.running⟩

variable {S : System E A W} {o : Observer S G}

def Label.unobserved : Label (S.observed o) → Label S
  | .begin a request => .begin a request
  | .act event => .act event
  | .finish a => .finish a
  | .drop a => .drop a
  | .env change => .env change

def Label.observed (o : Observer S G) : Label S → Label (S.observed o)
  | .begin a request => .begin a request
  | .act event => .act event
  | .finish a => .finish a
  | .drop a => .drop a
  | .env change => .env change

variable [DecidableEq A]

theorem Step.unobserved {c c' : Config E A (W × G)} {l : Label (S.observed o)}
    (step : Step (S.observed o) c l c') : Step S c.unobserved l.unobserved c'.unobserved := by
  cases step with
  | begin idle serve => exact Step.begin (c := c.unobserved) idle serve
  | act at_work may => exact Step.act (c := c.unobserved) at_work may
  | finish at_work => exact Step.finish (c := c.unobserved) at_work
  | drop at_work droppable => exact Step.drop (c := c.unobserved) at_work droppable
  | env moved =>
    obtain ⟨w, there, rfl⟩ := Option.map_eq_some_iff.mp moved
    exact Step.env (c := c.unobserved) there

theorem Step.observed {c c' : Config E A W} {l : Label S} (step : Step S c l c') (g : G) :
    ∃ g', Step (S.observed o) (c.withRecord g) (l.observed o) (c'.withRecord g') := by
  cases step with
  | begin idle serve => exact ⟨g, Step.begin (S := S.observed o) (c := c.withRecord g) idle serve⟩
  | act at_work may => exact ⟨_, Step.act (S := S.observed o) (c := c.withRecord g) at_work may⟩
  | finish at_work => exact ⟨g, Step.finish (S := S.observed o) (c := c.withRecord g) at_work⟩
  | drop at_work droppable => exact ⟨g, Step.drop (S := S.observed o) (c := c.withRecord g) at_work droppable⟩
  | env moved =>
    exact ⟨_, Step.env (S := S.observed o) (c := c.withRecord g) (Option.map_eq_some_iff.mpr ⟨_, moved, rfl⟩)⟩

variable {ok : Config E A W → Label S → Prop} {ok' : Config E A (W × G) → Label (S.observed o) → Prop}

/-- A run with a record is a run. -/
theorem Reach.unobserved {start c : Config E A (W × G)} (reach : Reach (S.observed o) ok' start c)
    (imp : ∀ c l, ok' c l → ok c.unobserved l.unobserved) : Reach S ok start.unobserved c.unobserved := by
  induction reach with
  | start => exact .start
  | next _ step admitted ih => exact .next ih step.unobserved (imp _ _ admitted)

/-- Every run can be watched: the record hinders none. -/
theorem Reach.observed {start c : Config E A W} (reach : Reach S ok start c) (first : G) :
    ∃ g, Reach (S.observed o) (fun c l => ok c.unobserved l.unobserved) (start.withRecord first) (c.withRecord g) := by
  induction reach with
  | start => exact ⟨first, .start⟩
  | @next c l c' _ step admitted ih =>
    obtain ⟨g, reach⟩ := ih
    obtain ⟨g', step⟩ := step.observed (o := o) g
    refine ⟨g', .next reach step ?_⟩
    cases l <;> exact admitted

end Effects
