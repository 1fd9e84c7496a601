import Bsdos.Effects.Protocol

namespace Effects

/-- Actors sharing a world. `may` says which answers a call can get, `effect`
what the answered call does to the world; an idle actor may take up a request,
and a program waiting at a droppable call may be dropped there. -/
structure System (E : Signature) (A W : Type) where
  Request : Type
  Env : Type
  may : A → W → (op : E.Op) → E.Ret op → Bool
  effect : A → W → (op : E.Op) → E.Ret op → W
  serve : A → Request → Option (Prog E Unit)
  droppable : A → E.Op → Bool
  surroundings : W → Env → Option W

/-- The answer is what is there. -/
def truly {α : Type} [DecidableEq α] (actual answer : α) : Bool := decide (answer = actual)

variable {E : Signature} {A W : Type}

/-- The shared world, what has been done to it (newest call first), and what
each actor has left to do. -/
structure Config (E : Signature) (A W : Type) where
  world : W
  history : List (Event E A)
  running : A → Option (Prog E Unit)

/-- The configuration in which no actor is doing anything. -/
def Config.idle (w : W) : Config E A W := ⟨w, [], fun _ => none⟩

inductive Label (S : System E A W) where
  | begin (a : A) (request : S.Request)
  | act (event : Event E A)
  | finish (a : A)
  | drop (a : A)
  | env (change : S.Env)

section
variable [DecidableEq A]

/-- What an actor has left to do after one of them went on. -/
theorem left_cases {running : A → Option (Prog E Unit)} {a b : A} {left : Option (Prog E Unit)}
    {program : Prog E Unit} (working : Function.update running a left b = some program) :
    (b = a ∧ left = some program) ∨ (b ≠ a ∧ running b = some program) := by
  by_cases same : b = a
  · subst same
    exact Or.inl ⟨rfl, by simpa only [Function.update_self] using working⟩
  · exact Or.inr ⟨same, by simpa only [Function.update_of_ne same] using working⟩

/-- One step of one actor, or of the surroundings. Between any two calls of one
actor every other actor may make any number of calls of its own. -/
inductive Step (S : System E A W) : Config E A W → Label S → Config E A W → Prop
  | begin {c a request program} : c.running a = none → S.serve a request = some program →
      Step S c (.begin a request) { c with running := Function.update c.running a (some program) }
  | act {c a op next r} : c.running a = some (.call op next) → S.may a c.world op r →
      Step S c (.act ⟨a, op, r⟩)
        ⟨S.effect a c.world op r, ⟨a, op, r⟩ :: c.history, Function.update c.running a (some (next r))⟩
  | finish {c a} : c.running a = some (.ret ()) →
      Step S c (.finish a) { c with running := Function.update c.running a none }
  | drop {c a op next} : c.running a = some (.call op next) → S.droppable a op →
      Step S c (.drop a) { c with running := Function.update c.running a none }
  | env {c change w} : S.surroundings c.world change = some w →
      Step S c (.env change) { c with world := w }

/-- Runs all of whose steps are admitted by `ok`, a condition on the
configuration before the step and on the step. -/
inductive Reach (S : System E A W) (ok : Config E A W → Label S → Prop) (start : Config E A W) :
    Config E A W → Prop
  | start : Reach S ok start start
  | next {c l c'} : Reach S ok start c → Step S c l c' → ok c l → Reach S ok start c'

/-- Every step is admitted. -/
def anyStep (S : System E A W) : Config E A W → Label S → Prop := fun _ _ => True

variable {S : System E A W} {ok ok' : Config E A W → Label S → Prop}

theorem Reach.mono {start c : Config E A W} (reach : Reach S ok start c)
    (imp : ∀ c l, ok c l → ok' c l) : Reach S ok' start c := by
  induction reach with
  | start => exact .start
  | next _ step admitted ih => exact .next ih step (imp _ _ admitted)

theorem Reach.trans {start middle c : Config E A W} (first : Reach S ok start middle)
    (second : Reach S ok middle c) : Reach S ok start c := by
  induction second with
  | start => exact first
  | next _ step admitted ih => exact .next ih step admitted

/-- The invariant rule: what holds at the start and is kept by every admitted
step holds in every configuration reached. -/
theorem Reach.invariant {start c : Config E A W} {I : Config E A W → Prop}
    (reach : Reach S ok start c) (base : I start)
    (keep : ∀ c l c', I c → Step S c l c' → ok c l → I c') : I c := by
  induction reach with
  | start => exact base
  | next _ step admitted ih => exact keep _ _ _ ih step admitted

/-- Where every served program makes calls in `Q` only, so does every actor at work. -/
theorem Reach.only {w : W} {c : Config E A W} {Q : E.Op → Prop} (reach : Reach S ok (Config.idle w) c)
    (serves : ∀ a request program, S.serve a request = some program → program.Only Q) :
    ∀ a program, c.running a = some program → program.Only Q := by
  refine reach.invariant (I := fun c => ∀ a program, c.running a = some program → program.Only Q)
    (fun _ _ none => nomatch none) fun c l c' h step _ => ?_
  have keep : ∀ (b : A) (left : Option (Prog E Unit)), (∀ program, left = some program → program.Only Q) →
      ∀ a program, Function.update c.running b left a = some program → program.Only Q := by
    intro b left new a program at_work
    rcases left_cases at_work with ⟨_, own⟩ | ⟨_, at_work⟩
    · exact new program own
    · exact h a program at_work
  cases step with
  | begin idle serve => exact keep _ _ fun _ eq => Option.some.inj eq ▸ serves _ _ _ serve
  | act at_work may => exact keep _ _ fun _ eq => Option.some.inj eq ▸ (h _ _ at_work).2 _
  | finish at_work => exact keep _ _ fun _ eq => nomatch eq
  | drop at_work droppable => exact keep _ _ fun _ eq => nomatch eq
  | env moved => exact h

/-- Only an actor that may begin is ever at work. -/
theorem Reach.parties {w : W} {c : Config E A W} {P : A → Prop} (reach : Reach S ok (Config.idle w) c)
    (begins : ∀ c a request, ok c (.begin a request) → P a) : ∀ a program, c.running a = some program → P a := by
  induction reach with
  | start => exact fun _ _ none => nomatch none
  | @next c _ _ _ step admitted ih =>
    have keep (b : A) (left : Option (Prog E Unit)) (party : P b) (a : A) (program : Prog E Unit)
        (at_work : Function.update c.running b left a = some program) : P a := by
      rcases left_cases at_work with ⟨same, _⟩ | ⟨_, at_work⟩
      · exact same ▸ party
      · exact ih a program at_work
    cases step with
    | begin idle serve => exact keep _ _ (begins _ _ _ admitted)
    | act at_work may => exact keep _ _ (ih _ _ at_work)
    | finish at_work => exact keep _ _ (ih _ _ at_work)
    | drop at_work droppable => exact keep _ _ (ih _ _ at_work)
    | env moved => exact ih

section protocol
variable {Γ : Type} (P : Protocol E Γ) (γ : Γ) (rest : Γ → Prop) (a : A)

/-- At work the actor follows the protocol to the end of its program; idle, it
rests in a resting state of it. -/
def Config.Conforms (c : Config E A W) : Prop :=
  match c.running a with
  | some program => program.Follows P (fun _ => rest) (P.state γ a c.history)
  | none => rest (P.state γ a c.history)

variable {P γ rest a}

theorem Config.Conforms.running {c : Config E A W} (h : c.Conforms P γ rest a) {program : Prog E Unit}
    (at_work : c.running a = some program) : program.Follows P (fun _ => rest) (P.state γ a c.history) := by
  simpa only [Config.Conforms, at_work] using h

theorem Config.Conforms.resting {c : Config E A W} (h : c.Conforms P γ rest a)
    (idle : c.running a = none) : rest (P.state γ a c.history) := by
  simpa only [Config.Conforms, idle] using h

/-- Whatever leaves the actor's program and its past alone keeps it conforming. -/
theorem Config.Conforms.of_eq {c c' : Config E A W} (h : c.Conforms P γ rest a)
    (program : c'.running a = c.running a) (past : P.state γ a c'.history = P.state γ a c.history) :
    c'.Conforms P γ rest a := by
  unfold Config.Conforms at *
  rwa [program, past]

theorem Config.Conforms.step {c c' : Config E A W} {l : Label S} (h : c.Conforms P γ rest a)
    (serves : ∀ request program, S.serve a request = some program →
      ∀ γ', rest γ' → program.Follows P (fun _ => rest) γ')
    (drops : ∀ op, l = .drop a → S.droppable a op = true → P.allows (P.state γ a c.history) op →
      rest (P.state γ a c.history))
    (step : Step S c l c') : c'.Conforms P γ rest a := by
  cases step with
  | @begin b request program idle serve =>
    by_cases same : b = a
    · subst same
      simpa only [Config.Conforms, Function.update_self] using serves _ _ serve _ (h.resting idle)
    · exact h.of_eq (Function.update_of_ne (Ne.symm same) ..) rfl
  | @act b op next r at_work may =>
    by_cases same : b = a
    · subst same
      simpa only [Config.Conforms, Function.update_self, Protocol.state_own] using (h.running at_work).2 r
    · exact h.of_eq (Function.update_of_ne (Ne.symm same) ..) (Protocol.state_other P γ a same _)
  | @finish b at_work =>
    by_cases same : b = a
    · subst same
      simpa only [Config.Conforms, Function.update_self, Prog.follows_ret] using h.running at_work
    · exact h.of_eq (Function.update_of_ne (Ne.symm same) ..) rfl
  | @drop b op next at_work droppable =>
    by_cases same : b = a
    · subst same
      simpa only [Config.Conforms, Function.update_self] using drops op rfl droppable (h.running at_work).1
    · exact h.of_eq (Function.update_of_ne (Ne.symm same) ..) rfl
  | env => exact h

/-- Along a run in which every request of the actor follows the protocol, and it is
dropped in states only that it can rest in, it conforms. -/
theorem Reach.conforms {w : W} {c : Config E A W} (reach : Reach S ok (Config.idle w) c) (base : rest γ)
    (serves : ∀ request program, S.serve a request = some program →
      ∀ γ', rest γ' → program.Follows P (fun _ => rest) γ')
    (drops : ∀ c op, ok c (.drop a) → S.droppable a op = true → P.allows (P.state γ a c.history) op →
      rest (P.state γ a c.history)) : c.Conforms P γ rest a :=
  reach.invariant (I := Config.Conforms P γ rest a) base fun c _ _ h step admitted =>
    h.step serves (fun op dropped => drops c op (dropped ▸ admitted)) step

/-- A call the actor makes along such a run is one the protocol admits. -/
theorem Config.Conforms.allows {c c' : Config E A W} {op : E.Op} {r : E.Ret op} (h : c.Conforms P γ rest a)
    (step : Step S c (.act ⟨a, op, r⟩) c') : P.allows (P.state γ a c.history) op := by
  cases step with
  | act at_work may => exact (h.running at_work).1

end protocol

end

end Effects
