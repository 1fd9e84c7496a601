import Bsdos.Effects.Ensures
import Mathlib.Logic.Relation

namespace Effects

variable {E : Signature} {A W ε α β : Type} {S : System E A W} {a : A}

/-- The surroundings alone have moved from one world to the other. -/
def Around (S : System E A W) : W → W → Prop :=
  Relation.ReflTransGen fun w w' => ∃ change, S.surroundings w change = some w'

/-- An execution in which the surroundings may move before each call. -/
def Runs (S : System E A W) (a : A) : Prog E α → W → List (Moment E W) → α → W → Prop
  | .ret value, w, moments, value', w' => moments = [] ∧ value' = value ∧ w' = w
  | .call op next, w, moments, value', w' =>
    ∃ u r rest, Around S w u ∧ S.may a u op r = true ∧ moments = ⟨u, op, r⟩ :: rest ∧
      Runs S a (next r) (S.effect a u op r) rest value' w'

theorem Around.keeps {I : W → Prop} {w w' : W} (around : Around S w w')
    (keep : ∀ u change u', S.surroundings u change = some u' → I u → I u') (base : I w) : I w' := by
  induction around with
  | refl => exact base
  | tail _ moved ih =>
    obtain ⟨change, moved⟩ := moved
    exact keep _ change _ moved ih

/-- An uninterrupted execution is one in which the surroundings stay still. -/
theorem Exec.runs {p : Prog E α} {w w' : W} {moments : List (Moment E W)} {value : α}
    (exec : Exec S a p w moments value w') : Runs S a p w moments value w' := by
  induction p generalizing w moments with
  | ret => exact exec
  | call op next ih =>
    obtain ⟨r, rest, may, rfl, later⟩ := exec
    exact ⟨w, r, rest, .refl, may, rfl, ih r later⟩

theorem runs_bind {p : Prog E α} {f : α → Prog E β} {w w' : W} {moments : List (Moment E W)} {value : β} :
    Runs S a (p >>= f) w moments value w' ↔
      ∃ first middle u rest, Runs S a p w first middle u ∧ Runs S a (f middle) u rest value w' ∧
        moments = first ++ rest := by
  induction p generalizing w moments with
  | ret middle =>
    constructor
    · intro runs
      exact ⟨[], middle, w, moments, ⟨rfl, rfl, rfl⟩, runs, rfl⟩
    · rintro ⟨first, _, _, rest, ⟨rfl, rfl, rfl⟩, runs, rfl⟩
      exact runs
  | call op next ih =>
    constructor
    · rintro ⟨v, r, tail, around, may, rfl, runs⟩
      obtain ⟨first, middle, u, rest, front, back, rfl⟩ := (ih r).mp runs
      exact ⟨_, middle, u, rest, ⟨v, r, first, around, may, rfl, front⟩, back, rfl⟩
    · rintro ⟨_, middle, u, rest, ⟨v, r, first, around, may, rfl, front⟩, back, rfl⟩
      exact ⟨v, r, first ++ rest, around, may, rfl, (ih r).mpr ⟨first, middle, u, rest, front, back, rfl⟩⟩

/-- However its calls are answered and the surroundings move, a program whose calls are
made in admitted worlds ends as `post` says. -/
def Always (S : System E A W) (a : A) (ok : Moment E W → Prop) (p : Prog E α) (w : W) (post : α → W → Prop) : Prop :=
  ∀ moments value w', Runs S a p w moments value w' → (∀ m ∈ moments, ok m) → post value w'

variable {ok : Moment E W → Prop}

theorem Always.ret {value : α} {w : W} {post : α → W → Prop} (ends : post value w) :
    Always S a ok (.ret value : Prog E α) w post := by
  intro moments value' w' runs _
  obtain ⟨_, rfl, rfl⟩ := runs
  exact ends

theorem Always.call {op : E.Op} {next : E.Ret op → Prog E α} {w : W} {post : α → W → Prop}
    (each : ∀ u, Around S w u → ∀ r, S.may a u op r = true → ok ⟨u, op, r⟩ →
      Always S a ok (next r) (S.effect a u op r) post) : Always S a ok (.call op next) w post := by
  intro moments value w' runs admitted
  obtain ⟨u, r, rest, around, may, rfl, later⟩ := runs
  exact each u around r may (admitted _ (List.mem_cons_self ..)) rest value w' later
    fun m member => admitted m (List.mem_cons_of_mem _ member)

theorem Always.mono {p : Prog E α} {w : W} {post post' : α → W → Prop} (always : Always S a ok p w post)
    (imp : ∀ value w', post value w' → post' value w') : Always S a ok p w post' :=
  fun moments value w' runs admitted => imp value w' (always moments value w' runs admitted)

theorem Always.bind {p : Prog E α} {f : α → Prog E β} {w : W} {middle : α → W → Prop} {post : β → W → Prop}
    (first : Always S a ok p w middle) (rest : ∀ v u, middle v u → Always S a ok (f v) u post) :
    Always S a ok (p >>= f) w post := by
  intro moments value w' runs admitted
  obtain ⟨early, v, u, late, front, back, rfl⟩ := runs_bind.mp runs
  exact rest v u (first early v u front fun m member => admitted m (List.mem_append_left _ member)) late value w' back
    fun m member => admitted m (List.mem_append_right _ member)

theorem Always.tryBind {x : ExceptT ε (Prog E) α} {f : α → ExceptT ε (Prog E) β} {w : W}
    {middle : Except ε α → W → Prop} {post : Except ε β → W → Prop} (first : Always S a ok x.run w middle)
    (through : ∀ v u, middle (.ok v) u → Always S a ok (f v).run u post)
    (error : ∀ e u, middle (.error e) u → post (.error e) u) : Always S a ok (x >>= f).run w post := by
  rw [run_tryBind]
  refine first.bind fun r u ended => ?_
  cases r with
  | ok v => exact through v u ended
  | error e => exact .ret (error e u ended)

/-- The program can end as `post` says, if the surroundings move so. -/
def Could (S : System E A W) (a : A) (p : Prog E α) (w : W) (post : α → W → Prop) : Prop :=
  ∃ moments value w', Runs S a p w moments value w' ∧ post value w'

theorem Can.could {p : Prog E α} {w : W} {post : α → W → Prop} (can : Can S a p w post) : Could S a p w post := by
  obtain ⟨moments, value, w', exec, ends⟩ := can
  exact ⟨moments, value, w', exec.runs, ends⟩

theorem Could.call {op : E.Op} {next : E.Ret op → Prog E α} {w : W} {post : α → W → Prop} (u : W) (r : E.Ret op)
    (around : Around S w u) (may : S.may a u op r = true) (rest : Could S a (next r) (S.effect a u op r) post) :
    Could S a (.call op next) w post := by
  obtain ⟨moments, value, w', runs, ends⟩ := rest
  exact ⟨⟨u, op, r⟩ :: moments, value, w', ⟨u, r, moments, around, may, rfl, runs⟩, ends⟩

/-- What every call of a program and every move of the surroundings keeps is kept. -/
theorem Always.keeps {p : Prog E α} {w : W} {Q : E.Op → Prop} {I : W → Prop} (only : p.Only Q)
    (keep : ∀ u op r, Q op → S.may a u op r = true → I u → I (S.effect a u op r))
    (moves : ∀ u change u', S.surroundings u change = some u' → I u → I u') (base : I w) :
    Always S a ok p w fun _ => I := by
  induction p generalizing w with
  | ret => exact .ret base
  | call op next ih =>
    exact .call fun u around r may _ => ih r (only.2 r) (keep u op r only.1 may (around.keeps moves base))

end Effects
