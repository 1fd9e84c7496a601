import Bsdos.Effects.Fallible

namespace Effects

variable {E : Signature} {A W ε α β : Type} {S : System E A W} {a : A}

/-- However its calls are answered, the uninterrupted program ends as `post` says. -/
def Ensures (S : System E A W) (a : A) (p : Prog E α) (w : W) (post : α → W → Prop) : Prop :=
  ∀ moments value w', Exec S a p w moments value w' → post value w'

theorem Ensures.ret {value : α} {w : W} {post : α → W → Prop} (ends : post value w) :
    Ensures S a (.ret value : Prog E α) w post := by
  intro moments value' w' exec
  obtain ⟨_, rfl, rfl⟩ := exec
  exact ends

theorem Ensures.call {op : E.Op} {next : E.Ret op → Prog E α} {w : W} {post : α → W → Prop}
    (each : ∀ r, S.may a w op r = true → Ensures S a (next r) (S.effect a w op r) post) :
    Ensures S a (.call op next) w post := by
  intro moments value w' exec
  obtain ⟨r, rest, may, _, later⟩ := exec
  exact each r may rest value w' later

theorem Ensures.mono {p : Prog E α} {w : W} {post post' : α → W → Prop} (ensures : Ensures S a p w post)
    (imp : ∀ value w', post value w' → post' value w') : Ensures S a p w post' :=
  fun moments value w' exec => imp value w' (ensures moments value w' exec)

theorem Ensures.bind {p : Prog E α} {f : α → Prog E β} {w : W} {middle : α → W → Prop} {post : β → W → Prop}
    (first : Ensures S a p w middle) (rest : ∀ v u, middle v u → Ensures S a (f v) u post) :
    Ensures S a (p >>= f) w post := by
  intro moments value w' exec
  obtain ⟨early, v, u, late, front, back, _⟩ := exec_bind.mp exec
  exact rest v u (first early v u front) late value w' back

theorem Ensures.tryBind {x : ExceptT ε (Prog E) α} {f : α → ExceptT ε (Prog E) β} {w : W}
    {middle : Except ε α → W → Prop} {post : Except ε β → W → Prop} (first : Ensures S a x.run w middle)
    (ok : ∀ v u, middle (.ok v) u → Ensures S a (f v).run u post)
    (error : ∀ e u, middle (.error e) u → post (.error e) u) : Ensures S a (x >>= f).run w post := by
  intro moments value w' exec
  rcases exec_tryBind.mp exec with ⟨early, v, u, late, front, back, _⟩ | ⟨e, front, rfl⟩
  · exact ok v u (first early _ u front) late value w' back
  · exact error e w' (first moments _ w' front)

/-- What goes through, and with this value only, goes on with the rest. -/
theorem Ensures.through {x : ExceptT ε (Prog E) α} {f : α → ExceptT ε (Prog E) β} {v : α} {w u : W}
    {post : Except ε β → W → Prop} (first : Ensures S a x.run w fun r w' => r = .ok v ∧ w' = u)
    (rest : Ensures S a (f v).run u post) : Ensures S a (x >>= f).run w post := by
  refine first.tryBind (fun v' u' ended => ?_) (fun e u' ended => ?_)
  · obtain ⟨same, rfl⟩ := ended
    cases same
    exact rest
  · cases ended.1

/-- What ends early, and with this error only, ends the whole. -/
theorem Ensures.fails {x : ExceptT ε (Prog E) α} {f : α → ExceptT ε (Prog E) β} {e : ε} {w u : W}
    {post : Except ε β → W → Prop} (first : Ensures S a x.run w fun r w' => r = .error e ∧ w' = u)
    (ends : post (.error e) u) : Ensures S a (x >>= f).run w post := by
  refine first.tryBind (fun v u' ended => ?_) (fun e' u' ended => ?_)
  · cases ended.1
  · obtain ⟨same, rfl⟩ := ended
    cases same
    exact ends

/-- The uninterrupted program can end as `post` says. -/
def Can (S : System E A W) (a : A) (p : Prog E α) (w : W) (post : α → W → Prop) : Prop :=
  ∃ moments value w', Exec S a p w moments value w' ∧ post value w'

theorem Can.ret {value : α} {w : W} {post : α → W → Prop} (ends : post value w) :
    Can S a (.ret value : Prog E α) w post :=
  ⟨[], value, w, ⟨rfl, rfl, rfl⟩, ends⟩

theorem Can.call {op : E.Op} {next : E.Ret op → Prog E α} {w : W} {post : α → W → Prop} (r : E.Ret op)
    (may : S.may a w op r = true) (rest : Can S a (next r) (S.effect a w op r) post) :
    Can S a (.call op next) w post := by
  obtain ⟨moments, value, w', exec, ends⟩ := rest
  exact ⟨⟨w, op, r⟩ :: moments, value, w', ⟨r, moments, may, rfl, exec⟩, ends⟩

/-- What can go through can go on with the rest. -/
theorem Can.through {x : ExceptT ε (Prog E) α} {f : α → ExceptT ε (Prog E) β} {v : α} {w u : W}
    {post : Except ε β → W → Prop} (first : Can S a x.run w fun r w' => r = .ok v ∧ w' = u)
    (rest : Can S a (f v).run u post) : Can S a (x >>= f).run w post := by
  obtain ⟨early, _, _, front, rfl, rfl⟩ := first
  obtain ⟨late, value, w', back, ends⟩ := rest
  exact ⟨early ++ late, value, w', exec_tryBind.mpr (Or.inl ⟨early, v, _, late, front, back, rfl⟩), ends⟩

/-- Where every call has an answer, what a program ensures it can reach. -/
theorem Ensures.can {p : Prog E α} {w : W} {post : α → W → Prop} (ensures : Ensures S a p w post)
    (answered : ∀ u op, ∃ r, S.may a u op r = true) : Can S a p w post := by
  have every (q : Prog E α) : q.Only fun _ => True := by
    induction q with
    | ret => trivial
    | call op next ih => exact ⟨trivial, ih⟩
  obtain ⟨moments, value, w', exec⟩ := Exec.possible p (every p) (fun u op _ => answered u op) w
  exact ⟨moments, value, w', exec, ensures moments value w' exec⟩

/-- An execution is one of every system with the same effects that admits its answers. -/
theorem Exec.widen {S' : System E A W} {p : Prog E α} {w w' : W} {moments : List (Moment E W)} {value : α}
    (exec : Exec S a p w moments value w') (effects : ∀ u op r, S'.effect a u op r = S.effect a u op r)
    (wider : ∀ u op r, S.may a u op r = true → S'.may a u op r = true) : Exec S' a p w moments value w' := by
  induction p generalizing w moments with
  | ret => exact exec
  | call op next ih =>
    obtain ⟨r, rest, may, rfl, later⟩ := exec
    refine ⟨r, rest, wider w op r may, rfl, ?_⟩
    rw [effects]
    exact ih r later

end Effects
