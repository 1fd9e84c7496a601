import Bsdos.Effects.Observe

namespace Effects

/-- The calls of either of two signatures. -/
abbrev Signature.sum (E F : Signature) : Signature where
  Op := E.Op ⊕ F.Op
  Ret
    | .inl op => E.Ret op
    | .inr op => F.Ret op

variable {E F : Signature} {A B W V Γ α : Type}

namespace Prog

/-- A program of one signature, where there is another beside it. -/
def inl : Prog E α → Prog (E.sum F) α
  | ret value => .ret value
  | call op next => .call (.inl op) fun r => (next r).inl

def inr : Prog F α → Prog (E.sum F) α
  | ret value => .ret value
  | call op next => .call (.inr op) fun r => (next r).inr

end Prog

/-- A discipline on the calls of one signature, which admits none of the other. -/
def Protocol.inl (P : Protocol E Γ) : Protocol (E.sum F) Γ where
  next γ
    | .inl op, r => P.next γ op r
    | .inr _, _ => γ
  allows γ
    | .inl op => P.allows γ op
    | .inr _ => False

def Protocol.inr (P : Protocol F Γ) : Protocol (E.sum F) Γ where
  next γ
    | .inl _, _ => γ
    | .inr op, r => P.next γ op r
  allows γ
    | .inl _ => False
    | .inr op => P.allows γ op

namespace Prog
variable {post : α → Γ → Prop} {γ : Γ}

theorem Follows.inl {P : Protocol E Γ} {p : Prog E α} (follows : p.Follows P post γ) :
    (p.inl : Prog (E.sum F) α).Follows P.inl post γ := by
  induction p generalizing γ with
  | ret value => exact follows
  | call op next ih => exact ⟨follows.1, fun r => ih r (follows.2 r)⟩

theorem Follows.inr {P : Protocol F Γ} {p : Prog F α} (follows : p.Follows P post γ) :
    (p.inr : Prog (E.sum F) α).Follows P.inr post γ := by
  induction p generalizing γ with
  | ret value => exact follows
  | call op next ih => exact ⟨follows.1, fun r => ih r (follows.2 r)⟩

end Prog

/-- Two systems side by side. What the parties of the first do is felt by the second as
`o` says; beyond that neither sees the other. -/
def System.beside (S : System E A W) (o : Observer S V) (T : System F B V) : System (E.sum F) (A ⊕ B) (W × V) where
  Request := S.Request ⊕ T.Request
  Env := S.Env ⊕ T.Env
  may
    | .inl a, u, .inl op, r => S.may a u.1 op r
    | .inr b, u, .inr op, r => T.may b u.2 op r
    | _, _, _, _ => false
  effect
    | .inl a, u, .inl op, r => (S.effect a u.1 op r, o.sees u.2 a u.1 op r)
    | .inr b, u, .inr op, r => (u.1, T.effect b u.2 op r)
    | _, u, _, _ => u
  serve
    | .inl a, .inl request => (S.serve a request).map Prog.inl
    | .inr b, .inr request => (T.serve b request).map Prog.inr
    | _, _ => none
  droppable
    | .inl a, .inl op => S.droppable a op
    | .inr b, .inr op => T.droppable b op
    | _, _ => false
  surroundings u
    | .inl change => (S.surroundings u.1 change).map fun w => (w, o.feels u.2 u.1 change)
    | .inr change => (T.surroundings u.2 change).map fun v => (u.1, v)

/-- A step of the first system, beside the second. -/
def Label.inl {S : System E A W} (o : Observer S V) (T : System F B V) : Label S → Label (S.beside o T)
  | .begin a request => .begin (.inl a) (.inl request)
  | .act ⟨a, op, r⟩ => .act ⟨.inl a, .inl op, r⟩
  | .finish a => .finish (.inl a)
  | .drop a => .drop (.inl a)
  | .env change => .env (.inl change)

def Label.inr (S : System E A W) (o : Observer S V) {T : System F B V} : Label T → Label (S.beside o T)
  | .begin b request => .begin (.inr b) (.inr request)
  | .act ⟨b, op, r⟩ => .act ⟨.inr b, .inr op, r⟩
  | .finish b => .finish (.inr b)
  | .drop b => .drop (.inr b)
  | .env change => .env (.inr change)

section
variable {S : System E A W} {o : Observer S V} {T : System F B V}

/-- An answered call is one of a party of the first system, or of the second. -/
theorem beside_cases {x : A ⊕ B} {u : W × V} {op : (E.sum F).Op} {r : (E.sum F).Ret op}
    (may : (S.beside o T).may x u op r = true) :
    (∃ a, x = .inl a ∧ ∃ op', op = .inl op') ∨ ∃ b, x = .inr b ∧ ∃ op', op = .inr op' := by
  cases x with
  | inl a =>
    cases op with
    | inl op => exact Or.inl ⟨a, rfl, op, rfl⟩
    | inr op => cases may
  | inr b =>
    cases op with
    | inl op => cases may
    | inr op => exact Or.inr ⟨b, rfl, op, rfl⟩

variable [DecidableEq A] [DecidableEq B]
  {ok : Config (E.sum F) (A ⊕ B) (W × V) → Label (S.beside o T) → Prop} {u : W × V}
  {c : Config (E.sum F) (A ⊕ B) (W × V)} {rest : Γ → Prop} {γ : Γ}

/-- Beside another system a party keeps to what it keeps to alone. -/
theorem Reach.conforms_inl {P : Protocol E Γ} {a : A} (reach : Reach (S.beside o T) ok (.idle u) c) (base : rest γ)
    (serves : ∀ request program, S.serve a request = some program → ∀ γ', rest γ' → program.Follows P (fun _ => rest) γ')
    (drops : ∀ c op, ok c (.drop (.inl a)) → S.droppable a op = true →
      P.allows (P.inl.state γ (.inl a) c.history) op → rest (P.inl.state γ (.inl a) c.history)) :
    c.Conforms P.inl γ rest (.inl a) := by
  refine reach.conforms base (fun request program served γ' resting => ?_) fun c op admitted dropped allowed => ?_
  · cases request with
    | inl request =>
      obtain ⟨p, there, rfl⟩ := Option.map_eq_some_iff.mp served
      exact (serves request p there γ' resting).inl
    | inr request => cases served
  · cases op with
    | inl op => exact drops c op admitted dropped allowed
    | inr op => cases dropped

theorem Reach.conforms_inr {P : Protocol F Γ} {b : B} (reach : Reach (S.beside o T) ok (.idle u) c) (base : rest γ)
    (serves : ∀ request program, T.serve b request = some program → ∀ γ', rest γ' → program.Follows P (fun _ => rest) γ')
    (drops : ∀ c op, ok c (.drop (.inr b)) → T.droppable b op = true →
      P.allows (P.inr.state γ (.inr b) c.history) op → rest (P.inr.state γ (.inr b) c.history)) :
    c.Conforms P.inr γ rest (.inr b) := by
  refine reach.conforms base (fun request program served γ' resting => ?_) fun c op admitted dropped allowed => ?_
  · cases request with
    | inl request => cases served
    | inr request =>
      obtain ⟨p, there, rfl⟩ := Option.map_eq_some_iff.mp served
      exact (serves request p there γ' resting).inr
  · cases op with
    | inl op => cases dropped
    | inr op => exact drops c op admitted dropped allowed

end

end Effects
