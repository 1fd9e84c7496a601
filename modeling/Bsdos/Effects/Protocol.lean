import Bsdos.Effects.Prog

namespace Effects

/-- A discipline on the calls one actor makes: a private state that each answered
call moves, and the calls the state admits. -/
structure Protocol (E : Signature) (Γ : Type) where
  next : Γ → (op : E.Op) → E.Ret op → Γ
  allows : Γ → E.Op → Prop

variable {E : Signature} {Γ α β : Type}

namespace Prog

/-- From protocol state `γ` the program makes admitted calls only, whatever the
answers, and ends in a state related to its value by `post`. -/
def Follows (P : Protocol E Γ) (post : α → Γ → Prop) : Prog E α → Γ → Prop
  | ret value, γ => post value γ
  | call op next, γ => P.allows γ op ∧ ∀ r, (next r).Follows P post (P.next γ op r)

variable {P : Protocol E Γ}

@[simp] theorem follows_ret {post : α → Γ → Prop} {value : α} {γ : Γ} :
    (ret value : Prog E α).Follows P post γ ↔ post value γ := Iff.rfl

@[simp] theorem follows_call {post : α → Γ → Prop} {op : E.Op} {next : E.Ret op → Prog E α} {γ : Γ} :
    (call op next).Follows P post γ ↔
      P.allows γ op ∧ ∀ r, (next r).Follows P post (P.next γ op r) := Iff.rfl

@[simp] theorem follows_perform {op : E.Op} {post : E.Ret op → Γ → Prop} {γ : Γ} :
    (perform op).Follows P post γ ↔ P.allows γ op ∧ ∀ r, post r (P.next γ op r) := Iff.rfl

theorem follows_bind {p : Prog E α} {f : α → Prog E β} {post : β → Γ → Prop} {γ : Γ} :
    (p >>= f).Follows P post γ ↔ p.Follows P (fun a γ' => (f a).Follows P post γ') γ := by
  induction p generalizing γ with
  | ret value => rfl
  | call op next ih =>
    rw [call_bind, follows_call, follows_call]
    simp only [ih]

theorem Follows.mono {p : Prog E α} {post post' : α → Γ → Prop} {γ : Γ}
    (h : p.Follows P post γ) (imp : ∀ a γ', post a γ' → post' a γ') : p.Follows P post' γ := by
  induction p generalizing γ with
  | ret value => exact imp _ _ h
  | call op next ih => exact ⟨h.1, fun r => ih r (h.2 r)⟩

theorem Follows.bind {p : Prog E α} {f : α → Prog E β} {M : α → Γ → Prop} {post : β → Γ → Prop}
    {γ : Γ} (first : p.Follows P M γ) (rest : ∀ a γ', M a γ' → (f a).Follows P post γ') :
    (p >>= f).Follows P post γ :=
  follows_bind.mpr (first.mono rest)

/-- A program whose calls the protocol admits under `I`, and which keep `I`, keeps it. -/
theorem Only.keeps {Q : E.Op → Prop} {p : Prog E α} {I : Γ → Prop} {γ : Γ} (only : p.Only Q)
    (kept : ∀ γ' op, Q op → I γ' → P.allows γ' op ∧ ∀ r, I (P.next γ' op r)) (base : I γ) :
    p.Follows P (fun _ => I) γ := by
  induction p generalizing γ with
  | ret value => exact base
  | call op next ih =>
    obtain ⟨allowed, after⟩ := kept γ op only.1 base
    exact ⟨allowed, fun r => ih r (only.2 r) (after r)⟩

/-- A program that follows a protocol makes calls in `Q` only as long as an invariant
lasts that grants them. -/
theorem Follows.until {p : Prog E α} {post : α → Γ → Prop} {Q B : E.Op → Prop} {I : Γ → Prop} {γ : Γ}
    (h : p.Follows P post γ) (grants : ∀ γ' op, I γ' → P.allows γ' op → Q op)
    (lasts : ∀ γ' op r, I γ' → ¬ B op → I (P.next γ' op r)) (base : I γ) : p.Until Q B := by
  induction p generalizing γ with
  | ret value => trivial
  | call op next ih =>
    refine ⟨grants γ op base h.1, ?_⟩
    by_cases last : B op
    · exact Or.inl last
    · exact Or.inr fun r => ih r (h.2 r) (lasts γ op r base last)

/-- A loop keeps whatever each round keeps. -/
theorem Follows.each {body : α → Prog E Unit} {I : List α → Γ → Prop} {xs : List α} {γ : Γ}
    (start : I xs γ)
    (round : ∀ x rest γ', I (x :: rest) γ' → (body x).Follows P (fun _ => I rest) γ') :
    (Prog.each body xs).Follows P (fun _ => I []) γ := by
  induction xs generalizing γ with
  | nil => exact start
  | cons x xs ih => exact (round x xs γ start).bind fun _ γ' next => ih next

end Prog

/-- The protocol that remembers nothing and admits the calls in `Q`. -/
def Protocol.always (Q : E.Op → Prop) : Protocol E Unit := ⟨fun _ _ _ => (), fun _ => Q⟩

theorem Prog.only_of_follows {p : Prog E α} {Q : E.Op → Prop} {post : α → Unit → Prop}
    (h : p.Follows (.always Q) post ()) : p.Only Q := by
  induction p with
  | ret value => trivial
  | call op next ih => exact ⟨h.1, fun r => ih r (h.2 r)⟩

/-- One answered call, with the actor that made it. -/
structure Event (E : Signature) (A : Type) where
  actor : A
  op : E.Op
  result : E.Ret op

/-- The protocol state of one actor after a history, newest event first. -/
def Protocol.state {A : Type} [DecidableEq A] (P : Protocol E Γ) (γ : Γ) (a : A) : List (Event E A) → Γ
  | [] => γ
  | e :: history =>
    if e.actor = a then P.next (P.state γ a history) e.op e.result else P.state γ a history

section state
variable {A : Type} [DecidableEq A] (P : Protocol E Γ) (γ : Γ) (a : A)

@[simp] theorem Protocol.state_nil : P.state γ a [] = γ := rfl

@[simp] theorem Protocol.state_own (op : E.Op) (r : E.Ret op) (history : List (Event E A)) :
    P.state γ a (⟨a, op, r⟩ :: history) = P.next (P.state γ a history) op r := if_pos rfl

theorem Protocol.state_other {e : Event E A} (other : e.actor ≠ a) (history : List (Event E A)) :
    P.state γ a (e :: history) = P.state γ a history := if_neg other

theorem Protocol.state_absent {history : List (Event E A)} (absent : ∀ e ∈ history, e.actor ≠ a) :
    P.state γ a history = γ := by
  induction history with
  | nil => rfl
  | cons e history ih =>
    rw [P.state_other γ a (absent e (List.mem_cons_self ..))]
    exact ih fun e' member => absent e' (List.mem_cons_of_mem _ member)

end state

end Effects
