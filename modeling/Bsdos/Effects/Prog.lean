import Mathlib.Tactic.Common

namespace Effects

/-- The operations a program can ask of its surroundings, each with the type
of its answer. -/
structure Signature where
  Op : Type
  Ret : Op → Type

/-- A program as a tree of calls: what it does after a call depends on the
answer alone, so whatever happens between two calls is left to a system. -/
inductive Prog (E : Signature) (α : Type) : Type where
  | ret (value : α) : Prog E α
  | call (op : E.Op) (next : E.Ret op → Prog E α) : Prog E α

namespace Prog

variable {E : Signature} {α β γ : Type}

def bind : Prog E α → (α → Prog E β) → Prog E β
  | ret value, f => f value
  | call op next, f => call op fun r => (next r).bind f

instance : Monad (Prog E) where
  pure := ret
  bind := bind

/-- One call, answered by its result. -/
def perform (op : E.Op) : Prog E (E.Ret op) := call op ret

@[simp] theorem pure_eq (value : α) : (pure value : Prog E α) = ret value := rfl

@[simp] theorem ret_bind (value : α) (f : α → Prog E β) : (ret value >>= f) = f value := rfl

@[simp] theorem call_bind (op : E.Op) (next : E.Ret op → Prog E α) (f : α → Prog E β) :
    (call op next >>= f) = call op fun r => next r >>= f := rfl

@[simp] theorem perform_bind (op : E.Op) (f : E.Ret op → Prog E β) :
    (perform op >>= f) = call op f := rfl

theorem bind_ret (p : Prog E α) : p >>= ret = p := by
  induction p with
  | ret value => rfl
  | call op next ih => exact congrArg (call op) (funext ih)

theorem bind_assoc (p : Prog E α) (f : α → Prog E β) (g : β → Prog E γ) :
    p >>= f >>= g = p >>= fun a => f a >>= g := by
  induction p with
  | ret value => rfl
  | call op next ih => exact congrArg (call op) (funext ih)

instance : LawfulMonad (Prog E) := LawfulMonad.mk' _ bind_ret ret_bind bind_assoc

/-- A `for` loop over a list. -/
def each (body : α → Prog E Unit) : List α → Prog E Unit
  | [] => ret ()
  | x :: xs => body x >>= fun _ => each body xs

/-- Every call the program can ever make satisfies `Q`, whatever the answers. -/
def Only (Q : E.Op → Prop) : Prog E α → Prop
  | ret _ => True
  | call op next => Q op ∧ ∀ r, (next r).Only Q

@[simp] theorem only_ret (Q : E.Op → Prop) (value : α) : (ret value : Prog E α).Only Q := trivial

@[simp] theorem only_call (Q : E.Op → Prop) (op : E.Op) (next : E.Ret op → Prog E α) :
    (call op next).Only Q ↔ Q op ∧ ∀ r, (next r).Only Q := Iff.rfl

@[simp] theorem only_perform (Q : E.Op → Prop) (op : E.Op) : (perform op).Only Q ↔ Q op :=
  ⟨fun h => h.1, fun h => ⟨h, fun _ => trivial⟩⟩

theorem Only.bind {Q : E.Op → Prop} {p : Prog E α} {f : α → Prog E β}
    (first : p.Only Q) (rest : ∀ a, (f a).Only Q) : (p >>= f).Only Q := by
  induction p with
  | ret value => exact rest value
  | call op next ih => exact ⟨first.1, fun r => ih r (first.2 r)⟩

theorem Only.mono {Q Q' : E.Op → Prop} {p : Prog E α} (h : p.Only Q) (imp : ∀ op, Q op → Q' op) :
    p.Only Q' := by
  induction p with
  | ret value => trivial
  | call op next ih => exact ⟨imp op h.1, fun r => ih r (h.2 r)⟩

theorem Only.each {Q : E.Op → Prop} {body : α → Prog E Unit} {xs : List α}
    (one : ∀ x ∈ xs, (body x).Only Q) : (Prog.each body xs).Only Q := by
  induction xs with
  | nil => trivial
  | cons x xs ih =>
    exact (one x (List.mem_cons_self ..)).bind
      fun _ => ih fun y member => one y (List.mem_cons_of_mem _ member)

/-- Whatever the answers, the program makes calls in `Q` only, up to its first call in `B`. -/
def Until (Q B : E.Op → Prop) : Prog E α → Prop
  | ret _ => True
  | call op next => Q op ∧ (B op ∨ ∀ r, (next r).Until Q B)

end Prog

end Effects
