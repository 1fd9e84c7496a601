import Bsdos.Effects.Protocol

namespace Effects

variable {E F : Signature} {Γ Δ α : Type}

namespace Prog

/-- The program with every call carried out by a program of another signature. -/
def expand (f : (op : E.Op) → Prog F (E.Ret op)) : Prog E α → Prog F α
  | ret value => .ret value
  | call op next => f op >>= fun r => (next r).expand f

/-- What a program follows is followed by its expansion, where each call that the protocol
admits is expanded in line with it. -/
theorem Follows.expand {P : Protocol E Γ} {Q : Protocol F Δ} {f : (op : E.Op) → Prog F (E.Ret op)}
    {R : Γ → Δ → Prop} {p : Prog E α} {post : α → Γ → Prop} {γ : Γ} {δ : Δ} (follows : p.Follows P post γ)
    (carries : ∀ op γ δ, P.allows γ op → R γ δ → (f op).Follows Q (fun r => R (P.next γ op r)) δ)
    (related : R γ δ) : (p.expand f).Follows Q (fun value δ' => ∃ γ', post value γ' ∧ R γ' δ') δ := by
  induction p generalizing γ δ with
  | ret value => exact ⟨γ, follows, related⟩
  | call op next ih =>
    refine (carries op γ δ follows.1 related).bind fun r δ' related' => ?_
    exact ih r (follows.2 r) related'

end Prog

end Effects
