import Mathlib.Tactic

set_option autoImplicit false

namespace Fallible

variable {ε ε' α α' β β' γ : Type}

-- The second computation returns what is related to the first one's result, or fails as it does.
def Follows (R : α → β → Prop) (E : ε → ε') (x : Except ε α) (y : Except ε' β) : Prop :=
  match x with
  | .ok a => ∃ b, y = .ok b ∧ R a b
  | .error e => y = .error (E e)

namespace Follows

variable {R : α → β → Prop} {R' : α' → β' → Prop} {E : ε → ε'}

theorem ok {a : α} {b : β} (related : R a b) :
    Follows R E (.ok a : Except ε α) (.ok b : Except ε' β) :=
  ⟨b, rfl, related⟩

theorem error (e : ε) : Follows R E (.error e : Except ε α) (.error (E e) : Except ε' β) := rfl

theorem bind {x : Except ε α} {y : Except ε' β} {f : α → Except ε α'} {g : β → Except ε' β'}
    (first : Follows R E x y) (rest : ∀ a b, R a b → Follows R' E (f a) (g b)) :
    Follows R' E (x >>= f) (y >>= g) := by
  cases x with
  | error e =>
    have failed : y = .error (E e) := first
    rw [failed]
    exact rfl
  | ok a =>
    obtain ⟨b, done, related⟩ := first
    rw [done]
    exact rest a b related

theorem foldlM {f : α → γ → Except ε α} {g : β → γ → Except ε' β} {l : List γ} {a : α} {b : β}
    (related : R a b) (turn : ∀ a b c, c ∈ l → R a b → Follows R E (f a c) (g b c)) :
    Follows R E (l.foldlM f a) (l.foldlM g b) := by
  induction l generalizing a b with
  | nil => exact ok related
  | cons c l ih =>
    rw [List.foldlM_cons, List.foldlM_cons]
    exact (turn a b c List.mem_cons_self related).bind fun a' b' related' =>
      ih related' fun a b c member => turn a b c (List.mem_cons_of_mem _ member)

end Follows

end Fallible
