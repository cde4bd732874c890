import Konix.Lib.Splice

set_option autoImplicit false

namespace Copies

open Splice

variable {α : Type}

structure Copy where
  dst : Nat
  src : Nat
  size : Nat
deriving DecidableEq, Repr

def Copy.run (f : Nat → α) (c : Copy) : Nat → α := splice f c.dst c.size (window f c.src)

def Apart (a n b k : Nat) : Prop := n = 0 ∨ k = 0 ∨ a + n ≤ b ∨ b + k ≤ a

-- All blocks come from one region, and go to places outside of it that do not meet.
structure Placeable (lo size : Nat) (cs : List Copy) : Prop where
  sources : ∀ c ∈ cs, lo ≤ c.src ∧ c.src + c.size ≤ lo + size
  targets : ∀ c ∈ cs, Apart c.dst c.size lo size
  apart : cs.Pairwise fun c d => Apart c.dst c.size d.dst d.size

variable {f : Nat → α} {lo size a : Nat} {c : Copy} {cs : List Copy}

theorem run_outside (f : Nat → α) (out : Apart a 1 c.dst c.size) : c.run f a = f a := by
  rcases out with none_ | none_ | below | above
  · cases none_
  · rw [Copy.run, none_, splice_empty]
  · exact splice_outside _ _ (.inl below)
  · exact splice_outside _ _ (.inr above)

theorem copies_outside (f : Nat → α) (out : ∀ c ∈ cs, Apart a 1 c.dst c.size) :
    cs.foldl Copy.run f a = f a := by
  induction cs generalizing f with
  | nil => rfl
  | cons c cs ih =>
    rw [List.foldl_cons, ih _ fun d member => out d (List.mem_cons_of_mem _ member)]
    exact run_outside f (out c List.mem_cons_self)

-- In the end every block is where it belongs, as it was in the beginning.
theorem Placeable.placed (placeable : Placeable lo size cs) (f : Nat → α) {j : Nat}
    (member : c ∈ cs) (inside : j < c.size) : cs.foldl Copy.run f (c.dst + j) = f (c.src + j) := by
  induction cs generalizing f with
  | nil => cases member
  | cons d cs ih =>
    obtain ⟨first, later⟩ := List.pairwise_cons.mp placeable.apart
    have target := placeable.targets d List.mem_cons_self
    rw [List.foldl_cons]
    rcases List.mem_cons.mp member with rfl | member
    · have untouched : ∀ e ∈ cs, Apart (c.dst + j) 1 e.dst e.size := by
        intro e isLater
        have away := first e isLater
        unfold Apart at away ⊢
        omega
      rw [copies_outside _ untouched, Copy.run, splice_inside _ _ (by omega) (by omega),
        window_apply, Nat.add_sub_cancel_left]
    · have rest : Placeable lo size cs :=
        ⟨fun e isLater => placeable.sources e (List.mem_cons_of_mem _ isLater),
          fun e isLater => placeable.targets e (List.mem_cons_of_mem _ isLater), later⟩
      have source := rest.sources c member
      rw [ih rest (d.run f) member]
      refine run_outside f ?_
      unfold Apart at target ⊢
      omega

end Copies
