import Mathlib.Tactic

set_option autoImplicit false

namespace Splice

variable {α : Type}

-- The function `f` with the `n` cells from `start` on taken from `g`.
def splice (f : Nat → α) (start n : Nat) (g : Nat → α) : Nat → α :=
  fun b => if start ≤ b ∧ b < start + n then g (b - start) else f b

def window (f : Nat → α) (start : Nat) : Nat → α := fun j => f (start + j)

@[simp] theorem window_apply (f : Nat → α) (start j : Nat) : window f start j = f (start + j) := rfl

theorem splice_inside (f g : Nat → α) {start n b : Nat} (lower : start ≤ b)
    (upper : b < start + n) : splice f start n g b = g (b - start) := by
  simp [splice, lower, upper]

theorem splice_outside (f g : Nat → α) {start n b : Nat} (out : b < start ∨ start + n ≤ b) :
    splice f start n g b = f b := by
  have : ¬ (start ≤ b ∧ b < start + n) := by omega
  simp [splice, this]

@[simp] theorem splice_empty (f g : Nat → α) (start : Nat) : splice f start 0 g = f := by
  funext b
  exact splice_outside f g (by omega)

theorem splice_congr (f : Nat → α) {g h : Nat → α} {start n : Nat}
    (agree : ∀ j, j < n → g j = h j) : splice f start n g = splice f start n h := by
  funext b
  by_cases inside : start ≤ b ∧ b < start + n
  · rw [splice_inside f g inside.1 inside.2, splice_inside f h inside.1 inside.2]
    exact agree _ (by omega)
  · rw [splice_outside f g (by omega), splice_outside f h (by omega)]

theorem splice_window_self (f : Nat → α) (start n : Nat) :
    splice f start n (window f start) = f := by
  funext b
  by_cases inside : start ≤ b ∧ b < start + n
  · rw [splice_inside _ _ inside.1 inside.2]
    exact congrArg f (by omega)
  · exact splice_outside _ _ (by omega)

theorem splice_append (f g : Nat → α) (start n k : Nat) :
    splice (splice f start n g) (start + n) k (window g n) = splice f start (n + k) g := by
  funext b
  by_cases first : start ≤ b ∧ b < start + n
  · rw [splice_outside _ _ (by omega), splice_inside _ _ first.1 first.2,
      splice_inside _ _ first.1 (by omega)]
  · by_cases second : start + n ≤ b ∧ b < start + n + k
    · rw [splice_inside _ _ second.1 second.2, splice_inside _ _ (by omega) (by omega)]
      exact congrArg g (by omega)
    · rw [splice_outside _ _ (by omega), splice_outside _ _ (by omega),
        splice_outside _ _ (by omega)]

theorem splice_inner_cut (f g h : Nat → α) (start block off n : Nat) :
    splice f start block (splice g off n h) =
      splice (splice f start block g) (start + off) (min n (block - off)) h := by
  funext b
  by_cases inside : start ≤ b ∧ b < start + block
  · rw [splice_inside _ _ inside.1 inside.2]
    by_cases changed : off ≤ b - start ∧ b - start < off + n
    · rw [splice_inside _ _ changed.1 changed.2, splice_inside _ _ (by omega) (by omega)]
      exact congrArg h (by omega)
    · rw [splice_outside _ _ (by omega), splice_outside _ _ (by omega),
        splice_inside _ _ inside.1 inside.2]
  · rw [splice_outside _ _ (by omega), splice_outside _ _ (by omega),
      splice_outside _ _ (by omega)]

theorem splice_inner (f g h : Nat → α) {start block off n : Nat} (fits : off + n ≤ block) :
    splice f start block (splice g off n h) =
      splice (splice f start block g) (start + off) n h := by
  rw [splice_inner_cut, Nat.min_eq_left (by omega)]

theorem splice_readBack (f buf : Nat → α) (start block : Nat) :
    splice f start block (splice buf 0 block (window f start)) = f := by
  have same : splice f start block (splice buf 0 block (window f start)) =
      splice f start block (window f start) := by
    apply splice_congr
    intro j bound
    rw [splice_inside _ _ (Nat.zero_le _) (by omega), Nat.sub_zero]
  rw [same, splice_window_self]

-- Read a block into a buffer, change a part of it there, write the block back.
theorem splice_modify (f buf g : Nat → α) {start block off n : Nat} (fits : off + n ≤ block) :
    splice f start block (splice (splice buf 0 block (window f start)) off n g) =
      splice f (start + off) n g := by
  rw [splice_inner _ _ _ fits, splice_readBack]

theorem splice_update (f g : Nat → α) {start n j : Nat} (v : α) (bound : j < n) :
    splice f start n (Function.update g j v) =
      Function.update (splice f start n g) (start + j) v := by
  funext b
  by_cases same : b = start + j
  · subst same
    rw [splice_inside _ _ (by omega) (by omega), Function.update_self, Nat.add_sub_cancel_left,
      Function.update_self]
  · rw [Function.update_of_ne same]
    by_cases inside : start ≤ b ∧ b < start + n
    · rw [splice_inside _ _ inside.1 inside.2, splice_inside _ _ inside.1 inside.2]
      exact Function.update_of_ne (by omega) _ _
    · rw [splice_outside _ _ (by omega), splice_outside _ _ (by omega)]

end Splice
