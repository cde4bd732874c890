import Konix.Lib.Run

set_option autoImplicit false

namespace Runs.Run

variable {σ α : Type} {init : σ → Prop} {step : σ → α → σ → Prop}

-- How many of the `n` steps from state `i` on are of a kind.
def count (run : Run init step) (kind : α → Prop) [DecidablePred kind] (i : Nat) : Nat → Nat
  | 0 => 0
  | n + 1 => run.count kind i n + if kind (run.act (i + n)) then 1 else 0

-- A measure that gets less with each step of one kind, and grows by `c` at most with each of
-- another.
theorem count_le_measure (run : Run init step) (kind grows : α → Prop) [DecidablePred kind]
    [DecidablePred grows] (measure : σ → Int) {c : Int} {i n : Nat}
    (drops : ∀ t, i ≤ t → t < i + n →
      measure (run.state (t + 1)) + (if kind (run.act t) then 1 else 0) ≤
        measure (run.state t) + if grows (run.act t) then c else 0) :
    measure (run.state (i + n)) + run.count kind i n ≤
      measure (run.state i) + c * run.count grows i n := by
  induction n with
  | zero => simp only [count, Nat.cast_zero, mul_zero, add_zero, le_refl]
  | succ n ih =>
    have before := ih fun t from_ below => drops t from_ (by omega)
    have last := drops (i + n) (by omega) (by omega)
    rw [← Nat.add_assoc, count, count]
    push_cast
    rw [mul_add, mul_ite, mul_one, mul_zero]
    split_ifs at last ⊢ <;> omega

theorem count_all (run : Run init step) (kind : α → Prop) [DecidablePred kind] {i n : Nat}
    (all : ∀ t, i ≤ t → t < i + n → kind (run.act t)) : run.count kind i n = n := by
  induction n with
  | zero => rfl
  | succ n ih =>
    rw [count, ih fun t from_ below => all t from_ (by omega),
      if_pos (all (i + n) (by omega) (by omega))]

theorem count_none (run : Run init step) (kind : α → Prop) [DecidablePred kind] {i n : Nat}
    (none_ : ∀ t, i ≤ t → t < i + n → ¬ kind (run.act t)) : run.count kind i n = 0 := by
  induction n with
  | zero => rfl
  | succ n ih =>
    rw [count, ih fun t from_ below => none_ t from_ (by omega),
      if_neg (none_ (i + n) (by omega) (by omega))]

theorem count_add (run : Run init step) (kind : α → Prop) [DecidablePred kind] (i m n : Nat) :
    run.count kind i (m + n) = run.count kind i m + run.count kind (i + m) n := by
  induction n with
  | zero => rfl
  | succ n ih => rw [← Nat.add_assoc, count, ih, count, Nat.add_assoc, Nat.add_assoc]

end Runs.Run
