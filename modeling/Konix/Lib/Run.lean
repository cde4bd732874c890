import Mathlib.Tactic

set_option autoImplicit false

namespace Runs

variable {σ α : Type}

-- A finite run of a transition system: its states and the actions between them.
structure Run (init : σ → Prop) (step : σ → α → σ → Prop) where
  length : Nat
  state : Nat → σ
  act : Nat → α
  start : init (state 0)
  steps : ∀ t, t < length → step (state t) (act t) (state (t + 1))

namespace Run

variable {init : σ → Prop} {step : σ → α → σ → Prop}

def still (s : σ) (a : α) (start : init s) : Run init step where
  length := 0
  state := fun _ => s
  act := fun _ => a
  start := start
  steps := fun t within => absurd within (Nat.not_lt_zero t)

def snoc (run : Run init step) (a : α) (s' : σ) (next : step (run.state run.length) a s') :
    Run init step where
  length := run.length + 1
  state := fun t => if t ≤ run.length then run.state t else s'
  act := fun t => if t < run.length then run.act t else a
  start := by
    rw [if_pos (Nat.zero_le _)]
    exact run.start
  steps := by
    intro t within
    by_cases before : t < run.length
    next =>
      rw [if_pos (by omega), if_pos before, if_pos (by omega)]
      exact run.steps t before
    next =>
      have last : t = run.length := by omega
      subst last
      rw [if_pos (le_refl _), if_neg (Nat.lt_irrefl _), if_neg (by omega)]
      exact next

theorem snoc_last (run : Run init step) {a : α} {s' : σ}
    (next : step (run.state run.length) a s') :
    (run.snoc a s' next).state (run.snoc a s' next).length = s' := by
  show (if run.length + 1 ≤ run.length then run.state (run.length + 1) else s') = s'
  rw [if_neg (by omega)]

theorem snoc_acts (run : Run init step) {a : α} {s' : σ} {P : σ → α → Prop}
    (next : step (run.state run.length) a s')
    (before : ∀ t, t < run.length → P (run.state t) (run.act t))
    (now : P (run.state run.length) a) :
    ∀ t, t < (run.snoc a s' next).length →
      P ((run.snoc a s' next).state t) ((run.snoc a s' next).act t) := by
  intro t within
  have bound : t < run.length + 1 := within
  show P (if t ≤ run.length then run.state t else s') (if t < run.length then run.act t else a)
  rw [if_pos (by omega)]
  by_cases earlier : t < run.length
  next =>
    rw [if_pos earlier]
    exact before t earlier
  next =>
    have last : t = run.length := by omega
    subst last
    rwa [if_neg earlier]

theorem timed_invariant {P : Nat → σ → Prop} (run : Run init step)
    (first : ∀ s, init s → P 0 s)
    (kept : ∀ t, t < run.length → P t (run.state t) → P (t + 1) (run.state (t + 1))) :
    ∀ t, t ≤ run.length → P t (run.state t) := by
  intro t
  induction t with
  | zero => exact fun _ => first _ run.start
  | succ t ih => exact fun within => kept t within (ih (by omega))

theorem invariant {P : σ → Prop} (run : Run init step) (first : ∀ s, init s → P s)
    (kept : ∀ s a s', P s → step s a s' → P s') : ∀ t, t ≤ run.length → P (run.state t) :=
  run.timed_invariant (P := fun _ => P) first
    fun t within holds => kept _ _ _ holds (run.steps t within)

-- The property has held in every state after step `i`, up to the state `t`.
def HeldSince (run : Run init step) (P : σ → Prop) (i t : Nat) : Prop :=
  ∀ u, i < u → u ≤ t → P (run.state u)

theorem heldSince_self (run : Run init step) {P : σ → Prop} {t : Nat}
    (now : P (run.state (t + 1))) : run.HeldSince P t (t + 1) := by
  intro u after before
  have : u = t + 1 := by omega
  rwa [this]

theorem heldSince_succ {run : Run init step} {P : σ → Prop} {i t : Nat}
    (held : run.HeldSince P i t) (now : P (run.state (t + 1))) : run.HeldSince P i (t + 1) := by
  intro u after before
  by_cases last : u = t + 1
  · rwa [last]
  · exact held u after (by omega)

-- A step of the first kind has been taken before the state `t`, and none of the second kind after
-- it.
def Since (run : Run init step) (A B : σ → σ → Prop) (t : Nat) : Prop :=
  ∃ i, i < t ∧ A (run.state i) (run.state (i + 1)) ∧
    ∀ j, i < j → j < t → ¬ B (run.state j) (run.state (j + 1))

theorem not_since_zero (run : Run init step) {A B : σ → σ → Prop} : ¬ run.Since A B 0 := by
  rintro ⟨i, before, -⟩
  omega

theorem since_succ {run : Run init step} {A B : σ → σ → Prop} {t : Nat} :
    run.Since A B (t + 1) ↔ A (run.state t) (run.state (t + 1)) ∨
      run.Since A B t ∧ ¬ B (run.state t) (run.state (t + 1)) := by
  constructor
  · rintro ⟨i, before, happened, none_⟩
    by_cases last : i = t
    · subst last
      exact .inl happened
    · exact .inr ⟨⟨i, by omega, happened, fun j after inside => none_ j after (by omega)⟩,
        none_ t (by omega) (by omega)⟩
  · rintro (happens | ⟨⟨i, before, happened, none_⟩, stays⟩)
    · exact ⟨t, by omega, happens, fun j after inside => by omega⟩
    · refine ⟨i, by omega, happened, fun j after inside => ?_⟩
      by_cases last : j = t
      · subst last
        exact stays
      · exact none_ j after (by omega)

theorem since_between {run : Run init step} {A B : σ → σ → Prop} {t j : Nat}
    (since : run.Since A B t) (inside : j < t) (ends : B (run.state j) (run.state (j + 1))) :
    ∃ i, j ≤ i ∧ i < t ∧ A (run.state i) (run.state (i + 1)) := by
  obtain ⟨i, before, happened, none_⟩ := since
  refine ⟨i, ?_, before, happened⟩
  by_contra early
  exact none_ j (by omega) inside ends

-- A forward simulation carries a run over to the other system, action by action.
theorem simulated {τ β : Type} {init' : τ → Prop} {step' : τ → β → τ → Prop} {R : σ → τ → Prop}
    (run : Run init step) (f : α → β) (first : ∀ s, init s → ∃ x, init' x ∧ R s x)
    (follows : ∀ s a s' x, R s x → step s a s' → ∃ x', step' x (f a) x' ∧ R s' x') :
    ∃ run' : Run init' step', run'.length = run.length ∧ (∀ t, run'.act t = f (run.act t)) ∧
      ∀ t, t ≤ run.length → R (run.state t) (run'.state t) := by
  have upTo : ∀ n, n ≤ run.length → ∃ state : Nat → τ, init' (state 0) ∧
      (∀ t, t < n → step' (state t) (f (run.act t)) (state (t + 1))) ∧
      ∀ t, t ≤ n → R (run.state t) (state t) := by
    intro n
    induction n with
    | zero =>
      intro _
      obtain ⟨x, start, related⟩ := first _ run.start
      refine ⟨fun _ => x, start, fun t within => by omega, fun t within => ?_⟩
      rwa [Nat.le_zero.mp within]
    | succ n ih =>
      intro within
      obtain ⟨state, start, steps, related⟩ := ih (by omega)
      obtain ⟨x', step', related'⟩ := follows _ _ _ _ (related n (le_refl n)) (run.steps n within)
      refine ⟨Function.update state (n + 1) x', by simpa using start, ?_, ?_⟩
      · intro t bound
        by_cases last : t = n
        · subst last
          simpa using step'
        · have before : t ≠ n + 1 := by omega
          simpa [before, last] using steps t (by omega)
      · intro t bound
        by_cases last : t = n + 1
        · subst last
          simpa using related'
        · simpa [last] using related t (by omega)
  obtain ⟨state, start, steps, related⟩ := upTo run.length (le_refl _)
  exact ⟨⟨run.length, state, fun t => f (run.act t), start, steps⟩, rfl, fun _ => rfl, related⟩

end Run

end Runs
