import Konix.Lib.Run

set_option autoImplicit false

namespace Contexts

open Runs

variable {P C I : Type}

-- Why the processor leaves what it does: a line interrupts it, or it calls.
inductive Cause (I : Type)
  | line (i : I)
  | call
deriving DecidableEq, Repr

-- What waits for a handler to end: a process, whose context is saved for it, or another handler.
inductive Suspended (P C I : Type)
  | process (p : P) (cause : Cause I)
  | handler (i : I) (context : C)

-- The processor and what it will come back to, the latest first.
structure Machine (P C I : Type) where
  live : C
  ready : P
  saved : P → C
  nest : List (Suspended P C I)

inductive Event (P I : Type)
  | enter (cause : Cause I)
  | compute
  | patch (p : P)
  | leave

variable [DecidableEq P]

-- The contexts after the handler that process `p` had to wait for: a call leaves its result.
def Machine.finished (result : C → C → C) (a : Machine P C I) (p : P) : Cause I → P → C
  | .line _ => a.saved
  | .call => Function.update a.saved p (result (a.saved p) a.live)

/--
Handlers nest, and the outermost one decides which process goes on. A process that runs may change
what is saved for another one.
-/
inductive Step (result : C → C → C) : Machine P C I → Event P I → Machine P C I → Prop
  | suspend {a : Machine P C I} {cause : Cause I} (c : C) (user : a.nest = []) :
      Step result a (.enter cause)
        ⟨c, a.ready, Function.update a.saved a.ready a.live, [.process a.ready cause]⟩
  | nest {a : Machine P C I} {i : I} (c : C) (handling : a.nest ≠ []) :
      Step result a (.enter (.line i)) { a with live := c, nest := .handler i a.live :: a.nest }
  | run {a : Machine P C I} (c : C) (user : a.nest = []) :
      Step result a .compute { a with live := c }
  | handle {a : Machine P C I} (c : C) (ready : P) (handling : a.nest ≠ []) :
      Step result a .compute { a with live := c, ready := ready }
  | patch {a : Machine P C I} {p : P} (c : C) (user : a.nest = []) (other : p ≠ a.ready) :
      Step result a (.patch p) { a with saved := Function.update a.saved p c }
  | unnest {a : Machine P C I} {i : I} {c : C} {rest : List (Suspended P C I)}
      (inner : a.nest = .handler i c :: rest) :
      Step result a .leave { a with live := c, nest := rest }
  | resume {a : Machine P C I} {p : P} {cause : Cause I} (outer : a.nest = [.process p cause]) :
      Step result a .leave
        ⟨a.finished result p cause a.ready, a.ready, a.finished result p cause, []⟩

section Nesting

variable {result : C → C → C} {a a' : Machine P C I} {e : Event P I}

-- What waits is waiting still as long as the nesting has not got down to it.
theorem Step.waits {s : Suspended P C I} {rest front : List (Suspended P C I)}
    (step : Step result a e a') (below : a.nest = front ++ s :: rest)
    (deeper : rest.length < a'.nest.length) : ∃ front', a'.nest = front' ++ s :: rest := by
  have handling : a.nest ≠ [] := by simp [below]
  cases step with
  | suspend c user => exact absurd user handling
  | @nest i c _ => exact ⟨.handler i a.live :: front, by rw [below, List.cons_append]⟩
  | run c user => exact absurd user handling
  | handle c ready _ => exact ⟨front, below⟩
  | patch c user other => exact absurd user handling
  | unnest inner =>
    rw [below] at inner
    cases front with
    | nil =>
      cases inner
      exact absurd deeper (Nat.lt_irrefl _)
    | cons s' front =>
      rw [List.cons_append, List.cons.injEq] at inner
      exact ⟨front, inner.2.symm⟩
  | resume outer => exact absurd deeper (Nat.not_lt_zero _)

variable {init : Machine P C I → Prop}

theorem waits (run : Run init (Step (P := P) (I := I) result)) {t n : Nat}
    (within : t + n ≤ run.length) {s : Suspended P C I} {front rest : List (Suspended P C I)}
    (below : (run.state t).nest = front ++ s :: rest)
    (deeper : ∀ u, t < u → u ≤ t + n → rest.length < (run.state u).nest.length) :
    ∃ front', (run.state (t + n)).nest = front' ++ s :: rest := by
  induction n with
  | zero => exact ⟨front, below⟩
  | succ n ih =>
    obtain ⟨front', before⟩ := ih (by omega) fun u after upTo => deeper u after (by omega)
    exact (run.steps (t + n) (by omega)).waits before (deeper (t + n + 1) (by omega) (le_refl _))

theorem Step.comes_back {i : I} {c : C} {rest front : List (Suspended P C I)}
    (step : Step result a e a') (below : a.nest = front ++ .handler i c :: rest)
    (back : a'.nest.length = rest.length) : a'.live = c ∧ a'.nest = rest := by
  have handling : a.nest ≠ [] := by simp [below]
  have long : rest.length < a.nest.length := by
    rw [below, List.length_append, List.length_cons]
    omega
  cases step with
  | suspend c user => exact absurd user handling
  | @nest i c _ =>
    have longer : rest.length < (Suspended.handler i a.live :: a.nest).length :=
      Nat.lt_succ_of_lt long
    exact absurd back (Nat.ne_of_gt longer)
  | run c user => exact absurd user handling
  | handle c ready _ => exact absurd back (Nat.ne_of_gt long)
  | patch c user other => exact absurd user handling
  | unnest inner =>
    rw [below] at inner
    cases front with
    | nil =>
      cases inner
      exact ⟨rfl, rfl⟩
    | cons s' front =>
      rw [List.cons_append, List.cons.injEq] at inner
      rw [← inner.2, List.length_append, List.length_cons] at back
      omega
  | resume outer =>
    rw [below] at outer
    cases front with
    | nil => cases outer
    | cons s' front => simp at outer

-- A handler that is interrupted goes on where it was, however deep the nesting gets.
theorem handler_resumes (run : Run init (Step (P := P) (I := I) result)) {t n : Nat}
    (within : t + 1 + n < run.length) {cause : Cause I} (enters : run.act t = .enter cause)
    (handling : (run.state t).nest ≠ [])
    (deeper : ∀ u, t < u → u ≤ t + 1 + n →
      (run.state t).nest.length < (run.state u).nest.length)
    (back : (run.state (t + 1 + n + 1)).nest.length = (run.state t).nest.length) :
    (run.state (t + 1 + n + 1)).live = (run.state t).live ∧
      (run.state (t + 1 + n + 1)).nest = (run.state t).nest := by
  obtain ⟨i, entered⟩ : ∃ i, (run.state (t + 1)).nest =
      [] ++ .handler i (run.state t).live :: (run.state t).nest := by
    have step := run.steps t (by omega)
    rw [enters] at step
    generalize run.state (t + 1) = a' at step ⊢
    cases step with
    | suspend c user => exact absurd user handling
    | @nest i c _ => exact ⟨i, rfl⟩
  obtain ⟨front, below⟩ := waits run (by omega) entered fun u after upTo => deeper u (by omega) upTo
  exact (run.steps (t + 1 + n) within).comes_back below back

end Nesting

-- Below all handlers there is a process.
def Based (nest : List (Suspended P C I)) : Prop :=
  nest = [] ∨ ∃ front p cause, nest = front ++ [.process p cause]

omit [DecidableEq P] in
theorem Based.tail {s : Suspended P C I} {rest : List (Suspended P C I)}
    (based : Based (s :: rest)) : Based rest := by
  rcases based with none_ | ⟨front, p, cause, same⟩
  · cases none_
  · cases front with
    | nil =>
      cases same
      exact .inl rfl
    | cons s' front =>
      cases same
      exact .inr ⟨front, p, cause, rfl⟩

-- The context of the process is saved for it, and it does not run.
structure Aside (p : P) (c : C) (a : Machine P C I) : Prop where
  saved : a.saved p = c
  others : ∀ q cause, .process q cause ∈ a.nest → q ≠ p
  based : Based a.nest

-- The context a process gets back after the handler that it had to wait for.
def Cause.leaves (result : C → C → C) (c live : C) : Cause I → C
  | .line _ => c
  | .call => result c live

section Processes

variable {result : C → C → C} {a a' : Machine P C I} {e : Event P I} {p : P} {c : C}

theorem Aside.step (aside : Aside p c a) (step : Step result a e a')
    (waiting : a.nest = [] → a.ready ≠ p) (unpatched : e ≠ .patch p) : Aside p c a' := by
  cases step with
  | @suspend cause _ user =>
    refine ⟨?_, ?_, .inr ⟨[], _, cause, rfl⟩⟩
    · exact (Function.update_of_ne (waiting user).symm ..).trans aside.saved
    · intro q cause' member
      cases List.mem_singleton.mp member
      exact waiting user
  | @nest i _ handling =>
    refine ⟨aside.saved, ?_, ?_⟩
    · intro q cause member
      rcases List.mem_cons.mp member with same | member
      · cases same
      · exact aside.others q cause member
    · rcases aside.based with none_ | ⟨front, q, cause, same⟩
      · exact absurd none_ handling
      · exact .inr ⟨.handler i a.live :: front, q, cause, by rw [same]; rfl⟩
  | run c user => exact ⟨aside.saved, aside.others, aside.based⟩
  | handle c ready _ => exact ⟨aside.saved, aside.others, aside.based⟩
  | @patch q _ user other =>
    refine ⟨?_, aside.others, aside.based⟩
    have different : p ≠ q := by
      rintro rfl
      exact unpatched rfl
    exact (Function.update_of_ne different ..).trans aside.saved
  | unnest inner =>
    have based := aside.based
    have others := aside.others
    rw [inner] at based others
    exact ⟨aside.saved, fun q cause member => others q cause (List.mem_cons_of_mem _ member),
      based.tail⟩
  | @resume q cause outer =>
    have other : p ≠ q :=
      (aside.others q cause (by rw [outer]; exact List.mem_singleton_self _)).symm
    refine ⟨?_, fun _ _ member => (List.not_mem_nil member).elim, .inl rfl⟩
    cases cause with
    | line i => exact aside.saved
    | call => exact (Function.update_of_ne other ..).trans aside.saved

theorem Aside.resumed (aside : Aside p c a) (step : Step result a e a')
    (waiting : a.nest = [] → a.ready ≠ p) (user : a'.nest = []) (ready : a'.ready = p) :
    a'.live = c := by
  cases step with
  | suspend c _ => cases user
  | nest c _ => cases user
  | run c before => exact absurd ready (waiting before)
  | handle c ready handling => exact absurd user handling
  | patch c before other => exact absurd ready (waiting before)
  | unnest inner =>
    have none_ : _ = [] := user
    subst none_
    rcases aside.based with none_ | ⟨front, q, cause, same⟩
    · rw [inner] at none_
      cases none_
    · rw [inner] at same
      cases front with
      | nil => cases same
      | cons s front => simp at same
  | @resume q cause outer =>
    have other : p ≠ q :=
      (aside.others q cause (by rw [outer]; exact List.mem_singleton_self _)).symm
    have same : a.ready = p := ready
    show a.finished result q cause a.ready = c
    rw [same]
    cases cause with
    | line i => exact aside.saved
    | call => exact (Function.update_of_ne other ..).trans aside.saved

variable {init : Machine P C I → Prop}

-- Until the handlers have ended, the context of the interrupted process is saved unchanged.
theorem interrupted (run : Run init (Step (P := P) (I := I) result)) {t n : Nat}
    (within : t + 1 + n ≤ run.length) {cause : Cause I} (enters : run.act t = .enter cause)
    (user : (run.state t).nest = [])
    (handling : ∀ u, t < u → u ≤ t + 1 + n → (run.state u).nest ≠ []) :
    (run.state (t + 1 + n)).saved (run.state t).ready = (run.state t).live ∧
      ∃ front, (run.state (t + 1 + n)).nest = front ++ [.process (run.state t).ready cause] := by
  induction n with
  | zero =>
    have step := run.steps t (by omega)
    rw [enters] at step
    show (run.state (t + 1)).saved _ = _ ∧ ∃ front, (run.state (t + 1)).nest = _
    generalize run.state (t + 1) = a' at step ⊢
    cases step with
    | suspend c _ => exact ⟨Function.update_self .., [], rfl⟩
    | nest c handling => exact absurd user handling
  | succ n ih =>
    obtain ⟨saved, front, below⟩ := ih (by omega) fun u after upTo => handling u after (by omega)
    have step := run.steps (t + 1 + n) (by omega)
    have some_ := handling (t + 1 + n + 1) (by omega) (le_refl _)
    obtain ⟨front', below'⟩ := step.waits below (List.length_pos_iff.mpr some_)
    refine ⟨?_, front', below'⟩
    have handling' : (run.state (t + 1 + n)).nest ≠ [] := by simp [below]
    show (run.state (t + 1 + n + 1)).saved _ = _
    generalize run.state (t + 1 + n + 1) = a' at step some_ ⊢
    generalize run.state (t + 1 + n) = a at step saved handling'
    generalize run.act (t + 1 + n) = e at step
    cases step with
    | suspend c user => exact absurd user handling'
    | nest c _ => exact saved
    | run c user => exact absurd user handling'
    | handle c ready _ => exact saved
    | patch c user other => exact absurd user handling'
    | unnest inner => exact saved
    | resume outer => exact absurd rfl some_

/--
A process that was interrupted, or that made a call, goes on with the context it had, and with the
result of the call, whatever ran in between.
-/
theorem process_resumes (run : Run init (Step (P := P) (I := I) result)) {t n m : Nat}
    (within : t + 1 + n + m < run.length) {cause : Cause I} (enters : run.act t = .enter cause)
    (user : (run.state t).nest = [])
    (handling : ∀ u, t < u → u ≤ t + 1 + n → (run.state u).nest ≠ [])
    (returned : (run.state (t + 1 + n + 1)).nest = [])
    (waiting : ∀ u, t + 1 + n < u → u ≤ t + 1 + n + m → (run.state u).nest = [] →
      (run.state u).ready ≠ (run.state t).ready)
    (unpatched : ∀ u, t + 1 + n < u → u ≤ t + 1 + n + m →
      run.act u ≠ .patch (run.state t).ready)
    (resumes : (run.state (t + 1 + n + m + 1)).nest = [])
    (turn : (run.state (t + 1 + n + m + 1)).ready = (run.state t).ready) :
    (run.state (t + 1 + n + m + 1)).live =
      cause.leaves result (run.state t).live (run.state (t + 1 + n)).live := by
  obtain ⟨saved, front, below⟩ := interrupted run (by omega) enters user handling
  have back := run.steps (t + 1 + n) (by omega)
  generalize hc : cause.leaves result (run.state t).live (run.state (t + 1 + n)).live = c
  -- The handlers end: the context is there, with the result.
  have finished : (run.state (t + 1 + n + 1)).saved (run.state t).ready = c ∧
      (run.state (t + 1 + n + 1)).live =
        (run.state (t + 1 + n + 1)).saved (run.state (t + 1 + n + 1)).ready := by
    have handling' : (run.state (t + 1 + n)).nest ≠ [] := by simp [below]
    generalize run.state (t + 1 + n + 1) = a' at back returned ⊢
    generalize run.state (t + 1 + n) = a at back saved below handling' hc
    generalize run.act (t + 1 + n) = e at back
    cases back with
    | suspend c user => exact absurd user handling'
    | nest c _ => cases returned
    | run c user => exact absurd user handling'
    | handle c ready _ => exact absurd returned handling'
    | patch c user other => exact absurd user handling'
    | unnest inner =>
      have none_ : _ = [] := returned
      subst none_
      rw [below] at inner
      cases front with
      | nil => cases inner
      | cons s front => simp at inner
    | @resume q cause' outer =>
      rw [below] at outer
      cases front with
      | nil =>
        cases outer
        refine ⟨?_, rfl⟩
        show a.finished result _ cause _ = c
        rw [← hc]
        cases cause with
        | line i => exact saved
        | call => exact (Function.update_self ..).trans (by rw [saved]; rfl)
      | cons s front => simp at outer
  have aside : ∀ k, k ≤ m →
      (∀ u, t + 1 + n < u → u < t + 1 + n + 1 + k → (run.state u).nest = [] →
        (run.state u).ready ≠ (run.state t).ready) →
      Aside (run.state t).ready c (run.state (t + 1 + n + 1 + k)) := by
    intro k
    induction k with
    | zero =>
      intro _ _
      refine ⟨finished.1, fun q cause member => ?_, .inl returned⟩
      have none_ : (run.state (t + 1 + n + 1)).nest = [] := returned
      rw [Nat.add_zero, none_] at member
      cases member
    | succ k ih =>
      intro bound away
      have before := ih (by omega) fun u after upTo => away u after (by omega)
      exact before.step (run.steps (t + 1 + n + 1 + k) (by omega))
        (away _ (by omega) (by omega)) (unpatched _ (by omega) (by omega))
  cases m with
  | zero =>
    rw [← turn] at finished
    exact finished.2.trans finished.1
  | succ m =>
    have last := aside m (by omega) fun u after upTo => waiting u after (by omega)
    have same : t + 1 + n + 1 + m = t + 1 + n + (m + 1) := by omega
    rw [same] at last
    exact last.resumed (run.steps (t + 1 + n + (m + 1)) within)
      (waiting _ (by omega) (le_refl _)) resumes turn

end Processes

end Contexts
