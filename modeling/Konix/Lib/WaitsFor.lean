import Konix.Lib.Rendezvous
import Konix.Lib.Walk

set_option autoImplicit false

namespace Rendezvous

open Relation Walk

variable {P A M : Type}

def Status.target : Status P A → Option P
  | .sending dest _ => some dest
  | _ => none

def Mail.target (a : Mail P A M) (p : P) : Option P := (a.status p).target

variable [DecidableEq P] [DecidableEq A] {fmt : Format P M} {a a' : Mail P A M}

omit [DecidableEq A] in
theorem Mail.setStatus_target (a : Mail P A M) (p : P) (status : Status P A) :
    (a.setStatus p status).target = Function.update a.target p status.target := by
  funext q
  by_cases same : q = p
  · subst same
    simp only [target, setStatus_status, Function.update_self]
  · simp only [target, setStatus_status, Function.update_of_ne same]

omit [DecidableEq A] in
theorem Mail.wake_acyclic (acyclic : Acyclic a.target) (p : P) {status : Status P A}
    (waits : status.target = none) : Acyclic (a.setStatus p status).target := by
  rw [setStatus_target, waits]
  exact acyclic.clear p

/--
No process comes to wait for itself along the others, when a SEND is let through only if its
receiver does not wait for the sender already.
-/
theorem Step.acyclic {act : Act P A} (step : Step fmt a act a') (acyclic : Acyclic a.target)
    (away : ∀ s d buf, act = .send s d buf → ¬ ReflTransGen (Edge a.target) d s) :
    Acyclic a'.target := by
  cases step with
  | send s d buf runs other sends =>
    cases sends with
    | deliver src rbuf waiting admits => exact Mail.wake_acyclic acyclic d rfl
    | enqueue busy =>
      rw [Mail.setStatus_target]
      exact acyclic.extend (away s d buf rfl)
  | receive r src buf runs receives =>
    cases receives with
    | interrupt pending takes => exact acyclic
    | take s sbuf quiet picks blocked => exact Mail.wake_acyclic acyclic s rfl
    | wait quiet nobody => exact Mail.wake_acyclic acyclic r rfl
  | inform t informs =>
    cases informs with
    | wake src buf waiting takes => exact Mail.wake_acyclic acyclic t rfl
    | note busy => exact acyclic
  | compute mem => exact acyclic

end Rendezvous
