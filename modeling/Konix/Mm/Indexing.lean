import Konix.Mm.Segments
import Konix.Kernel.Indices

set_option autoImplicit false

namespace Konix.Mm

open Kernel Runs

section Calls

variable {k k' : Kernel.State} {memorySize pid childPid : Int}

theorem duplicate_forked (done : duplicate memorySize k pid childPid = .ok k') :
    nrTasks + nrNativeProcs ≤ childPid := by
  unfold duplicate at done
  obtain ⟨_, -, done⟩ := bind_ok done
  obtain ⟨base, allocates, -⟩ := bind_ok done
  exact (allocMem_ok.mp allocates).1

theorem linked_fork (linked : Linked k) (inTable : InTable pid)
    (done : duplicate memorySize k pid childPid = .ok k') : Linked k' := by
  obtain ⟨others, base, copied⟩ := duplicate_copies done
  intro p slot
  by_cases isChild : p = childPid
  next =>
    subst isChild
    rw [copied]
    have parent := linked pid inTable
    refine ⟨parent.sendTo, parent.head, parent.next, fun native => ?_⟩
    exact absurd (duplicate_forked done) (not_le.mpr native)
  next =>
    rw [others p isChild]
    exact linked p slot

theorem linked_changes (linked : Linked k) {update : Update} (changes : Changes k update k') :
    Linked k' := by
  cases changes with
  | call caller function srcDest m inTable runnable legal done =>
    refine linked.sysSendrec inTable (fun sends => ?_) done
    subst sends
    exact legal.1
  | inform taskNr inTable done => exact linked.informInt done
  | compute mem => exact linked.withMem mem
  | fork memorySize pid childPid inTable live found done => exact linked_fork linked inTable done
  | mark p f marks =>
    refine linked.modify p fun entry => ?_
    cases marks <;> exact ⟨entry.sendTo, entry.head, entry.next, entry.flat⟩
  | release p inTable =>
    refine linked.modify p fun entry => ?_
    exact ⟨fun sends => absurd sends Bool.false_ne_true, entry.head, entry.next, entry.flat⟩

end Calls

theorem run_linked (run : Run Boots Changes) : ∀ t, t ≤ run.length → Linked (run.state t) := by
  refine run.invariant ?_ fun _ _ _ linked changes => linked_changes linked changes
  rintro k ⟨kBase, kLimit, mem, rfl⟩
  exact Linked.kernelMain kBase kLimit mem

/--
A call that `sys_sendrec()` accepts uses no index outside the table if and only if it is no SEND to
ANY or INTERRUPT, in every state that the kernel and MM can reach by calls that are none either.
-/
theorem indices_in_table_iff (run : Run Boots Changes) {t : Nat} (within : t ≤ run.length)
    {caller : Int} (callerIn : InTable caller) (turns : Nat) {function : Function}
    (known : function = .send ∨ function = .receive) {srcDest : Int} {m : Nat}
    (bound : m < 4294967296)
    (accepted : InTable srcDest ∨ srcDest = any ∨ srcDest = interrupt) (other : caller ≠ srcDest) :
    (∀ i ∈ indices (run.state t) turns function srcDest m caller, InTable i) ↔
      ¬ (function = .send ∧ (srcDest = any ∨ srcDest = interrupt)) :=
  indices_inTable_iff (run_linked run t within) callerIn turns known bound accepted other

-- In the crowd, INIT asks for the message of TestA, which is sending to it.
theorem indices_in_table_crowd :
    indices (crowd 2) 38 .receive 6 12288 initPid = [initPid, 6, initPid, 6] ∧
      ∀ i ∈ indices (crowd 2) 38 .receive 6 12288 initPid, InTable i := by
  have states : (crowdRun 2 (by decide)).state = crowd := rfl
  have other : initPid ≠ 6 := by decide
  have safe :=
    indices_in_table_iff (crowdRun 2 (by decide)) (le_refl 2) (show InTable initPid by decide)
    38 (.inr rfl) (show 12288 < 4294967296 by decide) (.inl (show InTable 6 by decide)) other
  rw [states] at safe
  exact ⟨by decide +kernel, safe.mpr fun sends => by cases sends.1⟩

-- The first message of a process can be addressed to ANY.
theorem send_to_any : any ∈ indices (kernelMain 0 0 fun _ => resetMsg) 38 .send any 4096 6 ∧
    ¬ InTable any := by
  decide

end Konix.Mm
