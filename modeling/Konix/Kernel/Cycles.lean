import Konix.Kernel.QueueInvariant
import Konix.Lib.WaitsFor

set_option autoImplicit false

namespace Konix.Kernel

open Relation Rendezvous Runs Walk

-- The loop of `deadlock()` that prints the chain from `p` to `src`.
def printChain (table : Int → Proc) (src : Int) : Nat → Int → Except Halt (List Int)
  | 0, _ => .error .hang
  | fuel + 1, p =>
    if (table p).pMsg = 0 then .error .assertion
    else if (table p).pSendto = src then .ok [src]
    else (printChain table src fuel (table p).pSendto).map ((table p).pSendto :: ·)

-- The edge from a process with `SENDING` set to its `p_sendto`.
def State.sendsTo (k : State) (p : Int) : Option Int :=
  if InTable p ∧ (k.procTable p).pFlags.sending = true then some (k.procTable p).pSendto else none

def Leads (k : State) (p q : Int) : Prop := TransGen (Edge k.sendsTo) p q

variable {k k' : State} {a : Mail Int Nat Message}

theorem sendsTo_some {p : Int} (inTable : InTable p)
    (sending : (k.procTable p).pFlags.sending = true) :
    k.sendsTo p = some (k.procTable p).pSendto :=
  if_pos ⟨inTable, sending⟩

theorem sendsTo_none {p : Int} (awake : (k.procTable p).pFlags.sending ≠ true) :
    k.sendsTo p = none :=
  if_neg fun sends => awake sends.2

theorem sendsTo_eq {p q : Int} (sends : k.sendsTo p = some q) :
    InTable p ∧ (k.procTable p).pFlags.sending = true ∧ (k.procTable p).pSendto = q := by
  unfold State.sendsTo at sends
  split at sends
  next holds => exact ⟨holds.1, holds.2, Option.some.inj sends⟩
  next => cases sends

theorem Represents.target {free : Proc → Prop} (h : Represents free k a) :
    a.target = k.sendsTo := by
  funext p
  unfold Mail.target
  by_cases sends : InTable p ∧ (k.procTable p).pFlags.sending = true
  next =>
    rw [sendsTo_some sends.1 sends.2, h.sending_of_flag sends.1 sends.2]
    rfl
  next =>
    rw [State.sendsTo, if_neg sends]
    cases status : a.status p with
    | sending dest buf =>
      have inTable := h.sending_inTable status
      have flags := (h.sending_fields inTable status).1
      refine absurd ⟨inTable, ?_⟩ sends
      rw [flags]
      rfl
    | idle => rfl
    | receiving src buf => rfl
    | absent => rfl

structure SendsReady (k : State) : Prop where
  dest : ∀ p q, k.sendsTo p = some q → InTable q
  msg : ∀ p q, k.sendsTo p = some q → (k.procTable p).pMsg ≠ 0

theorem Represents.sendsReady {free : Proc → Prop} (h : Represents free k a) : SendsReady k := by
  constructor
  case dest =>
    intro p q sends
    obtain ⟨inTable, sending, rfl⟩ := sendsTo_eq sends
    exact (h.sending_fields inTable (h.sending_of_flag inTable sending)).2.2.2.2.1
  case msg =>
    intro p q sends
    obtain ⟨inTable, sending, rfl⟩ := sendsTo_eq sends
    exact (h.sending_fields inTable (h.sending_of_flag inTable sending)).2.1

theorem deadlock_sound (ready : SendsReady k) {src p : Int} {fuel : Nat} {found : Bool}
    (inTable : InTable p) (answers : deadlock k.procTable src fuel p = some found) :
    found = true ↔ Leads k p src := by
  induction fuel generalizing p with
  | zero => cases answers
  | succ fuel ih =>
    unfold deadlock at answers
    by_cases sending : (k.procTable p).pFlags.sending = true
    next =>
      have edge := sendsTo_some inTable sending
      rw [if_pos sending] at answers
      rw [Leads, transGen_edge edge]
      by_cases target : (k.procTable p).pSendto = src
      next =>
        rw [if_pos target] at answers
        cases answers
        exact ⟨fun _ => .inl target, fun _ => rfl⟩
      next =>
        rw [if_neg target] at answers
        rw [ih (ready.dest _ _ edge) answers, Leads]
        exact ⟨.inr, fun leads => leads.resolve_left target⟩
    next =>
      rw [if_neg sending] at answers
      cases answers
      exact ⟨nofun, fun leads => absurd leads (not_edge (sendsTo_none sending))⟩

theorem deadlock_ends (ready : SendsReady k) (src : Int) {p : Int} {fuel : Nat} {nodes : List Int}
    (inTable : InTable p) (ends : walk k.sendsTo fuel p = some nodes) :
    ∃ found, deadlock k.procTable src fuel p = some found := by
  induction fuel generalizing p nodes with
  | zero => cases ends
  | succ fuel ih =>
    unfold deadlock
    by_cases sending : (k.procTable p).pFlags.sending = true
    next =>
      have edge := sendsTo_some inTable sending
      rw [if_pos sending]
      by_cases target : (k.procTable p).pSendto = src
      next =>
        rw [if_pos target]
        exact ⟨true, rfl⟩
      next =>
        rw [walk, edge] at ends
        obtain ⟨rest, ends', -⟩ := Option.map_eq_some_iff.mp ends
        rw [if_neg target]
        exact ih (ready.dest _ _ edge) ends'
    next =>
      rw [if_neg sending]
      exact ⟨false, rfl⟩

theorem printChain_ends (ready : SendsReady k) {src p : Int} {fuel : Nat} {nodes : List Int}
    (leads : Leads k p src) (ends : walk k.sendsTo fuel p = some nodes) :
    ∃ chain, printChain k.procTable src fuel p = .ok chain := by
  induction fuel generalizing p nodes with
  | zero => cases ends
  | succ fuel ih =>
    unfold printChain
    obtain ⟨q, edge, -⟩ := TransGen.head'_iff.mp leads
    obtain ⟨-, -, rfl⟩ := sendsTo_eq edge
    rw [if_neg (ready.msg _ _ edge)]
    by_cases target : (k.procTable p).pSendto = src
    next =>
      rw [if_pos target]
      exact ⟨[src], rfl⟩
    next =>
      rw [Edge] at edge
      rw [walk, edge] at ends
      obtain ⟨rest, ends', -⟩ := Option.map_eq_some_iff.mp ends
      rw [Leads, transGen_edge edge] at leads
      obtain ⟨chain, prints⟩ := ih (leads.resolve_left target) ends'
      rw [if_neg target, prints]
      exact ⟨(k.procTable p).pSendto :: chain, rfl⟩

def tableSlots : Finset Int := (Finset.range (nrTasks + nrProcs)).image Int.ofNat

theorem mem_tableSlots {p : Int} : p ∈ tableSlots ↔ InTable p := by
  simp only [tableSlots, Finset.mem_image, Finset.mem_range, InTable]
  constructor
  · rintro ⟨i, below, rfl⟩
    exact ⟨Int.natCast_nonneg i, Int.ofNat_lt.mpr below⟩
  · rintro ⟨lower, upper⟩
    exact ⟨p.toNat, by omega, Int.toNat_of_nonneg lower⟩

theorem card_tableSlots : tableSlots.card = nrTasks + nrProcs := by
  rw [tableSlots, Finset.card_image_of_injective _ Int.ofNat_injective, Finset.card_range]

theorem sendsTo_walk (ready : SendsReady k) (acyclic : Acyclic k.sendsTo) {p : Int}
    (inTable : InTable p) : ∃ nodes, walk k.sendsTo (nrTasks + nrProcs) p = some nodes := by
  rw [← card_tableSlots]
  apply walk_ends acyclic
  · intro b _ c edge
    exact mem_tableSlots.mpr (ready.dest b c edge)
  · exact mem_tableSlots.mpr inTable

-- The kernel lets a SEND through only if it closes no cycle.
theorem Native.step_acyclic (h : Native k a) (acyclic : Acyclic k.sendsTo) {act : Action}
    (step : Step k act k') : ∃ a', Native k' a' ∧ Acyclic k'.sendsTo := by
  obtain ⟨a', passes, native⟩ := h.step step
  refine ⟨a', native, ?_⟩
  rw [← native.target]
  rw [← h.target] at acyclic
  apply passes.acyclic acyclic
  intro s d buf isSend leads
  rw [h.target] at leads
  cases step with
  | call caller function srcDest m inTable runnable legal msg bound leaves =>
    cases function with
    | both => exact legal.elim
    | receive => cases isSend
    | send =>
      cases isSend
      rw [sysSendrec_eq (h.segment inTable) bound (.inl legal.1) (Ne.symm legal.2)] at leaves
      have answers := msgSend_safe (Ne.symm legal.2) leaves
      have sound := deadlock_sound h.sendsReady legal.1 answers
      rcases reflTransGen_iff_eq_or_transGen.mp leads with same | path
      · exact legal.2 same.symm
      · cases sound.mpr path
  | inform taskNr inTable leaves => cases isSend
  | compute mem => cases isSend

/--
The processes that send form no cycle, so `deadlock()` and its printing loop end within as many
steps as the table has slots, and it finds the cycle that the SEND would close if there is one.
-/
structure DeadlockExact (k : State) : Prop where
  acyclic : ∀ p, ¬ Leads k p p
  answers : ∀ src dest, InTable src → InTable dest →
    ∃ found, deadlock k.procTable src (nrTasks + nrProcs) dest = some found ∧
      (found = true ↔ Leads k dest src)
  prints : ∀ src dest, InTable src → InTable dest → Leads k dest src →
    ∃ chain, printChain k.procTable src (nrTasks + nrProcs) dest = .ok chain

theorem deadlock_exact (run : Run Boots Step) (t : Nat) (within : t ≤ run.length) :
    DeadlockExact (run.state t) := by
  have kept := run.invariant (P := fun k => ∃ a, Native k a ∧ Acyclic k.sendsTo)
    (by
      intro k ⟨kBase, kLimit, mem, boots⟩
      subst boots
      have native := native_boots kBase kLimit mem
      refine ⟨_, native, ?_⟩
      rw [← native.target]
      intro p cycle
      refine not_edge ?_ cycle
      simp only [Mail.target, bootMail]
      split <;> rfl)
    (fun k act k' ⟨a, native, acyclic⟩ step => native.step_acyclic acyclic step)
  obtain ⟨a, native, acyclic⟩ := kept t within
  have ready := native.sendsReady
  constructor
  case acyclic => exact acyclic
  case answers =>
    intro src dest _ inTable
    obtain ⟨nodes, ends⟩ := sendsTo_walk ready acyclic inTable
    obtain ⟨found, answers⟩ := deadlock_ends ready src inTable ends
    exact ⟨found, answers, deadlock_sound ready inTable answers⟩
  case prints =>
    intro src dest _ inTable leads
    obtain ⟨nodes, ends⟩ := sendsTo_walk ready acyclic inTable
    exact printChain_ends ready leads ends

theorem deadlock_exact_two_senders : DeadlockExact (sampleRun.state 2) :=
  deadlock_exact sampleRun 2 (le_refl 2)

end Konix.Kernel
