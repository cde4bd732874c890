import Konix.Kernel.Refine

set_option autoImplicit false

namespace Konix.Kernel

open Rendezvous Runs

inductive Action
  | call (caller : Int) (function : Function) (srcDest : Int) (m : Nat)
  | inform (taskNr : Int)
  | compute

def LegalCall (caller : Int) : Function → Int → Prop
  | .send, dest => InTable dest ∧ dest ≠ caller
  | .receive, src => Legal caller src
  | .both, _ => False

-- What the kernel leaves behind: it returned, or an assertion failed. A deadlock ends the run.
def Leaves (outcome : Except Halted State) (k' : State) : Prop :=
  outcome = .ok k' ∨ outcome = .error ⟨.assertion, k'⟩

/--
One step of the machine: a call by a process that runs, an interrupt, or the programs changing
their memory.
-/
inductive Step (k : State) : Action → State → Prop
  | call {k' : State} (caller : Int) (function : Function) (srcDest : Int) (m : Nat)
      (inTable : InTable caller) (runnable : (k.procTable caller).pFlags = .clear)
      (legal : LegalCall caller function srcDest) (msg : m ≠ 0) (bound : m < 4294967296)
      (leaves : Leaves (sysSendrec k function srcDest m caller) k') :
      Step k (.call caller function srcDest m) k'
  | inform {k' : State} (taskNr : Int) (inTable : InTable taskNr)
      (leaves : Leaves (informInt k taskNr) k') : Step k (.inform taskNr) k'
  | compute (mem : Nat → Message) : Step k .compute { k with mem := mem }

def Boots (k : State) : Prop := ∃ kBase kLimit mem, k = kernelMain kBase kLimit mem

-- The same action on the level of message passing; the native processes use flat segments.
def Action.act : Action → Act Int Nat
  | .call caller .send dest m => .send caller dest m
  | .call caller .receive src m => .receive caller (sourceOf src) m
  | .call _ .both _ _ => .compute
  | .inform taskNr => .inform taskNr
  | .compute => .compute

-- The slots that `kernel_main()` leaves empty stay as it leaves them.
def Unused (proc : Proc) : Prop := proc.pSendto = 0

structure Native (k : State) (a : Mail Int Nat Message) : Prop extends Represents Unused k a where
  forked : ∀ p : Int, nrTasks + nrNativeProcs ≤ p → a.status p = .absent

def bootMail (mem : Nat → Message) : Mail Int Nat Message where
  status := fun p => if 0 ≤ p ∧ p < nrTasks + nrNativeProcs then .idle else .absent
  pending := fun _ => false
  queue := fun _ => []
  mem := mem

theorem bootMail_fresh (mem : Nat → Message) : Fresh (bootMail mem) := by
  intro p
  refine ⟨?_, rfl⟩
  by_cases native : 0 ≤ p ∧ p < nrTasks + nrNativeProcs
  · exact .inl (by simp only [bootMail, native, and_self, if_true])
  · exact .inr (by simp only [bootMail, native, if_false])

theorem native_boots (kBase kLimit : Nat) (mem : Nat → Message) :
    Native (kernelMain kBase kLimit mem) (bootMail mem) := by
  have proc {p : Int} (native : p < nrTasks + nrNativeProcs) :
      (kernelMain kBase kLimit mem).procTable p = nativeProc kBase kLimit p := by
    simp only [kernelMain, native, if_true]
  have slot {p : Int} (free : ¬ p < nrTasks + nrNativeProcs) :
      (kernelMain kBase kLimit mem).procTable p = { zeroProc with pFlags := .onlyFreeSlot } := by
    simp only [kernelMain, free, if_false]
  constructor
  case toRepresents =>
    constructor
    case procs =>
      intro p inTable
      by_cases native : p < nrTasks + nrNativeProcs
      · have status : (bootMail mem).status p = .idle := by
          simp only [bootMail, native, inTable.1, and_self, if_true]
        rw [proc native, status]
        exact ⟨.idle rfl rfl rfl rfl, rfl, fun _ => nativeProc_segment kBase kLimit p⟩
      · have status : (bootMail mem).status p = .absent := by
          simp only [bootMail, native, and_false, if_false]
        rw [slot native, status]
        exact ⟨.absent rfl rfl, rfl, fun native' => absurd native' native⟩
    case outside =>
      intro p out
      have notNative : ¬ (0 ≤ p ∧ p < nrTasks + nrNativeProcs) := by
        simp only [InTable, nrTasks, nrProcs, nrNativeProcs] at out ⊢
        omega
      simp only [bootMail, notNative, if_false]
    case queues =>
      refine ⟨?_, fun d => List.nodup_nil, ?_, ?_⟩
      · intro d inTable
        show State.head _ d = none
        unfold State.head
        by_cases native : d < nrTasks + nrNativeProcs
        · rw [proc native]
          rfl
        · rw [slot native]
          rfl
      · intro d p member
        cases member
      · intro d d' p member
        cases member
    case mem => rfl
    case wf => exact (bootMail_fresh mem).wellFormed
  case forked =>
    intro p far
    have notNative : ¬ (0 ≤ p ∧ p < nrTasks + nrNativeProcs) := by omega
    simp only [bootMail, notNative, if_false]

variable {k k' : State} {a : Mail Int Nat Message}

theorem Native.flat (h : Native k a) {p : Int} (inTable : InTable p)
    (present : a.status p ≠ .absent) {va : Nat} (bound : va < 4294967296) :
    linear (k.procTable p) va = va := by
  have native : p < nrTasks + nrNativeProcs := by
    by_contra far
    exact present (h.forked p (by omega))
  rw [linear, h.segment inTable native, Nat.zero_add, Nat.mod_eq_of_lt bound]

theorem Native.runs (h : Native k a) {p : Int} (inTable : InTable p)
    (runnable : (k.procTable p).pFlags = .clear) : a.status p = .idle := by
  have shape := (h.procs p inTable).shape
  have flags' : (k.procTable p).core.pFlags = .clear := runnable
  generalize a.status p = status at shape
  cases shape with
  | idle flags msg recv send => rfl
  | sending flags msg bound recv dest => cases flags.symm.trans flags'
  | receiving flags msg bound recv send => cases flags.symm.trans flags'
  | absent flags unused => cases flags.symm.trans flags'

theorem Legal.ne {who src : Int} (inTable : InTable who) (legal : Legal who src) : who ≠ src := by
  rcases legal with ⟨-, other⟩ | rfl | rfl
  · exact Ne.symm other
  · rintro rfl
    exact absurd inTable (by decide)
  · rintro rfl
    exact absurd inTable (by decide)

theorem Legal.accepted {who src : Int} (legal : Legal who src) :
    0 ≤ src ∧ src < nrTasks + nrProcs ∨ src = any ∨ src = interrupt := by
  rcases legal with ⟨bounds, -⟩ | rfl | rfl
  · exact .inl bounds
  · exact .inr (.inl rfl)
  · exact .inr (.inr rfl)

theorem sysSendrec_eq {caller srcDest : Int} {function : Function} {m : Nat}
    (segment : caller < nrTasks + nrNativeProcs → ldtSegLinear (k.procTable caller).ldtRw = 0)
    (bound : m < 4294967296)
    (accepted : 0 ≤ srcDest ∧ srcDest < nrTasks + nrProcs ∨ srcDest = any ∨ srcDest = interrupt)
    (other : caller ≠ srcDest) :
    let la := linear (k.procTable caller) m
    let k₁ := { k with mem := Function.update k.mem la { k.mem la with source := caller } }
    sysSendrec k function srcDest m caller =
      match function with
      | .send => msgSend k₁ caller srcDest m
      | .receive => msgReceive k₁ caller srcDest m
      | .both => .error ⟨.panic, k₁⟩ := by
  intro la k₁
  simp only [sysSendrec, State.assertThat_of accepted, va2la_eq segment bound,
    State.assertThat_of other, bind, Except.bind]
  rfl

theorem msgSend_safe {sender dest : Int} {m : Nat} (other : sender ≠ dest)
    (leaves : Leaves (msgSend k sender dest m) k') :
    deadlock k.procTable sender loopFuel dest = some false := by
  cases found : deadlock k.procTable sender loopFuel dest with
  | none =>
    simp only [msgSend, State.assertThat_of other, found, bind, Except.bind] at leaves
    rcases leaves with left | left <;> cases left
  | some cyclic =>
    cases cyclic with
    | true =>
      simp only [msgSend, State.assertThat_of other, found, bind, Except.bind] at leaves
      rcases leaves with left | left <;> cases left
    | false => rfl

theorem Represents.sysSendrec {free : Proc → Prop} (h : Represents free k a)
    {caller srcDest : Int} {function : Function} {m : Nat} (runs : a.status caller = .idle)
    (legal : LegalCall caller function srcDest) (msg : m ≠ 0) (bound : m < 4294967296)
    (leaves : Leaves (sysSendrec k function srcDest m caller) k') :
    ∃ a', Represents free k' a' ∧
      match function with
      | .send => Rendezvous.Step format a
          (.send caller srcDest (linear (k.procTable caller) m)) a'
      | .receive => Rendezvous.Step format a
          (.receive caller (sourceOf srcDest) (linear (k.procTable caller) m)) a'
      | .both => False := by
  have inTable := h.idle_inTable runs
  have stamped := h.write (linear (k.procTable caller) m)
    { k.mem (linear (k.procTable caller) m) with source := caller }
  cases function with
  | both => exact legal.elim
  | send =>
    obtain ⟨target, other⟩ := legal
    rw [sysSendrec_eq (h.segment inTable) bound (.inl target) (Ne.symm other)] at leaves
    obtain ⟨k₂, a', sent, sends, after⟩ :=
      stamped.msgSend runs target (Ne.symm other) msg bound (msgSend_safe (Ne.symm other) leaves)
    have same : k' = k₂ := by
      rcases leaves with left | left
      · exact Except.ok.inj (left.symm.trans sent)
      · cases left.symm.trans sent
    subst same
    refine ⟨a', after, ?_⟩
    rw [← h.mem] at sends
    exact .send caller srcDest _ runs (Ne.symm other) sends
  | receive =>
    have other := Legal.ne inTable legal
    rw [sysSendrec_eq (h.segment inTable) bound legal.accepted other] at leaves
    obtain ⟨k₂, a', receives, after, ends⟩ := stamped.msgReceive runs legal other msg bound
    have same : k' = k₂ := by
      rcases ends with done | ⟨-, done⟩
      · rcases leaves with left | left
        · exact Except.ok.inj (left.symm.trans done)
        · cases left.symm.trans done
      · rcases leaves with left | left
        · cases left.symm.trans done
        · cases left.symm.trans done
          rfl
    subst same
    refine ⟨a', after, ?_⟩
    rw [← h.mem] at receives
    exact .receive caller (sourceOf srcDest) _ runs receives

-- Every step of the machine is one of message passing.
theorem Native.step (h : Native k a) {act : Action} (step : Step k act k') :
    ∃ a', Rendezvous.Step format a act.act a' ∧ Native k' a' := by
  have finish {a' : Mail Int Nat Message} (passes : Rendezvous.Step format a act.act a')
      (after : Represents Unused k' a') :
      ∃ a', Rendezvous.Step format a act.act a' ∧ Native k' a' :=
    ⟨a', passes, ⟨after, fun p far => passes.absent_persists (h.forked p far)⟩⟩
  cases step with
  | call caller function srcDest m inTable runnable legal msg bound leaves =>
    have runs := h.runs inTable runnable
    obtain ⟨a', after, passes⟩ := h.toRepresents.sysSendrec runs legal msg bound leaves
    rw [h.flat inTable (by simp [runs]) bound] at passes
    cases function with
    | both => exact legal.elim
    | send => exact finish passes after
    | receive => exact finish passes after
  | inform taskNr inTable leaves =>
    have flat (flag : (k.procTable taskNr).pFlags.receiving = true) :
        linear (k.procTable taskNr) (k.procTable taskNr).pMsg = (k.procTable taskNr).pMsg := by
      have waiting := h.receiving_of_flag inTable flag
      obtain ⟨-, -, bound, -⟩ := h.receiving_fields inTable waiting
      exact h.flat inTable (by simp [waiting]) bound
    obtain ⟨k₂, a', informed, informs, after⟩ := h.informInt inTable (fun _ unused => unused) flat
    have same : k' = k₂ := by
      rcases leaves with left | left
      · exact Except.ok.inj (left.symm.trans informed)
      · cases left.symm.trans informed
    subst same
    exact finish (.inform taskNr informs) after
  | compute mem =>
    refine finish (.compute mem) ⟨h.procs, h.outside, ?_, rfl, h.wf.withMem mem⟩
    exact ⟨h.queues.chain, h.queues.distinct, h.queues.inTable, h.queues.disjoint⟩

/-- The run of message passing that a run of the kernel represents, action by action. -/
structure Mirrors (run : Run Boots Step) (mail : Run Fresh (Rendezvous.Step (A := Nat) format)) :
    Prop where
  length : mail.length = run.length
  acts : ∀ t, mail.act t = (run.act t).act
  native : ∀ t, t ≤ run.length → Native (run.state t) (mail.state t)

theorem mirrors_exists (run : Run Boots Step) : ∃ mail, Mirrors run mail := by
  have simulation := @Run.simulated _ _ _ _ _ _ Fresh (Rendezvous.Step (A := Nat) format) Native run
    Action.act
    (by
      rintro k ⟨kBase, kLimit, mem, rfl⟩
      exact ⟨bootMail mem, bootMail_fresh mem, native_boots kBase kLimit mem⟩)
    fun _ _ _ _ native step => native.step step
  obtain ⟨mail, length, acts, native⟩ := simulation
  exact ⟨mail, length, acts, native⟩

end Konix.Kernel
