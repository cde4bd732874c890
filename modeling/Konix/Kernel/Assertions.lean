import Konix.Kernel.QueueInvariant

set_option autoImplicit false

namespace Konix.Kernel

open Rendezvous Runs

variable {k k' : State} {a : Mail Int Nat Message}

/--
A process has a pending interrupt and asks for a message of another process that is not sending to
it: it blocks, and the last assertion of `msg_receive()` says that it has no pending interrupt.
-/
def BlocksOnInterrupt (k : State) (who : Int) (function : Function) (src : Int) : Prop :=
  function = .receive ∧ InTable src ∧ (k.procTable who).hasIntMsg = true ∧
    ¬ ((k.procTable src).pFlags.sending = true ∧ (k.procTable src).pSendto = who)

def FailsAssertion {α : Type} (outcome : Except Halted α) : Prop :=
  ∃ k', outcome = .error ⟨.assertion, k'⟩

theorem not_fails_ok {α : Type} (x : α) : ¬ FailsAssertion (.ok x : Except Halted α) := by
  rintro ⟨k', fails⟩
  cases fails

instance {α : Type} : (outcome : Except Halted α) → Decidable (FailsAssertion outcome)
  | .ok x => isFalse (not_fails_ok x)
  | .error ⟨.assertion, k'⟩ => isTrue ⟨k', rfl⟩
  | .error ⟨.deadlock, _⟩ => isFalse fun ⟨_, fails⟩ => nomatch fails
  | .error ⟨.panic, _⟩ => isFalse fun ⟨_, fails⟩ => nomatch fails
  | .error ⟨.hang, _⟩ => isFalse fun ⟨_, fails⟩ => nomatch fails

section Calls

variable {free : Proc → Prop} {who dest src : Int} {m : Nat}

theorem Represents.msgSend_asserts (h : Represents free k a) (runs : a.status who = .idle)
    (target : InTable dest) (other : who ≠ dest) (msg : m ≠ 0) (bound : m < 4294967296) :
    ¬ FailsAssertion (Kernel.msgSend k who dest m) := by
  cases found : deadlock k.procTable who loopFuel dest with
  | none =>
    simp only [Kernel.msgSend, State.assertThat_of other, found, bind, Except.bind]
    rintro ⟨k', fails⟩
    cases fails
  | some cyclic =>
    cases cyclic with
    | true =>
      simp only [Kernel.msgSend, State.assertThat_of other, found, bind, Except.bind]
      rintro ⟨k', fails⟩
      cases fails
    | false =>
      obtain ⟨k₂, a', sent, -⟩ := h.msgSend runs target other msg bound found
      rw [sent]
      exact not_fails_ok k₂

-- A process that blocks has no sender for its RECEIVE and takes no interrupt.
theorem Represents.waits_iff (h : Represents free k a) (runs : a.status who = .idle)
    (legal : Legal who src) (pending : (k.procTable who).hasIntMsg = true) :
    (¬ (a.pending who = true ∧ (sourceOf src).AdmitsInt) ∧
        ∀ s, ¬ Picks (a.queue who) (sourceOf src) s) ↔
      InTable src ∧
        ¬ ((k.procTable src).pFlags.sending = true ∧ (k.procTable src).pSendto = who) := by
  have noted : a.pending who = true := by
    rw [(h.procs who (h.idle_inTable runs)).pending]
    exact pending
  rw [sourceOf_admitsInt]
  constructor
  · rintro ⟨quiet, nobody⟩
    obtain ⟨inTable, -⟩ | isAny | isInt := legal
    · refine ⟨inTable, fun sends => ?_⟩
      have queued := h.queued_iff.mpr ⟨inTable, sends⟩
      have source : sourceOf src = .from src := by
        have notAny : src ≠ any := fun same => quiet ⟨noted, .inr same⟩
        have notInt : src ≠ interrupt := fun same => quiet ⟨noted, .inl same⟩
        simp only [sourceOf, notAny, notInt, if_false]
      refine nobody src ?_
      rw [source]
      exact .named src queued
    · exact absurd ⟨noted, .inr isAny⟩ quiet
    · exact absurd ⟨noted, .inl isInt⟩ quiet
  · rintro ⟨inTable, silent⟩
    have notAny : src ≠ any := by
      rintro rfl
      exact absurd inTable (by decide)
    have notInt : src ≠ interrupt := by
      rintro rfl
      exact absurd inTable (by decide)
    have source : sourceOf src = .from src := by
      simp only [sourceOf, notAny, notInt, if_false]
    constructor
    · rintro ⟨-, isInt | isAny⟩
      · exact notInt isInt
      · exact notAny isAny
    · intro s picks
      rw [source] at picks
      cases picks with
      | named _ queued => exact silent (h.queued_iff.mp queued).2

theorem Represents.msgReceive_asserts (h : Represents free k a) (runs : a.status who = .idle)
    (legal : Legal who src) (other : who ≠ src) (msg : m ≠ 0) (bound : m < 4294967296) :
    FailsAssertion (Kernel.msgReceive k who src m) ↔ BlocksOnInterrupt k who .receive src := by
  constructor
  · rintro ⟨k', fails⟩
    obtain ⟨k₂, a', receives, -, done | ⟨⟨pending, waiting⟩, -⟩⟩ :=
      h.msgReceive runs legal other msg bound
    · rw [done] at fails
      cases fails
    · cases receives with
      | interrupt noted takes =>
        simp only [Mail.setPending_status, Mail.write_status, runs] at waiting
        cases waiting
      | take s sbuf quiet picks blocked =>
        by_cases same : who = s
        · simp [same] at waiting
        · simp [same, runs] at waiting
      | wait quiet nobody =>
        exact ⟨rfl, ((h.waits_iff runs legal pending).mp ⟨quiet, nobody⟩).1, pending,
          ((h.waits_iff runs legal pending).mp ⟨quiet, nobody⟩).2⟩
  · rintro ⟨-, inTable, pending, silent⟩
    obtain ⟨quiet, nobody⟩ := (h.waits_iff runs legal pending).mpr ⟨inTable, silent⟩
    have receiver := h.idle_inTable runs
    have takes : ¬ takesInterrupt k who src = true :=
      fun takes => quiet ((h.takesInterrupt_iff receiver).mp takes)
    obtain ⟨s, front, rest, -, -, picks⟩ | ⟨found, -⟩ := h.findSender runs legal
    · exact absurd picks (nobody s)
    · have waits : Receives format a who (sourceOf src) (linear (k.procTable who) m) _ :=
        .wait quiet nobody
      obtain ⟨k', -, ends⟩ := h.receiveLater runs legal msg bound (waits.wellFormed h.wf runs)
      have noted : a.pending who = true := by
        rw [(h.procs who receiver).pending]
        exact pending
      rw [if_pos noted] at ends
      refine ⟨k', ?_⟩
      simp only [Kernel.msgReceive, State.assertThat_of other, takes, found, bind, Except.bind]
      exact ends

end Calls

/--
In every run of legal calls and interrupts the only assertion that can fail is the last one of
`msg_receive()`, and it fails exactly for a process that blocks with an interrupt pending.
-/
theorem assertions_fail_iff (run : Run Boots Step) {t : Nat} (within : t ≤ run.length) :
    (∀ caller function srcDest m, InTable caller →
      ((run.state t).procTable caller).pFlags = .clear → LegalCall caller function srcDest →
      m ≠ 0 → m < 4294967296 →
      (FailsAssertion (sysSendrec (run.state t) function srcDest m caller) ↔
        BlocksOnInterrupt (run.state t) caller function srcDest)) ∧
      ∀ taskNr, InTable taskNr → ¬ FailsAssertion (informInt (run.state t) taskNr) := by
  obtain ⟨mail, -, -, native⟩ := mirrors_exists run
  have h := native t within
  generalize run.state t = k at h
  generalize mail.state t = a at h
  constructor
  · intro caller function srcDest m inTable runnable legal msg bound
    have runs := h.runs inTable runnable
    have stamped := h.write (linear (k.procTable caller) m)
      { k.mem (linear (k.procTable caller) m) with source := caller }
    cases function with
    | both => exact legal.elim
    | send =>
      obtain ⟨target, other⟩ := legal
      rw [sysSendrec_eq (h.segment inTable) bound (.inl target) other.symm]
      constructor
      · exact fun fails => absurd fails (stamped.msgSend_asserts runs target other.symm msg bound)
      · exact fun blocks => nomatch blocks.1
    | receive =>
      have other := Legal.ne inTable legal
      rw [sysSendrec_eq (h.segment inTable) bound legal.accepted other]
      exact stamped.msgReceive_asserts runs legal other msg bound
  · intro taskNr inTable
    have flat (flag : (k.procTable taskNr).pFlags.receiving = true) :
        linear (k.procTable taskNr) (k.procTable taskNr).pMsg = (k.procTable taskNr).pMsg := by
      have waiting := h.receiving_of_flag inTable flag
      obtain ⟨-, -, bound, -⟩ := h.receiving_fields inTable waiting
      exact h.flat inTable (by simp [waiting]) bound
    obtain ⟨k₂, a', informed, -⟩ := h.informInt inTable (fun _ unused => unused) flat
    rw [informed]
    exact not_fails_ok k₂

section Sample

-- An interrupt for TTY, which does not wait for anything yet.
def notedRun : Run Boots Step where
  length := 1
  state := fun t => if t = 0 then bootState else resulting (informInt bootState taskTty)
  act := fun _ => .inform taskTty
  start := ⟨0, 0, _, rfl⟩
  steps := by
    intro t within
    have first : t = 0 := Nat.lt_one_iff.mp within
    subst first
    exact .inform taskTty (by decide) (leaves_resulting (by decide))

theorem assertions_fail_iff_noted :
    FailsAssertion (sysSendrec (notedRun.state 1) .receive taskFs 4096 taskTty) ∧
      ¬ FailsAssertion (sysSendrec (notedRun.state 1) .receive any 4096 taskTty) := by
  have calls := (assertions_fail_iff notedRun (le_refl 1)).1
  constructor
  · refine (calls taskTty .receive taskFs 4096 (by decide) (by decide) ?_ (by decide)
      (by decide)).mpr ?_
    · exact .inl ⟨by decide, by decide⟩
    · exact ⟨rfl, by decide, by decide, by decide⟩
  · intro fails
    have blocks := (calls taskTty .receive any 4096 (by decide) (by decide) (.inr (.inl rfl))
      (by decide) (by decide)).mp fails
    exact absurd blocks.2.1 (by decide)

-- A task with a pending interrupt waits for an answer, and the kernel stops.
theorem assertion_fails : ∃ run : Run Boots Step, ∃ caller srcDest m,
    InTable caller ∧ ((run.state run.length).procTable caller).pFlags = .clear ∧
      LegalCall caller .receive srcDest ∧ m ≠ 0 ∧
      FailsAssertion (sysSendrec (run.state run.length) .receive srcDest m caller) := by
  exact ⟨notedRun, taskTty, taskFs, 4096, by decide, by decide, .inl ⟨by decide, by decide⟩,
    by decide, by decide⟩

end Sample

end Konix.Kernel
