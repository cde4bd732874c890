import Konix.Servers.Custody

set_option autoImplicit false

namespace Konix.Servers

open Kernel

/-- The flags of MM agree with what it knows about its callers. -/
structure Family (s : System) : Prop where
  alive : ∀ p ∈ s.mm.callers, Mm.Alive s.kernel p
  dying : ∀ p ∈ s.mm.dying, (s.kernel.procTable p).pFlags.waiting = false
  parked : ∀ p, ((s.kernel.procTable p).pFlags.waiting = true ∨
    (s.kernel.procTable p).pFlags.hanging = true) → s.call p = some (.receive taskMm)
  either : ∀ p, (s.kernel.procTable p).pFlags.waiting = true →
    (s.kernel.procTable p).pFlags.hanging = false
  free : ∀ p, IsUser p → (s.kernel.procTable p).pFlags.freeSlot = true → s.call p = none
  parent : ∀ pid parentPid status, s.mm = .exitTell pid parentPid status ∨
    s.mm = .exitWait pid parentPid status ∨ s.mm = .leave pid parentPid status →
    (s.kernel.procTable pid).pParent = parentPid

/-- The kernel has blocked a process only in the call it makes next. -/
structure Wired (s : System) : Prop where
  sending : ∀ p, (s.kernel.wire p).sending = true →
    ∃ m, s.call p = some (.send (s.kernel.wire p).sendTo m)
  receiving : ∀ p, (s.kernel.wire p).receiving = true →
    s.call p = some (.receive (s.kernel.wire p).recvFrom)

section Messages

variable {s t : System} {p d src : Int} {m : Message} {k' : State}

theorem call_kernel (q : Int) : ({ s with kernel := k' } : System).call q = s.call q := rfl

theorem Custody.kernel (h : Custody s) (k' : State) : Custody { s with kernel := k' } := by
  constructor
  case debts =>
    intro e c owes
    rw [call_kernel]
    exact h.debts e c (owes.before id (fun _ reads => ⟨reads, rfl⟩) (fun _ => id) id id id)
  case readers => exact h.readers
  case apart => exact h.apart
  case reading => exact h.reading
  case asked => exact h.asked
  case once => exact h.once

theorem Family.kernel (h : Family s) (keeps : Keeps s.kernel k') :
    Family { s with kernel := k' } := by
  constructor
  case alive => exact fun p member => (h.alive p member).keeps keeps
  case dying =>
    intro p member
    rw [keeps.waiting]
    exact h.dying p member
  case parked =>
    intro p flag
    rw [keeps.waiting, keeps.hanging] at flag
    exact h.parked p flag
  case either =>
    intro p flag
    rw [keeps.waiting] at flag
    rw [keeps.hanging]
    exact h.either p flag
  case free =>
    intro p isUser flag
    rw [keeps.freeSlot] at flag
    exact h.free p isUser flag
  case parent =>
    intro pid parentPid status exits
    rw [keeps.pParent]
    exact h.parent pid parentPid status exits

theorem mm_target (sends : s.call taskMm = some (.send d m)) :
    d ∈ s.mm.callers ∨ d = taskFs := by
  rw [call_mm] at sends
  cases mm : s.mm <;> rw [mm] at sends <;> cases sends <;> simp [Mm.callers]

theorem Mm.callers_sent {mm : Mm} {c : Int} (caller : c ∈ mm.sent.callers) : c ∈ mm.callers := by
  cases mm <;> simp_all [Mm.sent, Mm.callers]

theorem Mm.dying_sent {mm : Mm} : mm.sent.dying = mm.dying := by
  cases mm <;> rfl

theorem Mm.callers_got {mm : Mm} {c : Int} (caller : c ∈ (mm.got m).callers) :
    c ∈ mm.callers ∨ mm = .main ∧ c = m.source ∧ m.type ∈ [.fork, .exit, .wait] := by
  cases mm with
  | main => cases type : m.type <;> simp_all [Mm.got, Mm.callers]
  | _ => exact .inl caller

theorem Mm.dying_got {mm : Mm} : (mm.got m).dying = mm.dying := by
  cases mm with
  | main => cases type : m.type <;> simp [Mm.got, type, Mm.dying]
  | _ => rfl

theorem Mm.exits_sent {mm : Mm} {pid parentPid status : Int}
    (exits : mm.sent = .exitTell pid parentPid status ∨ mm.sent = .exitWait pid parentPid status ∨
      mm.sent = .leave pid parentPid status) :
    mm = .exitTell pid parentPid status ∨ mm = .exitWait pid parentPid status ∨
      mm = .leave pid parentPid status := by
  cases mm <;> simp_all [Mm.sent]

theorem Mm.exits_got {mm : Mm} {pid parentPid status : Int}
    (exits : mm.got m = .exitTell pid parentPid status ∨ mm.got m = .exitWait pid parentPid status ∨
      mm.got m = .leave pid parentPid status) :
    mm = .exitTell pid parentPid status ∨ mm = .exitWait pid parentPid status ∨
      mm = .leave pid parentPid status := by
  cases mm with
  | main => cases type : m.type <;> simp_all [Mm.got]
  | _ => simp_all [Mm.got]

-- A process that MM has parked makes no call until MM sends to it.
theorem Family.caller_alive (h : Family s) (isUser : IsUser p)
    (sends : s.call p = some (.send d m)) : Mm.Alive s.kernel p := by
  have notParked : s.call p ≠ some (.receive taskMm) := by
    rw [sends]
    exact nofun
  refine ⟨?_, ?_, ?_⟩
  · exact Bool.eq_false_iff.mpr fun flag => notParked (h.parked p (.inl flag))
  · exact Bool.eq_false_iff.mpr fun flag => notParked (h.parked p (.inr flag))
  · refine Bool.eq_false_iff.mpr fun flag => ?_
    rw [h.free p isUser flag] at sends
    cases sends

theorem Custody.mm_request (h : Custody s) (sends : s.call p = some (.send taskMm m))
    (main : s.mm = .main) : IsUser p := by
  have waits : s.call taskMm = some (.receive any) := by
    rw [call_mm, main]
    rfl
  generalize target : taskMm = d at sends
  cases sends_of_call sends with
  | user p r isUser user => exact isUser
  | disk client m fs => cases target
  | tty src type device cnt fs => cases target
  | forkTell request child mm => cases target
  | exitTell pid parentPid status mm => cases target
  | tick src hd => cases target
  | resume i tty =>
    rw [h.readers i (.inr tty)] at target
    cases target
  | answer p d m owes =>
    subst target
    rw [h.debts _ _ owes] at waits
    cases waits
    exact absurd rfl owes.server_ne_any

theorem Family.transfer (h : Family s) (custody : Custody s)
    (sends : s.call p = some (.send d m)) (waits : s.call d = some (.receive src))
    (admits : src = p ∨ src = any) : Family (s.transfer p d m) := by
  have distinct := distinct_of_calls sends waits
  have kernel : (s.transfer p d m).kernel = s.kernel := by
    unfold System.transfer
    rw [got_kernel, sent_kernel]
  constructor
  case alive =>
    intro c caller
    rw [kernel]
    obtain ⟨rfl, mm⟩ | ⟨-, mm⟩ | ⟨-, -, mm⟩ := transfer_mm (m := m) (s := s) distinct <;>
      rw [mm] at caller
    · obtain before | ⟨main, rfl, -⟩ := Mm.callers_got caller
      · exact h.alive c before
      · exact h.caller_alive (custody.mm_request sends main) sends
    · exact h.alive c (Mm.callers_sent caller)
    · exact h.alive c caller
  case dying =>
    intro c member
    rw [kernel]
    obtain ⟨rfl, mm⟩ | ⟨-, mm⟩ | ⟨-, -, mm⟩ := transfer_mm (m := m) (s := s) distinct <;>
      rw [mm] at member
    · rw [Mm.dying_got] at member
      exact h.dying c member
    · rw [Mm.dying_sent] at member
      exact h.dying c member
    · exact h.dying c member
  case parked =>
    intro c flag
    rw [kernel] at flag
    have waiting := h.parked c flag
    have notSender : c ≠ p := by
      rintro rfl
      rw [sends] at waiting
      cases waiting
    have notReceiver : c ≠ d := by
      rintro rfl
      rw [waits] at waiting
      cases waiting
      obtain rfl | same := admits
      · obtain caller | rfl := mm_target sends
        · have alive := h.alive c caller
          rw [alive.1, alive.2.1] at flag
          simp at flag
        · exact not_fs_awaits_mm waits
      · cases same
    rw [call_transfer_other notSender notReceiver]
    exact waiting
  case either =>
    rw [kernel]
    exact h.either
  case free =>
    intro c isUser flag
    rw [kernel] at flag
    have absent := h.free c isUser flag
    have notSender : c ≠ p := by
      rintro rfl
      rw [sends] at absent
      cases absent
    have notReceiver : c ≠ d := by
      rintro rfl
      rw [waits] at absent
      cases absent
    rw [call_transfer_other notSender notReceiver]
    exact absent
  case parent =>
    intro pid parentPid status exits
    rw [kernel]
    obtain ⟨-, mm⟩ | ⟨-, mm⟩ | ⟨-, -, mm⟩ := transfer_mm (m := m) (s := s) distinct <;>
      rw [mm] at exits
    · exact h.parent pid parentPid status (Mm.exits_got exits)
    · exact h.parent pid parentPid status (Mm.exits_sent exits)
    · exact h.parent pid parentPid status exits

theorem Family.interrupted (h : Family s) (waits : s.call d = some (.receive src))
    (admits : src = any ∨ src = interrupt) : Family (s.got d interruptMsg) := by
  have mm_cases : (s.got d interruptMsg).mm = s.mm.got interruptMsg ∨
      (s.got d interruptMsg).mm = s.mm := by
    by_cases isMm : d = taskMm
    · subst isMm
      exact .inl rfl
    · exact .inr (got_mm_other _ _ isMm)
  constructor
  case alive =>
    intro c caller
    rw [got_kernel]
    obtain mm | mm := mm_cases <;> rw [mm] at caller
    · obtain before | ⟨-, -, type⟩ := Mm.callers_got caller
      · exact h.alive c before
      · simp [interruptMsg] at type
    · exact h.alive c caller
  case dying =>
    intro c member
    rw [got_kernel]
    obtain mm | mm := mm_cases <;> rw [mm] at member
    · rw [Mm.dying_got] at member
      exact h.dying c member
    · exact h.dying c member
  case parked =>
    intro c flag
    rw [got_kernel] at flag
    have waiting := h.parked c flag
    have notReceiver : c ≠ d := by
      rintro rfl
      rw [waits] at waiting
      cases waiting
      rcases admits with same | same <;> cases same
    rw [call_got_other _ _ notReceiver]
    exact waiting
  case either =>
    rw [got_kernel]
    exact h.either
  case free =>
    intro c isUser flag
    rw [got_kernel] at flag
    have absent := h.free c isUser flag
    have notReceiver : c ≠ d := by
      rintro rfl
      rw [waits] at absent
      cases absent
    rw [call_got_other _ _ notReceiver]
    exact absent
  case parent =>
    intro pid parentPid status exits
    rw [got_kernel]
    obtain mm | mm := mm_cases <;> rw [mm] at exits
    · exact h.parent pid parentPid status (Mm.exits_got exits)
    · exact h.parent pid parentPid status exits

/-- The programs and the kernel fit together. -/
structure Safe (s : System) : Prop extends Custody s, Family s, Wired s

theorem Wired.transfer (wired : Wired s) (kernel : t.kernel = k')
    (others : ∀ q, q ≠ p → q ≠ d → t.call q = s.call q)
    (same : ∀ q, q ≠ p → q ≠ d → k'.wire q = s.kernel.wire q)
    (sender : (k'.wire p).sending = false ∧ (k'.wire p).receiving = false)
    (receiver : (k'.wire d).sending = false ∧ (k'.wire d).receiving = false) : Wired t := by
  constructor
  case sending =>
    intro q flag
    rw [kernel] at flag ⊢
    by_cases isSender : q = p
    · subst isSender
      rw [sender.1] at flag
      cases flag
    by_cases isReceiver : q = d
    · subst isReceiver
      rw [receiver.1] at flag
      cases flag
    rw [same q isSender isReceiver] at flag ⊢
    rw [others q isSender isReceiver]
    exact wired.sending q flag
  case receiving =>
    intro q flag
    rw [kernel] at flag ⊢
    by_cases isSender : q = p
    · subst isSender
      rw [sender.2] at flag
      cases flag
    by_cases isReceiver : q = d
    · subst isReceiver
      rw [receiver.2] at flag
      cases flag
    rw [same q isSender isReceiver] at flag ⊢
    rw [others q isSender isReceiver]
    exact wired.receiving q flag

theorem wire_of_clear (runs : (s.kernel.procTable p).pFlags = .clear) :
    (s.kernel.wire p).sending = false ∧ (s.kernel.wire p).receiving = false := by
  simp [State.wire, Proc.wire, runs, PFlags.clear]

theorem Wired.not_sending (wired : Wired s) (waits : s.call p = some (.receive src)) :
    (s.kernel.wire p).sending = false := by
  refine Bool.eq_false_iff.mpr fun flag => ?_
  obtain ⟨m, sends⟩ := wired.sending p flag
  rw [waits] at sends
  cases sends

theorem Wired.not_receiving (wired : Wired s) (sends : s.call p = some (.send d m)) :
    (s.kernel.wire p).receiving = false := by
  refine Bool.eq_false_iff.mpr fun flag => ?_
  have waits := wired.receiving p flag
  rw [sends] at waits
  cases waits

theorem Wired.rewire (wired : Wired s) {w : Wire} (rewires : Rewires s.kernel k' p w)
    (sends : w.sending = true → ∃ m, s.call p = some (.send w.sendTo m))
    (waits : w.receiving = true → s.call p = some (.receive w.recvFrom)) :
    Wired { s with kernel := k' } := by
  have wires (q : Int) : k'.wire q = if q = p then w else s.kernel.wire q := by
    rw [rewires]
    by_cases same : q = p <;> simp [same]
  constructor
  case sending =>
    intro q flag
    rw [wires q] at flag ⊢
    by_cases same : q = p
    · subst same
      simp only [if_true] at flag ⊢
      exact sends flag
    · simp only [same, if_false] at flag ⊢
      exact wired.sending q flag
  case receiving =>
    intro q flag
    rw [wires q] at flag ⊢
    by_cases same : q = p
    · subst same
      simp only [if_true] at flag ⊢
      exact waits flag
    · simp only [same, if_false] at flag ⊢
      exact wired.receiving q flag

theorem Wired.same (wired : Wired s) (wires : k'.wire = s.kernel.wire) :
    Wired { s with kernel := k' } := by
  constructor
  · intro q flag
    rw [wires] at flag ⊢
    exact wired.sending q flag
  · intro q flag
    rw [wires] at flag ⊢
    exact wired.receiving q flag

theorem Safe.kernel (safe : Safe s) (keeps : Keeps s.kernel k')
    (wired : Wired { s with kernel := k' }) : Safe { s with kernel := k' } where
  toCustody := safe.toCustody.kernel k'
  toFamily := safe.toFamily.kernel keeps
  toWired := wired

theorem Safe.delivered (safe : Safe s) (keeps : Keeps s.kernel k')
    (sends : s.call p = some (.send d m)) (waits : s.call d = some (.receive src))
    (admits : src = p ∨ src = any) (same : ∀ q, q ≠ p → q ≠ d → k'.wire q = s.kernel.wire q)
    (sender : (k'.wire p).sending = false ∧ (k'.wire p).receiving = false)
    (receiver : (k'.wire d).sending = false ∧ (k'.wire d).receiving = false) :
    Safe (({ s with kernel := k' } : System).transfer p d m) := by
  have custody := safe.toCustody.kernel k'
  constructor
  case toCustody => exact custody.transfer sends waits admits
  case toFamily => exact (safe.toFamily.kernel keeps).transfer custody sends waits admits
  case toWired =>
    refine safe.toWired.transfer ?_ (fun q => call_transfer_other) same sender receiver
    unfold System.transfer
    rw [got_kernel, sent_kernel]

theorem Safe.send (safe : Safe s) {buf : Nat} (runs : (s.kernel.procTable p).pFlags = .clear)
    (calls : s.call p = some (.send d m)) (done : sysSendrec s.kernel .send d buf p = .ok k') :
    ((k'.wire p).sending = true → Safe { s with kernel := k' }) ∧
      ((k'.wire p).sending = false → Safe (({ s with kernel := k' } : System).transfer p d m)) := by
  have keeps := sysSendrec_keeps done
  have clear := wire_of_clear runs
  obtain ⟨receiving, admits, rewires⟩ | rewires := sysSendrec_send done
  · have waits := safe.receiving d receiving
    have distinct := distinct_of_calls calls waits
    have sender : k'.wire p = s.kernel.wire p := rewires.other distinct.symm
    constructor
    · intro flag
      rw [sender, clear.1] at flag
      cases flag
    · intro _
      refine safe.delivered keeps calls waits admits (fun q _ other => rewires.other other) ?_ ?_
      · rw [sender]
        exact clear
      · rw [rewires.self]
        exact ⟨safe.toWired.not_sending waits, rfl⟩
  · constructor
    · intro _
      refine safe.kernel keeps (safe.toWired.rewire rewires (fun _ => ⟨m, calls⟩) fun flag => ?_)
      have isClear : (s.kernel.wire p).receiving = true := flag
      rw [clear.2] at isClear
      cases isClear
    · intro flag
      rw [rewires.self] at flag
      cases flag

theorem Safe.receive (safe : Safe s) {buf : Nat} (runs : (s.kernel.procTable p).pFlags = .clear)
    (calls : s.call p = some (.receive src))
    (done : sysSendrec s.kernel .receive src buf p = .ok k') :
    ((k'.wire p).receiving = true → Safe { s with kernel := k' }) ∧
      (takesInterrupt s.kernel p src = true →
        Safe (({ s with kernel := k' } : System).got p interruptMsg)) ∧
      ∀ q m, (s.kernel.wire q).sending = true → (k'.wire q).sending = false →
        s.call q = some (.send p m) → Safe (({ s with kernel := k' } : System).transfer q p m) := by
  have keeps := sysSendrec_keeps done
  have clear := wire_of_clear runs
  refine ⟨fun waits => ?_, fun takes => ?_, fun q m flag over_ calls' => ?_⟩
  · obtain ⟨-, wires⟩ | ⟨-, ⟨q, -, sending, -, rewires⟩ | rewires⟩ := sysSendrec_receive done
    · exact safe.kernel keeps (safe.toWired.same wires)
    · by_cases same : p = q
      · subst same
        rw [clear.1] at sending
        cases sending
      · rw [rewires.other same, clear.2] at waits
        cases waits
    · refine safe.kernel keeps (safe.toWired.rewire rewires (fun flag => ?_) fun _ => calls)
      have isClear : (s.kernel.wire p).sending = true := flag
      rw [clear.1] at isClear
      cases isClear
  · obtain ⟨-, wires⟩ | ⟨refuses, -⟩ := sysSendrec_receive done
    · have fromInt : src = any ∨ src = interrupt := by
        simp only [takesInterrupt, decide_eq_true_eq] at takes
        exact takes.2
      constructor
      case toCustody => exact (safe.toCustody.kernel k').interrupted calls fromInt
      case toFamily => exact (safe.toFamily.kernel keeps).interrupted calls fromInt
      case toWired =>
        refine safe.toWired.transfer (p := p) (d := p) (got_kernel _ _)
          (fun q other _ => call_got_other _ _ other) (fun q _ _ => by rw [wires]) ?_ ?_ <;>
          rw [wires] <;> exact clear
    · rw [refuses] at takes
      cases takes
  · have distinct := distinct_of_calls calls' calls
    obtain ⟨admits, rewires⟩ := sysSendrec_takes done distinct.symm flag over_
    refine safe.delivered keeps calls' calls admits (fun r other _ => rewires.other other) ?_ ?_
    · rw [rewires.self]
      exact ⟨rfl, safe.toWired.not_receiving calls'⟩
    · rw [rewires.other distinct]
      exact clear

theorem Safe.inform (safe : Safe s) {taskNr : Int} (done : informInt s.kernel taskNr = .ok k') :
    ((s.kernel.wire taskNr).receiving = true → (k'.wire taskNr).receiving = false →
        Safe (({ s with kernel := k' } : System).got taskNr interruptMsg)) ∧
      ((k'.wire taskNr).receiving = (s.kernel.wire taskNr).receiving →
        Safe { s with kernel := k' }) := by
  have keeps := informInt_keeps done
  obtain ⟨receiving, fromInt, rewires⟩ | wires := informInt_rewires done
  · have waits := safe.receiving taskNr receiving
    constructor
    · intro _ _
      have receiver : (k'.wire taskNr).sending = false ∧ (k'.wire taskNr).receiving = false := by
        rw [rewires.self]
        exact ⟨safe.toWired.not_sending waits, rfl⟩
      constructor
      case toCustody => exact (safe.toCustody.kernel k').interrupted waits fromInt.symm
      case toFamily => exact (safe.toFamily.kernel keeps).interrupted waits fromInt.symm
      case toWired =>
        exact safe.toWired.transfer (p := taskNr) (d := taskNr) (got_kernel _ _)
          (fun q other _ => call_got_other _ _ other) (fun q other _ => rewires.other other)
          receiver receiver
    · intro same
      rw [rewires.self, receiving] at same
      cases same
  · constructor
    · intro flag over_
      rw [wires, flag] at over_
      cases over_
    · intro _
      exact safe.kernel keeps (safe.toWired.same wires)

end Messages

end Konix.Servers
