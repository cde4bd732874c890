import Konix.Kernel.Queue
import Konix.Lib.Delivery

set_option autoImplicit false

namespace Konix.Kernel

open Rendezvous

def format : Format Int Message where
  stamp := fun p m => { m with source := p }
  notice := interruptMsg
  mark := fun m => { m with source := interrupt, type := .hardInt }

def sourceOf (src : Int) : Source Int :=
  if src = any then .any else if src = interrupt then .interrupt else .from src

def Legal (who src : Int) : Prop := InTable src ∧ src ≠ who ∨ src = any ∨ src = interrupt

def linear (proc : Proc) (va : Nat) : Nat := (ldtSegLinear proc.ldtRw + va) % 4294967296

-- The fields of a process table entry in each of the states a process can be in; `free` is what is
-- known about the slots that are not in use.
inductive Shape (free : Proc → Prop) (p : Int) (proc : Proc) : Status Int Nat → Prop
  | idle (flags : proc.pFlags = .clear) (msg : proc.pMsg = 0) (recv : proc.pRecvfrom = noTask)
      (send : proc.pSendto = noTask) : Shape free p proc .idle
  | sending (flags : proc.pFlags = .onlySending) (msg : proc.pMsg ≠ 0)
      (bound : proc.pMsg < 4294967296) (recv : proc.pRecvfrom = noTask)
      (dest : InTable proc.pSendto) :
      Shape free p proc (.sending proc.pSendto (linear proc proc.pMsg))
  | receiving (flags : proc.pFlags = .onlyReceiving) (msg : proc.pMsg ≠ 0)
      (bound : proc.pMsg < 4294967296) (recv : Legal p proc.pRecvfrom)
      (send : proc.pSendto = noTask) :
      Shape free p proc (.receiving (sourceOf proc.pRecvfrom) (linear proc proc.pMsg))
  | absent (flags : proc.pFlags = .onlyFreeSlot) (unused : free proc) : Shape free p proc .absent

structure ProcOk (free : Proc → Prop) (p : Int) (proc : Proc) (status : Status Int Nat)
    (pending : Bool) : Prop where
  shape : Shape free p proc status
  pending : pending = proc.hasIntMsg
  segment : p < nrTasks + nrNativeProcs → ldtSegLinear proc.ldtRw = 0

structure Represents (free : Proc → Prop) (k : State) (a : Mail Int Nat Message) : Prop where
  procs : ∀ p, InTable p → ProcOk free p (k.procTable p).core (a.status p) (a.pending p)
  outside : ∀ p, ¬ InTable p → a.status p = .absent
  queues : Queues k a.queue
  mem : a.mem = k.mem
  wf : WellFormed a

variable {free : Proc → Prop} {k : State} {a : Mail Int Nat Message}

theorem sourceOf_admits {src s : Int} (sender : InTable s) :
    (sourceOf src).Admits s ↔ src = s ∨ src = any := by
  have bounds := sender
  simp only [InTable, nrTasks, nrProcs] at bounds
  unfold sourceOf
  by_cases isAny : src = any
  · simp only [isAny, if_true]
    exact ⟨fun _ => .inr trivial, fun _ => .any s⟩
  · by_cases isInt : src = interrupt
    · simp only [isInt, show interrupt ≠ any by decide, if_true, if_false, or_false]
      constructor
      · intro admits
        cases admits
      · intro same
        simp only [interrupt] at same
        omega
    · simp only [isAny, isInt, if_false, or_false]
      constructor
      · intro admits
        cases admits
        rfl
      · rintro rfl
        exact .from src

theorem sourceOf_admitsInt (src : Int) :
    (sourceOf src).AdmitsInt ↔ src = interrupt ∨ src = any := by
  unfold sourceOf
  by_cases isAny : src = any
  · simp only [isAny, if_true, or_true, iff_true]
    exact .any
  · by_cases isInt : src = interrupt
    · simp only [isInt, show interrupt ≠ any by decide, if_true, if_false, true_or, iff_true]
      exact .interrupt
    · simp only [isAny, isInt, if_false, or_self, iff_false]
      intro takes
      cases takes

theorem va2la_eq {p : Int} {va : Nat}
    (segment : p < nrTasks + nrNativeProcs → ldtSegLinear (k.procTable p).ldtRw = 0)
    (bound : va < 4294967296) : va2la k p va = .ok (linear (k.procTable p) va) := by
  unfold va2la linear
  by_cases native : p < nrTasks + nrNativeProcs
  · have same : (ldtSegLinear (k.procTable p).ldtRw + va) % 4294967296 = va := by
      rw [segment native, Nat.zero_add, Nat.mod_eq_of_lt bound]
    simp only [native, if_true, same, decide_true, State.assertThat_true]
    rfl
  · simp only [native, if_false]
    rfl

namespace Represents

theorem idle_fields (h : Represents free k a) {p : Int} (inTable : InTable p)
    (idle : a.status p = .idle) :
    (k.procTable p).pFlags = .clear ∧ (k.procTable p).pMsg = 0 ∧
      (k.procTable p).pRecvfrom = noTask ∧ (k.procTable p).pSendto = noTask := by
  have shape := (h.procs p inTable).shape
  rw [idle] at shape
  cases shape with
  | idle flags msg recv send => exact ⟨flags, msg, recv, send⟩

theorem receiving_fields (h : Represents free k a) {p : Int} {src : Source Int} {buf : Nat}
    (inTable : InTable p) (waiting : a.status p = .receiving src buf) :
    (k.procTable p).pFlags = .onlyReceiving ∧ (k.procTable p).pMsg ≠ 0 ∧
      (k.procTable p).pMsg < 4294967296 ∧ Legal p (k.procTable p).pRecvfrom ∧
      (k.procTable p).pSendto = noTask ∧ src = sourceOf (k.procTable p).pRecvfrom ∧
      buf = linear (k.procTable p) (k.procTable p).pMsg := by
  have shape := (h.procs p inTable).shape
  rw [waiting] at shape
  cases shape with
  | receiving flags msg bound recv send => exact ⟨flags, msg, bound, recv, send, rfl, rfl⟩

theorem sending_fields (h : Represents free k a) {p d : Int} {buf : Nat}
    (inTable : InTable p) (blocked : a.status p = .sending d buf) :
    (k.procTable p).pFlags = .onlySending ∧ (k.procTable p).pMsg ≠ 0 ∧
      (k.procTable p).pMsg < 4294967296 ∧ (k.procTable p).pRecvfrom = noTask ∧
      InTable d ∧ d = (k.procTable p).pSendto ∧
      buf = linear (k.procTable p) (k.procTable p).pMsg := by
  have shape := (h.procs p inTable).shape
  rw [blocked] at shape
  cases shape with
  | sending flags msg bound recv dest => exact ⟨flags, msg, bound, recv, dest, rfl, rfl⟩

theorem receiving_of_flag (h : Represents free k a) {p : Int} (inTable : InTable p)
    (flag : (k.procTable p).pFlags.receiving = true) :
    a.status p = .receiving (sourceOf (k.procTable p).pRecvfrom)
      (linear (k.procTable p) (k.procTable p).pMsg) := by
  have flag' : (k.procTable p).core.pFlags.receiving = true := flag
  have shape := (h.procs p inTable).shape
  generalize a.status p = status at shape
  cases shape with
  | idle flags msg recv send =>
    rw [flags] at flag'
    cases flag'
  | sending flags msg bound recv dest =>
    rw [flags] at flag'
    cases flag'
  | receiving flags msg bound recv send => rfl
  | absent flags unused =>
    rw [flags] at flag'
    cases flag'

theorem sending_of_flag (h : Represents free k a) {p : Int} (inTable : InTable p)
    (flag : (k.procTable p).pFlags.sending = true) :
    a.status p = .sending (k.procTable p).pSendto
      (linear (k.procTable p) (k.procTable p).pMsg) := by
  have flag' : (k.procTable p).core.pFlags.sending = true := flag
  have shape := (h.procs p inTable).shape
  generalize a.status p = status at shape
  cases shape with
  | idle flags msg recv send =>
    rw [flags] at flag'
    cases flag'
  | sending flags msg bound recv dest => rfl
  | receiving flags msg bound recv send =>
    rw [flags] at flag'
    cases flag'
  | absent flags unused =>
    rw [flags] at flag'
    cases flag'

theorem segment (h : Represents free k a) {p : Int} (inTable : InTable p) :
    p < nrTasks + nrNativeProcs → ldtSegLinear (k.procTable p).ldtRw = 0 :=
  (h.procs p inTable).segment

theorem idle_inTable (h : Represents free k a) {p : Int} (idle : a.status p = .idle) :
    InTable p := by
  by_contra outside
  rw [h.outside p outside] at idle
  cases idle

theorem receiving_inTable (h : Represents free k a) {p : Int} {src : Source Int} {buf : Nat}
    (waiting : a.status p = .receiving src buf) : InTable p := by
  by_contra outside
  rw [h.outside p outside] at waiting
  cases waiting

theorem sending_inTable (h : Represents free k a) {p d : Int} {buf : Nat}
    (blocked : a.status p = .sending d buf) : InTable p := by
  by_contra outside
  rw [h.outside p outside] at blocked
  cases blocked

theorem write (h : Represents free k a) (buf : Nat) (m : Message) :
    Represents free { k with mem := Function.update k.mem buf m } (a.write buf m) where
  procs := h.procs
  outside := h.outside
  queues := ⟨h.queues.chain, h.queues.distinct, h.queues.inTable, h.queues.disjoint⟩
  mem := by rw [Mail.write_mem, h.mem]
  wf := h.wf.write buf m

theorem copy (h : Represents free k a) (dst src : Nat) :
    Represents free (physCopy k dst src) (a.write dst (a.mem src)) := by
  rw [h.mem]
  exact h.write dst (k.mem src)

theorem assertIdle_ok (h : Represents free k a) {p : Int} (inTable : InTable p)
    (idle : a.status p = .idle) : assertIdle k p = .ok () := by
  obtain ⟨flags, msg, recv, send⟩ := h.idle_fields inTable idle
  simp only [assertIdle, flags, msg, recv, send, decide_true, State.assertThat_true]
  rfl

theorem unblock_ok (h : Represents free k a) {p : Int} (inTable : InTable p)
    (idle : a.status p = .idle) : unblock k p = .ok () := by
  simp only [unblock, (h.idle_fields inTable idle).1, decide_true, State.assertThat_true]

theorem assertSending_ok (h : Represents free k a) {p d : Int} {buf : Nat}
    (blocked : a.status p = .sending d buf) : assertSending k p d = .ok () := by
  obtain ⟨flags, msg, -, recv, -, rfl, -⟩ := h.sending_fields (h.sending_inTable blocked) blocked
  simp only [assertSending, flags, recv, State.assertThat_of msg, decide_true,
    State.assertThat_true]
  rfl

theorem modify (h : Represents free k a) {p : Int} {f : Proc → Proc} (status : Status Int Nat)
    (pending : Bool) (inTable : InTable p)
    (links : (f (k.procTable p)).nextSending = (k.procTable p).nextSending ∧
      (f (k.procTable p)).qSending = (k.procTable p).qSending)
    (ok : ProcOk free p (f (k.procTable p)).core status pending)
    (wf : WellFormed ((a.setPending p pending).setStatus p status)) :
    Represents free (k.modify p f) ((a.setPending p pending).setStatus p status) := by
  constructor
  case procs =>
    intro q inTable'
    by_cases same : q = p
    · subst same
      simpa using ok
    · simpa [same] using h.procs q inTable'
  case outside =>
    intro q out
    have other : q ≠ p := fun same => out (same ▸ inTable)
    simpa [other] using h.outside q out
  case queues => exact h.queues.modify links
  case mem => exact h.mem
  case wf => exact wf

theorem modify_status (h : Represents free k a) {p : Int} {f : Proc → Proc}
    {status : Status Int Nat}
    (inTable : InTable p)
    (links : (f (k.procTable p)).nextSending = (k.procTable p).nextSending ∧
      (f (k.procTable p)).qSending = (k.procTable p).qSending)
    (ok : ProcOk free p (f (k.procTable p)).core status (a.pending p))
    (wf : WellFormed (a.setStatus p status)) :
    Represents free (k.modify p f) (a.setStatus p status) := by
  have changed := h.modify status (a.pending p) inTable links ok
    (by rwa [Mail.setPending_self])
  rwa [Mail.setPending_self] at changed

theorem sendNow (h : Represents free k a) {s d : Int} {m rbuf : Nat} {src : Source Int}
    (runs : a.status s = .idle) (waiting : a.status d = .receiving src rbuf)
    (msg : m ≠ 0) (bound : m < 4294967296) :
    let a' := (a.write rbuf (a.mem (linear (k.procTable s) m))).setStatus d .idle
    WellFormed a' → ∃ k', Kernel.sendNow k s d m = .ok k' ∧ Represents free k' a' := by
  intro a' wf
  have sender := h.idle_inTable runs
  have target := h.receiving_inTable waiting
  obtain ⟨sFlags, sMsg, sRecv, sSend⟩ := h.idle_fields sender runs
  obtain ⟨dFlags, dMsg, dBound, dLegal, dSend, -, rfl⟩ := h.receiving_fields target waiting
  have other : s ≠ d := by
    rintro rfl
    rw [runs] at waiting
    cases waiting
  have copied := h.copy (linear (k.procTable d) (k.procTable d).pMsg) (linear (k.procTable s) m)
  generalize copy : physCopy k (linear (k.procTable d) (k.procTable d).pMsg)
    (linear (k.procTable s) m) = k₁ at copied
  have same : k₁.procTable = k.procTable := by rw [← copy]; rfl
  have woken : Represents free (k₁.modify d Proc.received) a' := by
    refine copied.modify_status target ⟨rfl, rfl⟩ ⟨.idle ?_ rfl rfl ?_, ?_, ?_⟩ wf
    · show ({ (k₁.procTable d).pFlags with receiving := false } : PFlags) = .clear
      rw [same, dFlags]
      rfl
    · rw [same]
      exact dSend
    · rw [same]
      exact (h.procs d target).pending
    · rw [same]
      exact (h.procs d target).segment
  refine ⟨k₁.modify d Proc.received, ?_, woken⟩
  have idle := woken.assertIdle_ok target (by simp [a'])
  have idle' := woken.assertIdle_ok sender (by simp [a', other, runs])
  have clear := woken.unblock_ok target (by simp [a'])
  simp only [Kernel.sendNow, State.assertThat_of dMsg, State.assertThat_of msg,
    va2la_eq (h.segment target) dBound, va2la_eq (h.segment sender) bound, bind, Except.bind, copy,
    clear, idle, idle']
  rfl

theorem sendLater (h : Represents free k a) {s d : Int} {m : Nat} (runs : a.status s = .idle)
    (target : InTable d) (msg : m ≠ 0) (bound : m < 4294967296) :
    let a' := (a.setQueue d (a.queue d ++ [s])).setStatus s (.sending d (linear (k.procTable s) m))
    WellFormed a' → ∃ k', Kernel.sendLater k s d m = .ok k' ∧ Represents free k' a' := by
  intro a' wf
  have sender := h.idle_inTable runs
  obtain ⟨flags, -, recv, send⟩ := h.idle_fields sender runs
  have fresh : ∀ d', s ∉ a.queue d' := h.wf.not_queued (by simp [runs])
  generalize marked : (k.modify s Proc.sends).modify s (Proc.sendsTo d m) = k₁
  have proc : k₁.procTable s = Proc.sendsTo d m (k.procTable s).sends := by rw [← marked]; simp
  have others : ∀ p, p ≠ s → k₁.procTable p = k.procTable p := by
    intro p other
    rw [← marked]
    simp [other]
  have queues : Queues k₁ a.queue := by
    rw [← marked]
    exact (h.queues.modify ⟨rfl, rfl⟩).modify ⟨rfl, rfl⟩
  obtain ⟨k', appended, mem, core, queues'⟩ := queues.enqueue target sender fresh
  have onlySending : (k.procTable s).sends.pFlags = .onlySending := by
    simp only [Proc.sends, flags]
    rfl
  have blocked : Represents free k' a' := by
    constructor
    case procs =>
      intro p inTable
      rw [core p]
      by_cases here : p = s
      · subst here
        rw [proc]
        have status : a'.status p = .sending d (linear (k.procTable p) m) := by simp [a']
        rw [status]
        exact ⟨.sending onlySending msg bound recv target, (h.procs p inTable).pending,
          (h.procs p inTable).segment⟩
      · rw [others p here]
        simpa [a', here] using h.procs p inTable
    case outside =>
      intro p out
      have other : p ≠ s := fun same => out (same ▸ sender)
      simpa [a', other] using h.outside p out
    case queues => exact queues'
    case mem =>
      rw [mem, ← marked]
      exact h.mem
    case wf => exact wf
  refine ⟨k', ?_, blocked⟩
  have done := blocked.assertSending_ok (p := s) (d := d) (by simp [a']; rfl)
  have stopped : block k' s = .ok () := by
    have flags' := (blocked.sending_fields sender (d := d) (by simp [a']; rfl)).1
    simp only [block, flags', PFlags.onlySending, PFlags.clear]
    rfl
  have first : ((k.modify s Proc.sends).procTable s).pFlags = .onlySending := by
    rw [State.modify_self]
    exact onlySending
  simp only [Kernel.sendLater, State.assertThat_of first, marked, appended, stopped, done, bind,
    Except.bind]
  rfl

theorem msgSend (h : Represents free k a) {s d : Int} {m : Nat} (runs : a.status s = .idle)
    (target : InTable d) (other : s ≠ d) (msg : m ≠ 0) (bound : m < 4294967296)
    (safe : deadlock k.procTable s loopFuel d = some false) :
    ∃ k' a', Kernel.msgSend k s d m = .ok k' ∧ Sends a s d (linear (k.procTable s) m) a' ∧
      Represents free k' a' := by
  have sender := h.idle_inTable runs
  by_cases waits : (k.procTable d).pFlags.receiving = true ∧
      ((k.procTable d).pRecvfrom = s ∨ (k.procTable d).pRecvfrom = any)
  · have waiting := h.receiving_of_flag target waits.1
    have admits := (sourceOf_admits sender).mpr waits.2
    have sends : Sends a s d (linear (k.procTable s) m) _ := .deliver _ _ waiting admits
    obtain ⟨k', sent, after⟩ := h.sendNow runs waiting msg bound (sends.wellFormed h.wf runs other)
    refine ⟨k', _, ?_, sends, after⟩
    simp only [Kernel.msgSend, State.assertThat_of other, safe, waits, and_self, if_true, bind,
      Except.bind]
    exact sent
  · have busy : ∀ src rbuf, a.status d = .receiving src rbuf → ¬ src.Admits s := by
      intro src rbuf waiting admits
      obtain ⟨flags, -, -, -, -, rfl, -⟩ := h.receiving_fields target waiting
      exact waits ⟨by rw [flags]; rfl, (sourceOf_admits sender).mp admits⟩
    have sends : Sends a s d (linear (k.procTable s) m) _ := .enqueue busy
    obtain ⟨k', sent, after⟩ := h.sendLater runs target msg bound (sends.wellFormed h.wf runs other)
    refine ⟨k', _, ?_, sends, after⟩
    simp only [Kernel.msgSend, State.assertThat_of other, safe, waits, if_false, bind, Except.bind]
    exact sent

theorem receiveInterrupt (h : Represents free k a) {r : Int} {m : Nat} {src : Source Int}
    (runs : a.status r = .idle) (msg : m ≠ 0) (bound : m < 4294967296)
    (pending : a.pending r = true) (takes : src.AdmitsInt) :
    ∃ k' a', Kernel.receiveInterrupt k r m = .ok k' ∧
      Receives format a r src (linear (k.procTable r) m) a' ∧ Represents free k' a' := by
  have receiver := h.idle_inTable runs
  have receives : Receives format a r src (linear (k.procTable r) m) _ :=
    .interrupt pending takes
  have written := h.write (linear (k.procTable r) m) interruptMsg
  have wf := receives.wellFormed h.wf runs
  have changed := written.modify (f := fun p => { p with hasIntMsg := false }) .idle false
    receiver ⟨rfl, rfl⟩ ⟨by
      obtain ⟨flags, msg', recv, send⟩ := h.idle_fields receiver runs
      exact .idle flags msg' recv send, rfl, (h.procs r receiver).segment⟩
  have same : ((a.write (linear (k.procTable r) m) interruptMsg).setPending r false).setStatus r
      .idle = (a.write (linear (k.procTable r) m) interruptMsg).setPending r false := by
    have still : ((a.write (linear (k.procTable r) m) interruptMsg).setPending r false).status r =
        .idle := runs
    rw [← still, Mail.setStatus_self]
  rw [same] at changed
  have after := changed wf
  refine ⟨_, _, ?_, receives, after⟩
  obtain ⟨flags, msg', -, send⟩ := after.idle_fields receiver runs
  simp only [State.modify_self] at flags msg' send
  simp only [Kernel.receiveInterrupt, State.assertThat_of msg, va2la_eq (h.segment receiver) bound,
    bind, Except.bind, State.modify_self, flags, msg', send, decide_true, State.assertThat_true]
  rfl

theorem queued_iff (h : Represents free k a) {s d : Int} :
    s ∈ a.queue d ↔
      InTable s ∧ (k.procTable s).pFlags.sending = true ∧ (k.procTable s).pSendto = d := by
  rw [h.wf.member d s]
  constructor
  · rintro ⟨buf, blocked⟩
    have inTable := h.sending_inTable blocked
    obtain ⟨flags, -, -, -, -, same, -⟩ := h.sending_fields inTable blocked
    exact ⟨inTable, by rw [flags]; rfl, same.symm⟩
  · rintro ⟨inTable, flag, rfl⟩
    exact ⟨_, h.sending_of_flag inTable flag⟩

theorem findSender (h : Represents free k a) {r src : Int} (runs : a.status r = .idle)
    (legal : Legal r src) :
    (∃ s front rest, Kernel.findSender k r src = .ok (some (s, front.getLast?)) ∧
        a.queue r = front ++ s :: rest ∧ Picks (a.queue r) (sourceOf src) s) ∨
      Kernel.findSender k r src = .ok none ∧ ∀ s, ¬ Picks (a.queue r) (sourceOf src) s := by
  have receiver := h.idle_inTable runs
  have idle := h.assertIdle_ok receiver runs
  have chain := h.queues.chain r receiver
  have blocked {s : Int} (queued : s ∈ a.queue r) : Kernel.assertSending k s r = .ok () := by
    obtain ⟨buf, status⟩ := (h.wf.member r s).mp queued
    exact h.assertSending_ok status
  have ends : interrupt ≠ any := by decide
  rcases legal with ⟨bounds, other⟩ | rfl | rfl
  · have bounds' := bounds
    simp only [InTable] at bounds
    have notAny : src ≠ any := by
      rintro rfl
      exact absurd bounds (by decide)
    have notInt : src ≠ interrupt := by
      rintro rfl
      exact absurd bounds (by decide)
    have source : sourceOf src = .from src := by simp only [sourceOf, notAny, notInt, if_false]
    rw [source]
    by_cases queued : src ∈ a.queue r
    · left
      obtain ⟨front, rest, split, walk⟩ := h.queues.predecessor receiver queued
      rw [split] at chain
      have nonempty : (k.procTable r).qSending ≠ none := by
        intro empty
        have chain' : Chain.Follows k.next (k.procTable r).qSending (front ++ src :: rest) := chain
        rw [empty] at chain'
        cases front with
        | nil => cases chain'.1
        | cons b front => cases chain'.1
      have sends := h.queued_iff.mp queued
      refine ⟨src, front, rest, ?_, split, .named src queued⟩
      simp only [Kernel.findSender, notAny, if_false, bounds, and_self, if_true, sends.2.1,
        sends.2.2,
        State.assertThat_of nonempty, walk, idle, blocked queued, bind, Except.bind]
      rfl
    · right
      have silent : ¬ ((k.procTable src).pFlags.sending = true ∧ (k.procTable src).pSendto = r) :=
        fun sends => queued (h.queued_iff.mpr ⟨bounds', sends⟩)
      refine ⟨?_, ?_⟩
      · simp only [Kernel.findSender, notAny, if_false, bounds, and_self, if_true, silent]
      · intro s picks
        cases picks with
        | named _ queued' => exact queued queued'
  · have source : sourceOf any = .any := by simp only [sourceOf, if_true]
    rw [source]
    cases shape : a.queue r with
    | nil =>
      right
      rw [shape] at chain
      have empty : (k.procTable r).qSending = none := chain
      refine ⟨by simp only [Kernel.findSender, if_true, empty], ?_⟩
      intro s picks
      cases picks with
      | first _ rest head => cases head
    | cons s rest =>
      left
      rw [shape] at chain
      have first : (k.procTable r).qSending = some s := chain.1
      refine ⟨s, [], rest, ?_, rfl, .first s rest rfl⟩
      have sends := blocked (s := s) (by rw [shape]; exact List.mem_cons_self)
      simp only [Kernel.findSender, if_true, first, idle, sends, bind, Except.bind]
      rfl
  · have source : sourceOf interrupt = .interrupt := by
      simp only [sourceOf, ends, if_false, if_true]
    have range : ¬ (0 ≤ interrupt ∧ interrupt < nrTasks + nrProcs) := by decide
    rw [source]
    right
    refine ⟨by simp only [Kernel.findSender, ends, if_false, range], ?_⟩
    intro s picks
    cases picks

theorem takeMessage (h : Represents free k a) {r s : Int} {m sbuf : Nat} {front rest : List Int}
    (runs : a.status r = .idle) (split : a.queue r = front ++ s :: rest)
    (blocked : a.status s = .sending r sbuf) (msg : m ≠ 0) (bound : m < 4294967296) :
    let a' := ((a.write (linear (k.procTable r) m) (a.mem sbuf)).setQueue r
      ((a.queue r).erase s)).setStatus s .idle
    WellFormed a' →
      ∃ k', Kernel.takeMessage k r s front.getLast? m = .ok k' ∧ Represents free k' a' := by
  intro a' wf
  have receiver := h.idle_inTable runs
  have sender := h.sending_inTable blocked
  obtain ⟨flags, sMsg, sBound, sRecv, -, -, rfl⟩ := h.sending_fields sender blocked
  obtain ⟨k₁, dequeued, mem, core, queues⟩ := h.queues.dequeue receiver split
  have erased : (a.queue r).erase s = front ++ rest := by
    have distinct := h.queues.distinct r
    rw [split] at distinct ⊢
    have fresh : s ∉ front := by
      intro again
      exact List.disjoint_of_nodup_append distinct again List.mem_cons_self
    rw [List.erase_append_right _ fresh, List.erase_cons_head]
  have procCore (p : Int) : linear (k₁.procTable p) = linear (k.procTable p) := by
    have same : linear (k₁.procTable p).core = linear (k.procTable p).core := by rw [core p]
    exact same
  have sMsg' : (k₁.procTable s).pMsg = (k.procTable s).pMsg := by
    have same : (k₁.procTable s).core.pMsg = (k.procTable s).core.pMsg := by rw [core s]
    exact same
  have segment' {p : Int} (inTable : InTable p) :
      p < nrTasks + nrNativeProcs → ldtSegLinear (k₁.procTable p).ldtRw = 0 := by
    have same : (k₁.procTable p).core.ldtRw = (k.procTable p).core.ldtRw := by rw [core p]
    intro native
    exact same.symm ▸ h.segment inTable native
  have woken : Represents free ((physCopy k₁ (linear (k.procTable r) m)
      (linear (k.procTable s) (k.procTable s).pMsg)).modify s Proc.sent) a' := by
    constructor
    case procs =>
      intro p inTable
      by_cases here : p = s
      · subst here
        have same : (Proc.sent (k₁.procTable p)).core = (Proc.sent (k.procTable p)).core := by
          have same := congrArg Proc.sent (core p)
          exact same
        have status : a'.status p = .idle := by simp [a']
        rw [State.modify_self, status]
        show ProcOk free p (Proc.sent (k₁.procTable p)).core .idle (a.pending p)
        rw [same]
        refine ⟨.idle ?_ rfl sRecv rfl, (h.procs p inTable).pending, (h.procs p inTable).segment⟩
        show ({ (k.procTable p).pFlags with sending := false } : PFlags) = .clear
        rw [flags]
        rfl
      · rw [State.modify_other _ _ here]
        show ProcOk free p (k₁.procTable p).core (a'.status p) (a.pending p)
        rw [core p]
        simpa [a', here] using h.procs p inTable
    case outside =>
      intro p out
      have other : p ≠ s := fun same => out (same ▸ sender)
      simpa [a', other] using h.outside p out
    case queues =>
      have queues' : Queues (physCopy k₁ (linear (k.procTable r) m)
          (linear (k.procTable s) (k.procTable s).pMsg))
            (Function.update a.queue r (front ++ rest)) :=
        ⟨queues.chain, queues.distinct, queues.inTable, queues.disjoint⟩
      rw [← erased] at queues'
      exact queues'.modify ⟨rfl, rfl⟩
    case mem =>
      show Function.update a.mem _ _ = Function.update k₁.mem _ _
      rw [h.mem, mem]
    case wf => exact wf
  refine ⟨_, ?_, woken⟩
  have clear := woken.unblock_ok sender (by simp [a'])
  have la := va2la_eq (k := k₁) (segment' receiver) bound
  have la' := va2la_eq (k := k₁) (segment' sender) sBound
  rw [procCore] at la la'
  simp only [Kernel.takeMessage, dequeued, State.assertThat_of msg, sMsg', State.assertThat_of sMsg,
    la, la', clear, bind, Except.bind]
  rfl

theorem setReceiving (h : Represents free k a) {r src : Int} {m : Nat} (runs : a.status r = .idle)
    (legal : Legal r src) (msg : m ≠ 0) (bound : m < 4294967296) :
    let a' := a.setStatus r (.receiving (sourceOf src) (linear (k.procTable r) m))
    WellFormed a' → Represents free (Kernel.setReceiving k r src m) a' := by
  intro a' wf
  have receiver := h.idle_inTable runs
  obtain ⟨flags, -, -, send⟩ := h.idle_fields receiver runs
  apply h.modify_status receiver (f := fun p =>
    { p with pFlags := { p.pFlags with receiving := true }, pMsg := m, pRecvfrom := src })
    ⟨rfl, rfl⟩ _ wf
  refine ⟨.receiving ?_ msg bound legal send, (h.procs r receiver).pending,
    (h.procs r receiver).segment⟩
  show ({ (k.procTable r).pFlags with receiving := true } : PFlags) = .onlyReceiving
  rw [flags]
  rfl

-- The assertions around `block()` hold, but for the last one when an interrupt is pending.
theorem receiving_checks (h : Represents free k a) {r : Int} {src : Source Int} {buf : Nat}
    (waiting : a.status r = .receiving src buf) :
    block k r = .ok () ∧
      assertReceiving k r = if a.pending r then .error ⟨.assertion, k⟩ else .ok () := by
  have receiver := h.receiving_inTable waiting
  obtain ⟨flags, msg, -, legal, send, -, -⟩ := h.receiving_fields receiver waiting
  have notNone : (k.procTable r).pRecvfrom ≠ noTask := by
    rcases legal with ⟨bounds, -⟩ | isAny | isInt
    · intro same
      rw [same] at bounds
      exact absurd bounds (by decide)
    · rw [isAny]
      decide
    · rw [isInt]
      decide
  have pending : (k.procTable r).hasIntMsg = a.pending r := (h.procs r receiver).pending.symm
  constructor
  · simp only [block, flags, PFlags.onlyReceiving, PFlags.clear]
    rfl
  · cases noted : a.pending r with
    | false =>
      simp only [assertReceiving, flags, State.assertThat_of msg, State.assertThat_of notNone, send,
        pending, noted, decide_true, Bool.not_false, State.assertThat_true]
      rfl
    | true =>
      simp only [assertReceiving, flags, State.assertThat_of msg, State.assertThat_of notNone, send,
        pending, noted, decide_true, Bool.not_true, State.assertThat_true]
      rfl

theorem receiveLater (h : Represents free k a) {r src : Int} {m : Nat} (runs : a.status r = .idle)
    (legal : Legal r src) (msg : m ≠ 0) (bound : m < 4294967296) :
    let a' := a.setStatus r (.receiving (sourceOf src) (linear (k.procTable r) m))
    WellFormed a' → ∃ k', Represents free k' a' ∧
      if a.pending r then Kernel.receiveLater k r src m = .error ⟨.assertion, k'⟩
      else Kernel.receiveLater k r src m = .ok k' := by
  intro a' wf
  have waits := h.setReceiving runs legal msg bound wf
  have status : a'.status r = .receiving (sourceOf src) (linear (k.procTable r) m) := by simp [a']
  obtain ⟨stopped, checked⟩ := waits.receiving_checks status
  refine ⟨_, waits, ?_⟩
  have pending : a'.pending r = a.pending r := rfl
  rw [pending] at checked
  cases noted : a.pending r with
  | false =>
    rw [noted] at checked
    simp only [Kernel.receiveLater, stopped, checked, bind, Except.bind]
    rfl
  | true =>
    rw [noted] at checked
    simp only [Kernel.receiveLater, stopped, checked, bind, Except.bind]
    rfl

-- How a call ends that does not deadlock: it returns, or a RECEIVE fails its last assertion.
def Ends (outcome : Except Halted State) (k' : State) (mayFail : Prop) : Prop :=
  outcome = .ok k' ∨ mayFail ∧ outcome = .error ⟨.assertion, k'⟩

theorem takesInterrupt_iff (h : Represents free k a) {r src : Int} (inTable : InTable r) :
    takesInterrupt k r src = true ↔ a.pending r = true ∧ (sourceOf src).AdmitsInt := by
  have pending : (k.procTable r).hasIntMsg = a.pending r := (h.procs r inTable).pending.symm
  rw [sourceOf_admitsInt]
  simp only [takesInterrupt, pending, decide_eq_true_eq]
  tauto

theorem msgReceive (h : Represents free k a) {r src : Int} {m : Nat} (runs : a.status r = .idle)
    (legal : Legal r src) (other : r ≠ src) (msg : m ≠ 0) (bound : m < 4294967296) :
    ∃ k' a', Receives format a r (sourceOf src) (linear (k.procTable r) m) a' ∧
      Represents free k' a' ∧
      Ends (Kernel.msgReceive k r src m) k'
        ((k.procTable r).hasIntMsg = true ∧
          a'.status r = .receiving (sourceOf src) (linear (k.procTable r) m)) := by
  have receiver := h.idle_inTable runs
  by_cases takes : takesInterrupt k r src = true
  · have admits := (h.takesInterrupt_iff receiver).mp takes
    obtain ⟨k', a', received, receives, after⟩ :=
      h.receiveInterrupt runs msg bound admits.1 admits.2
    refine ⟨k', a', receives, after, .inl ?_⟩
    simp only [Kernel.msgReceive, State.assertThat_of other, takes, if_true, bind, Except.bind]
    exact received
  · have quiet : ¬ (a.pending r = true ∧ (sourceOf src).AdmitsInt) :=
      fun admits => takes ((h.takesInterrupt_iff receiver).mpr admits)
    rcases h.findSender runs legal with ⟨s, front, rest, found, split, picks⟩ | ⟨found, nobody⟩
    · obtain ⟨sbuf, blocked⟩ := (h.wf.member r s).mp picks.queued.1
      have receives : Receives format a r (sourceOf src) (linear (k.procTable r) m) _ :=
        .take s sbuf quiet picks blocked
      obtain ⟨k', taken, after⟩ :=
        h.takeMessage runs split blocked msg bound (receives.wellFormed h.wf runs)
      refine ⟨k', _, receives, after, .inl ?_⟩
      simp only [Kernel.msgReceive, State.assertThat_of other, takes, found, bind, Except.bind]
      exact taken
    · have receives : Receives format a r (sourceOf src) (linear (k.procTable r) m) _ :=
        .wait quiet nobody
      obtain ⟨k', after, ends⟩ :=
        h.receiveLater runs legal msg bound (receives.wellFormed h.wf runs)
      refine ⟨k', _, receives, after, ?_⟩
      have step : Kernel.msgReceive k r src m = Kernel.receiveLater k r src m := by
        simp only [Kernel.msgReceive, State.assertThat_of other, takes, found, bind, Except.bind]
        rfl
      rw [step]
      have pending : a.pending r = (k.procTable r).hasIntMsg := (h.procs r receiver).pending
      by_cases noted : a.pending r = true
      · rw [if_pos noted] at ends
        exact .inr ⟨⟨pending ▸ noted, by simp⟩, ends⟩
      · rw [if_neg noted] at ends
        exact .inl ends

theorem informInt (h : Represents free k a) {t : Int} (inTable : InTable t)
    (kept : ∀ proc, free proc → free { proc with hasIntMsg := true })
    (flat : (k.procTable t).pFlags.receiving = true →
      linear (k.procTable t) (k.procTable t).pMsg = (k.procTable t).pMsg) :
    ∃ k' a', Kernel.informInt k t = .ok k' ∧ Informs format a t a' ∧ Represents free k' a' := by
  by_cases waits : (k.procTable t).pFlags.receiving = true ∧
      ((k.procTable t).pRecvfrom = interrupt ∨ (k.procTable t).pRecvfrom = any)
  · have waiting := h.receiving_of_flag inTable waits.1
    have takes := (sourceOf_admitsInt (k.procTable t).pRecvfrom).mpr waits.2
    rw [flat waits.1] at waiting
    obtain ⟨flags, -, -, -, send, -, -⟩ := h.receiving_fields inTable waiting
    have informs : Informs format a t _ := .wake _ _ waiting takes
    have wf := informs.wellFormed h.wf
    have written := h.write (k.procTable t).pMsg (format.mark (k.mem (k.procTable t).pMsg))
    rw [h.mem] at informs wf
    have woken := written.modify (f := fun p => { p.received with hasIntMsg := false }) .idle false
      inTable ⟨rfl, rfl⟩
      ⟨.idle (by
        show ({ (k.procTable t).pFlags with receiving := false } : PFlags) = .clear
        rw [flags]
        rfl) rfl rfl send, rfl, (h.procs t inTable).segment⟩ wf
    have idle := woken.assertIdle_ok inTable (by simp)
    have clear := woken.unblock_ok inTable (by simp)
    refine ⟨_, _, ?_, informs, woken⟩
    simp only [format] at idle clear
    simp only [Kernel.informInt, waits, and_self, if_true, clear, idle, bind, Except.bind]
    rfl
  · have busy : ∀ src buf, a.status t = .receiving src buf → ¬ src.AdmitsInt := by
      intro src buf waiting takes
      obtain ⟨flags, -, -, -, -, rfl, -⟩ := h.receiving_fields inTable waiting
      exact waits ⟨by rw [flags]; rfl, (sourceOf_admitsInt _).mp takes⟩
    have informs : Informs format a t _ := .note busy
    have ok := h.procs t inTable
    have noted := h.modify (f := fun p => { p with hasIntMsg := true }) (a.status t) true
      inTable ⟨rfl, rfl⟩
      ⟨by
        have shape := ok.shape
        generalize a.status t = status at shape
        cases shape with
        | idle flags msg recv send => exact .idle flags msg recv send
        | sending flags msg bound recv dest => exact .sending flags msg bound recv dest
        | receiving flags msg bound recv send => exact .receiving flags msg bound recv send
        | absent flags unused => exact .absent flags (kept _ unused), rfl, ok.segment⟩
    have same : (a.setPending t true).setStatus t (a.status t) = a.setPending t true :=
      Mail.setStatus_self (a.setPending t true) t
    rw [same] at noted
    refine ⟨_, _, ?_, informs, noted (informs.wellFormed h.wf)⟩
    simp only [Kernel.informInt, waits, if_false]
    rfl

end Represents

end Konix.Kernel
