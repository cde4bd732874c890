import Konix.Kernel.Calls

set_option autoImplicit false

namespace Konix.Kernel

open Chain Rendezvous Runs

-- Process `p` called SEND in step `i` and has been blocked in that call since.
def BlockedAt (run : Run Boots Step) (t : Nat) (p : Int) (i : Nat) : Prop :=
  i < t ∧ (∃ dest m, run.act i = .call p .send dest m) ∧
    run.HeldSince (fun k => (k.procTable p).pFlags = .onlySending) i t

def BlockedBefore (run : Run Boots Step) (t : Nat) (p q : Int) : Prop :=
  ∃ i j, BlockedAt run t p i ∧ BlockedAt run t q j ∧ i < j

structure QueueInvariant (run : Run Boots Step) (t : Nat) : Prop where
  queues : ∀ d, InTable d → ∃ queue : List Int,
    Follows (run.state t).next ((run.state t).procTable d).qSending queue ∧ queue.Nodup ∧
    (∀ p, p ∈ queue ↔ InTable p ∧ ((run.state t).procTable p).pFlags.sending = true ∧
      ((run.state t).procTable p).pSendto = d) ∧
    queue.Pairwise (BlockedBefore run t)
  flags : ∀ p, InTable p → (((run.state t).procTable p).pFlags = .clear ↔
    ((run.state t).procTable p).pMsg = 0 ∧ ((run.state t).procTable p).pSendto = noTask ∧
      ((run.state t).procTable p).pRecvfrom = noTask)
  interrupts : ∀ p, InTable p → ((run.state t).procTable p).pFlags.receiving = true →
    (((run.state t).procTable p).pRecvfrom = any ∨
      ((run.state t).procTable p).pRecvfrom = interrupt) →
    ((run.state t).procTable p).hasIntMsg = false
  waiting : ∀ d, InTable d → ((run.state t).procTable d).pFlags.receiving = true →
    (((run.state t).procTable d).pRecvfrom = any → ((run.state t).procTable d).qSending = none) ∧
    ∀ s, InTable s → ((run.state t).procTable d).pRecvfrom = s →
      ¬ (((run.state t).procTable s).pFlags.sending = true ∧
        ((run.state t).procTable s).pSendto = d)

theorem Native.flags_iff {k : State} {a : Mail Int Nat Message} (h : Native k a) {p : Int}
    (inTable : InTable p) :
    (k.procTable p).pFlags = .clear ↔
      (k.procTable p).pMsg = 0 ∧ (k.procTable p).pSendto = noTask ∧
        (k.procTable p).pRecvfrom = noTask := by
  have shape := (h.procs p inTable).shape
  change (k.procTable p).core.pFlags = .clear ↔ (k.procTable p).core.pMsg = 0 ∧
    (k.procTable p).core.pSendto = noTask ∧ (k.procTable p).core.pRecvfrom = noTask
  generalize a.status p = status at shape
  cases shape with
  | idle flags msg recv send =>
    rw [flags, msg, recv, send]
    exact ⟨fun _ => ⟨rfl, rfl, rfl⟩, fun _ => rfl⟩
  | sending flags msg bound recv dest =>
    rw [flags]
    exact ⟨fun same => (by cases same), fun same => absurd same.1 msg⟩
  | receiving flags msg bound recv send =>
    rw [flags]
    exact ⟨fun same => (by cases same), fun same => absurd same.1 msg⟩
  | absent flags unused =>
    have zero : (k.procTable p).core.pSendto = 0 := unused
    rw [flags, zero]
    exact ⟨fun same => (by cases same), fun same => absurd same.2.1 (by decide)⟩

theorem queue_invariant (run : Run Boots Step) (t : Nat) (within : t ≤ run.length) :
    QueueInvariant run t := by
  obtain ⟨mail, length, acts, native⟩ := mirrors_exists run
  have h := native t within
  obtain ⟨issue, timeline⟩ := timeline_exists mail t (by omega)
  constructor
  case queues =>
    intro d inTable
    have queued {p : Int} (member : p ∈ (mail.state t).queue d) : BlockedAt run t p (issue p) := by
      obtain ⟨buf, blocked⟩ := (h.wf.member d p).mp member
      obtain ⟨earlier, call, held⟩ := timeline.sending p d buf blocked
      refine ⟨earlier, ?_, ?_⟩
      · rw [acts] at call
        cases made : run.act (issue p) with
        | call caller function srcDest m =>
          rw [made] at call
          cases function with
          | send =>
            cases call
            exact ⟨d, buf, rfl⟩
          | receive => cases call
          | both => cases call
        | inform taskNr =>
          rw [made] at call
          cases call
        | compute =>
          rw [made] at call
          cases call
      · intro u after before
        have still : (mail.state u).status p = .sending d buf := held u after before
        have past := native u (by omega)
        exact (past.sending_fields (past.sending_inTable still) still).1
    refine ⟨_, h.queues.chain d inTable, h.wf.distinct d, fun p => h.queued_iff, ?_⟩
    refine (timeline.ordered d).imp_of_mem ?_
    intro p q first second before
    exact ⟨issue p, issue q, queued first, queued second, before⟩
  case flags => exact fun p inTable => h.flags_iff inTable
  case interrupts =>
    intro p inTable flag open_
    have takes := (sourceOf_admitsInt ((run.state t).procTable p).pRecvfrom).mpr open_.symm
    have quiet := h.wf.quiet p _ _ (h.receiving_of_flag inTable flag) takes
    rwa [(h.procs p inTable).pending] at quiet
  case waiting =>
    intro d inTable flag
    have waits := h.receiving_of_flag inTable flag
    constructor
    · intro isAny
      have chain := h.queues.chain d inTable
      cases shape : (mail.state t).queue d with
      | nil =>
        rw [shape] at chain
        exact chain
      | cons s rest =>
        have member : s ∈ (mail.state t).queue d := by
          rw [shape]
          exact List.mem_cons_self
        have sender := h.queues.inTable d s member
        exact absurd ((sourceOf_admits sender).mpr (.inr isAny)) (h.wf.apart d _ _ waits s member)
    · intro s sender same sends
      have member := h.queued_iff.mpr ⟨sender, sends⟩
      exact h.wf.apart d _ _ waits s member ((sourceOf_admits sender).mpr (.inl same))

def resulting : Except Halted State → State
  | .ok k => k
  | .error halted => halted.state

theorem leaves_resulting {outcome : Except Halted State} (returns : outcome.isOk = true) :
    Leaves outcome (resulting outcome) := by
  cases outcome with
  | error halted => cases returns
  | ok k => exact .inl rfl

def bootState : State := kernelMain 0 0 fun _ => resetMsg

-- INIT and TestA block in a SEND to FS, one after the other.
def firstSend : Except Halted State := sysSendrec bootState .send taskFs 4096 initPid
def secondSend : Except Halted State :=
  sysSendrec (resulting firstSend) .send taskFs 8192 (initPid + 1)

theorem firstSend_step :
    Step bootState (.call initPid .send taskFs 4096) (resulting firstSend) :=
  .call _ _ _ _ (by decide) (by decide) ⟨by decide, by decide⟩ (by decide) (by decide)
    (leaves_resulting (by decide))

def sampleRun : Run Boots Step where
  length := 2
  state := fun t =>
    if t = 0 then bootState else if t = 1 then resulting firstSend else resulting secondSend
  act := fun t =>
    if t = 0 then .call initPid .send taskFs 4096 else .call (initPid + 1) .send taskFs 8192
  start := ⟨0, 0, _, rfl⟩
  steps := by
    intro t within
    have second : Step (resulting firstSend) (.call (initPid + 1) .send taskFs 8192)
        (resulting secondSend) :=
      .call _ _ _ _ (by decide) (by decide) ⟨by decide, by decide⟩ (by decide) (by decide)
        (leaves_resulting (by decide))
    match t, within with
    | 0, _ => exact firstSend_step
    | 1, _ => exact second

theorem queue_invariant_two_senders : QueueInvariant sampleRun 2 :=
  queue_invariant sampleRun 2 (le_refl 2)

end Konix.Kernel
