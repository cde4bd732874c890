import Konix.Kernel.QueueInvariant

set_option autoImplicit false

namespace Konix.Kernel

open Rendezvous Runs

structure Returns (run : Run Boots Step) (p : Int) (i j : Nat) : Prop where
  ordered : i ≤ j
  within : j < run.length
  blocked : run.HeldSince (fun k => (k.procTable p).pFlags ≠ .clear) i j
  done : ((run.state (j + 1)).procTable p).pFlags = .clear

def SendCompletes (run : Run Boots Step) (s d : Int) (m i j : Nat) : Prop :=
  run.act i = .call s .send d m ∧ Returns run s i j

def ReceiveCompletes (run : Run Boots Step) (r src : Int) (m i j : Nat) : Prop :=
  run.act i = .call r .receive src m ∧ Returns run r i j

def Interrupted (run : Run Boots Step) (m j : Nat) : Prop :=
  ((run.state (j + 1)).mem m).source = interrupt

-- The message buffer of a blocked sender is left alone.
structure LeftAlone (k : State) (act : Action) (k' : State) : Prop where
  calls : ∀ p, InTable p → (k.procTable p).pFlags.sending = true →
    ∀ caller function srcDest m, act = .call caller function srcDest m → m ≠ (k.procTable p).pMsg
  kept : ∀ p, InTable p → (k.procTable p).pFlags.sending = true →
    (k'.procTable p).pFlags.sending = true →
    k'.mem (k.procTable p).pMsg = k.mem (k.procTable p).pMsg

structure ExactlyOnce (run : Run Boots Step) : Prop where
  sends : ∀ s d m i j, SendCompletes run s d m i j →
    ∃ src m' i', ReceiveCompletes run d src m' i' j ∧ (src = s ∨ src = any) ∧
      (run.state (j + 1)).mem m' = { (run.state i).mem m with source := s } ∧
      ∀ r src₂ m₂ i₂, ReceiveCompletes run r src₂ m₂ i₂ j → ¬ Interrupted run m₂ j →
        r = d ∧ src₂ = src ∧ m₂ = m' ∧ i₂ = i'
  receives : ∀ r src m i j, ReceiveCompletes run r src m i j →
    (src = any ∨ src = interrupt) ∧ Interrupted run m j ∨
    ∃ s m' i', SendCompletes run s r m' i' j ∧ (src = s ∨ src = any) ∧
      (run.state (j + 1)).mem m = { (run.state i').mem m' with source := s } ∧
      ∀ s₂ d₂ m₂ i₂, SendCompletes run s₂ d₂ m₂ i₂ j → s₂ = s ∧ d₂ = r ∧ m₂ = m' ∧ i₂ = i'
  fifo : ∀ r m j s m' i, run.act j = .call r .receive any m → SendCompletes run s r m' i j →
    i < j → ∀ p m'' i', run.act i' = .call p .send r m'' → i' < i →
      ((run.state (i' + 1)).procTable p).pFlags ≠ .clear →
      ∃ j', i' < j' ∧ j' < j ∧ SendCompletes run p r m'' i' j'

theorem Action.act_send {act : Action} {s d : Int} {m : Nat} (same : act.act = .send s d m) :
    act = .call s .send d m := by
  cases act with
  | call caller function srcDest m' =>
    cases function with
    | send =>
      cases same
      rfl
    | receive => cases same
    | both => cases same
  | inform taskNr => cases same
  | compute => cases same

theorem Action.act_receive {act : Action} {r : Int} {src : Source Int} {m : Nat}
    (same : act.act = .receive r src m) :
    ∃ srcDest, act = .call r .receive srcDest m ∧ sourceOf srcDest = src := by
  cases act with
  | call caller function srcDest m' =>
    cases function with
    | send => cases same
    | receive =>
      cases same
      exact ⟨srcDest, rfl, rfl⟩
    | both => cases same
  | inform taskNr => cases same
  | compute => cases same

theorem Native.idle_iff {k : State} {a : Mail Int Nat Message} (h : Native k a) {p : Int}
    (inTable : InTable p) : a.status p = .idle ↔ (k.procTable p).pFlags = .clear :=
  ⟨fun idle => (h.idle_fields inTable idle).1, h.runs inTable⟩

theorem Native.sending_buffer {k : State} {a : Mail Int Nat Message} (h : Native k a) {p d : Int}
    {buf : Nat} (blocked : a.status p = .sending d buf) :
    (k.procTable p).pFlags.sending = true ∧ buf = (k.procTable p).pMsg := by
  have inTable := h.sending_inTable blocked
  obtain ⟨flags, -, bound, -, -, -, same⟩ := h.sending_fields inTable blocked
  rw [h.flat inTable (by simp [blocked]) bound] at same
  exact ⟨by rw [flags]; rfl, same⟩

theorem undisturbed {k k' : State} {a a' : Mail Int Nat Message} {act : Action} (h : Native k a)
    (h' : Native k' a') (alone : LeftAlone k act k') : Undisturbed a act.act a' := by
  constructor
  case stamped =>
    intro p d buf blocked same
    have inTable := h.sending_inTable blocked
    obtain ⟨flag, rfl⟩ := h.sending_buffer blocked
    cases act with
    | call caller function srcDest m =>
      have apart := alone.calls p inTable flag caller function srcDest m rfl
      cases function with
      | send =>
        cases same
        exact apart rfl
      | receive =>
        cases same
        exact apart rfl
      | both => cases same
    | inform taskNr => cases same
    | compute => cases same
  case kept =>
    intro p d buf blocked blocked'
    have inTable := h.sending_inTable blocked
    obtain ⟨flag, rfl⟩ := h.sending_buffer blocked
    rw [h.mem, h'.mem]
    exact alone.kept p inTable flag (h'.sending_buffer blocked').1

theorem caller_inTable (run : Run Boots Step) {i : Nat} {caller srcDest : Int}
    {function : Function} {m : Nat} (within : i < run.length)
    (call : run.act i = .call caller function srcDest m) : InTable caller := by
  have step := run.steps i within
  rw [call] at step
  cases step with
  | call _ _ _ _ inTable runnable legal msg bound leaves => exact inTable

section Mirrors

variable {run : Run Boots Step} {mail : Run Fresh (Rendezvous.Step (A := Nat) format)}

theorem Mirrors.calm (h : Mirrors run mail)
    (alone : ∀ t, t < run.length → LeftAlone (run.state t) (run.act t) (run.state (t + 1))) :
    ∀ t, t < mail.length → Undisturbed (mail.state t) (mail.act t) (mail.state (t + 1)) := by
  intro t within
  rw [h.length] at within
  rw [h.acts]
  exact undisturbed (h.native t (by omega)) (h.native (t + 1) within) (alone t within)

theorem Mirrors.returns_iff (h : Mirrors run mail) {p : Int} {i j : Nat} (inTable : InTable p) :
    Returns run p i j ↔ Completes mail p i j := by
  have length := h.length
  constructor
  · intro returns
    have within := returns.within
    refine ⟨returns.ordered, by omega, ?_, ((h.native _ within).idle_iff inTable).mpr returns.done⟩
    intro u after before idle
    exact returns.blocked u after before (((h.native u (by omega)).idle_iff inTable).mp idle)
  · intro completes
    have within := completes.within
    refine ⟨completes.ordered, by omega, ?_,
      ((h.native _ (by omega)).idle_iff inTable).mp completes.done⟩
    intro u after before clear
    exact completes.blocked u after before (((h.native u (by omega)).idle_iff inTable).mpr clear)

theorem Mirrors.send_handover (h : Mirrors run mail)
    (alone : ∀ t, t < run.length → LeftAlone (run.state t) (run.act t) (run.state (t + 1)))
    {s d : Int} {m i j : Nat} (sent : SendCompletes run s d m i j) :
    ∃ src rbuf, Handover format (mail.state j) (mail.act j) (mail.state (j + 1)) s d src m rbuf ∧
      (mail.state (j + 1)).status d = .idle := by
  obtain ⟨call, returns⟩ := sent
  have ordered := returns.ordered
  have within := returns.within
  have inTable := caller_inTable run (by omega) call
  have completes := (h.returns_iff inTable).mp returns
  exact completes.send_handover (by rw [h.acts, call]; rfl) (h.calm alone j completes.within)

theorem Mirrors.receive_handover (h : Mirrors run mail)
    (alone : ∀ t, t < run.length → LeftAlone (run.state t) (run.act t) (run.state (t + 1)))
    {r src : Int} {m i j : Nat} (received : ReceiveCompletes run r src m i j) :
    (∃ s sbuf, Handover format (mail.state j) (mail.act j) (mail.state (j + 1)) s r (sourceOf src)
        sbuf m ∧ (mail.state (j + 1)).status s = .idle) ∨
      (src = any ∨ src = interrupt) ∧ Interrupted run m j := by
  obtain ⟨call, returns⟩ := received
  have ordered := returns.ordered
  have within := returns.within
  have inTable := caller_inTable run (by omega) call
  have completes := (h.returns_iff inTable).mp returns
  rcases completes.receive_handover (by rw [h.acts, call]; rfl) (h.calm alone j completes.within)
    with handed | ⟨takes, content⟩
  · exact .inl handed
  · refine .inr ⟨((sourceOf_admitsInt src).mp takes).symm, ?_⟩
    unfold Interrupted
    rw [← (h.native (j + 1) within).mem]
    rcases content with notice | ⟨m', mark⟩
    · rw [notice]
      rfl
    · rw [mark]
      rfl

theorem Mirrors.handover_send (h : Mirrors run mail)
    (alone : ∀ t, t < run.length → LeftAlone (run.state t) (run.act t) (run.state (t + 1)))
    {s r : Int} {src : Source Int} {sbuf rbuf j : Nat} (within : j < run.length)
    (handover : Handover format (mail.state j) (mail.act j) (mail.state (j + 1)) s r src sbuf rbuf)
    (done : (mail.state (j + 1)).status s = .idle) :
    ∃ i, SendCompletes run s r sbuf i j ∧
      (run.state (j + 1)).mem rbuf = { (run.state i).mem sbuf with source := s } := by
  have length := h.length
  obtain ⟨i, call, completes, content⟩ :=
    handover.send_completes (by omega) done (h.calm alone)
  have ordered := completes.ordered
  have inTable := (h.native (j + 1) within).idle_inTable done
  rw [h.acts] at call
  rw [(h.native _ within).mem, (h.native i (by omega)).mem] at content
  exact ⟨i, ⟨Action.act_send call, (h.returns_iff inTable).mpr completes⟩, content⟩

theorem Mirrors.handover_receive (h : Mirrors run mail) {s r : Int} {src : Source Int}
    {sbuf rbuf j : Nat} (within : j < run.length)
    (handover : Handover format (mail.state j) (mail.act j) (mail.state (j + 1)) s r src sbuf rbuf)
    (done : (mail.state (j + 1)).status r = .idle) :
    ∃ srcDest i, ReceiveCompletes run r srcDest rbuf i j ∧ sourceOf srcDest = src := by
  have length := h.length
  obtain ⟨i, call, completes⟩ := handover.receive_completes (by omega) done
  have inTable := (h.native (j + 1) within).idle_inTable done
  rw [h.acts] at call
  obtain ⟨srcDest, made, same⟩ := Action.act_receive call
  exact ⟨srcDest, i, ⟨made, (h.returns_iff inTable).mpr completes⟩, same⟩

theorem Mirrors.call_unique (h : Mirrors run mail) {p : Int} {i i' j : Nat}
    (first : (run.act i).act.caller = some p) (second : (run.act i').act.caller = some p)
    (inTable : InTable p) (returns : Returns run p i j) (returns' : Returns run p i' j) :
    i = i' := by
  rw [← h.acts] at first second
  exact Completes.unique first second ((h.returns_iff inTable).mp returns)
    ((h.returns_iff inTable).mp returns')

end Mirrors

theorem exactly_once (run : Run Boots Step)
    (alone : ∀ t, t < run.length → LeftAlone (run.state t) (run.act t) (run.state (t + 1))) :
    ExactlyOnce run := by
  obtain ⟨mail, h⟩ := mirrors_exists run
  have length := h.length
  constructor
  case sends =>
    intro s d m i j sent
    have within := sent.2.within
    have ordered := sent.2.ordered
    have sender := caller_inTable run (by omega) sent.1
    obtain ⟨src', m', handover, awake⟩ := h.send_handover alone sent
    have done : (mail.state (j + 1)).status s = .idle :=
      ((h.native _ within).idle_iff sender).mpr sent.2.done
    obtain ⟨i₁, sent₁, content⟩ := h.handover_send alone within handover done
    obtain ⟨src, i', received, same⟩ := h.handover_receive within handover awake
    have sameCall : i₁ = i :=
      h.call_unique (by rw [sent₁.1]; rfl) (by rw [sent.1]; rfl) sender sent₁.2 sent.2
    subst sameCall
    refine ⟨src, m', i', received, ?_, content, ?_⟩
    · have admits := handover.admits
      rw [← same] at admits
      exact (sourceOf_admits sender).mp admits
    · intro r src₂ m₂ i₂ received₂ uninterrupted
      rcases h.receive_handover alone received₂ with ⟨s₂, sbuf₂, handover₂, -⟩ | ⟨-, cut⟩
      · obtain ⟨-, rfl, -, -, rfl⟩ := handover₂.unique handover
        have receiver := (h.native _ within).idle_inTable awake
        have sameCall : i₂ = i' := h.call_unique (by rw [received₂.1]; rfl)
          (by rw [received.1]; rfl) receiver received₂.2 received.2
        subst sameCall
        have call := received₂.1.symm.trans received.1
        cases call
        exact ⟨rfl, rfl, rfl, rfl⟩
      · exact absurd cut uninterrupted
  case receives =>
    intro r src m i j received
    have within := received.2.within
    rcases h.receive_handover alone received with ⟨s, m', handover, awake⟩ | cut
    · have sender := (h.native _ within).idle_inTable awake
      obtain ⟨i', sent, content⟩ := h.handover_send alone within handover awake
      refine .inr ⟨s, m', i', sent, (sourceOf_admits sender).mp handover.admits, content, ?_⟩
      intro s₂ d₂ m₂ i₂ sent₂
      obtain ⟨src₂, rbuf₂, handover₂, -⟩ := h.send_handover alone sent₂
      obtain ⟨rfl, rfl, -, rfl, -⟩ := handover₂.unique handover
      have sameCall : i₂ = i' := h.call_unique (by rw [sent₂.1]; rfl) (by rw [sent.1]; rfl)
        sender sent₂.2 sent.2
      exact ⟨rfl, rfl, rfl, sameCall⟩
    · exact .inl cut
  case fifo =>
    intro r m j s m' i call sent waited p m'' i' sent' before blocks
    have within := sent.2.within
    have sender := caller_inTable run (by omega) sent.1
    have sender' := caller_inTable run (by omega) sent'
    have completes := (h.returns_iff sender).mp sent.2
    obtain ⟨src, rbuf, handover, -⟩ := h.send_handover alone sent
    have act : mail.act j = .receive r .any m := by
      rw [h.acts, call]
      rfl
    cases handover with
    | direct made waiting admits content => cases act.symm.trans made
    | fetched made fetched picks content =>
      cases act.symm.trans made
      have blocks' : (mail.state (i' + 1)).status p ≠ .idle := fun idle =>
        blocks (((h.native _ (by omega)).idle_iff sender').mp idle)
      obtain ⟨j', after, earlier, completes'⟩ := fetched_first (by omega) fetched picks
        (by rw [h.acts, sent.1]; rfl) waited completes.blocked (by rw [h.acts, sent']; rfl) before
        blocks'
      exact ⟨j', after, earlier, sent', (h.returns_iff sender').mpr completes'⟩

theorem inTable_all {P : Int → Prop} (all : ∀ n : Fin 37, P n.val) :
    ∀ p, InTable p → P p := by
  intro p inTable
  obtain ⟨n, rfl⟩ := Int.eq_ofNat_of_zero_le inTable.1
  have bound : n < 37 := by
    have upper := inTable.2
    simp only [nrTasks, nrProcs] at upper
    omega
  exact all ⟨n, bound⟩

-- FS takes the message in which INIT is blocked.
def firstReceive : Except Halted State :=
  sysSendrec (resulting firstSend) .receive any 8192 taskFs

def deliveryRun : Run Boots Step where
  length := 2
  state := fun t =>
    if t = 0 then bootState else if t = 1 then resulting firstSend else resulting firstReceive
  act := fun t =>
    if t = 0 then .call initPid .send taskFs 4096 else .call taskFs .receive any 8192
  start := ⟨0, 0, _, rfl⟩
  steps := by
    intro t within
    have received : Step (resulting firstSend) (.call taskFs .receive any 8192)
        (resulting firstReceive) :=
      .call _ _ _ _ (by decide) (by decide) (.inr (.inl rfl)) (by decide) (by decide)
        (leaves_resulting (by decide))
    match t, within with
    | 0, _ => exact firstSend_step
    | 1, _ => exact received

theorem exactly_once_delivery : ExactlyOnce deliveryRun := by
  apply exactly_once
  intro t within
  match t, within with
  | 0, _ =>
    have silent : ∀ p, InTable p → ¬ (bootState.procTable p).pFlags.sending = true :=
      inTable_all (by decide)
    exact ⟨fun p inTable flag => absurd flag (silent p inTable),
      fun p inTable flag => absurd flag (silent p inTable)⟩
  | 1, _ =>
    have blocked : ∀ p, InTable p → ((resulting firstSend).procTable p).pFlags.sending = true →
        ((resulting firstSend).procTable p).pMsg = 4096 := inTable_all (by decide)
    have awake : ∀ p, InTable p → ¬ ((resulting firstReceive).procTable p).pFlags.sending = true :=
      inTable_all (by decide)
    constructor
    case calls =>
      intro p inTable flag caller function srcDest m call same
      cases call
      exact absurd (same.trans (blocked p inTable flag)) (by decide)
    case kept => exact fun p inTable flag flag' => absurd flag' (awake p inTable)

end Konix.Kernel
