import Konix.Kernel.ExactlyOnce

set_option autoImplicit false

namespace Konix.Kernel

open Rendezvous Runs

-- The steps of `msg_receive()` between which an interrupt can arrive.
inductive Phase
  | testInt
  | testSender
  | setReceiving
  | block
  | check
deriving DecidableEq, Repr

structure Inside where
  who : Int
  src : Int
  m : Nat
  phase : Phase
deriving DecidableEq, Repr

structure Machine where
  kernel : State
  inside : Option Inside
  failed : Bool

-- The call is over, or one of its assertions has failed.
def finish : Except Halted State → Machine
  | .ok k => ⟨k, none, false⟩
  | .error halted => ⟨halted.state, none, true⟩

def proceed (k : State) (i : Inside) : Machine :=
  match i.phase with
  | .testInt =>
    if takesInterrupt k i.who i.src then finish (receiveInterrupt k i.who i.m)
    else ⟨k, some { i with phase := .testSender }, false⟩
  | .testSender =>
    match findSender k i.who i.src with
    | .error halted => ⟨halted.state, none, true⟩
    | .ok (some (from_, prev)) => finish (takeMessage k i.who from_ prev i.m)
    | .ok none => ⟨k, some { i with phase := .setReceiving }, false⟩
  | .setReceiving =>
    ⟨setReceiving k i.who i.src i.m, some { i with phase := .block }, false⟩
  | .block =>
    match block k i.who with
    | .error halted => ⟨halted.state, none, true⟩
    | .ok () => ⟨k, some { i with phase := .check }, false⟩
  | .check =>
    match assertReceiving k i.who with
    | .error halted => ⟨halted.state, none, true⟩
    | .ok () => ⟨k, none, false⟩

def proceedAll : Nat → Machine → Machine
  | 0, s => s
  | n + 1, s =>
    match s.inside with
    | none => s
    | some i => proceedAll n (proceed s.kernel i)

theorem proceedAll_inside (n : Nat) (k : State) (i : Inside) :
    proceedAll (n + 1) ⟨k, some i, false⟩ = proceedAll n (proceed k i) := rfl

theorem proceedAll_finish (n : Nat) (outcome : Except Halted State) :
    proceedAll n (finish outcome) = finish outcome := by
  cases n with
  | zero => rfl
  | succ n => cases outcome <;> rfl

-- Without interrupts in between, the steps make up `msg_receive()`.
theorem proceedAll_eq_msgReceive (k : State) {who src : Int} (m : Nat) (other : who ≠ src) :
    proceedAll 5 ⟨k, some ⟨who, src, m, .testInt⟩, false⟩ = finish (msgReceive k who src m) := by
  simp only [msgReceive, State.assertThat_of other, bind, Except.bind]
  rw [proceedAll_inside]
  by_cases takes : takesInterrupt k who src = true
  · simp only [proceed, takes, if_true]
    exact proceedAll_finish 4 _
  · have first : proceed k ⟨who, src, m, .testInt⟩ =
        ⟨k, some ⟨who, src, m, .testSender⟩, false⟩ := by
      simp only [proceed, takes]
      rfl
    rw [first, proceedAll_inside, if_neg takes]
    cases found : findSender k who src with
    | error halted =>
      simp only [proceed, found]
      exact proceedAll_finish 3 (.error halted)
    | ok sender =>
      cases sender with
      | some pair =>
        simp only [proceed, found]
        exact proceedAll_finish 3 _
      | none =>
        have second : proceed k ⟨who, src, m, .testSender⟩ =
            ⟨k, some ⟨who, src, m, .setReceiving⟩, false⟩ := by
          simp only [proceed, found]
        rw [second, proceedAll_inside]
        simp only [proceed, receiveLater, bind, Except.bind]
        rw [proceedAll_inside]
        cases stops : block (setReceiving k who src m) who with
        | error halted =>
          simp only [proceed, stops]
          exact proceedAll_finish 1 (.error halted)
        | ok u =>
          simp only [proceed, stops]
          rw [proceedAll_inside]
          cases checks : assertReceiving (setReceiving k who src m) who with
          | error halted =>
            simp only [proceed, checks]
            exact proceedAll_finish 0 (.error halted)
          | ok u' =>
            simp only [proceed, checks]
            exact proceedAll_finish 0 (.ok _)

inductive Move
  | send (caller dest : Int) (m : Nat)
  | enter (who src : Int) (m : Nat)
  | proceed
  | inform (taskNr : Int)
  | compute

-- What `sys_sendrec()` has done when it calls `msg_receive()`.
def stamped (k : State) (who : Int) (m : Nat) : State :=
  let la := linear (k.procTable who) m
  { k with mem := Function.update k.mem la { k.mem la with source := who } }

/--
The machine with interrupts enabled inside `msg_receive()`. There is one kernel stack in use at a
time, and a failed assertion ends the run.
-/
inductive MachineStep (s : Machine) : Move → Machine → Prop
  | send {k' : State} (caller dest : Int) (m : Nat) (running : s.failed = false)
      (outside : s.inside = none) (inTable : InTable caller)
      (runnable : (s.kernel.procTable caller).pFlags = .clear)
      (legal : InTable dest ∧ dest ≠ caller) (msg : m ≠ 0) (bound : m < 4294967296)
      (leaves : Leaves (sysSendrec s.kernel .send dest m caller) k') :
      MachineStep s (.send caller dest m) ⟨k', none, false⟩
  | enter (who src : Int) (m : Nat) (running : s.failed = false) (outside : s.inside = none)
      (inTable : InTable who) (runnable : (s.kernel.procTable who).pFlags = .clear)
      (legal : Legal who src) (msg : m ≠ 0) (bound : m < 4294967296) :
      MachineStep s (.enter who src m)
        ⟨stamped s.kernel who m, some ⟨who, src, m, .testInt⟩, false⟩
  | proceed (i : Inside) (running : s.failed = false) (inside : s.inside = some i) :
      MachineStep s .proceed (proceed s.kernel i)
  | inform {k' : State} (taskNr : Int) (running : s.failed = false)
      (device : taskNr = taskHd ∨ taskNr = taskTty)
        (leaves : Leaves (informInt s.kernel taskNr) k') :
      MachineStep s (.inform taskNr) ⟨k', s.inside, false⟩
  | compute (mem : Nat → Message) (running : s.failed = false) (outside : s.inside = none) :
      MachineStep s .compute ⟨{ s.kernel with mem := mem }, none, false⟩

def MachineBoots (s : Machine) : Prop := Boots s.kernel ∧ s.inside = none ∧ s.failed = false

def SenderReady (k : State) (who src : Int) : Prop :=
  src = any ∧ (k.procTable who).qSending ≠ none ∨
    InTable src ∧ (k.procTable src).pFlags.sending = true ∧ (k.procTable src).pSendto = who

/--
An interrupt does no harm to the process it is for when that process is not inside
`msg_receive()`, or has yet to test for it, or is about to find a sender; and a RECEIVE from one
process is begun with an interrupt pending only when that process is already sending.
-/
def Harmless (s : Machine) : Move → Prop
  | .enter who src _ => (s.kernel.procTable who).hasIntMsg = true →
      src = any ∨ src = interrupt ∨ SenderReady s.kernel who src
  | .inform taskNr => ∀ i, s.inside = some i → i.who = taskNr →
      i.phase = .testInt ∧ (i.src = any ∨ i.src = interrupt) ∨
        (i.phase = .testInt ∨ i.phase = .testSender) ∧ SenderReady s.kernel i.who i.src
  | _ => True

-- No assertion has failed, and nobody waits for an interrupt that has already come.
def Awake (s : Machine) : Prop :=
  s.failed = false ∧ ∀ p, InTable p → (s.kernel.procTable p).pFlags.receiving = true →
    ((s.kernel.procTable p).pRecvfrom = any ∨ (s.kernel.procTable p).pRecvfrom = interrupt) →
    (s.kernel.procTable p).hasIntMsg = false

def PhaseOk (a : Mail Int Nat Message) (i : Inside) : Prop :=
  match i.phase with
  | .testInt => a.status i.who = .idle ∧ (¬ (sourceOf i.src).AdmitsInt →
      a.pending i.who = true → ∃ s, Picks (a.queue i.who) (sourceOf i.src) s)
  | .testSender => a.status i.who = .idle ∧
      (a.pending i.who = true → ∃ s, Picks (a.queue i.who) (sourceOf i.src) s)
  | .setReceiving => a.status i.who = .idle ∧ a.pending i.who = false ∧
      ∀ s, ¬ Picks (a.queue i.who) (sourceOf i.src) s
  | _ => a.status i.who = .receiving (sourceOf i.src) i.m ∧ a.pending i.who = false

structure InsideOk (a : Mail Int Nat Message) (i : Inside) : Prop where
  legal : Legal i.who i.src
  msg : i.m ≠ 0
  bound : i.m < 4294967296
  phase : PhaseOk a i

structure Steady (s : Machine) (a : Mail Int Nat Message) : Prop where
  native : Native s.kernel a
  running : s.failed = false
  inside : ∀ i, s.inside = some i → InsideOk a i

theorem SenderReady.picks {k : State} {a : Mail Int Nat Message} (h : Native k a) {who src : Int}
    (inTable : InTable who) (ready : SenderReady k who src) :
    ∃ s, Picks (a.queue who) (sourceOf src) s := by
  rcases ready with ⟨rfl, nonempty⟩ | ⟨sender, sends⟩
  · have source : sourceOf any = .any := by simp only [sourceOf, if_true]
    rw [source]
    cases shape : a.queue who with
    | nil =>
      have chain := h.queues.chain who inTable
      rw [shape] at chain
      exact absurd chain nonempty
    | cons s rest => exact ⟨s, .first s rest rfl⟩
  · have queued := h.queued_iff.mpr ⟨sender, sends⟩
    exact Picks.exists queued ((sourceOf_admits sender).mpr (.inl rfl))

theorem Steady.awake {s : Machine} {a : Mail Int Nat Message} (h : Steady s a) : Awake s := by
  refine ⟨h.running, ?_⟩
  intro p inTable flag open_
  have takes := (sourceOf_admitsInt (s.kernel.procTable p).pRecvfrom).mpr open_.symm
  have quiet := h.native.wf.quiet p _ _ (h.native.receiving_of_flag inTable flag) takes
  rwa [(h.native.procs p inTable).pending] at quiet

theorem PhaseOk.informed {a a' : Mail Int Nat Message} {k : State} (h : Native k a) {i : Inside}
    {t : Int} (ok : PhaseOk a i) (informs : Informs format a t a')
    (harmless : i.who = t → i.phase = .testInt ∧ (i.src = any ∨ i.src = interrupt) ∨
      (i.phase = .testInt ∨ i.phase = .testSender) ∧ SenderReady k i.who i.src) :
    PhaseOk a' i := by
  by_cases other : i.who = t
  · rcases harmless other with ⟨phase, open_⟩ | ⟨phase, ready⟩
    · have takes := (sourceOf_admitsInt i.src).mpr open_.symm
      simp only [PhaseOk, phase] at ok ⊢
      rw [other] at ok ⊢
      exact ⟨(informs.working ok.1).1, fun closed => absurd takes closed⟩
    · rcases phase with phase | phase
      · simp only [PhaseOk, phase] at ok ⊢
        have picks := ready.picks h (h.idle_inTable ok.1)
        rw [other] at ok picks ⊢
        obtain ⟨idle, queue⟩ := informs.working ok.1
        rw [queue]
        exact ⟨idle, fun _ _ => picks⟩
      · simp only [PhaseOk, phase] at ok ⊢
        have picks := ready.picks h (h.idle_inTable ok.1)
        rw [other] at ok picks ⊢
        obtain ⟨idle, queue⟩ := informs.working ok.1
        rw [queue]
        exact ⟨idle, fun _ => picks⟩
  · obtain ⟨status, pending, queue⟩ := informs.others other
    unfold PhaseOk at ok ⊢
    rwa [status, pending, queue]

theorem finish_ok (k : State) : finish (.ok k) = ⟨k, none, false⟩ := rfl

theorem Steady.outside {k : State} {a : Mail Int Nat Message} (h : Native k a) :
    Steady ⟨k, none, false⟩ a :=
  ⟨h, rfl, fun i inside => by cases inside⟩

theorem Native.receives {k k' : State} {a a' : Mail Int Nat Message} (h : Native k a) {r : Int}
    {src : Source Int} {buf : Nat} (runs : a.status r = .idle)
    (receives : Receives format a r src buf a') (after : Represents Unused k' a') : Native k' a' :=
  ⟨after, fun p far => receives.absent_persists runs (h.forked p far)⟩

-- Each step of `msg_receive()` finds what the step before it has established.
theorem Steady.proceed {s : Machine} {a : Mail Int Nat Message} (h : Steady s a) {i : Inside}
    (inside : s.inside = some i) : ∃ a', Steady (proceed s.kernel i) a' := by
  have native := h.native
  obtain ⟨legal, msg, bound, phase⟩ := h.inside i inside
  obtain ⟨who, src, m, step⟩ := i
  have moved {step' : Phase} (ok : PhaseOk a ⟨who, src, m, step'⟩) :
      Steady ⟨s.kernel, some ⟨who, src, m, step'⟩, false⟩ a := by
    refine ⟨native, rfl, ?_⟩
    rintro i' same
    cases same
    exact ⟨legal, msg, bound, ok⟩
  cases step with
  | testInt =>
    obtain ⟨runs, ready⟩ := phase
    have inTable := native.idle_inTable runs
    by_cases takes : takesInterrupt s.kernel who src = true
    · have admits := (native.takesInterrupt_iff inTable).mp takes
      obtain ⟨k', a', received, receives, after⟩ :=
        native.receiveInterrupt runs msg bound admits.1 admits.2
      simp only [Kernel.proceed, takes, if_true, received, finish_ok]
      exact ⟨a', Steady.outside (native.receives runs receives after)⟩
    · simp only [Kernel.proceed, takes]
      refine ⟨a, moved ⟨runs, fun pending => ?_⟩⟩
      exact ready (fun admits => takes ((native.takesInterrupt_iff inTable).mpr ⟨pending, admits⟩))
        pending
  | testSender =>
    obtain ⟨runs, ready⟩ := phase
    rcases native.findSender runs legal with ⟨sender, front, rest, found, split, picks⟩ |
      ⟨found, nobody⟩
    · obtain ⟨sbuf, blocked⟩ := (native.wf.member who sender).mp picks.queued.1
      obtain ⟨k', taken, after⟩ := native.takeMessage runs split blocked msg bound
        ((native.wf.write _ _).take runs blocked)
      simp only [Kernel.proceed, found, taken, finish_ok]
      refine ⟨_, Steady.outside ⟨after, fun p far => ?_⟩⟩
      have absent := native.forked p far
      have other : p ≠ sender := by
        rintro rfl
        rw [blocked] at absent
        cases absent
      simpa [other] using absent
    · simp only [Kernel.proceed, found]
      refine ⟨a, moved ⟨runs, ?_, nobody⟩⟩
      cases noted : a.pending who with
      | false => rfl
      | true =>
        obtain ⟨sender, picks⟩ := ready noted
        exact absurd picks (nobody sender)
  | setReceiving =>
    obtain ⟨runs, quiet, nobody⟩ := phase
    have receives : Receives format _ who (sourceOf src) (linear (s.kernel.procTable who) m) _ :=
      .wait (fun pending => by rw [quiet] at pending; cases pending.1) nobody
    have waits := native.setReceiving runs legal msg bound (receives.wellFormed native.wf runs)
    have inTable := native.idle_inTable runs
    rw [native.flat inTable (by simp [runs]) bound] at receives waits
    refine ⟨_, native.receives runs receives waits, rfl, ?_⟩
    rintro i' same
    cases same
    exact ⟨legal, msg, bound, by simp, quiet⟩
  | block =>
    obtain ⟨waits, quiet⟩ := phase
    simp only [Kernel.proceed, (native.receiving_checks waits).1]
    exact ⟨a, moved ⟨waits, quiet⟩⟩
  | check =>
    obtain ⟨waits, quiet⟩ := phase
    have checked := (native.receiving_checks waits).2
    rw [quiet] at checked
    simp only [Kernel.proceed, checked]
    exact ⟨a, Steady.outside native⟩

theorem Steady.step {s s' : Machine} {a : Mail Int Nat Message} (h : Steady s a) {move : Move}
    (step : MachineStep s move s') (harmless : Harmless s move) : ∃ a', Steady s' a' := by
  have native := h.native
  cases step with
  | send caller dest m running outside inTable runnable legal msg bound leaves =>
    have call : Step s.kernel (.call caller .send dest m) _ :=
      .call caller .send dest m inTable runnable legal msg bound leaves
    obtain ⟨a', -, after⟩ := native.step call
    exact ⟨a', Steady.outside after⟩
  | enter who src m running outside inTable runnable legal msg bound =>
    have runs := native.runs inTable runnable
    have written := native.toRepresents.write (linear (s.kernel.procTable who) m)
      { s.kernel.mem (linear (s.kernel.procTable who) m) with source := who }
    refine ⟨_, ⟨written, native.forked⟩, rfl, ?_⟩
    rintro i same
    cases same
    refine ⟨legal, msg, bound, runs, fun closed pending => ?_⟩
    have noted : (s.kernel.procTable who).hasIntMsg = true := by
      rw [← pending]
      exact (native.procs who inTable).pending.symm
    rcases harmless noted with isAny | isInt | ready
    · exact absurd ((sourceOf_admitsInt src).mpr (.inr isAny)) closed
    · exact absurd ((sourceOf_admitsInt src).mpr (.inl isInt)) closed
    · exact ready.picks native inTable
  | proceed i running inside => exact h.proceed inside
  | inform taskNr running device leaves =>
    have inTable : InTable taskNr := by
      rcases device with rfl | rfl <;> decide
    obtain ⟨a', passes, after⟩ := native.step (Step.inform taskNr inTable leaves)
    cases passes with
    | inform _ informs =>
      refine ⟨a', after, rfl, fun i inside => ?_⟩
      obtain ⟨legal, msg, bound, phase⟩ := h.inside i inside
      exact ⟨legal, msg, bound, phase.informed native informs (harmless i inside)⟩
  | compute mem running outside =>
    obtain ⟨a', -, after⟩ := native.step (Step.compute mem)
    exact ⟨a', Steady.outside after⟩

/--
In a run in which every interrupt and every RECEIVE is harmless, nobody sleeps through an
interrupt and no assertion of `msg_receive()` fails.
-/
theorem no_lost_wakeup (run : Run MachineBoots MachineStep)
    (harmless : ∀ t, t < run.length → Harmless (run.state t) (run.act t)) :
    ∀ t, t ≤ run.length → Awake (run.state t) := by
  have steady : ∀ t, t ≤ run.length → ∃ a, Steady (run.state t) a := by
    intro t
    induction t with
    | zero =>
      intro _
      obtain ⟨⟨kBase, kLimit, mem, boot⟩, outside, running⟩ := run.start
      refine ⟨bootMail mem, ?_, running, fun i inside => ?_⟩
      · rw [boot]
        exact native_boots kBase kLimit mem
      · rw [outside] at inside
        cases inside
    | succ t ih =>
      intro within
      obtain ⟨a, h⟩ := ih (by omega)
      exact h.step (run.steps t within) (harmless t within)
  intro t within
  obtain ⟨a, h⟩ := steady t within
  exact h.awake

def bootMachine : Machine := ⟨bootState, none, false⟩

-- The disk task calls RECEIVE for an interrupt and takes the five steps to block in it.
def hdInside (phase : Phase) : Inside := ⟨taskHd, interrupt, 4096, phase⟩
def hdEntered : State := stamped bootState taskHd 4096
def hdBlocked : State := setReceiving hdEntered taskHd interrupt 4096

theorem hd_enters :
    MachineStep bootMachine (.enter taskHd interrupt 4096)
      ⟨hdEntered, some (hdInside .testInt), false⟩ :=
  .enter _ _ _ rfl rfl (by decide) (by decide) (.inr (.inr rfl)) (by decide) (by decide)

theorem hd_proceeds (k : State) (phase : Phase) (after : Machine)
    (proceeds : proceed k (hdInside phase) = after) :
    MachineStep ⟨k, some (hdInside phase), false⟩ .proceed after := by
  rw [← proceeds]
  exact .proceed (hdInside phase) rfl rfl

def sleepRun : Run MachineBoots MachineStep where
  length := 7
  state := fun t =>
    match t with
    | 0 => bootMachine
    | 1 => ⟨hdEntered, some (hdInside .testInt), false⟩
    | 2 => ⟨hdEntered, some (hdInside .testSender), false⟩
    | 3 => ⟨hdEntered, some (hdInside .setReceiving), false⟩
    | 4 => ⟨hdBlocked, some (hdInside .block), false⟩
    | 5 => ⟨hdBlocked, some (hdInside .check), false⟩
    | 6 => ⟨hdBlocked, none, false⟩
    | _ => ⟨resulting (informInt hdBlocked taskHd), none, false⟩
  act := fun t =>
    match t with
    | 0 => .enter taskHd interrupt 4096
    | 6 => .inform taskHd
    | _ => .proceed
  start := ⟨⟨0, 0, _, rfl⟩, rfl, rfl⟩
  steps := by
    intro t within
    match t, within with
    | 0, _ => exact hd_enters
    | 1, _ => exact hd_proceeds hdEntered .testInt _ rfl
    | 2, _ => exact hd_proceeds hdEntered .testSender _ rfl
    | 3, _ => exact hd_proceeds hdEntered .setReceiving _ rfl
    | 4, _ => exact hd_proceeds hdBlocked .block _ rfl
    | 5, _ => exact hd_proceeds hdBlocked .check _ rfl
    | 6, _ => exact .inform taskHd rfl (.inl rfl) (leaves_resulting (by decide))

theorem no_lost_wakeup_sleep : Awake (sleepRun.state 7) := by
  apply no_lost_wakeup sleepRun _ 7 (le_refl 7)
  intro t within
  match t, within with
  | 0, _ => exact fun _ => .inr (.inl rfl)
  | 1, _ => trivial
  | 2, _ => trivial
  | 3, _ => trivial
  | 4, _ => trivial
  | 5, _ => trivial
  | 6, _ => exact fun i inside => by cases inside

-- The interrupt comes between the test for it and the blocking: the disk task sleeps on.
def lostRun : Run MachineBoots MachineStep where
  length := 7
  state := fun t =>
    match t with
    | 0 => bootMachine
    | 1 => ⟨hdEntered, some (hdInside .testInt), false⟩
    | 2 => ⟨hdEntered, some (hdInside .testSender), false⟩
    | 3 => ⟨resulting (informInt hdEntered taskHd), some (hdInside .testSender), false⟩
    | 4 => ⟨resulting (informInt hdEntered taskHd), some (hdInside .setReceiving), false⟩
    | 5 => ⟨setReceiving (resulting (informInt hdEntered taskHd)) taskHd interrupt 4096,
        some (hdInside .block), false⟩
    | 6 => ⟨setReceiving (resulting (informInt hdEntered taskHd)) taskHd interrupt 4096,
        some (hdInside .check), false⟩
    | _ => ⟨setReceiving (resulting (informInt hdEntered taskHd)) taskHd interrupt 4096, none, true⟩
  act := fun t =>
    match t with
    | 0 => .enter taskHd interrupt 4096
    | 2 => .inform taskHd
    | _ => .proceed
  start := ⟨⟨0, 0, _, rfl⟩, rfl, rfl⟩
  steps := by
    intro t within
    match t, within with
    | 0, _ => exact hd_enters
    | 1, _ => exact hd_proceeds _ .testInt _ rfl
    | 2, _ => exact .inform taskHd rfl (.inl rfl) (leaves_resulting (by decide))
    | 3, _ => exact hd_proceeds _ .testSender _ rfl
    | 4, _ => exact hd_proceeds _ .setReceiving _ rfl
    | 5, _ => exact hd_proceeds _ .block _ rfl
    | 6, _ => exact hd_proceeds _ .check _ rfl

theorem lost_wakeup :
    (lostRun.state 7).failed = true ∧
      ((lostRun.state 7).kernel.procTable taskHd).pFlags.receiving = true ∧
      ((lostRun.state 7).kernel.procTable taskHd).pRecvfrom = interrupt ∧
      ((lostRun.state 7).kernel.procTable taskHd).hasIntMsg = true := by
  refine ⟨rfl, ?_, ?_, ?_⟩ <;> decide

end Konix.Kernel
