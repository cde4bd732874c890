import Konix.Servers.Thinking

set_option autoImplicit false

namespace Konix.Kernel

section Walk

variable {table : Int → Proc} {src : Int}

theorem deadlock_not_found (Above : Int → Prop)
    (closed : ∀ q, Above q → (table q).pFlags.sending = true →
      (table q).pSendto ≠ src ∧ Above (table q).pSendto) (fuel : Nat) (p : Int) (above : Above p) :
    deadlock table src fuel p ≠ some true := by
  induction fuel generalizing p with
  | zero => nofun
  | succ fuel ih =>
    unfold deadlock
    by_cases sending : (table p).pFlags.sending = true
    next =>
      obtain ⟨other, stays⟩ := closed p above sending
      simp only [sending, other, if_true, if_false]
      exact ih _ stays
    next =>
      simp only [sending]
      nofun

theorem deadlock_at_once {fuel : Nat} {p : Int} (sending : (table p).pFlags.sending = true)
    (target : (table p).pSendto = src) : deadlock table src (fuel + 1) p = some true := by
  simp only [deadlock, sending, target, if_true]

end Walk

-- A step of the kernel that may fail, but not with the DEADLOCK panic.
def NoPanic {α : Type} (result : Except Halted α) : Prop :=
  ∀ halted, result = .error halted → halted.why ≠ .deadlock

namespace NoPanic

variable {k : State} {α β : Type}

theorem ok (a : α) : NoPanic (.ok a : Except Halted α) := nofun

theorem bind {result : Except Halted α} {next : α → Except Halted β} (first : NoPanic result)
    (second : ∀ a, NoPanic (next a)) : NoPanic (result >>= next) := by
  cases result with
  | ok a => exact second a
  | error halted =>
    intro halted' fails
    cases fails
    exact first halted rfl

theorem assertThat (P : Prop) [Decidable P] : NoPanic (k.assertThat P) := by
  unfold State.assertThat
  split
  next => exact ok ()
  next =>
    intro halted fails
    cases fails
    exact nofun

theorem va2la (pid : Int) (va : Nat) : NoPanic (va2la k pid va) := by
  unfold Kernel.va2la
  simp only
  split
  next => exact bind (assertThat _) fun _ => ok _
  next => exact ok _

theorem enqueue (sender dest : Int) : NoPanic (enqueue k sender dest) := by
  unfold Kernel.enqueue
  cases head : (k.procTable dest).qSending with
  | none => exact ok _
  | some q =>
    cases found : Chain.lastFrom k.next loopFuel q with
    | none =>
      simp only [found]
      intro halted fails
      cases fails
      exact nofun
    | some last =>
      simp only [found]
      exact ok _

theorem assertIdle (p : Int) : NoPanic (assertIdle k p) :=
  bind (assertThat _) fun _ => bind (assertThat _) fun _ => bind (assertThat _) fun _ =>
    assertThat _

theorem sendNow (sender dest : Int) (m : Nat) : NoPanic (sendNow k sender dest m) :=
  bind (assertThat _) fun _ => bind (assertThat _) fun _ => bind (va2la _ _) fun _ =>
    bind (va2la _ _) fun _ => bind (assertThat _) fun _ => bind (assertIdle _) fun _ =>
      bind (assertIdle _) fun _ => ok _

theorem sendLater (sender dest : Int) (m : Nat) : NoPanic (sendLater k sender dest m) :=
  bind (assertThat _) fun _ => bind (enqueue _ _) fun _ => bind (assertThat _) fun _ =>
    bind (bind (assertThat _) fun _ => bind (assertThat _) fun _ => bind (assertThat _) fun _ =>
      assertThat _) fun _ => ok _

end NoPanic

theorem msgSend_panics_iff {k : State} {sender dest : Int} {m : Nat} (distinct : sender ≠ dest) :
    (∃ k', msgSend k sender dest m = .error ⟨.deadlock, k'⟩) ↔
      deadlock k.procTable sender loopFuel dest = some true := by
  have passes : k.assertThat (sender ≠ dest) = .ok () := State.assertThat_of distinct
  simp only [msgSend, passes, bind, Except.bind]
  constructor
  · rintro ⟨k', panics⟩
    cases found : deadlock k.procTable sender loopFuel dest with
    | none =>
      simp only [found] at panics
      cases panics
    | some cycle =>
      cases cycle with
      | true => rfl
      | false =>
        simp only [found] at panics
        split at panics
        next => exact absurd rfl (NoPanic.sendNow sender dest m _ panics)
        next => exact absurd rfl (NoPanic.sendLater sender dest m _ panics)
  · intro found
    simp only [found]
    exact ⟨k, rfl⟩

end Konix.Kernel

namespace Konix.Servers

open Kernel Runs

variable {s : System} {p d : Int} {m : Message}

-- FS has a request for TTY, and TTY has a RESUME_PROC for FS.
def FsAsks (s : System) : Prop := ∃ src type device cnt, s.fs = .tty src type device cnt

def TtyResumes (s : System) : Prop := ∃ device, s.tty = .resume device

/-- FS and TTY send to each other at the same time: one of them is blocked, `p` is the other one. -/
def Collides (s : System) (p : Int) : Prop :=
  FsAsks s ∧ TtyResumes s ∧
    (p = taskFs ∧ (s.kernel.wire taskTty).sending = true ∨
      p = taskTty ∧ (s.kernel.wire taskFs).sending = true)

-- Servers ask only servers of lower rank, but for TTY's RESUME_PROC.
def rank (p : Int) : Nat :=
  if p = taskSys then 0
  else if p = taskHd then 1
  else if p = taskTty ∨ p = taskFs then 2
  else if p = taskMm then 3
  else 4

theorem rank_user (isUser : IsUser p) : rank p = 4 := by
  obtain ⟨notTty, notSys, notHd, notFs, notMm⟩ := isUser
  simp only [rank, notTty, notSys, notHd, notFs, notMm, or_self, if_false]

theorem Safe.descends (safe : Safe s) (sends : s.call p = some (.send d m)) :
    rank d < rank p ∨ p = taskFs ∧ d = taskTty ∧ FsAsks s ∨
      p = taskTty ∧ d = taskFs ∧ TtyResumes s ∨ s.call d = some (.receive p) := by
  cases sends_of_call sends with
  | user p r isUser user =>
    refine .inl ?_
    rw [rank_user isUser]
    obtain ⟨server, -⟩ | ⟨server, -⟩ | ⟨server, -⟩ := r.valid <;> rw [server] <;> decide
  | disk client m fs => exact .inl (by decide)
  | tty src type device cnt fs => exact .inr (.inl ⟨rfl, rfl, src, type, device, cnt, fs⟩)
  | forkTell request child mm => exact .inl (by decide)
  | exitTell pid parentPid status mm => exact .inl (by decide)
  | tick src hd => exact .inl (by decide)
  | resume i tty => exact .inr (.inr (.inl ⟨rfl, safe.readers i (.inr tty), i, tty⟩))
  | answer p d m owes => exact .inr (.inr (.inr (safe.debts p d owes)))

/-- The processes that a SEND of `p` may come to when it does not collide. -/
def Below (s : System) (p q : Int) : Prop :=
  rank q < rank p ∨ (s.kernel.wire q).sending = false

theorem Safe.below_closed (safe : Safe s) (sends : s.call p = some (.send d m)) (q : Int)
    (below : Below s p q) (sending : (s.kernel.procTable q).pFlags.sending = true) :
    (s.kernel.procTable q).pSendto ≠ p ∧ Below s p (s.kernel.procTable q).pSendto := by
  have waits : (s.kernel.wire q).sending = true := sending
  obtain ⟨m', sends'⟩ := safe.sending q waits
  have lower : rank q < rank p := by
    rcases below with lower | idle
    · exact lower
    · rw [idle] at waits
      cases waits
  have notHigher (le : rank (s.kernel.wire q).sendTo ≤ rank q) :
      (s.kernel.wire q).sendTo ≠ p ∧ Below s p (s.kernel.wire q).sendTo := by
    refine ⟨?_, .inl (by omega)⟩
    intro same
    rw [same] at le
    omega
  show (s.kernel.wire q).sendTo ≠ p ∧ Below s p (s.kernel.wire q).sendTo
  obtain less | ⟨isFs, isTty, -⟩ | ⟨isTty, isFs, -⟩ | answers := safe.descends sends'
  · exact notHigher (by omega)
  · refine notHigher ?_
    rw [isTty, isFs]
    decide
  · refine notHigher ?_
    rw [isFs, isTty]
    decide
  · refine ⟨?_, .inr (safe.toWired.not_sending answers)⟩
    intro same
    rw [same, sends] at answers
    cases answers

theorem Safe.no_cycle (safe : Safe s) (sends : s.call p = some (.send d m)) (below : Below s p d) :
    deadlock s.kernel.procTable p loopFuel d ≠ some true :=
  deadlock_not_found (Below s p) (safe.below_closed sends) loopFuel d below

-- FS and TTY: a cycle is found at the first step, or there is none.
theorem Safe.peer_cycle (safe : Safe s) (sends : s.call p = some (.send d m))
    (peers : p = taskFs ∧ d = taskTty ∨ p = taskTty ∧ d = taskFs) :
    deadlock s.kernel.procTable p loopFuel d = some true ↔
      (s.kernel.wire d).sending = true ∧ (s.kernel.wire d).sendTo = p := by
  constructor
  · intro found
    by_contra notBack
    by_cases sending : (s.kernel.wire d).sending = true
    next =>
      have other : (s.kernel.wire d).sendTo ≠ p := fun same => notBack ⟨sending, same⟩
      obtain ⟨m', sends'⟩ := safe.sending d sending
      have equal : rank d = rank p := by
        obtain ⟨rfl, rfl⟩ | ⟨rfl, rfl⟩ := peers <;> rfl
      have below : Below s p (s.kernel.wire d).sendTo := by
        obtain less | ⟨isFs, isTty, -⟩ | ⟨isTty, isFs, -⟩ | answers := safe.descends sends'
        · rw [equal] at less
          exact .inl less
        · rcases peers with ⟨-, same⟩ | ⟨same, -⟩
          · exact absurd (isFs.symm.trans same) (by decide)
          · exact absurd (isTty.trans same.symm) other
        · rcases peers with ⟨same, -⟩ | ⟨-, same⟩
          · exact absurd (isFs.trans same.symm) other
          · exact absurd (isTty.symm.trans same) (by decide)
        · exact .inr (safe.toWired.not_sending answers)
      have step : deadlock s.kernel.procTable p loopFuel d =
          deadlock s.kernel.procTable p (nrTasks + nrProcs) (s.kernel.wire d).sendTo := by
        have flag : (s.kernel.procTable d).pFlags.sending = true := sending
        have target : (s.kernel.procTable d).pSendto ≠ p := other
        rw [loopFuel, deadlock]
        simp only [flag, target, if_true, if_false]
        rfl
      rw [step] at found
      exact deadlock_not_found (Below s p) (safe.below_closed sends) _ _ below found
    next => exact safe.no_cycle sends (.inr (Bool.eq_false_iff.mpr sending)) found
  · rintro ⟨sending, target⟩
    exact deadlock_at_once sending target

theorem FsAsks.sends (asks : FsAsks s) : ∃ m, s.call taskFs = some (.send taskTty m) := by
  obtain ⟨src, type, device, cnt, fs⟩ := asks
  rw [call_fs, fs]
  exact ⟨_, rfl⟩

theorem Safe.resume_sends (safe : Safe s) (resumes : TtyResumes s) :
    ∃ m, s.call taskTty = some (.send taskFs m) := by
  obtain ⟨device, tty⟩ := resumes
  have caller := safe.readers device (.inr tty)
  rw [call_tty, tty]
  simp only [Tty.call, caller]
  exact ⟨_, rfl⟩

theorem Safe.collides_peers (safe : Safe s) (sends : s.call p = some (.send d m))
    (collides : Collides s p) : p = taskFs ∧ d = taskTty ∨ p = taskTty ∧ d = taskFs := by
  obtain ⟨asks, resumes, ⟨rfl, -⟩ | ⟨rfl, -⟩⟩ := collides
  · obtain ⟨m', sends'⟩ := asks.sends
    rw [sends] at sends'
    cases sends'
    exact .inl ⟨rfl, rfl⟩
  · obtain ⟨m', sends'⟩ := safe.resume_sends resumes
    rw [sends] at sends'
    cases sends'
    exact .inr ⟨rfl, rfl⟩

theorem Safe.not_collides (safe : Safe s) (sends : s.call p = some (.send d m))
    (free : rank d < rank p ∨ s.call d = some (.receive p)) : ¬ Collides s p := by
  intro collides
  obtain ⟨m', fsSends⟩ := collides.1.sends
  obtain ⟨m'', ttySends⟩ := safe.resume_sends collides.2.1
  obtain ⟨rfl, rfl⟩ | ⟨rfl, rfl⟩ := safe.collides_peers sends collides
  · rcases free with lower | waits
    · exact absurd lower (by decide)
    · rw [ttySends] at waits
      cases waits
  · rcases free with lower | waits
    · exact absurd lower (by decide)
    · rw [fsSends] at waits
      cases waits

theorem Safe.sendTo (safe : Safe s) (sending : (s.kernel.wire p).sending = true)
    (sends : s.call p = some (.send d m)) : (s.kernel.wire p).sendTo = d := by
  obtain ⟨m', sends'⟩ := safe.sending p sending
  rw [sends] at sends'
  cases sends'
  rfl

theorem Safe.cycle_iff (safe : Safe s) (sends : s.call p = some (.send d m)) :
    deadlock s.kernel.procTable p loopFuel d = some true ↔ Collides s p := by
  have noCycle (below : Below s p d)
      (free : rank d < rank p ∨ s.call d = some (.receive p)) :
      deadlock s.kernel.procTable p loopFuel d = some true ↔ Collides s p := by
    constructor
    · exact fun found => absurd found (safe.no_cycle sends below)
    · exact fun collides => absurd collides (safe.not_collides sends free)
  obtain less | ⟨rfl, rfl, asks⟩ | ⟨rfl, rfl, resumes⟩ | answers := safe.descends sends
  · exact noCycle (.inl less) (.inl less)
  · rw [safe.peer_cycle sends (.inl ⟨rfl, rfl⟩)]
    constructor
    · rintro ⟨sending, target⟩
      obtain ⟨m', sends'⟩ := safe.sending taskTty sending
      rw [target] at sends'
      obtain lower | ⟨same, -⟩ | ⟨-, -, resumes⟩ | waits := safe.descends sends'
      · exact absurd lower (by decide)
      · cases same
      · exact ⟨asks, resumes, .inl ⟨rfl, sending⟩⟩
      · rw [sends] at waits
        cases waits
    · rintro ⟨-, resumes, ⟨-, sending⟩ | ⟨same, -⟩⟩
      · obtain ⟨m', sends'⟩ := safe.resume_sends resumes
        exact ⟨sending, safe.sendTo sending sends'⟩
      · cases same
  · rw [safe.peer_cycle sends (.inr ⟨rfl, rfl⟩)]
    constructor
    · rintro ⟨sending, target⟩
      obtain ⟨m', sends'⟩ := safe.sending taskFs sending
      rw [target] at sends'
      obtain lower | ⟨-, -, asks⟩ | ⟨same, -⟩ | waits := safe.descends sends'
      · exact absurd lower (by decide)
      · exact ⟨asks, resumes, .inr ⟨rfl, sending⟩⟩
      · cases same
      · rw [sends] at waits
        cases waits
    · rintro ⟨asks, -, ⟨same, -⟩ | ⟨-, sending⟩⟩
      · cases same
      · obtain ⟨m', sends'⟩ := asks.sends
        exact ⟨sending, safe.sendTo sending sends'⟩
  · exact noCycle (.inr (safe.toWired.not_sending answers)) (.inr answers)

theorem Safe.not_self (safe : Safe s) (sends : s.call p = some (.send d m)) : p ≠ d := by
  rintro rfl
  obtain less | ⟨rfl, same, -⟩ | ⟨rfl, same, -⟩ | answers := safe.descends sends
  · omega
  · cases same
  · cases same
  · rw [sends] at answers
    cases answers

/--
In every reachable state a SEND ends in the DEADLOCK panic exactly if FS and TTY send to each other.
-/
theorem deadlock_iff_collides (run : Run Starts Step) {t : Nat} (within : t ≤ run.length)
    {p d : Int} {m : Message} (sends : (run.state t).call p = some (.send d m)) (buf : Nat) :
    (deadlock (run.state t).kernel.procTable p loopFuel d = some true ↔
        Collides (run.state t) p) ∧
      ((∃ k', msgSend (run.state t).kernel p d buf = .error ⟨.deadlock, k'⟩) ↔
        Collides (run.state t) p) := by
  have safe := safe_run run within
  have cycle := safe.cycle_iff sends
  exact ⟨cycle, (msgSend_panics_iff (safe.not_self sends)).trans cycle⟩

section Race

def askRead : Request := ask taskFs .read (.inl ⟨rfl, by decide⟩)
def askWrite : Request := ask taskFs .write (.inl ⟨rfl, by decide⟩)

-- INIT reads from a terminal. While TTY sends the RESUME_PROC for it, another process writes.
def race : Nat → System
  | 0 => boots
  | 1 => { race 0 with tty := .main }
  | 2 => blocks (race 1) .receive any 4096 taskTty
  | 3 => { race 2 with fs := .main }
  | 4 => blocks (race 3) .receive any 8192 taskFs
  | 5 => { race 4 with user := Function.update (race 4).user initPid (.request askRead) }
  | 6 => delivers (race 5) initPid taskFs askRead.m 12288
  | 7 => { race 6 with fs := .tty initPid .read 0 10 }
  | 8 => delivers (race 7) taskFs taskTty (ttyMsg initPid .read 0 10) 8192
  | 9 => blocks (race 8) .receive taskTty 8192 taskFs
  | 10 => delivers (race 9) taskTty taskFs
      { ttyMsg initPid .read 0 10 with source := taskFs, type := .suspendProc } 4096
  | 11 => blocks (race 10) .receive any 8192 taskFs
  | 12 => { race 11 with user := Function.update (race 11).user 6 (.request askWrite) }
  | 13 => delivers (race 12) 6 taskFs askWrite.m 16384
  | 14 => { race 13 with
      lines := Function.update (race 13).lines 0 (((race 13).lines 0).put .newline)
      tty := .resume 0 }
  | 15 => blocks (race 14) .send taskFs 4096 taskTty
  | t + 1 => { race t with fs := .tty 6 .write 0 1 }

def raceEvents : Nat → Event
  | 0 => .think taskTty
  | 1 => .receive taskTty
  | 2 => .think taskFs
  | 3 => .receive taskFs
  | 4 => .think initPid
  | 5 => .send initPid
  | 6 => .think taskFs
  | 7 => .send taskFs
  | 8 => .receive taskFs
  | 9 => .send taskTty
  | 10 => .receive taskFs
  | 11 => .think 6
  | 12 => .send 6
  | 13 => .think taskTty
  | 14 => .send taskTty
  | _ => .think taskFs

def raceRun : Run Starts Step where
  length := 16
  state := race
  act := raceEvents
  start := boots_starts
  steps := by
    intro t inside
    match t, inside with
    | 0, _ => exact .think _ (by decide) (.ttyMain rfl)
    | 1, _ => exact receive_blocks (by decide) rfl (by decide)
    | 2, _ => exact .think _ (by decide) (.fsInitDone rfl)
    | 3, _ => exact receive_blocks (by decide) rfl (by decide)
    | 4, _ => exact .think _ (by decide) (.user _ _ (by decide) rfl)
    | 5, _ => exact send_delivers (by decide) rfl (by decide)
    | 6, _ => exact .think _ (by decide) (.fsTty initPid .read 0 10 rfl (by decide))
    | 7, _ => exact send_delivers (by decide) rfl (by decide)
    | 8, _ => exact receive_blocks (by decide) rfl (by decide)
    | 9, _ => exact send_delivers (by decide) rfl (by decide)
    | 10, _ => exact receive_blocks (by decide) rfl (by decide)
    | 11, _ => exact .think _ (by decide) (.user _ _ (by decide) rfl)
    | 12, _ => exact send_delivers (by decide) rfl (by decide)
    | 13, _ => exact .think _ (by decide) (.ttyKey 0 .newline rfl)
    | 14, _ =>
      exact .sendWaits _ taskFs _ 4096 (by decide) (by decide) rfl (afterCall_ok (by decide))
        (by decide)
    | 15, _ => exact .think _ (by decide) (.fsTty 6 .write 0 1 rfl (by decide))
    | t + 16, inside => exact absurd inside (by omega)

set_option maxRecDepth 4096 in
theorem race_collides : Collides (raceRun.state 16) taskFs := by
  have blocked : ((raceRun.state 16).kernel.wire taskTty).sending = true := by decide +kernel
  exact ⟨⟨6, .write, 0, 1, rfl⟩, ⟨0, rfl⟩, .inl ⟨rfl, blocked⟩⟩

theorem deadlock_iff_collides_race :
    Collides (raceRun.state 16) taskFs ∧
    ∃ k', msgSend (raceRun.state 16).kernel taskFs taskTty 8192 = .error ⟨.deadlock, k'⟩ := by
  obtain ⟨m, sends⟩ := race_collides.1.sends
  have within : 16 ≤ raceRun.length := Nat.le_refl 16
  have panics := (deadlock_iff_collides raceRun within sends 8192).2
  exact ⟨race_collides, panics.mpr race_collides⟩

set_option maxRecDepth 4096 in
-- FS and TTY stop the kernel although every process has only used the library.
theorem deadlock_reached : ∃ run : Run Starts Step, ∃ p d m,
    (run.state run.length).call p = some (.send d m) ∧
      ((run.state run.length).kernel.procTable p).pFlags = .clear ∧
      deadlock (run.state run.length).kernel.procTable p loopFuel d = some true := by
  obtain ⟨m, sends⟩ := race_collides.1.sends
  exact ⟨raceRun, taskFs, taskTty, m, sends, by decide +kernel, by decide +kernel⟩

end Race

end Konix.Servers
