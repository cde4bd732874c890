import Konix.Servers.Deadlock

set_option autoImplicit false

namespace Konix.Servers

open Kernel Runs

-- FS has been told that the READ of `reader` waits for input, FS has answered `reader`, and TTY has
-- passed on the input that `reader` waits for.
def Suspends (s t : System) (reader : Int) : Prop := s.fs = .ttyWait reader .read ∧ t.fs = .main

def Replies (s t : System) (reader : Int) : Prop := (∃ m, s.fs = .reply reader m) ∧ t.fs = .main

def Resumes (s t : System) (reader : Int) : Prop :=
  ∃ i, s.tty = .resume i ∧ (s.lines i).procnr = reader ∧ t.tty = .poll

def Suspended (run : Run Starts Step) (n : Nat) (reader : Int) : Prop :=
  ∃ i, i < n ∧ Suspends (run.state i) (run.state (i + 1)) reader ∧
    ∀ j, i < j → j < n → ¬ Replies (run.state j) (run.state (j + 1)) reader

/-- A line has the request of `reader`, or its RESUME_PROC is on its way or becomes the reply. -/
def Attended (s : System) (reader : Int) : Prop :=
  (∃ i, (s.lines i).procnr = reader ∧ 0 < (s.lines i).leftCnt) ∨
    (∃ i, s.tty = .resume i ∧ (s.lines i).procnr = reader) ∨ ∃ m, s.fs = .reply reader m

/-- A DEV_READ that reaches TTY asks for a character of a line that nobody else waits for. -/
def Orderly (s t : System) : Prop :=
  ∀ reader device cnt, s.fs = .tty reader .read device cnt → t.fs = .ttyWait reader .read →
    (s.lines device).leftCnt = 0 ∧ 0 < cnt

section Steps

variable {s t : System} {p d src reader : Int} {m : Message}

theorem ttyGot_lines (i : Int) (free : s.tty = .main → m.type = .devRead → i ≠ m.device) :
    (s.ttyGot m).lines i = s.lines i := by
  cases tty : s.tty with
  | main =>
    cases type : m.type with
    | devRead =>
      simp only [System.ttyGot, tty, type]
      exact Function.update_of_ne (free tty type) _ _
    | _ => simp only [System.ttyGot, tty, type]
  | _ => simp only [System.ttyGot, tty]

theorem ttySent_lines (i : Int) (other : s.tty ≠ .resume i) :
    (s.ttySent).lines i = s.lines i := by
  cases tty : s.tty with
  | resume device =>
    simp only [System.ttySent, tty]
    refine Function.update_of_ne ?_ _ _
    rintro rfl
    exact other tty
  | _ => simp only [System.ttySent, tty]

theorem transfer_tty (distinct : d ≠ p) :
    d = taskTty ∧ p ≠ taskTty ∧ (s.transfer p d m).tty = (s.ttyGot { m with source := p }).tty ∧
        (s.transfer p d m).lines = (s.ttyGot { m with source := p }).lines ∨
      p = taskTty ∧ (s.transfer p d m).tty = .poll ∧ (s.transfer p d m).lines = s.ttySent.lines ∨
      d ≠ taskTty ∧ p ≠ taskTty ∧ (s.transfer p d m).tty = s.tty ∧
        (s.transfer p d m).lines = s.lines := by
  unfold System.transfer
  by_cases receiver : d = taskTty
  · subst receiver
    obtain ⟨tty, lines⟩ := sent_tty_other s distinct.symm
    refine .inl ⟨rfl, distinct.symm, ?_, ?_⟩
    · exact congrArg (Tty.got _) tty
    · show (System.ttyGot _ _).lines = _
      unfold System.ttyGot
      simp only [tty, lines]
  · obtain ⟨tty, lines⟩ := got_tty_other (s.sent p) { m with source := p } receiver
    rw [tty, lines]
    by_cases sender : p = taskTty
    · subst sender
      exact .inr (.inl ⟨rfl, rfl, rfl⟩)
    · exact .inr (.inr ⟨receiver, sender, sent_tty_other s sender⟩)

theorem Custody.resumed (h : Custody s) {i : Int} (tty : s.tty = .resume i)
    (sends : s.call taskTty = some (.send d m)) (waits : s.call d = some (.receive src))
    (admits : src = taskTty ∨ src = any) :
    s.fs = .main ∧ ∃ m', (s.transfer taskTty d m).fs = .reply (s.lines i).procnr m' := by
  have caller := h.readers i (.inr tty)
  rw [call_tty, tty] at sends
  simp only [Tty.call, caller, Option.some.injEq, Call.send.injEq] at sends
  obtain ⟨rfl, rfl⟩ := sends
  have main : s.fs = .main := by
    obtain ⟨-, main⟩ | ⟨isHd, -⟩ | ⟨-, reader, type, asks⟩ := fs_awaits waits
    · exact main
    · rw [isHd] at admits
      rcases admits with same | same <;> cases same
    · obtain ⟨m', answers⟩ := h.asked reader type asks
      rw [tty] at answers
      cases answers
  refine ⟨main, ?_⟩
  obtain ⟨-, fs⟩ | ⟨same, -⟩ | ⟨other, -⟩ := transfer_fs (s := s) (d := taskFs) (p := taskTty)
    (m := { resetMsg with
      type := .resumeProc, m3i3 := (s.lines i).procnr, m3i2 := (s.lines i).transCnt }) (by decide)
  · rw [fs, main]
    exact ⟨_, rfl⟩
  · cases same
  · exact absurd rfl other

theorem Attended.message (h : Attended s reader) (custody : Custody s)
    (sends : s.call p = some (.send d m)) (waits : s.call d = some (.receive src))
    (admits : src = p ∨ src = any) (orderly : Orderly s (s.transfer p d m))
    (unanswered : ¬ Replies s (s.transfer p d m) reader) : Attended (s.transfer p d m) reader := by
  have distinct := distinct_of_calls sends waits
  rcases h with ⟨i, isReader, left⟩ | ⟨i, tty, isReader⟩ | ⟨m', fs⟩
  · by_cases resumed : p = taskTty ∧ s.tty = .resume i
    · obtain ⟨rfl, tty⟩ := resumed
      obtain ⟨-, m', reply⟩ := custody.resumed tty sends waits admits
      rw [isReader] at reply
      exact .inr (.inr ⟨m', reply⟩)
    · have line : (s.transfer p d m).lines i = s.lines i := by
        obtain ⟨rfl, -, -, lines⟩ | ⟨rfl, -, lines⟩ | ⟨-, -, -, lines⟩ :=
          transfer_tty (s := s) (m := m) distinct
        · rw [lines]
          refine ttyGot_lines i ?_
          rintro main type rfl
          obtain ⟨rfl, reader', device, cnt, fs, rfl⟩ := custody.read_request sends main type
          have asks : (s.transfer taskFs taskTty (ttyMsg reader' .read device cnt)).fs =
              .ttyWait reader' .read := by
            obtain ⟨same, -⟩ | ⟨-, sent⟩ | ⟨-, other, -⟩ := transfer_fs (s := s)
              (m := ttyMsg reader' .read device cnt) distinct
            · cases same
            · rw [sent, fs]
              rfl
            · exact absurd rfl other
          have isDevice : (s.lines device).leftCnt = 0 := (orderly _ _ _ fs asks).1
          have pending : 0 < (s.lines device).leftCnt := left
          omega
        · rw [lines]
          exact ttySent_lines i fun tty => resumed ⟨rfl, tty⟩
        · rw [lines]
      exact .inl ⟨i, by rw [line]; exact isReader, by rw [line]; exact left⟩
  · obtain ⟨rfl, -, -, -⟩ | ⟨rfl, -, -⟩ | ⟨-, -, tty', lines⟩ :=
      transfer_tty (s := s) (m := m) distinct
    · rw [call_tty, tty] at waits
      cases waits
    · obtain ⟨-, m', reply⟩ := custody.resumed tty sends waits admits
      rw [isReader] at reply
      exact .inr (.inr ⟨m', reply⟩)
    · exact .inr (.inl ⟨i, tty'.trans tty, by rw [lines]; exact isReader⟩)
  · obtain ⟨rfl, -⟩ | ⟨rfl, sent⟩ | ⟨-, -, same⟩ := transfer_fs (s := s) (m := m) distinct
    · rw [call_fs, fs] at waits
      cases waits
    · refine absurd ⟨⟨m', fs⟩, ?_⟩ unanswered
      rw [sent, fs]
      rfl
    · exact .inr (.inr ⟨m', same.trans fs⟩)

theorem Attended.interrupt (h : Attended s reader) (waits : s.call d = some (.receive src)) :
    Attended (s.got d interruptMsg) reader := by
  by_cases isTty : d = taskTty
  next =>
    subst isTty
    have lines (i : Int) : (s.got taskTty interruptMsg).lines i = s.lines i :=
      ttyGot_lines i fun _ => nofun
    rcases h with ⟨i, isReader, left⟩ | ⟨i, tty, -⟩ | ⟨m', fs⟩
    · exact .inl ⟨i, by rw [lines]; exact isReader, by rw [lines]; exact left⟩
    · rw [call_tty, tty] at waits
      cases waits
    · exact .inr (.inr ⟨m', fs⟩)
  next =>
    obtain ⟨tty, lines⟩ := got_tty_other s interruptMsg isTty
    rcases h with ⟨i, isReader, left⟩ | ⟨i, tty', isReader⟩ | ⟨m', fs⟩
    · exact .inl ⟨i, by rw [lines]; exact isReader, by rw [lines]; exact left⟩
    · exact .inr (.inl ⟨i, tty.trans tty', by rw [lines]; exact isReader⟩)
    · refine .inr (.inr ⟨m', ?_⟩)
      rw [got_fs_other]
      · exact fs
      · rintro rfl
        rw [call_fs, fs] at waits
        cases waits

theorem Attended.same (h : Attended s reader) (fs : t.fs = s.fs) (tty : t.tty = s.tty)
    (lines : t.lines = s.lines) : Attended t reader := by
  unfold Attended
  rw [fs, tty, lines]
  exact h

theorem Line.put_pending {line : Line} (key : Key) (left : 0 < line.leftCnt) :
    line.ends key = true ∨ 0 < (line.put key).leftCnt := by
  have active : line.leftCnt ≠ 0 := by omega
  unfold Line.ends
  cases key with
  | printable =>
    simp only [Line.put, active, if_false, decide_eq_true_eq]
    by_cases last : line.leftCnt - 1 = 0
    · exact .inl ⟨active, .inr last⟩
    · exact .inr (by omega)
  | newline => exact .inl (by simp [active])
  | backspace =>
    refine .inr ?_
    simp only [Line.put, active, if_false]
    split
    next => exact Int.lt_add_one_of_le (by omega)
    next => exact left
  | other =>
    refine .inr ?_
    simp only [Line.put, active, if_false]
    exact left

theorem Attended.key (h : Attended s reader) (polls : s.tty = .poll) (device : Int) (key : Key) :
    Attended { s with
      lines := Function.update s.lines device ((s.lines device).put key)
      tty := if (s.lines device).ends key then .resume device else .poll } reader := by
  rcases h with ⟨i, isReader, left⟩ | ⟨i, tty, -⟩ | ⟨m', fs⟩
  · by_cases same : i = device
    · subst same
      rcases Line.put_pending key left with ends | left'
      · refine .inr (.inl ⟨i, by simp only [ends, if_true], ?_⟩)
        simp only [Function.update_self]
        exact ((s.lines i).put_caller key).2.trans isReader
      · refine .inl ⟨i, ?_, ?_⟩
        · simp only [Function.update_self]
          exact ((s.lines i).put_caller key).2.trans isReader
        · simp only [Function.update_self]
          exact left'
    · refine .inl ⟨i, ?_, ?_⟩
      · simp only [Function.update_of_ne same]
        exact isReader
      · simp only [Function.update_of_ne same]
        exact left
  · rw [polls] at tty
    cases tty
  · exact .inr (.inr ⟨m', fs⟩)

theorem Attended.think (h : Attended s reader) (thinks : Thinks s p t) : Attended t reader := by
  have lines (fs : Fs) (idle : s.fs.call = none) : Attended { s with fs := fs } reader := by
    rcases h with line | resumes | ⟨m', reply⟩
    · exact .inl line
    · exact .inr (.inl resumes)
    · rw [reply] at idle
      cases idle
  cases thinks with
  | user p r above running => exact h.same rfl rfl rfl
  | fsInitDisk m isDisk init => exact lines _ (by rw [init]; rfl)
  | fsInitDone init => exact lines _ (by rw [init]; rfl)
  | fsDisk src type m isDisk works uses => exact lines _ (by rw [works]; rfl)
  | fsTty src type device cnt works uses => exact lines _ (by rw [works]; rfl)
  | fsReply src type m works => exact lines _ (by rw [works]; rfl)
  | mm memorySize thinks =>
    obtain ⟨fs, tty, lines⟩ := (mmThinks_of thinks).frame
    exact h.same fs tty lines
  | hdTick src works => exact h.same rfl rfl rfl
  | hdIntr src works => exact h.same rfl rfl rfl
  | hdReply src m works => exact h.same rfl rfl rfl
  | ttyMain polls =>
    rcases h with line | ⟨i, tty, -⟩ | reply
    · exact .inl line
    · rw [polls] at tty
      cases tty
    · exact .inr (.inr reply)
  | ttyKey device key polls => exact h.key polls device key

theorem Attended.step (h : Attended s reader) (safe : Safe s) {event : Event}
    (step : Step s event t) (orderly : Orderly s t) (unanswered : ¬ Replies s t reader) :
    Attended t reader := by
  cases safe.moves step with
  | message k' keeps p d src m sends waits admits after =>
    subst after
    have h' : Attended { s with kernel := k' } reader := h
    exact h'.message (safe.toCustody.kernel k') sends waits admits orderly unanswered
  | interrupt k' keeps d src waits admits after =>
    subst after
    have h' : Attended { s with kernel := k' } reader := h
    exact h'.interrupt waits
  | think p runs thinks => exact h.think thinks
  | quiet k' keeps ticks after =>
    subst after
    exact h.same rfl rfl rfl

def Told (s : System) : Prop :=
  ∀ reader, s.fs = .ttyWait reader .read →
    ∃ i, (s.lines i).procnr = reader ∧ 0 < (s.lines i).leftCnt

theorem Custody.lines_asked (h : Custody s) {type : MsgType} (asks : s.fs = .ttyWait reader type)
    (moves : Moves s t) : t.lines = s.lines := by
  obtain ⟨m', answers⟩ := h.asked reader type asks
  have idle : s.call taskTty = some (.send taskFs m') := by
    rw [call_tty, answers]
    rfl
  cases moves with
  | message k' keeps p d src m sends waits admits after =>
    subst after
    have distinct := distinct_of_calls sends waits
    obtain ⟨rfl, -⟩ | ⟨rfl, -, lines⟩ | ⟨-, -, -, lines⟩ :=
      transfer_tty (s := { s with kernel := k' }) (m := m) distinct
    · rw [idle] at waits
      cases waits
    · rw [lines]
      funext i
      refine ttySent_lines i ?_
      show s.tty ≠ .resume i
      rw [answers]
      exact nofun
    · exact lines
  | interrupt k' keeps d src waits admits after =>
    subst after
    refine (got_tty_other _ interruptMsg ?_).2
    rintro rfl
    rw [idle] at waits
    cases waits
  | think p runs thinks =>
    cases thinks with
    | mm memorySize thinks => exact (mmThinks_of thinks).frame.2.2
    | ttyMain polls => rfl
    | ttyKey device key polls =>
      rw [answers] at polls
      cases polls
    | _ => rfl
  | quiet k' keeps ticks after =>
    subst after
    rfl

theorem Fs.sent_asks {fs : Fs} {type : MsgType} (asks : fs.sent = .ttyWait reader type) :
    fs = .ttyWait reader type ∨ ∃ device cnt, fs = .tty reader type device cnt := by
  cases fs with
  | tty src type' device cnt =>
    cases asks
    exact .inr ⟨device, cnt, rfl⟩
  | ttyWait src type' =>
    cases asks
    exact .inl rfl
  | _ => cases asks

theorem told_now {device cnt : Int} (fs : s.fs = .tty reader .read device cnt)
    (sends : s.call taskFs = some (.send d m)) (waits : s.call d = some (.receive src))
    (some_ : 0 < cnt) : ∃ i, ((s.transfer taskFs d m).lines i).procnr = reader ∧
      0 < ((s.transfer taskFs d m).lines i).leftCnt := by
  rw [call_fs, fs] at sends
  cases sends
  have main : s.tty = .main := by
    rw [call_tty] at waits
    cases tty : s.tty with
    | main => rfl
    | _ =>
      rw [tty] at waits
      cases waits
  have line : (s.transfer taskFs taskTty (ttyMsg reader .read device cnt)).lines device =
      ⟨taskFs, reader, cnt, 0⟩ := by
    obtain ⟨-, -, -, lines⟩ | ⟨same, -⟩ | ⟨other, -⟩ := transfer_tty (s := s) (d := taskTty)
      (p := taskFs) (m := ttyMsg reader .read device cnt) (by decide)
    · rw [lines]
      simp only [System.ttyGot, main, ttyMsg]
      exact Function.update_self ..
    · cases same
    · exact absurd rfl other
  exact ⟨device, by rw [line], by rw [line]; exact some_⟩

theorem Told.step (told : Told s) (custody : Custody s) (moves : Moves s t)
    (orderly : Orderly s t) : Told t := by
  intro reader asks
  by_cases before : s.fs = .ttyWait reader .read
  next =>
    rw [custody.lines_asked before moves]
    exact told reader before
  next =>
    cases moves with
    | message k' keeps p d src m sends waits admits after =>
      have distinct := distinct_of_calls sends waits
      have fs := transfer_fs (s := { s with kernel := k' }) (m := m) distinct
      rw [← after] at fs
      obtain ⟨rfl, fs⟩ | ⟨rfl, fs⟩ | ⟨-, -, fs⟩ := fs
      · rw [fs] at asks
        rw [call_fs] at waits
        exact absurd asks (Fs.got_ne_ttyWait waits)
      · obtain same | ⟨device, cnt, sending⟩ := Fs.sent_asks (fs.symm.trans asks)
        · exact absurd same before
        · have some_ := (orderly reader device cnt sending asks).2
          rw [after]
          exact told_now (s := { s with kernel := k' }) sending sends waits some_
      · exact absurd (fs.symm.trans asks) before
    | interrupt k' keeps d src waits admits after =>
      subst after
      by_cases isFs : d = taskFs
      next =>
        subst isFs
        have got : (({ s with kernel := k' } : System).got taskFs interruptMsg).fs =
            s.fs.got interruptMsg := rfl
        rw [got] at asks
        rw [call_fs] at waits
        exact absurd asks (Fs.got_ne_ttyWait waits)
      next =>
        rw [got_fs_other _ _ isFs] at asks
        exact absurd asks before
    | think p runs thinks =>
      cases thinks with
      | mm memorySize thinks =>
        rw [(mmThinks_of thinks).frame.1] at asks
        exact absurd asks before
      | fsInitDisk m isDisk init => cases asks
      | fsInitDone init => cases asks
      | fsDisk src type m isDisk works uses => cases asks
      | fsTty src type device cnt works uses => cases asks
      | fsReply src type m works => cases asks
      | _ => exact absurd asks before
    | quiet k' keeps ticks after =>
      subst after
      exact absurd asks before

-- The answer to the DEV_READ leaves the request with its line.
theorem Told.suspends (told : Told s) (custody : Custody s) (moves : Moves s t)
    (suspends : Suspends s t reader) : Attended t reader := by
  obtain ⟨i, isReader, left⟩ := told reader suspends.1
  refine .inl ⟨i, ?_⟩
  rw [custody.lines_asked suspends.1 moves]
  exact ⟨isReader, left⟩

theorem replies_or_stays (moves : Moves s t) {m' : Message} (fs : s.fs = .reply reader m') :
    t.fs = .reply reader m' ∨ Replies s t reader := by
  have calls : s.call taskFs = some (.send reader m') := by
    rw [call_fs, fs]
    rfl
  cases moves with
  | message k' keeps p d src m sends waits admits after =>
    subst after
    have distinct := distinct_of_calls sends waits
    obtain ⟨rfl, -⟩ | ⟨rfl, sent⟩ | ⟨-, -, same⟩ :=
      transfer_fs (s := { s with kernel := k' }) (m := m) distinct
    · rw [calls] at waits
      cases waits
    · refine .inr ⟨⟨m', fs⟩, ?_⟩
      rw [sent]
      show s.fs.sent = .main
      rw [fs]
      rfl
    · exact .inl (same.trans fs)
  | interrupt k' keeps d src waits admits after =>
    subst after
    refine .inl ?_
    rw [got_fs_other]
    · exact fs
    · rintro rfl
      rw [calls] at waits
      cases waits
  | think p runs thinks =>
    refine .inl ?_
    cases thinks with
    | mm memorySize thinks => exact (mmThinks_of thinks).frame.1.trans fs
    | fsInitDisk m isDisk works => cases fs.symm.trans works
    | fsInitDone works => cases fs.symm.trans works
    | fsDisk src type m isDisk works uses => cases fs.symm.trans works
    | fsTty src type device cnt works uses => cases fs.symm.trans works
    | fsReply src type m works => cases fs.symm.trans works
    | _ => exact fs
  | quiet k' keeps ticks after =>
    subst after
    exact .inl fs

theorem Resumes.reply (resumes : Resumes s t reader) (custody : Custody s) (moves : Moves s t) :
    s.fs = .main ∧ ∃ m', t.fs = .reply reader m' := by
  obtain ⟨i, tty, rfl, over_⟩ := resumes
  cases moves with
  | message k' keeps p d src m sends waits admits after =>
    subst after
    have distinct := distinct_of_calls sends waits
    obtain ⟨rfl, -⟩ | ⟨rfl, -⟩ | ⟨-, -, same, -⟩ :=
      transfer_tty (s := { s with kernel := k' }) (m := m) distinct
    · rw [call_tty, tty] at waits
      cases waits
    · exact (custody.kernel k').resumed tty sends waits admits
    · cases (same.symm.trans over_).symm.trans tty
  | interrupt k' keeps d src waits admits after =>
    subst after
    have other : d ≠ taskTty := by
      rintro rfl
      rw [call_tty, tty] at waits
      cases waits
    have same := (got_tty_other { s with kernel := k' } interruptMsg other).1
    cases (same.symm.trans over_).symm.trans tty
  | think p runs thinks =>
    cases thinks with
    | mm memorySize thinks => cases ((mmThinks_of thinks).frame.2.1.symm.trans over_).symm.trans tty
    | ttyMain polls => cases polls.symm.trans tty
    | ttyKey device key polls => cases polls.symm.trans tty
    | _ => cases over_.symm.trans tty
  | quiet k' keeps ticks after =>
    subst after
    cases over_.symm.trans tty

end Steps

section Runs

variable {run : Run Starts Step} {reader : Int}

theorem told_run (orderly : ∀ n, n < run.length → Orderly (run.state n) (run.state (n + 1)))
    {n : Nat} (within : n ≤ run.length) : Told (run.state n) := by
  refine run.timed_invariant (P := fun _ => Told) ?_ ?_ n within
  · intro s starts reader asks
    rw [starts.2.2.1] at asks
    cases asks
  · intro n within told
    have safe := safe_run run within.le
    exact told.step safe.toCustody (safe.moves (run.steps n within)) (orderly n within)

-- Nobody is answered twice: between two resumes there is a reply.
theorem reply_before (i j : Nat) (after : i < j) (within : j < run.length)
    (first : Resumes (run.state i) (run.state (i + 1)) reader)
    (main : (run.state j).fs = .main) :
    ∃ k, i < k ∧ k < j ∧ Replies (run.state k) (run.state (k + 1)) reader := by
  by_contra none_
  have stays : ∀ k, i < k → k ≤ j → ∃ m, (run.state k).fs = .reply reader m := by
    intro k later
    induction k, later using Nat.le_induction with
    | base =>
      intro _
      have safe := safe_run run (t := i) (by omega)
      exact (first.reply safe.toCustody (safe.moves (run.steps i (by omega)))).2
    | succ k later ih =>
      intro bound
      obtain ⟨m, fs⟩ := ih (by omega)
      have safe := safe_run run (t := k) (by omega)
      obtain same | replies := replies_or_stays (safe.moves (run.steps k (by omega))) fs
      · exact ⟨m, same⟩
      · exact absurd ⟨k, later, by omega, replies⟩ none_
  obtain ⟨m, fs⟩ := stays j after (le_refl j)
  rw [main] at fs
  cases fs

/--
If every DEV_READ that reaches TTY finds a free line and asks for a character, no suspended reader
is forgotten; and a READ is resumed at most once.
-/
theorem readers_attended (run : Run Starts Step)
    (orderly : ∀ n, n < run.length → Orderly (run.state n) (run.state (n + 1))) :
    (∀ n, n ≤ run.length → ∀ reader, Suspended run n reader → Attended (run.state n) reader) ∧
      ∀ reader a i j, Suspends (run.state a) (run.state (a + 1)) reader → a < i → i < j →
        j < run.length →
        (∀ k, a < k → k < j → ¬ Replies (run.state k) (run.state (k + 1)) reader) →
        Resumes (run.state i) (run.state (i + 1)) reader →
        ¬ Resumes (run.state j) (run.state (j + 1)) reader := by
  constructor
  · rintro n within reader ⟨a, before, suspends, unanswered⟩
    have attended : ∀ k, a < k → k ≤ n → Attended (run.state k) reader := by
      intro k later
      induction k, later using Nat.le_induction with
      | base =>
        intro _
        have safe := safe_run run (t := a) (by omega)
        exact (told_run orderly (by omega)).suspends safe.toCustody
          (safe.moves (run.steps a (by omega))) suspends
      | succ k later ih =>
        intro bound
        have safe := safe_run run (t := k) (by omega)
        exact (ih (by omega)).step safe (run.steps k (by omega)) (orderly k (by omega))
          (unanswered k later (by omega))
    exact attended n before (le_refl n)
  · intro reader a i j suspends afterA afterI within unanswered first second
    have safe := safe_run run (t := j) within.le
    have main := (second.reply safe.toCustody (safe.moves (run.steps j within))).1
    obtain ⟨k, later, earlier, replies⟩ := reply_before i j afterI within first main
    exact unanswered k (by omega) earlier replies

end Runs

section Rivals

def Fs.asksRead : Fs → Bool
  | .tty _ .read _ _ => true
  | _ => false

def Fs.isReply : Fs → Bool
  | .reply _ _ => true
  | _ => false

theorem race_orderly (n : Nat) (within : n < 16) :
    Orderly (raceRun.state n) (raceRun.state (n + 1)) := by
  intro reader device cnt asks sent
  have once : ∀ n, n < 16 → (race n).fs.asksRead = true → n = 7 := by decide +kernel
  have isSeven : n = 7 := by
    refine once n within ?_
    show (raceRun.state n).fs.asksRead = true
    rw [asks]
    rfl
  subst isSeven
  cases asks
  exact ⟨rfl, by decide⟩

-- INIT is suspended at step 9, and its RESUME_PROC is on its way after step 13.
theorem readers_attended_race : Attended (raceRun.state 14) initPid := by
  refine (readers_attended raceRun race_orderly).1 14 (by decide) initPid ?_
  refine ⟨9, by decide, ⟨rfl, rfl⟩, ?_⟩
  rintro j - earlier ⟨⟨m, fs⟩, -⟩
  have none_ : ∀ n, n < 14 → (race n).fs.isReply = false := by decide +kernel
  have isReply : (race j).fs.isReply = true := by
    show (raceRun.state j).fs.isReply = true
    rw [fs]
    rfl
  rw [none_ j earlier] at isReply
  cases isReply

-- A second process reads from the same terminal.
def rival : Nat → System
  | 0 => { race 11 with user := Function.update (race 11).user 6 (.request askRead) }
  | 1 => delivers (rival 0) 6 taskFs askRead.m 16384
  | 2 => { rival 1 with tty := .main }
  | 3 => blocks (rival 2) .receive any 4096 taskTty
  | 4 => { rival 3 with fs := .tty 6 .read 0 5 }
  | t + 1 => delivers (rival t) taskFs taskTty (ttyMsg 6 .read 0 5) 8192

def rivalEvents : Nat → Event
  | 0 => .send 6
  | 1 => .think taskTty
  | 2 => .receive taskTty
  | 3 => .think taskFs
  | _ => .send taskFs

theorem rival_step (t : Nat) (within : t < 5) : Step (rival t) (rivalEvents t) (rival (t + 1)) := by
  match t, within with
  | 0, _ => exact send_delivers (by decide +kernel) rfl (by decide +kernel)
  | 1, _ => exact .think _ (by decide +kernel) (.ttyMain rfl)
  | 2, _ => exact receive_blocks (by decide +kernel) rfl (by decide +kernel)
  | 3, _ => exact .think _ (by decide +kernel) (.fsTty 6 .read 0 5 rfl (by decide))
  | 4, _ => exact send_delivers (by decide +kernel) rfl (by decide +kernel)

def rivalRun : Run Starts Step where
  length := 17
  state := fun t => if t < 12 then race t else rival (t - 12)
  act := fun t => if t < 12 then raceEvents t else rivalEvents (t - 12)
  start := raceRun.start
  steps := by
    intro t within
    by_cases early : t < 12
    next =>
      have step := raceRun.steps t (by show t < 16; omega)
      by_cases last : t + 1 < 12
      next =>
        simp only [early, last, if_true]
        exact step
      next =>
        have isLast : t = 11 := by omega
        subst isLast
        show Step (race 11) (raceEvents 11) (rival 0)
        exact .think _ (by decide +kernel) (.user 6 askRead (by decide) rfl)
    next =>
      have late : ¬ t + 1 < 12 := by omega
      have next_ : t + 1 - 12 = t - 12 + 1 := by omega
      simp only [early, late, if_false, next_]
      exact rival_step (t - 12) (by omega)

-- Every process asks for a number of characters that is not negative.
def Counts (s : System) : Prop :=
  ∀ reader device cnt, s.fs = .tty reader .read device cnt → 0 ≤ cnt

-- The second READ takes the line over, and nothing names INIT any more.
theorem reader_forgotten : ¬ ∀ run : Run Starts Step,
    (∀ n, n ≤ run.length → Counts (run.state n)) →
      ∀ n, n ≤ run.length → ∀ reader, Suspended run n reader → Attended (run.state n) reader := by
  intro claim
  have counts : ∀ n, n ≤ rivalRun.length → Counts (rivalRun.state n) := by
    intro n within reader device cnt asks
    have twice : ∀ n, n < 18 → (rivalRun.state n).fs.asksRead = true → n = 7 ∨ n = 16 := by
      decide +kernel
    have isAsk : n = 7 ∨ n = 16 := by
      refine twice n (Nat.lt_succ_of_le within) ?_
      rw [asks]
      rfl
    rcases isAsk with rfl | rfl
    · cases asks
      decide
    · cases asks
      decide
  have suspended : Suspended rivalRun 17 initPid := by
    refine ⟨9, by decide, ⟨rfl, rfl⟩, ?_⟩
    rintro j - earlier ⟨⟨m, fs⟩, -⟩
    have none_ : ∀ n, n < 17 → (rivalRun.state n).fs.isReply = false := by decide +kernel
    have isReply : (rivalRun.state j).fs.isReply = true := by
      rw [fs]
      rfl
    rw [none_ j earlier] at isReply
    cases isReply
  have lines : (rivalRun.state 17).lines = Function.update
      (Function.update (fun _ => ⟨0, 0, 0, 0⟩) 0 ⟨taskFs, initPid, 10, 0⟩) 0 ⟨taskFs, 6, 5, 0⟩ :=
    rfl
  rcases claim rivalRun counts 17 (Nat.le_refl 17) initPid suspended with
    ⟨i, isReader, left⟩ | ⟨i, tty, -⟩ | ⟨m, fs⟩
  · rw [lines] at isReader left
    by_cases same : i = 0
    · subst same
      cases isReader
    · simp [Function.update_of_ne same] at left
  · cases tty
  · cases fs

end Rivals

end Konix.Servers
