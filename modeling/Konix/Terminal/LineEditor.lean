import Konix.Terminal.Tty
import Konix.Terminal.Output

set_option autoImplicit false

namespace Konix.Terminal

open RingBuffers Session

-- The line a reader of `n` characters waits for, as a plain editor has it.
inductive Line
  | editing (text : List UInt8)
  | ended (text : List UInt8)
deriving DecidableEq, Repr

namespace Line

def edit (text : List UInt8) (ch : UInt8) : List UInt8 :=
  if printable ch then text ++ [ch] else if ch = backspace then text.dropLast else text

def key (n : Nat) : Line → UInt8 → Line
  | .ended text, _ => .ended text
  | .editing text, ch =>
    if ch = newline ∨ (edit text ch).length = n then .ended (edit text ch)
    else .editing (edit text ch)

def keys (n : Nat) (line : Line) (taken : List Nat) : Line :=
  taken.foldl (fun line key => line.key n (UInt8.ofNat key)) line

end Line

namespace Session

def bufByte (w : Session) (j : Nat) : Nat := (w.tty.ttyReqBuf + j) % 4294967296

def queue (w : Session) : List Nat := w.tty.inBuf.contents ttyInBytes

structure Ready (w : Session) : Prop where
  inBuf : w.tty.inBuf.Valid ttyInBytes
  screen : AllWritable w.screen
  console : w.tty.console < nrConsoles

/--
The request that was pending in `w` has `text` in its buffer in `w'`, and nothing outside the
buffer has been written since.
-/
structure Holding (n : Nat) (w w' : Session) (text : List UInt8) : Prop where
  caller : w'.tty.ttyCaller = w.tty.ttyCaller
  procnr : w'.tty.ttyProcnr = w.tty.ttyProcnr
  reqBuf : w'.tty.ttyReqBuf = w.tty.ttyReqBuf
  fits : text.length ≤ n
  bytes : ∀ j (h : j < text.length), w'.mem (w.bufByte j) = text[j]
  outside : ∀ a, (∀ j, j < n → a ≠ w.bufByte j) → w'.mem a = w.mem a

structure Editing (n : Nat) (w w' : Session) (text : List UInt8) : Prop
    extends Holding n w w' text where
  trans : w'.tty.ttyTransCnt = text.length
  left : w'.tty.ttyTransCnt + w'.tty.ttyLeftCnt = n
  sent : w'.sent = w.sent

/--
The session has served the request of `w` as the plain editor has it: while the line is edited the
two counts add up to `n`, and when it has ended the reader has been resumed with the length of the
line.
-/
def Edited (n : Nat) (w w' : Session) : Line → Prop
  | .editing text => Editing n w w' text ∧ text.length < n
  | .ended text => Holding n w w' text ∧ w'.tty.ttyLeftCnt = 0 ∧
      w'.sent = w.sent ++ [(w.tty.ttyCaller, resumeMsg w.tty.ttyProcnr text.length)]

variable {n : Nat} {w w' : Session} {text : List UInt8} {ch : UInt8}

theorem initTty_ready (writable : AllWritable w.screen) (console : w.tty.console < nrConsoles) :
    Ready w.initTty :=
  ⟨RingBuffer.empty_valid _ (by decide), writable, console⟩

theorem bufByte_ne {j k : Nat} (below : j < k) (bound : k < 4294967296) (w : Session) :
    w.bufByte j ≠ w.bufByte k := by
  simp only [bufByte]
  omega

theorem outChar_ok (ready : Ready w) (ch : UInt8) :
    ∃ screen, w.outChar ch = some (w.setScreen screen) ∧ Ready (w.setScreen screen) := by
  obtain ⟨screen, done, writable⟩ := Screen.outChar_returns ready.screen ready.console ch
  exact ⟨screen, by rw [Session.outChar, done]; rfl, ready.inBuf, writable, ready.console⟩

theorem Holding.frame {w'' : Session} (holding : Holding n w w' text)
    (caller : w''.tty.ttyCaller = w'.tty.ttyCaller) (procnr : w''.tty.ttyProcnr = w'.tty.ttyProcnr)
    (reqBuf : w''.tty.ttyReqBuf = w'.tty.ttyReqBuf) (mem : w''.mem = w'.mem) :
    Holding n w w'' text := by
  constructor
  · exact caller.trans holding.caller
  · exact procnr.trans holding.procnr
  · exact reqBuf.trans holding.reqBuf
  · exact holding.fits
  · rw [mem]
    exact holding.bytes
  · rw [mem]
    exact holding.outside

theorem Holding.append (holding : Holding n w w' text) (room : text.length < n)
    (bound : n < 4294967296) (ch : UInt8) :
    Holding n w { w' with mem := Function.update w'.mem (w.bufByte text.length) ch }
      (text ++ [ch]) := by
  constructor
  · exact holding.caller
  · exact holding.procnr
  · exact holding.reqBuf
  · rw [List.length_append]
    exact room
  · intro j inside
    rw [List.length_append, List.length_singleton] at inside
    by_cases last : j = text.length
    next =>
      subst last
      simp only [Function.update_self, List.getElem_concat_length]
    next =>
      have before : j < text.length := by omega
      show Function.update w'.mem (w.bufByte text.length) ch (w.bufByte j) = _
      rw [Function.update_of_ne (bufByte_ne before (by omega) w), List.getElem_append_left before]
      exact holding.bytes j before
  · intro a out
    show Function.update w'.mem (w.bufByte text.length) ch a = _
    rw [Function.update_of_ne (out _ room)]
    exact holding.outside a out

theorem Holding.dropLast (holding : Holding n w w' text) : Holding n w w' text.dropLast := by
  constructor
  · exact holding.caller
  · exact holding.procnr
  · exact holding.reqBuf
  · rw [List.length_dropLast]
    have := holding.fits
    omega
  · intro j inside
    rw [List.length_dropLast] at inside
    rw [List.getElem_dropLast]
    exact holding.bytes j (by omega)
  · exact holding.outside

theorem Editing.place (editing : Editing n w w' text) : w'.place = w.bufByte text.length := by
  rw [Session.place, editing.trans, editing.reqBuf, bufByte, u32]
  omega

theorem edit_ok (ready : Ready w') (editing : Editing n w w' text) (room : text.length < n)
    (bound : n < 4294967296) (ch : UInt8) :
    ∃ w'', w'.edit ch = some w'' ∧ Ready w'' ∧ Editing n w w'' (Line.edit text ch) ∧
      w''.tty.inBuf = w'.tty.inBuf := by
  obtain ⟨screen, done, ready'⟩ := outChar_ok ready ch
  have trans := editing.trans
  have left := editing.left
  by_cases prints : printable ch
  next =>
    rw [Session.edit, if_pos prints, done, Line.edit, if_pos prints]
    refine ⟨_, rfl, ⟨ready'.inBuf, ready'.screen, ready'.console⟩, ?_, rfl⟩
    have place : (w'.setScreen screen).place = w.bufByte text.length := editing.place
    rw [place]
    refine ⟨(editing.append room bound ch).frame rfl rfl rfl rfl, ?_, ?_, editing.sent⟩
    · show w'.tty.ttyTransCnt + 1 = _
      rw [trans, List.length_append]
      rfl
    · show w'.tty.ttyTransCnt + 1 + (w'.tty.ttyLeftCnt - 1) = _
      omega
  next =>
    rw [Session.edit, if_neg prints, Line.edit, if_neg prints]
    by_cases erases : ch = backspace
    next =>
      rw [if_pos erases]
      by_cases empty : text = []
      next =>
        have zero : w'.tty.ttyTransCnt = 0 := by rw [trans, empty]; rfl
        have same : text.dropLast = text := by rw [empty]; rfl
        rw [if_neg (fun both => both.2 zero), same]
        exact ⟨w', rfl, ready, editing, rfl⟩
      next =>
        have positive : 0 < text.length := List.length_pos_iff.mpr empty
        rw [if_pos ⟨erases, by omega⟩, done]
        refine ⟨_, rfl, ⟨ready'.inBuf, ready'.screen, ready'.console⟩, ?_, rfl⟩
        refine ⟨editing.dropLast.frame rfl rfl rfl rfl, ?_, ?_, editing.sent⟩
        · show w'.tty.ttyTransCnt - 1 = _
          rw [List.length_dropLast]
          omega
        · show w'.tty.ttyTransCnt - 1 + (w'.tty.ttyLeftCnt + 1) = _
          omega
    next =>
      rw [if_neg erases, if_neg (fun both => erases both.1)]
      exact ⟨w', rfl, ready, editing, rfl⟩

theorem finish_ok (ready : Ready w') (editing : Editing n w w' text) (ch : UInt8) :
    ∃ w'', w'.finish ch = some w'' ∧ Ready w'' ∧
      Edited n w w'' (if ch = newline ∨ text.length = n then .ended text else .editing text) ∧
      w''.tty.inBuf = w'.tty.inBuf := by
  have trans := editing.trans
  have left := editing.left
  have fits := editing.fits
  have full : ch = newline ∨ w'.tty.ttyLeftCnt = 0 ↔ ch = newline ∨ text.length = n :=
    or_congr_right (by omega)
  by_cases ends : ch = newline ∨ text.length = n
  next =>
    obtain ⟨screen, done, ready'⟩ := outChar_ok ready newline
    rw [Session.finish, if_pos (full.mpr ends), if_pos ends, done]
    refine ⟨_, rfl, ⟨ready'.inBuf, ready'.screen, ready'.console⟩,
      ⟨editing.toHolding.frame rfl rfl rfl rfl, rfl, ?_⟩, rfl⟩
    show w'.sent ++ [(w'.tty.ttyCaller, resumeMsg w'.tty.ttyProcnr w'.tty.ttyTransCnt)] = _
    rw [editing.sent, editing.caller, editing.procnr, trans]
  next =>
    rw [Session.finish, if_neg (mt full.mp ends), if_neg ends]
    exact ⟨w', rfl, ready, ⟨editing, by omega⟩, rfl⟩

theorem ttyDevWriteChar_ok {line : Line} (ready : Ready w') (edited : Edited n w w' line)
    (bound : n < 4294967296) (some_ : 0 < w'.tty.inBuf.count) :
    ∃ w'', w'.ttyDevWriteChar = some w'' ∧ Ready w'' ∧
      Edited n w w'' (line.key n (UInt8.ofNat w'.tty.inBuf.front)) ∧
      w''.tty.inBuf = w'.tty.inBuf.drop ttyInBytes := by
  have taken : Ready (w'.setTty { w'.tty with inBuf := w'.tty.inBuf.drop ttyInBytes }) :=
    ⟨ready.inBuf.drop some_, ready.screen, ready.console⟩
  cases line with
  | ended text =>
    have finished : w'.tty.ttyLeftCnt = 0 := edited.2.1
    refine ⟨_, ?_, taken, ⟨edited.1.frame rfl rfl rfl rfl, edited.2.1, edited.2.2⟩, rfl⟩
    simp only [ttyDevWriteChar]
    exact if_neg (not_not_intro finished)
  | editing text =>
    obtain ⟨editing, room⟩ := edited
    have waits : w'.tty.ttyLeftCnt ≠ 0 := by
      have trans := editing.trans
      have left := editing.left
      omega
    have editing' : Editing n w
        (w'.setTty { w'.tty with inBuf := w'.tty.inBuf.drop ttyInBytes }) text :=
      ⟨editing.toHolding.frame rfl rfl rfl rfl, editing.trans, editing.left, editing.sent⟩
    obtain ⟨w₁, edits, ready₁, editing₁, buffer₁⟩ :=
      edit_ok taken editing' room bound (UInt8.ofNat w'.tty.inBuf.front)
    obtain ⟨w₂, finishes, ready₂, edited₂, buffer₂⟩ :=
      finish_ok ready₁ editing₁ (UInt8.ofNat w'.tty.inBuf.front)
    refine ⟨w₂, ?_, ready₂, edited₂, buffer₂.trans buffer₁⟩
    simp only [ttyDevWriteChar]
    refine (if_pos waits).trans ?_
    rw [edits]
    exact finishes

theorem ttyDevWriteFrom_ok {line : Line} {fuel : Nat} (ready : Ready w')
    (edited : Edited n w w' line)
    (bound : n < 4294967296) (enough : w'.tty.inBuf.count < fuel) :
    ∃ w'', ttyDevWriteFrom fuel w' = some w'' ∧ Ready w'' ∧
      Edited n w w'' (line.keys n w'.queue) ∧ w''.queue = [] := by
  induction fuel generalizing w' line with
  | zero => omega
  | succ fuel ih =>
    rw [ttyDevWriteFrom]
    by_cases empty : w'.tty.inBuf.count = 0
    next =>
      have nothing : w'.queue = [] := List.eq_nil_of_length_eq_zero
        (RingBuffer.contents_length.trans empty)
      rw [if_pos empty, nothing]
      exact ⟨w', rfl, ready, edited, nothing⟩
    next =>
      rw [if_neg empty]
      obtain ⟨w₁, done, ready₁, edited₁, buffer⟩ :=
        ttyDevWriteChar_ok ready edited bound (Nat.pos_of_ne_zero empty)
      have front : w'.queue = w'.tty.inBuf.front :: w₁.queue := by
        rw [queue, queue, buffer]
        exact RingBuffer.contents_cons ready.inBuf (Nat.pos_of_ne_zero empty)
      obtain ⟨w₂, rest, ready₂, edited₂, taken⟩ := ih ready₁ edited₁ (by
        rw [buffer]
        show w'.tty.inBuf.count - 1 < fuel
        omega)
      refine ⟨w₂, ?_, ready₂, ?_, taken⟩
      · rw [done]
        exact rest
      · rw [front]
        exact edited₂

def keyPut (key : Nat) : Option Nat :=
  if key &&& flagExt = 0 then some key
  else if key &&& maskRaw = keyEnter then some newline.toNat
  else if key &&& maskRaw = keyBackspace then some backspace.toNat
  else none

-- What an `in_process()` adds to the buffer: its key, unless the buffer is full.
def added (w : Session) (key : Nat) : List Nat :=
  if w.tty.inBuf.count < ttyInBytes then (keyPut key).toList else []

-- A step that leaves the request and its buffer alone.
structure Aside (w w' : Session) : Prop where
  caller : w'.tty.ttyCaller = w.tty.ttyCaller
  procnr : w'.tty.ttyProcnr = w.tty.ttyProcnr
  reqBuf : w'.tty.ttyReqBuf = w.tty.ttyReqBuf
  left : w'.tty.ttyLeftCnt = w.tty.ttyLeftCnt
  trans : w'.tty.ttyTransCnt = w.tty.ttyTransCnt
  mem : w'.mem = w.mem
  sent : w'.sent = w.sent

theorem Edited.aside {line : Line} {w'' : Session} (edited : Edited n w w' line)
    (aside : Aside w' w'') : Edited n w w'' line := by
  have holding {text : List UInt8} (h : Holding n w w' text) : Holding n w w'' text :=
    h.frame aside.caller aside.procnr aside.reqBuf aside.mem
  cases line with
  | editing text =>
    obtain ⟨editing, room⟩ := edited
    refine ⟨⟨holding editing.toHolding, ?_, ?_, aside.sent.trans editing.sent⟩, room⟩
    · exact aside.trans.trans editing.trans
    · rw [aside.trans, aside.left]
      exact editing.left
  | ended text =>
    exact ⟨holding edited.1, aside.left.trans edited.2.1, aside.sent.trans edited.2.2⟩

theorem putKey_ok (ready : Ready w) (key : Nat) :
    Ready (w.putKey key) ∧ Aside w (w.putKey key) ∧
      (w.putKey key).queue = w.queue ++ if w.tty.inBuf.count < ttyInBytes then [key] else [] := by
  rw [putKey]
  by_cases room : w.tty.inBuf.count < ttyInBytes
  next =>
    rw [if_pos room, if_pos room]
    exact ⟨⟨ready.inBuf.put key room, ready.screen, ready.console⟩,
      ⟨rfl, rfl, rfl, rfl, rfl, rfl, rfl⟩,
      RingBuffer.put_contents ready.inBuf key room⟩
  next =>
    rw [if_neg room, if_neg room, List.append_nil]
    exact ⟨ready, ⟨rfl, rfl, rfl, rfl, rfl, rfl, rfl⟩, rfl⟩

theorem setScreen_ok (ready : Ready w) {screen : Screen} (writable : AllWritable screen) :
    Ready (w.setScreen screen) ∧ Aside w (w.setScreen screen) ∧
      (w.setScreen screen).queue = w.queue ++ [] :=
  ⟨⟨ready.inBuf, writable, ready.console⟩, ⟨rfl, rfl, rfl, rfl, rfl, rfl, rfl⟩,
    (List.append_nil _).symm⟩

theorem nothing_ok (ready : Ready w) : Ready w ∧ Aside w w ∧ w.queue = w.queue ++ [] :=
  ⟨ready, ⟨rfl, rfl, rfl, rfl, rfl, rfl, rfl⟩, (List.append_nil _).symm⟩

theorem added_none {key : Nat} (none_ : keyPut key = none) : added w key = [] := by
  rw [added, none_]
  exact ite_self _

theorem added_some {key put : Nat} (some_ : keyPut key = some put) :
    added w key = if w.tty.inBuf.count < ttyInBytes then [put] else [] := by
  rw [added, some_]
  rfl

-- A key goes to the end of the buffer or to the screen, never to the request.
theorem inProcess_ok (ready : Ready w) (key : Nat) :
    Ready (w.inProcess key) ∧ Aside w (w.inProcess key) ∧
      (w.inProcess key).queue = w.queue ++ added w key := by
  rw [inProcess]
  by_cases plain : key &&& flagExt = 0
  next =>
    rw [if_pos plain, @added_some w key key (by rw [keyPut, if_pos plain])]
    exact putKey_ok ready key
  rw [if_neg plain]
  by_cases enter : key &&& maskRaw = keyEnter
  next =>
    rw [if_pos enter, added_some (by rw [keyPut, if_neg plain, if_pos enter])]
    exact putKey_ok ready newline.toNat
  rw [if_neg enter]
  by_cases erase : key &&& maskRaw = keyBackspace
  next =>
    rw [if_pos erase, added_some (by rw [keyPut, if_neg plain, if_neg enter, if_pos erase])]
    exact putKey_ok ready backspace.toNat
  rw [if_neg erase, added_none (by rw [keyPut, if_neg plain, if_neg enter, if_neg erase])]
  split_ifs
  · exact setScreen_ok ready (Screen.scrollScreen_writable ready.screen _)
  · exact nothing_ok ready
  · exact setScreen_ok ready (Screen.scrollScreen_writable ready.screen _)
  · exact nothing_ok ready
  · exact setScreen_ok ready (Screen.selectConsole_writable ready.screen _)
  · exact nothing_ok ready
  · exact nothing_ok ready

end Session

-- What happens to a terminal: a key, one turn of the loop of `tty_dev_write()`, or the whole loop.
inductive Event
  | inProcess (key : Nat)
  | turn
  | ttyDevWrite

namespace Event

def perform (w : Session) : Event → Option Session
  | .inProcess key => some (w.inProcess key)
  | .turn => if w.tty.inBuf.count = 0 then some w else w.ttyDevWriteChar
  | .ttyDevWrite => w.ttyDevWrite

def performAll (w : Session) : List Event → Option Session
  | [] => some w
  | event :: events => (event.perform w).bind fun w' => performAll w' events

def put (w : Session) : Event → List Nat
  | .inProcess key => w.added key
  | _ => []

def putAll (w : Session) : List Event → List Nat
  | [] => []
  | event :: events => event.put w ++ ((event.perform w).elim [] fun w' => putAll w' events)

variable {n : Nat} {w w' : Session} {line : Line}

-- An event takes keys off the front of the buffer, and edits the line by those.
theorem perform_ok (ready : Ready w') (edited : Edited n w w' line) (bound : n < 4294967296)
    (event : Event) :
    ∃ w'' taken, event.perform w' = some w'' ∧ Ready w'' ∧ Edited n w w'' (line.keys n taken) ∧
      taken ++ w''.queue = w'.queue ++ event.put w' := by
  cases event with
  | inProcess key =>
    obtain ⟨ready', aside, queue⟩ := inProcess_ok ready key
    exact ⟨_, [], rfl, ready', edited.aside aside, queue⟩
  | turn =>
    by_cases empty : w'.tty.inBuf.count = 0
    next => exact ⟨w', [], if_pos empty, ready, edited, (List.append_nil _).symm⟩
    next =>
      have some_ : 0 < w'.tty.inBuf.count := Nat.pos_of_ne_zero empty
      obtain ⟨w'', done, ready', edited', buffer⟩ := ttyDevWriteChar_ok ready edited bound some_
      refine ⟨w'', [w'.tty.inBuf.front], (if_neg empty).trans done, ready', edited', ?_⟩
      have front := RingBuffer.contents_cons ready.inBuf some_
      show w'.tty.inBuf.front :: w''.tty.inBuf.contents ttyInBytes = w'.queue ++ []
      rw [buffer, ← front, List.append_nil]
      rfl
  | ttyDevWrite =>
    obtain ⟨w'', done, ready', edited', drained⟩ :=
      ttyDevWriteFrom_ok ready edited bound (Nat.lt_succ_self _)
    refine ⟨w'', w'.queue, done, ready', edited', ?_⟩
    rw [drained]
    rfl

theorem performAll_ok (ready : Ready w') (edited : Edited n w w' line) (bound : n < 4294967296)
    (events : List Event) :
    ∃ w'' taken, performAll w' events = some w'' ∧ Ready w'' ∧
      Edited n w w'' (line.keys n taken) ∧ taken ++ w''.queue = w'.queue ++ putAll w' events := by
  induction events generalizing w' line with
  | nil => exact ⟨w', [], rfl, ready, edited, (List.append_nil _).symm⟩
  | cons event events ih =>
    obtain ⟨w₁, taken₁, done₁, ready₁, edited₁, queue₁⟩ := perform_ok ready edited bound event
    obtain ⟨w₂, taken₂, done₂, ready₂, edited₂, queue₂⟩ := ih ready₁ edited₁
    refine ⟨w₂, taken₁ ++ taken₂, ?_, ready₂, ?_, ?_⟩
    · rw [performAll, done₁]
      exact done₂
    · rw [Line.keys, List.foldl_append]
      exact edited₂
    · rw [putAll, done₁, List.append_assoc, queue₂, ← List.append_assoc, queue₁, List.append_assoc]
      rfl

end Event

theorem ttyDoRead_ok {w : Session} (ready : Ready w) (segBase : Nat) {msg : Message}
    (positive : 0 < msg.cnt) :
    Ready (w.ttyDoRead segBase msg) ∧
      Edited msg.cnt.toNat (w.ttyDoRead segBase msg) (w.ttyDoRead segBase msg) (.editing []) := by
  refine ⟨⟨ready.inBuf, ready.screen, ready.console⟩, ⟨⟨⟨rfl, rfl, rfl, Nat.zero_le _, ?_, ?_⟩,
    rfl, ?_, rfl⟩, ?_⟩⟩
  · exact fun j inside => absurd inside (Nat.not_lt_zero j)
  · exact fun _ _ => rfl
  · show 0 + msg.cnt = _
    omega
  · show 0 < msg.cnt.toNat
    omega

/--
From the read request on, whatever the keys and the turns of the TTY: it has served the request as
the plain editor does for the keys taken so far, which are the first of those in the buffer and put
into it; and a `tty_dev_write()` takes all of them.
-/
theorem tty_edits_line {w₀ : Session} (ready : Ready w₀) (segBase : Nat) {msg : Message}
    (positive : 0 < msg.cnt) (bound : msg.cnt < 2147483648) (events : List Event) :
    let w := w₀.ttyDoRead segBase msg
    ∃ w' taken, Event.performAll w events = some w' ∧
      taken ++ w'.queue = w.queue ++ Event.putAll w events ∧
      Edited msg.cnt.toNat w w' (Line.keys msg.cnt.toNat (.editing []) taken) ∧
      ∃ w'', w'.ttyDevWrite = some w'' ∧ w''.queue = [] ∧
        Edited msg.cnt.toNat w w''
          (Line.keys msg.cnt.toNat (.editing []) (w.queue ++ Event.putAll w events)) := by
  have small : msg.cnt.toNat < 4294967296 := by omega
  obtain ⟨ready', edited⟩ := ttyDoRead_ok ready segBase positive
  obtain ⟨w', taken, done, ready'', edited', queue⟩ :=
    Event.performAll_ok ready' edited small events
  obtain ⟨w'', drains, -, edited'', empty⟩ :=
    ttyDevWriteFrom_ok ready'' edited' small (Nat.lt_succ_self _)
  refine ⟨w', taken, done, queue, edited', w'', drains, empty, ?_⟩
  rw [← queue, Line.keys, List.foldl_append]
  exact edited''

-- The first TTY, before `init_tty()`; its consoles have been initialised.
def firstTty : Session where
  tty := ⟨.empty fun _ => 0, 0, 0, 0, 0, 0, 0⟩
  screen := ⟨fun nr => initConsole nr (nr * conVMemSize), fun _ => ⟨0, 0⟩, fun _ => 0, 0⟩
  mem := fun _ => 0
  sent := []

theorem firstTty_ready : Ready firstTty.initTty := by
  refine initTty_ready (fun nr _ => ⟨initConsole_placed nr _, le_refl _, ?_⟩) (by decide)
  exact Nat.lt_add_of_pos_right (show 0 < conVMemSize by decide)

-- The reader of three characters is resumed with the one that was not erased.
theorem tty_edits_line_short :
    let w := firstTty.initTty.ttyDoRead 0 { resetMsg with m3i2 := 3 }
    ∃ w' w'', Event.performAll w
        [.inProcess 98, .inProcess keyBackspace, .inProcess 97, .inProcess keyEnter] = some w' ∧
      w'.ttyDevWrite = some w'' ∧ Edited 3 w w'' (.ended [97]) := by
  intro w
  obtain ⟨w', -, done, -, -, w'', drains, -, edited⟩ :=
    @tty_edits_line _ firstTty_ready 0 { resetMsg with m3i2 := 3 } (by decide) (by decide)
      [.inProcess 98, .inProcess keyBackspace, .inProcess 97, .inProcess keyEnter]
  exact ⟨w', w'', done, drains, edited⟩

end Konix.Terminal
