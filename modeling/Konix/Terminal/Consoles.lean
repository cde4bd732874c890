import Konix.Terminal.LineEditor
import Konix.Terminal.Task

set_option autoImplicit false

namespace Konix.Terminal

open RingBuffers Session

structure Reader where
  caller : Int
  procnr : Int
  buf : Nat
  size : Nat
  text : List UInt8
deriving DecidableEq, Repr

inductive Input
  | key (key : Nat)
  | opened (source : Int)
  | read (msg : Message) (segBase : Nat)
  | write (msg : Message) (text : List UInt8)
  | print (text : List UInt8)
  | stores (place : Nat) (ch : UInt8)
deriving DecidableEq, Repr

inductive Effect
  | outChar (ch : UInt8)
  | scroll (direction : Int)
  | select (nrConsole : Int)
  | store (place : Nat) (ch : UInt8)
  | send (dest : Int) (msg : Message)
deriving DecidableEq, Repr

-- A key that is for the screen only.
def looks (key : Nat) : List Effect :=
  let rawCode := key &&& maskRaw
  let shift := key &&& flagShiftL ≠ 0 ∨ key &&& flagShiftR ≠ 0
  let alt := key &&& flagAltL ≠ 0 ∨ key &&& flagAltR ≠ 0
  if rawCode = keyUp then if shift then [.scroll scrDn] else []
  else if rawCode = keyDown then if shift then [.scroll scrUp] else []
  else if keyF1 ≤ rawCode ∧ rawCode ≤ keyF12 then if alt then [.select (rawCode - keyF1)] else []
  else []

namespace Reader

-- What the reader sees of a character that is typed for it.
def echo (r : Reader) (ch : UInt8) : List Effect :=
  if printable ch then [.outChar ch, .store ((r.buf + r.text.length) % 4294967296) ch]
  else if ch = backspace ∧ r.text ≠ [] then [.outChar ch]
  else []

def typed (r : Reader) (ch : UInt8) : Option Reader × List Effect :=
  let text := Line.edit r.text ch
  if ch = newline ∨ text.length = r.size then
    (none, r.echo ch ++ [.outChar newline, .send r.caller (resumeMsg r.procnr text.length)])
  else (some { r with text := text }, r.echo ch)

end Reader

/--
A console by itself: it edits the line of its reader, if there is one, and nobody sees what is typed
when there is none.
-/
def console (reader : Option Reader) : Input → Option Reader × List Effect
  | .key key =>
    match keyPut key with
    | none => (reader, looks key)
    | some put =>
      match reader with
      | none => (none, [])
      | some r => r.typed (UInt8.ofNat put)
  | .opened source => (reader, [.send source { resetMsg with type := .syscallRet }])
  | .read msg segBase =>
    (if msg.cnt = 0 then none
      else some ⟨msg.source, msg.procNr, (segBase + msg.buf) % 4294967296, msg.cnt.toNat, []⟩,
      [.send msg.source { msg with type := .suspendProc }])
  | .write msg text =>
    (reader, text.map .outChar ++ [.send msg.source { msg with type := .syscallRet }])
  | .print text => (reader, text.map .outChar)
  | .stores place ch => (reader, [.store place ch])

structure World where
  screen : Screen
  mem : Nat → UInt8
  sent : List (Int × Message)

def World.perform (w : World) : Nat × Effect → Option World
  | (nr, .outChar ch) => (w.screen.outChar nr ch).map fun screen => { w with screen := screen }
  | (nr, .scroll direction) => some { w with screen := w.screen.scrollScreen nr direction }
  | (_, .select nrConsole) => some { w with screen := w.screen.selectConsole nrConsole }
  | (_, .store place ch) => some { w with mem := Function.update w.mem place ch }
  | (_, .send dest msg) => some { w with sent := w.sent ++ [(dest, msg)] }

def World.performAll (w : World) (effects : List (Nat × Effect)) : Option World :=
  effects.foldlM World.perform w

def Session.world (w : Session) : World := ⟨w.screen, w.mem, w.sent⟩

def Task.world (s : Task) : World := ⟨s.screen, s.mem, s.sent⟩

structure Waits (tty : Tty) (r : Reader) : Prop where
  caller : tty.ttyCaller = r.caller
  procnr : tty.ttyProcnr = r.procnr
  reqBuf : tty.ttyReqBuf = r.buf
  trans : tty.ttyTransCnt = r.text.length
  left : tty.ttyTransCnt + tty.ttyLeftCnt = r.size
  bound : r.size < 2147483648

def Shows (tty : Tty) : Option Reader → Prop
  | none => tty.ttyLeftCnt = 0
  | some r => Waits tty r ∧ r.text.length < r.size

def Performs (n : Nat) (w : World) (effects : List Effect) (w' : World) : Prop :=
  w.performAll (effects.map fun effect => (n, effect)) = some w'

section Performs

variable {n : Nat} {w w' w'' : World} {effects effects' : List Effect}

theorem performAll_append (w : World) (before after : List (Nat × Effect)) :
    w.performAll (before ++ after) = (w.performAll before).bind fun w' => w'.performAll after :=
  List.foldlM_append

theorem Performs.trans (first : Performs n w effects w') (second : Performs n w' effects' w'') :
    Performs n w (effects ++ effects') w'' := by
  rw [Performs, List.map_append, performAll_append, first]
  exact second

theorem performs_one {effect : Effect} (done : w.perform (n, effect) = some w') :
    Performs n w [effect] w' := by
  rw [Performs, World.performAll, List.map_singleton, List.foldlM_cons, done]
  rfl

theorem performs_none (n : Nat) (w : World) : Performs n w [] w := rfl

theorem performs_outChars {text : List UInt8} {screen : Screen}
    (done : w.screen.outChars n text = some screen) :
    Performs n w (text.map .outChar) { w with screen := screen } := by
  induction text generalizing w with
  | nil =>
    cases done
    rfl
  | cons ch text ih =>
    obtain ⟨screen', first, rest⟩ := Option.bind_eq_some_iff.mp done
    have here : Performs n w [.outChar ch] { w with screen := screen' } :=
      performs_one (by rw [World.perform, first]; rfl)
    exact here.trans (ih (w := { w with screen := screen' }) rest)

end Performs

section Typing

variable {n : Nat} {w w' : Session} {r : Reader}

-- What a step of a TTY leaves: a terminal between two steps, and its keys and its console as
-- before.
structure Kept (w w' : Session) : Prop where
  ready : Ready w'
  inBuf : w'.tty.inBuf = w.tty.inBuf
  console : w'.tty.console = w.tty.console

theorem outChar_performs (ready : Ready w) (ch : UInt8) :
    ∃ screen, w.outChar ch = some (w.setScreen screen) ∧ Ready (w.setScreen screen) ∧
      Performs w.tty.console w.world [.outChar ch] (w.setScreen screen).world := by
  obtain ⟨screen, done, writable⟩ := Screen.outChar_returns ready.screen ready.console ch
  refine ⟨screen, by rw [Session.outChar, done]; rfl, ⟨ready.inBuf, writable, ready.console⟩,
    performs_one ?_⟩
  rw [World.perform, Session.world, done]
  rfl

theorem edit_performs (ready : Ready w) (waits : Waits w.tty r) (room : r.text.length < r.size)
    (ch : UInt8) :
    ∃ w', w.edit ch = some w' ∧ Kept w w' ∧ Waits w'.tty { r with text := Line.edit r.text ch } ∧
      (Line.edit r.text ch).length ≤ r.size ∧
      Performs w.tty.console w.world (r.echo ch) w'.world := by
  obtain ⟨screen, done, ready₁, performs⟩ := outChar_performs ready ch
  have trans := waits.trans
  have left := waits.left
  have bound := waits.bound
  by_cases prints : printable ch
  next =>
    have place : (w.setScreen screen).place = (r.buf + r.text.length) % 4294967296 := by
      show u32 (w.tty.ttyReqBuf + w.tty.ttyTransCnt) = _
      rw [trans, waits.reqBuf, u32]
      omega
    rw [Session.edit, if_pos prints, done, Reader.echo, if_pos prints, Line.edit, if_pos prints]
    refine ⟨_, rfl, ⟨⟨ready₁.inBuf, ready₁.screen, ready₁.console⟩, rfl, rfl⟩,
      ⟨waits.caller, waits.procnr, waits.reqBuf, ?_, ?_, bound⟩, ?_,
      performs.trans (performs_one ?_)⟩
    · show w.tty.ttyTransCnt + 1 = _
      rw [trans, List.length_append]
      rfl
    · show w.tty.ttyTransCnt + 1 + (w.tty.ttyLeftCnt - 1) = (r.size : Int)
      omega
    · rw [List.length_append]
      exact room
    · rw [place]
      rfl
  next =>
    rw [Session.edit, if_neg prints, Reader.echo, if_neg prints, Line.edit, if_neg prints]
    by_cases erases : ch = backspace ∧ r.text ≠ []
    next =>
      have positive : 0 < r.text.length := List.length_pos_iff.mpr erases.2
      rw [if_pos ⟨erases.1, by omega⟩, done, if_pos erases, if_pos erases.1]
      refine ⟨_, rfl, ⟨⟨ready₁.inBuf, ready₁.screen, ready₁.console⟩, rfl, rfl⟩,
        ⟨waits.caller, waits.procnr, waits.reqBuf, ?_, ?_, bound⟩, ?_, performs⟩
      · show w.tty.ttyTransCnt - 1 = _
        rw [List.length_dropLast]
        omega
      · show w.tty.ttyTransCnt - 1 + (w.tty.ttyLeftCnt + 1) = (r.size : Int)
        omega
      · rw [List.length_dropLast]
        omega
    next =>
      have same : (if ch = backspace then r.text.dropLast else r.text) = r.text := by
        by_cases erase : ch = backspace
        · have empty : r.text = [] := by
            by_contra some_
            exact erases ⟨erase, some_⟩
          rw [if_pos erase, empty]
          rfl
        · rw [if_neg erase]
      have nothing : ¬ (ch = backspace ∧ w.tty.ttyTransCnt ≠ 0) := by
        rintro ⟨erase, some_⟩
        apply erases
        refine ⟨erase, fun empty => some_ ?_⟩
        rw [trans, empty]
        rfl
      rw [if_neg erases, if_neg nothing, same]
      exact ⟨w, rfl, ⟨ready, rfl, rfl⟩, waits, le_of_lt room, performs_none ..⟩

theorem finish_performs (ready : Ready w) (waits : Waits w.tty r) (fits : r.text.length ≤ r.size)
    (ch : UInt8) :
    ∃ w', w.finish ch = some w' ∧ Kept w w' ∧
      Shows w'.tty (if ch = newline ∨ r.text.length = r.size then none else some r) ∧
      Performs w.tty.console w.world
        (if ch = newline ∨ r.text.length = r.size then
          [.outChar newline, .send r.caller (resumeMsg r.procnr r.text.length)]
        else []) w'.world := by
  have trans := waits.trans
  have left := waits.left
  have full : ch = newline ∨ w.tty.ttyLeftCnt = 0 ↔ ch = newline ∨ r.text.length = r.size :=
    or_congr_right (by omega)
  by_cases ends : ch = newline ∨ r.text.length = r.size
  next =>
    obtain ⟨screen, done, ready₁, performs⟩ := outChar_performs ready newline
    rw [Session.finish, if_pos (full.mpr ends), if_pos ends, if_pos ends, done]
    refine ⟨_, rfl, ⟨⟨ready₁.inBuf, ready₁.screen, ready₁.console⟩, rfl, rfl⟩, rfl,
      performs.trans (performs_one ?_)⟩
    rw [← waits.caller, ← waits.procnr, ← trans]
    rfl
  next =>
    rw [Session.finish, if_neg (mt full.mp ends), if_neg ends, if_neg ends]
    exact ⟨w, rfl, ⟨ready, rfl, rfl⟩, ⟨waits, by omega⟩, performs_none ..⟩

theorem typed_performs (ready : Ready w) {reader : Option Reader} (shows : Shows w.tty reader)
    (ch : UInt8) :
    ∃ w', (if w.tty.ttyLeftCnt ≠ 0 then (w.edit ch).bind fun w' => w'.finish ch else some w) =
        some w' ∧ Kept w w' ∧
      Shows w'.tty (reader.elim none fun r => (r.typed ch).1) ∧
      Performs w.tty.console w.world (reader.elim [] fun r => (r.typed ch).2) w'.world := by
  cases reader with
  | none =>
    have nobody : w.tty.ttyLeftCnt = 0 := shows
    rw [if_neg (not_not_intro nobody)]
    exact ⟨w, rfl, ⟨ready, rfl, rfl⟩, shows, performs_none ..⟩
  | some r =>
    obtain ⟨waits, room⟩ := shows
    have pending : w.tty.ttyLeftCnt ≠ 0 := by
      have trans := waits.trans
      have left := waits.left
      omega
    obtain ⟨w₁, edits, kept₁, waits₁, fits, performs₁⟩ := edit_performs ready waits room ch
    obtain ⟨w₂, finishes, kept₂, shows₂, performs₂⟩ := finish_performs kept₁.ready waits₁ fits ch
    rw [kept₁.console] at performs₂
    refine ⟨w₂, ?_, ⟨kept₂.ready, kept₂.inBuf.trans kept₁.inBuf,
      kept₂.console.trans kept₁.console⟩, ?_, ?_⟩
    · rw [if_pos pending, edits]
      exact finishes
    · rw [Option.elim_some, Reader.typed]
      by_cases ends : ch = newline ∨ (Line.edit r.text ch).length = r.size
      · rw [if_pos ends] at shows₂ ⊢
        exact shows₂
      · rw [if_neg ends] at shows₂ ⊢
        exact shows₂
    · rw [Option.elim_some, Reader.typed]
      have both := performs₁.trans performs₂
      by_cases ends : ch = newline ∨ (Line.edit r.text ch).length = r.size
      · rw [if_pos ends] at both ⊢
        exact both
      · rw [if_neg ends, List.append_nil] at both
        rw [if_neg ends]
        exact both

end Typing

section Idle

variable {w w' : Session} {reader : Option Reader}

-- A terminal whose keys have all been taken.
structure Idle (w : Session) : Prop extends Ready w where
  empty : w.tty.inBuf.count = 0

theorem ttyDevWrite_empty (empty : w.tty.inBuf.count = 0) : w.ttyDevWrite = some w := by
  rw [ttyDevWrite, ttyDevWriteFrom, if_pos empty]

structure Answers (n : Nat) (reader : Option Reader) (input : Input) (w w' : Session) : Prop where
  idle : Idle w'
  same : w'.tty.console = w.tty.console
  shows : Shows w'.tty (console reader input).1
  performs : Performs n w.world (console reader input).2 w'.world

theorem putKey_answers (idle : Idle w) (shows : Shows w.tty reader) {key put : Nat}
    (puts : keyPut key = some put) :
    ∃ w', (w.putKey put).ttyDevWrite = some w' ∧
      Answers w.tty.console reader (.key key) w w' := by
  have room : w.tty.inBuf.count < ttyInBytes := by
    rw [idle.empty]
    decide
  have valid := idle.inBuf.put put room
  have one : (w.tty.inBuf.put ttyInBytes put).count = 1 := congrArg (· + 1) idle.empty
  have front : (w.tty.inBuf.put ttyInBytes put).front = put := by
    have before : w.tty.inBuf.contents ttyInBytes = [] := List.eq_nil_of_length_eq_zero
      (RingBuffer.contents_length.trans idle.empty)
    have queue := RingBuffer.put_contents idle.inBuf put room
    rw [before, List.nil_append, RingBuffer.contents_cons valid (by omega)] at queue
    exact (List.cons.inj queue).1
  let w₁ := w.setTty { w.tty with inBuf := (w.tty.inBuf.put ttyInBytes put).drop ttyInBytes }
  have taken : Ready w₁ := ⟨valid.drop (by omega), idle.screen, idle.console⟩
  have shows₁ : Shows w₁.tty reader := by
    cases reader with
    | none => exact shows
    | some r => exact ⟨⟨shows.1.1, shows.1.2, shows.1.3, shows.1.4, shows.1.5, shows.1.6⟩, shows.2⟩
  obtain ⟨w', done, kept, shows', performs⟩ :=
    typed_performs taken shows₁ (UInt8.ofNat (w.tty.inBuf.put ttyInBytes put).front)
  rw [front] at shows' performs
  have empty : w'.tty.inBuf.count = 0 := by
    rw [kept.inBuf]
    show (w.tty.inBuf.put ttyInBytes put).count - 1 = 0
    rw [one]
  have answer : console reader (.key key) =
      (reader.elim none fun r => (r.typed (UInt8.ofNat put)).1,
        reader.elim [] fun r => (r.typed (UInt8.ofNat put)).2) := by
    simp only [console, puts]
    cases reader <;> rfl
  refine ⟨w', ?_, ⟨kept.ready, empty⟩, kept.console, ?_, ?_⟩
  · have some_ : ¬ (w.tty.inBuf.put ttyInBytes put).count = 0 := by omega
    rw [putKey, if_pos room, ttyDevWrite]
    show ttyDevWriteFrom ((w.tty.inBuf.put ttyInBytes put).count + 1) _ = _
    rw [one, ttyDevWriteFrom]
    refine (if_neg some_).trans ?_
    have char : ttyDevWriteChar (w.setTty { w.tty with inBuf := w.tty.inBuf.put ttyInBytes put }) =
        some w' := done
    rw [char]
    exact if_pos empty
  · rw [answer]
    exact shows'
  · rw [answer]
    exact performs

theorem inProcess_put {key put : Nat} (puts : keyPut key = some put) :
    w.inProcess key = w.putKey put := by
  rw [keyPut] at puts
  rw [inProcess]
  split_ifs at puts with plain enter erase
  · cases puts
    rw [if_pos plain]
  · cases puts
    rw [if_neg plain]
    exact if_pos enter
  · cases puts
    rw [if_neg plain]
    exact (if_neg enter).trans (if_pos erase)

theorem inProcess_looks (ready : Ready w) {key : Nat} (none_ : keyPut key = none) :
    ∃ screen, w.inProcess key = w.setScreen screen ∧ AllWritable screen ∧
      Performs w.tty.console w.world (looks key) (w.setScreen screen).world := by
  rw [keyPut] at none_
  rw [inProcess, looks]
  split_ifs at none_ with plain enter erase
  rw [if_neg plain]
  simp only [if_neg enter, if_neg erase]
  have same : ∃ screen, w = w.setScreen screen ∧ AllWritable screen ∧
      Performs w.tty.console w.world [] (w.setScreen screen).world :=
    ⟨w.screen, rfl, ready.screen, performs_none ..⟩
  split_ifs
  · exact ⟨_, rfl, Screen.scrollScreen_writable ready.screen _, performs_one rfl⟩
  · exact same
  · exact ⟨_, rfl, Screen.scrollScreen_writable ready.screen _, performs_one rfl⟩
  · exact same
  · exact ⟨_, rfl, Screen.selectConsole_writable ready.screen _, performs_one rfl⟩
  · exact same
  · exact same

-- A key that has been read is dealt with before the next one is.
theorem key_answers (idle : Idle w) (shows : Shows w.tty reader) (key : Nat) :
    ∃ w', (w.inProcess key).ttyDevWrite = some w' ∧
      Answers w.tty.console reader (.key key) w w' := by
  cases puts : keyPut key with
  | some put =>
    rw [inProcess_put puts]
    exact putKey_answers idle shows puts
  | none =>
    obtain ⟨screen, same, writable, performs⟩ := inProcess_looks idle.toReady puts
    have answer : console reader (.key key) = (reader, looks key) := by
      simp only [console, puts]
    rw [same, ttyDevWrite_empty (show (w.setScreen screen).tty.inBuf.count = 0 from idle.empty)]
    refine ⟨_, rfl, ⟨⟨idle.inBuf, writable, idle.console⟩, idle.empty⟩, rfl, ?_, ?_⟩
    · rw [answer]
      exact shows
    · rw [answer]
      exact performs

end Idle

section Writing

variable {n : Nat} {w w' : Session} {reader : Option Reader}

theorem outChars_append (s : Screen) (nr : Nat) (before after : List UInt8) :
    s.outChars nr (before ++ after) = (s.outChars nr before).bind fun s => s.outChars nr after := by
  induction before generalizing s with
  | nil => rfl
  | cons ch before ih =>
    simp only [List.cons_append, Screen.outChars, ih, Option.bind_eq_bind, Option.bind_assoc]

theorem outChars_returns {s : Screen} {nr : Nat} (writable : AllWritable s)
    (bound : nr < nrConsoles)
    (text : List UInt8) : ∃ s', s.outChars nr text = some s' ∧ AllWritable s' := by
  induction text generalizing s with
  | nil => exact ⟨s, rfl, writable⟩
  | cons ch text ih =>
    obtain ⟨s₁, first, writable₁⟩ := Screen.outChar_returns writable bound ch
    obtain ⟨s₂, rest, writable₂⟩ := ih writable₁
    refine ⟨s₂, ?_, writable₂⟩
    rw [Screen.outChars, first]
    exact rest

def bufText (mem : Nat → UInt8) (p count : Nat) : List UInt8 :=
  (List.range count).map fun j : Nat => mem (u32 (p + j))

theorem bufText_add (mem : Nat → UInt8) (p first rest : Nat) :
    bufText mem p (first + rest) = bufText mem p first ++ bufText mem (u32 (p + first)) rest := by
  rw [bufText, List.range_add, List.map_append, List.map_map]
  congr 1
  apply List.map_congr_left
  intro j _
  have place : u32 ((u32 (p + first) : Nat) + j) = u32 (p + (first + j : Nat)) := by
    simp only [u32]
    omega
  simp only [Function.comp_apply, place]

-- The loop shows the whole buffer, in order, whatever the size of its own one.
theorem ttyDoWriteFrom_eq (w : Session) {p count fuel : Nat} (enough : count < fuel) :
    w.ttyDoWriteFrom fuel p count =
      (w.screen.outChars w.tty.console (bufText w.mem p count)).map w.setScreen := by
  induction fuel generalizing w p count with
  | zero => omega
  | succ fuel ih =>
    rw [ttyDoWriteFrom]
    by_cases done : count = 0
    next =>
      rw [done]
      rfl
    next =>
      have bytes : min (ttyOutBufLen : Int) count = (min ttyOutBufLen count : Nat) := by omega
      have positive : 0 < min ttyOutBufLen count := by
        simp only [ttyOutBufLen]
        omega
      have left : (count : Int) - (min ttyOutBufLen count : Nat) =
          (count - min ttyOutBufLen count : Nat) := by omega
      have whole : bufText w.mem p count = bufText w.mem p (min ttyOutBufLen count) ++
          bufText w.mem (u32 (p + (min ttyOutBufLen count : Nat)))
            (count - min ttyOutBufLen count) := by
        rw [← bufText_add, Nat.add_sub_cancel' (Nat.min_le_right ..)]
      rw [if_neg (by omega), if_neg (by omega), whole, outChars_append]
      simp only [bytes, left, Int.toNat_natCast]
      show ((w.screen.outChars w.tty.console (bufText w.mem p (min ttyOutBufLen count))).bind _) = _
      cases w.screen.outChars w.tty.console (bufText w.mem p (min ttyOutBufLen count)) with
      | none => rfl
      | some screen =>
        rw [Option.bind_some, Option.bind_some, ih _ (by omega)]
        rfl

theorem ttyDoWrite_answers (idle : Idle w) (shows : Shows w.tty reader) (segBase : Nat)
    {msg : Message} (nonneg : 0 ≤ msg.cnt) :
    ∃ w', w.ttyDoWrite segBase msg = some w' ∧ Answers w.tty.console reader
      (.write msg (bufText w.mem ((segBase + msg.buf) % 4294967296) msg.cnt.toNat)) w w' := by
  obtain ⟨screen, done, writable⟩ := outChars_returns idle.screen idle.console
    (bufText w.mem ((segBase + msg.buf) % 4294967296) msg.cnt.toNat)
  have loop := ttyDoWriteFrom_eq w (p := (segBase + msg.buf) % 4294967296)
    (Nat.lt_succ_self msg.cnt.toNat)
  rw [Int.toNat_of_nonneg nonneg, done] at loop
  refine ⟨(w.setScreen screen).send msg.source { msg with type := .syscallRet }, ?_,
    ⟨⟨idle.inBuf, writable, idle.console⟩, idle.empty⟩, rfl, shows, ?_⟩
  · rw [ttyDoWrite, loop]
    rfl
  exact (performs_outChars (w := w.world) done).trans (performs_one rfl)

theorem ttyDoRead_answers (reader : Option Reader) (idle : Idle w) (segBase : Nat) {msg : Message}
    (nonneg : 0 ≤ msg.cnt) (bound : msg.cnt < 2147483648) :
    Answers w.tty.console reader (.read msg segBase) w (w.ttyDoRead segBase msg) := by
  refine ⟨⟨⟨idle.inBuf, idle.screen, idle.console⟩, idle.empty⟩, rfl, ?_, performs_one rfl⟩
  rw [console]
  by_cases nothing : msg.cnt = 0
  · rw [if_pos nothing]
    exact nothing
  · rw [if_neg nothing]
    refine ⟨⟨rfl, rfl, rfl, rfl, ?_, ?_⟩, ?_⟩
    · show 0 + msg.cnt = (msg.cnt.toNat : Int)
      omega
    · show msg.cnt.toNat < 2147483648
      omega
    · show 0 < msg.cnt.toNat
      omega

end Writing

end Konix.Terminal
