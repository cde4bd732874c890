import Konix.Klib.Panic
import Konix.Lib.Run
import Konix.Terminal.Keyboard
import Konix.Terminal.Output
import Konix.Terminal.Tty

set_option autoImplicit false

namespace Konix.Terminal

open RingBuffers Klib Runs

def ttyOutBufLen : Nat := 2

namespace Session

def ttyDoWriteFrom : Nat → Session → Nat → Int → Option Session
  | 0, _, _, _ => none
  | fuel + 1, w, p, i =>
    if i = 0 then some w
    -- `phys_copy()` does not come back from a negative size.
    else if i < 0 then none
    else do
      let bytes := min (ttyOutBufLen : Int) i
      let buf := (List.range bytes.toNat).map fun j : Nat => w.mem (u32 (p + j))
      let screen ← w.screen.outChars w.tty.console buf
      ttyDoWriteFrom fuel (w.setScreen screen) (u32 (p + bytes)) (i - bytes)

-- `tty_do_write()`, for a writer whose segment begins at `segBase`.
def ttyDoWrite (w : Session) (segBase : Nat) (msg : Message) : Option Session := do
  let w ← w.ttyDoWriteFrom (msg.cnt.toNat + 1) ((segBase + msg.buf) % 4294967296) msg.cnt
  return w.send msg.source { msg with type := .syscallRet }

end Session

/--
Where `task_tty()` is: at a TTY of its loop over all of them, at its RECEIVE, or at a SEND whose
message nobody has taken yet, with the place that comes next. Between a SEND and that place only
`tty_left_cnt` is set, which nobody else looks at.
-/
inductive Place
  | tty (n : Nat)
  | receive
  | send (next : Place)
deriving DecidableEq, Repr

structure Task where
  ttyTable : Nat → Tty
  keyboard : Keyboard
  screen : Screen
  mem : Nat → UInt8
  sent : List (Int × Message)
  place : Place

namespace Task

def session (s : Task) (n : Nat) : Session := ⟨s.ttyTable n, s.screen, s.mem, s.sent⟩

def withSession (s : Task) (n : Nat) (w : Session) : Task :=
  { s with
    ttyTable := Function.update s.ttyTable n w.tty
    screen := w.screen
    mem := w.mem
    sent := w.sent }

def isCurrentConsole (s : Task) (nr : Nat) : Bool := nr = s.screen.nrCurrentConsole

-- `tty_dev_read()`, and the key that it has read.
def ttyDevRead (s : Task) (n : Nat) : Option (Task × Option Nat) :=
  if s.isCurrentConsole (s.ttyTable n).console then do
    let (keyboard, key) ← s.keyboard.keyboardRead
    let s := { s with keyboard := keyboard }
    match key with
    | none => return (s, none)
    | some key => return (s.withSession n ((s.session n).inProcess key), some key)
  else some (s, none)

-- Where it is once it has come to `next`, but for the message that it has to send first.
def behind (s s' : Task) (next : Place) : Place :=
  if s'.sent.length = s.sent.length then next else .send next

-- One turn of the inner loop for a TTY, and where that leads.
def turn (s : Task) (n : Nat) : Option (Task × Option Nat) := do
  let (s, key) ← s.ttyDevRead n
  let w ← (s.session n).ttyDevWrite
  let next :=
    if w.tty.inBuf.count ≠ 0 then .tty n
    else if n + 1 < nrConsoles then .tty (n + 1)
    else .receive
  let s' := s.withSession n w
  return ({ s' with place := s.behind s' next }, key)

-- The branch of a message in `task_tty()`; the segment of a process begins at `segBase`.
def branch (s : Task) (segBase : Int → Nat) (msg : Message) : Option Task :=
  let n := msg.device.toNat
  match msg.type with
  | .devOpen =>
    some { s with sent := s.sent ++ [(msg.source, { resetMsg with type := .syscallRet })] }
  | .devRead => some (s.withSession n ((s.session n).ttyDoRead (segBase msg.procNr) msg))
  | .devWrite => ((s.session n).ttyDoWrite (segBase msg.procNr) msg).map (s.withSession n)
  | .hardInt => some s
  | _ => none

def serve (s : Task) (segBase : Int → Nat) (msg : Message) : Option Task :=
  (s.branch segBase msg).map fun s' => { s' with place := s.behind s' (.tty 0) }

-- What `sys_printx()` does to the screen for a process on console `nr`, in between.
def printx (s : Task) (nr : Nat) (str : List UInt8) (procReady : Int) : Option Task :=
  match sysPrintx str procReady with
  | .halts => none
  | .prints text => (s.screen.outChars nr text).map fun screen => { s with screen := screen }

inductive Action
  | interrupt
  | turn (key : Option Nat)
  | serve (segBase : Int → Nat) (msg : Message)
  | taken
  | printx (nr : Nat) (str : List UInt8) (procReady : Int)
  | stores (place : Nat) (ch : UInt8)

-- What FS and the kernel send.
structure Legal (msg : Message) : Prop where
  type : msg.type ∈ [.devOpen, .devRead, .devWrite, .hardInt]
  device : msg.type ∈ [.devRead, .devWrite] → 0 ≤ msg.device ∧ msg.device < nrConsoles
  cnt : msg.type ∈ [.devRead, .devWrite] → 0 ≤ msg.cnt ∧ msg.cnt < 2147483648

/--
`sys_printx()` for another process, and what other processes store in memory, comes between two
turns or while a message waits to be taken. Where a print comes in the middle of a turn it races
with `out_char()`, of which nothing is said.
-/
def Step (s : Task) : Action → Task → Prop
  | .interrupt, s' => ∃ k, s.keyboard.interrupt = some k ∧ s' = { s with keyboard := k }
  | .turn key, s' => ∃ n, s.place = .tty n ∧ s.turn n = some (s', key)
  | .serve segBase msg, s' => s.place = .receive ∧ Legal msg ∧ s.serve segBase msg = some s'
  | .taken, s' => ∃ next, s.place = .send next ∧ s' = { s with place := next }
  | .printx nr str procReady, s' => nr < nrConsoles ∧ s.printx nr str procReady = some s'
  | .stores place ch, s' => s' = { s with mem := Function.update s.mem place ch }

-- After `init_keyboard()`, `init_tty()` of each TTY and `select_console(0)`.
structure Started (s : Task) : Prop where
  keyboard : ∃ k₀ : Keyboard, s.keyboard = k₀.initKeyboard
  screen : InitialisedInside s.screen
  ttys : ∀ n, n < nrConsoles → ∃ w₀ : Session, w₀.tty.ttyLeftCnt = 0 ∧
    s.ttyTable n = { w₀.initTty.tty with console := n }
  place : s.place = .tty 0

end Task

end Konix.Terminal
