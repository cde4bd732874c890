import Konix.Terminal.Screen
import Konix.Terminal.Keys
import Konix.Lib.RingBuffer

set_option autoImplicit false

namespace Konix.Terminal

open RingBuffers

def ttyInBytes : Nat := 256

-- `TTY`; the console is known by its number.
structure Tty where
  inBuf : RingBuffer Nat
  ttyCaller : Int
  ttyProcnr : Int
  ttyReqBuf : Nat
  ttyLeftCnt : Int
  ttyTransCnt : Int
  console : Nat

-- A TTY with what it writes to: the screen, the memory and the messages it sends.
structure Session where
  tty : Tty
  screen : Screen
  mem : Nat → UInt8
  sent : List (Int × Message)

namespace Session

def setTty (w : Session) (tty : Tty) : Session := { w with tty := tty }

def setScreen (w : Session) (screen : Screen) : Session := { w with screen := screen }

def send (w : Session) (dest : Int) (msg : Message) : Session :=
  { w with sent := w.sent ++ [(dest, msg)] }

-- `init_tty()`, without its call of `init_screen()`.
def initTty (w : Session) : Session :=
  w.setTty { w.tty with inBuf := .empty w.tty.inBuf.buf }

def putKey (w : Session) (key : Nat) : Session :=
  if w.tty.inBuf.count < ttyInBytes then
    w.setTty { w.tty with inBuf := w.tty.inBuf.put ttyInBytes key }
  else w

def inProcess (w : Session) (key : Nat) : Session :=
  if key &&& flagExt = 0 then w.putKey key
  else
    let rawCode := key &&& maskRaw
    let shift := key &&& flagShiftL ≠ 0 ∨ key &&& flagShiftR ≠ 0
    let alt := key &&& flagAltL ≠ 0 ∨ key &&& flagAltR ≠ 0
    if rawCode = keyEnter then w.putKey newline.toNat
    else if rawCode = keyBackspace then w.putKey backspace.toNat
    else if rawCode = keyUp then
      if shift then w.setScreen (w.screen.scrollScreen w.tty.console scrDn) else w
    else if rawCode = keyDown then
      if shift then w.setScreen (w.screen.scrollScreen w.tty.console scrUp) else w
    else if keyF1 ≤ rawCode ∧ rawCode ≤ keyF12 then
      if alt then w.setScreen (w.screen.selectConsole (rawCode - keyF1)) else w
    else w

def outChar (w : Session) (ch : UInt8) : Option Session :=
  (w.screen.outChar w.tty.console ch).map w.setScreen

def printable (ch : UInt8) : Prop := 32 ≤ ch ∧ ch ≤ 126

instance (ch : UInt8) : Decidable (printable ch) := by unfold printable; infer_instance

def place (w : Session) : Nat := u32 (w.tty.ttyReqBuf + w.tty.ttyTransCnt)

-- The message that ends a request; the fields that are not set hold what was on the stack.
def resumeMsg (procnr cnt : Int) : Message :=
  { resetMsg with type := .resumeProc, m3i3 := procnr, m3i2 := cnt }

-- What `tty_dev_write()` does with a character of a line that is asked for: edit,
def edit (w : Session) (ch : UInt8) : Option Session :=
  if printable ch then do
    let w ← w.outChar ch
    return {
      w with
      mem := Function.update w.mem w.place ch
      tty := { w.tty with
        ttyTransCnt := w.tty.ttyTransCnt + 1
        ttyLeftCnt := w.tty.ttyLeftCnt - 1 } }
  else if ch = backspace ∧ w.tty.ttyTransCnt ≠ 0 then do
    let w ← w.outChar ch
    return w.setTty { w.tty with
      ttyTransCnt := w.tty.ttyTransCnt - 1
      ttyLeftCnt := w.tty.ttyLeftCnt + 1 }
  else some w

-- and then resume the reader if the line has ended.
def finish (w : Session) (ch : UInt8) : Option Session :=
  if ch = newline ∨ w.tty.ttyLeftCnt = 0 then do
    let w ← w.outChar newline
    let w := w.send w.tty.ttyCaller (resumeMsg w.tty.ttyProcnr w.tty.ttyTransCnt)
    return w.setTty { w.tty with ttyLeftCnt := 0 }
  else some w

-- One turn of the loop of `tty_dev_write()`.
def ttyDevWriteChar (w : Session) : Option Session :=
  let ch := UInt8.ofNat w.tty.inBuf.front
  let w := w.setTty { w.tty with inBuf := w.tty.inBuf.drop ttyInBytes }
  if w.tty.ttyLeftCnt ≠ 0 then do
    let w ← w.edit ch
    w.finish ch
  else some w

def ttyDevWriteFrom : Nat → Session → Option Session
  | 0, _ => none
  | fuel + 1, w =>
    if w.tty.inBuf.count = 0 then some w
    else do
      let w ← w.ttyDevWriteChar
      ttyDevWriteFrom fuel w

-- Each turn takes a character out of the buffer.
def ttyDevWrite (w : Session) : Option Session := ttyDevWriteFrom (w.tty.inBuf.count + 1) w

-- `tty_do_read()`, for a reader whose segment begins at `segBase`.
def ttyDoRead (w : Session) (segBase : Nat) (msg : Message) : Session :=
  let w := w.setTty { w.tty with
    ttyCaller := msg.source
    ttyProcnr := msg.procNr
    ttyReqBuf := (segBase + msg.buf) % 4294967296
    ttyLeftCnt := msg.cnt
    ttyTransCnt := 0 }
  w.send w.tty.ttyCaller { msg with type := .suspendProc, m3i2 := w.tty.ttyLeftCnt }

end Session

end Konix.Terminal
