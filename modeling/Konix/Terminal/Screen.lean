import Konix.Const

set_option autoImplicit false

namespace Konix.Terminal

def vMemSize : Nat := 0x8000
def scrWidth : Nat := 80
def scrSize : Nat := 80 * 25
def scrUp : Int := 1
def scrDn : Int := -1
def defaultCharColor : UInt8 := 0x07

def startAddrH : Nat := 0xC
def startAddrL : Nat := 0xD
def cursorH : Nat := 0xE
def cursorL : Nat := 0xF

def newline : UInt8 := 10
def backspace : UInt8 := 8

-- `CONSOLE`; places in video memory are counted in words.
structure Console where
  currentStartAddr : Nat
  originalAddr : Nat
  vMemLimit : Nat
  cursor : Nat
deriving DecidableEq, Repr

structure Cell where
  ch : UInt8
  color : UInt8
deriving DecidableEq, Repr

-- `console_table[]`, the video memory and the registers of the CRT controller.
structure Screen where
  consoleTable : Nat → Console
  vMem : Nat → Cell
  crtc : Nat → Nat
  nrCurrentConsole : Nat

-- How much of the video memory a console gets.
def conVMemSize : Nat := vMemSize >>> 1 / nrConsoles

-- `[TTY #?]` and a newline, with the number for the question mark.
def prompt (nrTty : Nat) : List UInt8 :=
  [91, 84, 84, 89, 32, 35, UInt8.ofNat (nrTty + 49), 93, newline]

def initConsole (nrTty cursor : Nat) : Console where
  originalAddr := nrTty * conVMemSize
  vMemLimit := conVMemSize
  currentStartAddr := nrTty * conVMemSize
  cursor := cursor

namespace Screen

def setConsole (s : Screen) (nr : Nat) (con : Console) : Screen :=
  { s with consoleTable := Function.update s.consoleTable nr con }

def setReg (s : Screen) (reg value : Nat) : Screen :=
  { s with crtc := Function.update s.crtc reg value }

def setCursor (s : Screen) (position : Nat) : Screen :=
  (s.setReg cursorH (position >>> 8 &&& 0xFF)).setReg cursorL (position &&& 0xFF)

def setVideoStartAddr (s : Screen) (addr : Nat) : Screen :=
  (s.setReg startAddrH (addr >>> 8 &&& 0xFF)).setReg startAddrL (addr &&& 0xFF)

def selectConsole (s : Screen) (nrConsole : Int) : Screen :=
  if nrConsole < 0 ∨ nrConsole ≥ nrConsoles then s
  else
    let s := { s with nrCurrentConsole := nrConsole.toNat }
    (s.setCursor (s.consoleTable nrConsole.toNat).cursor).setVideoStartAddr
      (s.consoleTable nrConsole.toNat).currentStartAddr

def flush (s : Screen) (nr : Nat) : Screen :=
  if nr = s.nrCurrentConsole then
    (s.setCursor (s.consoleTable nr).cursor).setVideoStartAddr (s.consoleTable nr).currentStartAddr
  else s

def scrollScreen (s : Screen) (nr : Nat) (direction : Int) : Screen :=
  let con := s.consoleTable nr
  let s :=
    if direction = scrUp then
      if con.currentStartAddr > con.originalAddr then
        s.setConsole nr { con with currentStartAddr := con.currentStartAddr - scrWidth }
      else s
    else if direction = scrDn then
      if con.currentStartAddr + scrSize < con.originalAddr + con.vMemLimit then
        s.setConsole nr { con with currentStartAddr := con.currentStartAddr + scrWidth }
      else s
    else s
  s.flush nr

-- The first part of `out_char()`: the character is written and the cursor moves.
def putChar (s : Screen) (nr : Nat) (ch : UInt8) : Screen :=
  let con := s.consoleTable nr
  if ch = newline then
    if con.cursor < con.originalAddr + con.vMemLimit - scrWidth then
      s.setConsole nr { con with
        cursor := con.originalAddr +
          scrWidth * ((con.cursor - con.originalAddr) / scrWidth + 1) }
    else s
  else if ch = backspace then
    if con.cursor > con.originalAddr then
      { s.setConsole nr { con with cursor := con.cursor - 1 } with
        vMem := Function.update s.vMem (con.cursor - 1) ⟨32, defaultCharColor⟩ }
    else s
  else if con.cursor < con.originalAddr + con.vMemLimit - 1 then
    { s.setConsole nr { con with cursor := con.cursor + 1 } with
      vMem := Function.update s.vMem con.cursor ⟨ch, defaultCharColor⟩ }
  else s

-- The second part: scroll until the cursor is on the screen. A loop that still runs after so many
-- turns as there are bytes of video memory has come to its end and never stops.
def scrollToCursor : Nat → Screen → Nat → Option Screen
  | 0, _, _ => none
  | fuel + 1, s, nr =>
    if (s.consoleTable nr).cursor ≥ (s.consoleTable nr).currentStartAddr + scrSize then
      scrollToCursor fuel (s.scrollScreen nr scrDn) nr
    else some s

def outChar (s : Screen) (nr : Nat) (ch : UInt8) : Option Screen :=
  (scrollToCursor vMemSize (s.putChar nr ch) nr).map fun s => s.flush nr

def outChars (s : Screen) (nr : Nat) : List UInt8 → Option Screen
  | [] => some s
  | ch :: rest => do
    let s ← s.outChar nr ch
    s.outChars nr rest

def initScreen (s : Screen) (dispPos nrTty : Nat) : Option Screen := do
  let s ←
    if nrTty = 0 then some (s.setConsole nrTty (initConsole nrTty (dispPos / 2)))
    else
      (s.setConsole nrTty (initConsole nrTty (nrTty * conVMemSize))).outChars nrTty (prompt nrTty)
  return s.setCursor (s.consoleTable nrTty).cursor

-- What `task_tty()` does to the screen before it serves its first message.
def initScreens (s : Screen) (dispPos : Nat) : Option Screen := do
  let s ← s.initScreen dispPos 0
  let s ← s.initScreen 0 1
  let s ← s.initScreen 0 2
  return s.selectConsole 0

end Screen

end Konix.Terminal
