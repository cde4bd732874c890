import Konix.Terminal.Keymap
import Konix.Lib.RingBuffer

set_option autoImplicit false

namespace Konix.Terminal

open RingBuffers

def kbInBytes : Nat := 32

-- The variables of `keyboard.c`, and the scan codes that have not arrived yet.
structure Keyboard where
  kbIn : RingBuffer UInt8
  wire : List UInt8
  shiftL : Bool
  shiftR : Bool
  altL : Bool
  altR : Bool
  ctrlL : Bool
  ctrlR : Bool
  capsLock : Bool
  numLock : Bool
  scrollLock : Bool

/--
What `keyboard_read()` knows when it has read the bytes of a key: `key` is zero unless it was Pause
or PrintScreen.
-/
structure Scan where
  scanCode : UInt8
  codeWithE0 : Bool
  key : Nat
deriving DecidableEq, Repr

namespace Keyboard

def keyboardHandler (k : Keyboard) (scanCode : UInt8) : Keyboard :=
  if k.kbIn.count < kbInBytes then { k with kbIn := k.kbIn.put kbInBytes scanCode } else k

-- The next scan code arrives with its interrupt.
def interrupt (k : Keyboard) : Option Keyboard :=
  match k.wire with
  | [] => none
  | scanCode :: wire => some ({ k with wire := wire }.keyboardHandler scanCode)

-- The lights are not modelled: `set_leds()` changes no variable.
def initKeyboard (k : Keyboard) : Keyboard where
  kbIn := .empty k.kbIn.buf
  wire := k.wire
  shiftL := false
  shiftR := false
  altL := false
  altR := false
  ctrlL := false
  ctrlR := false
  capsLock := false
  numLock := true
  scrollLock := false

-- On an empty buffer it waits for the next interrupt.
def getByteFromKbuf (k : Keyboard) : Option (UInt8 × Keyboard) := do
  let k ← if k.kbIn.count = 0 then k.interrupt else some k
  return (k.kbIn.front, { k with kbIn := k.kbIn.drop kbInBytes })

-- Reads bytes as long as they are the expected ones.
def matchCodes : List UInt8 → Keyboard → Option (Bool × Keyboard)
  | [], k => some (true, k)
  | code :: codes, k => do
    let (scanCode, k) ← k.getByteFromKbuf
    if scanCode ≠ code then return (false, k)
    else matchCodes codes k

-- The first half of `keyboard_read()`.
def readScan (k : Keyboard) : Option (Scan × Keyboard) := do
  let (scanCode, k) ← k.getByteFromKbuf
  if scanCode = 0xE1 then
    let (isPausebreak, k) ← matchCodes [0x1D, 0x45, 0xE1, 0x9D, 0xC5] k
    return (⟨scanCode, false, if isPausebreak then keyPauseBreak else 0⟩, k)
  else if scanCode = 0xE0 then
    let (scanCode, k) ← k.getByteFromKbuf
    if scanCode = 0x2A then
      let (isPressed, k) ← matchCodes [0xE0, 0x37] k
      return (⟨scanCode, !isPressed, if isPressed then keyPrintScreen else 0⟩, k)
    else if scanCode = 0xB7 then
      let (isReleased, k) ← matchCodes [0xE0, 0xAA] k
      return (⟨scanCode, !isReleased, if isReleased then keyPrintScreen else 0⟩, k)
    else return (⟨scanCode, true, 0⟩, k)
  else return (⟨scanCode, false, 0⟩, k)

def column (k : Keyboard) (scan : Scan) : Nat :=
  let caps := k.shiftL || k.shiftR
  let letter := 'a'.toNat ≤ keyrow scan.scanCode 0 ∧ keyrow scan.scanCode 0 ≤ 'z'.toNat
  let caps := if k.capsLock ∧ letter then !caps else caps
  if scan.codeWithE0 then 2 else if caps then 1 else 0

-- The right Alt key changes the variable of the left one.
def switchKey (k : Keyboard) (key : Nat) (make : Bool) : Keyboard :=
  if key = keyShiftL then { k with shiftL := make }
  else if key = keyShiftR then { k with shiftR := make }
  else if key = keyCtrlL then { k with ctrlL := make }
  else if key = keyCtrlR then { k with ctrlR := make }
  else if key = keyAltL then { k with altL := make }
  else if key = keyAltR then { k with altL := make }
  else if key = keyCapsLock then if make then { k with capsLock := !k.capsLock } else k
  else if key = keyNumLock then if make then { k with numLock := !k.numLock } else k
  else if key = keyScrollLock then if make then { k with scrollLock := !k.scrollLock } else k
  else k

-- A key of the number pad.
def padKey (numLock : Bool) (key : Nat) : Nat :=
  if key = padSlash then '/'.toNat
  else if key = padStar then '*'.toNat
  else if key = padMinus then '-'.toNat
  else if key = padPlus then '+'.toNat
  else if key = padEnter then keyEnter
  else if numLock ∧ pad0 ≤ key ∧ key ≤ pad9 then key - pad0 + '0'.toNat
  else if numLock ∧ key = padDot then '.'.toNat
  else if key = padHome then keyHome
  else if key = padEnd then keyEnd
  else if key = padPageUp then keyPageUp
  else if key = padPageDown then keyPageDown
  else if key = padIns then keyInsert
  else if key = padUp then keyUp
  else if key = padDown then keyDown
  else if key = padLeft then keyLeft
  else if key = padRight then keyRight
  else if key = padDot then keyDelete
  else key

def flag (isSet : Bool) (value : Nat) : Nat := if isSet then value else 0

-- The key that `in_process()` gets, with the flags of the modifiers.
def withFlags (k : Keyboard) (key : Nat) : Nat :=
  let pad : Bool := padSlash ≤ key ∧ key ≤ pad9
  let key := if pad then padKey k.numLock key else key
  key ||| flag k.shiftL flagShiftL ||| flag k.shiftR flagShiftR ||| flag k.ctrlL flagCtrlL |||
    flag k.ctrlR flagCtrlR ||| flag k.altL flagAltL ||| flag k.altR flagAltR ||| flag pad flagPad

-- The second half: the key that was found, and the one for `in_process()` if there is one.
def decode (k : Keyboard) (scan : Scan) : Keyboard × Option Nat :=
  if scan.key = keyPauseBreak ∨ scan.key = keyPrintScreen then (k, none)
  else
    let make : Bool := scan.scanCode &&& 0x80 = 0
    let key := keyrow scan.scanCode (k.column scan)
    let k := k.switchKey key make
    (k, if make then some (k.withFlags key) else none)

def keyboardRead (k : Keyboard) : Option (Keyboard × Option Nat) :=
  if k.kbIn.count = 0 then some (k, none)
  else do
    let (scan, k) ← k.readScan
    return k.decode scan

end Keyboard

end Konix.Terminal
