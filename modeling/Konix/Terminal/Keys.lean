import Konix.Const

set_option autoImplicit false

namespace Konix.Terminal

-- The attributes of a key, above its code.
def flagExt : Nat := 0x0100
def flagShiftL : Nat := 0x0200
def flagShiftR : Nat := 0x0400
def flagCtrlL : Nat := 0x0800
def flagCtrlR : Nat := 0x1000
def flagAltL : Nat := 0x2000
def flagAltR : Nat := 0x4000
def flagPad : Nat := 0x8000
def maskRaw : Nat := 0x01FF

def keyEsc : Nat := 0x01 + flagExt
def keyTab : Nat := 0x02 + flagExt
def keyEnter : Nat := 0x03 + flagExt
def keyBackspace : Nat := 0x04 + flagExt
def keyGuiL : Nat := 0x05 + flagExt
def keyGuiR : Nat := 0x06 + flagExt
def keyApps : Nat := 0x07 + flagExt
def keyShiftL : Nat := 0x08 + flagExt
def keyShiftR : Nat := 0x09 + flagExt
def keyCtrlL : Nat := 0x0A + flagExt
def keyCtrlR : Nat := 0x0B + flagExt
def keyAltL : Nat := 0x0C + flagExt
def keyAltR : Nat := 0x0D + flagExt
def keyCapsLock : Nat := 0x0E + flagExt
def keyNumLock : Nat := 0x0F + flagExt
def keyScrollLock : Nat := 0x10 + flagExt
def keyF1 : Nat := 0x11 + flagExt
def keyF2 : Nat := 0x12 + flagExt
def keyF3 : Nat := 0x13 + flagExt
def keyF4 : Nat := 0x14 + flagExt
def keyF5 : Nat := 0x15 + flagExt
def keyF6 : Nat := 0x16 + flagExt
def keyF7 : Nat := 0x17 + flagExt
def keyF8 : Nat := 0x18 + flagExt
def keyF9 : Nat := 0x19 + flagExt
def keyF10 : Nat := 0x1A + flagExt
def keyF11 : Nat := 0x1B + flagExt
def keyF12 : Nat := 0x1C + flagExt
def keyPrintScreen : Nat := 0x1D + flagExt
def keyPauseBreak : Nat := 0x1E + flagExt
def keyInsert : Nat := 0x1F + flagExt
def keyDelete : Nat := 0x20 + flagExt
def keyHome : Nat := 0x21 + flagExt
def keyEnd : Nat := 0x22 + flagExt
def keyPageUp : Nat := 0x23 + flagExt
def keyPageDown : Nat := 0x24 + flagExt
def keyUp : Nat := 0x25 + flagExt
def keyDown : Nat := 0x26 + flagExt
def keyLeft : Nat := 0x27 + flagExt
def keyRight : Nat := 0x28 + flagExt
def padSlash : Nat := 0x2C + flagExt
def padStar : Nat := 0x2D + flagExt
def padMinus : Nat := 0x2E + flagExt
def padPlus : Nat := 0x2F + flagExt
def padEnter : Nat := 0x30 + flagExt
def padDot : Nat := 0x31 + flagExt
def pad0 : Nat := 0x32 + flagExt
def pad1 : Nat := 0x33 + flagExt
def pad2 : Nat := 0x34 + flagExt
def pad3 : Nat := 0x35 + flagExt
def pad4 : Nat := 0x36 + flagExt
def pad5 : Nat := 0x37 + flagExt
def pad6 : Nat := 0x38 + flagExt
def pad7 : Nat := 0x39 + flagExt
def pad8 : Nat := 0x3A + flagExt
def pad9 : Nat := 0x3B + flagExt
def padUp : Nat := pad8
def padDown : Nat := pad2
def padLeft : Nat := pad4
def padRight : Nat := pad6
def padHome : Nat := pad7
def padEnd : Nat := pad1
def padPageUp : Nat := pad9
def padPageDown : Nat := pad3
def padIns : Nat := pad0
def padMid : Nat := pad5

end Konix.Terminal
