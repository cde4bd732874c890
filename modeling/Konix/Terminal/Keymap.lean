import Konix.Terminal.Keys

set_option autoImplicit false

namespace Konix.Terminal

def mapCols : Nat := 3

-- `keymap[]`: a row for a scan code, with what its key is alone, with shift and behind `E0`;
-- the last 34 rows hold no keys.
def keymap : List Nat := [
  0, 0, 0,
  keyEsc, keyEsc, 0,
  '1'.toNat, '!'.toNat, 0,
  '2'.toNat, '@'.toNat, 0,
  '3'.toNat, '#'.toNat, 0,
  '4'.toNat, '$'.toNat, 0,
  '5'.toNat, '%'.toNat, 0,
  '6'.toNat, '^'.toNat, 0,
  '7'.toNat, '&'.toNat, 0,
  '8'.toNat, '*'.toNat, 0,
  '9'.toNat, '('.toNat, 0,
  '0'.toNat, ')'.toNat, 0,
  '-'.toNat, '_'.toNat, 0,
  '='.toNat, '+'.toNat, 0,
  keyBackspace, keyBackspace, 0,
  keyTab, keyTab, 0,
  'q'.toNat, 'Q'.toNat, 0,
  'w'.toNat, 'W'.toNat, 0,
  'e'.toNat, 'E'.toNat, 0,
  'r'.toNat, 'R'.toNat, 0,
  't'.toNat, 'T'.toNat, 0,
  'y'.toNat, 'Y'.toNat, 0,
  'u'.toNat, 'U'.toNat, 0,
  'i'.toNat, 'I'.toNat, 0,
  'o'.toNat, 'O'.toNat, 0,
  'p'.toNat, 'P'.toNat, 0,
  91, 123, 0,  -- opening bracket, opening brace
  93, 125, 0,  -- closing bracket, closing brace
  keyEnter, keyEnter, padEnter,
  keyCtrlL, keyCtrlL, keyCtrlR,
  'a'.toNat, 'A'.toNat, 0,
  's'.toNat, 'S'.toNat, 0,
  'd'.toNat, 'D'.toNat, 0,
  'f'.toNat, 'F'.toNat, 0,
  'g'.toNat, 'G'.toNat, 0,
  'h'.toNat, 'H'.toNat, 0,
  'j'.toNat, 'J'.toNat, 0,
  'k'.toNat, 'K'.toNat, 0,
  'l'.toNat, 'L'.toNat, 0,
  ';'.toNat, ':'.toNat, 0,
  39, 34, 0,  -- apostrophe, double quote
  96, '~'.toNat, 0,  -- grave accent
  keyShiftL, keyShiftL, 0,
  92, '|'.toNat, 0,  -- backslash
  'z'.toNat, 'Z'.toNat, 0,
  'x'.toNat, 'X'.toNat, 0,
  'c'.toNat, 'C'.toNat, 0,
  'v'.toNat, 'V'.toNat, 0,
  'b'.toNat, 'B'.toNat, 0,
  'n'.toNat, 'N'.toNat, 0,
  'm'.toNat, 'M'.toNat, 0,
  ','.toNat, '<'.toNat, 0,
  '.'.toNat, '>'.toNat, 0,
  '/'.toNat, '?'.toNat, padSlash,
  keyShiftR, keyShiftR, 0,
  '*'.toNat, '*'.toNat, 0,
  keyAltL, keyAltL, keyAltR,
  ' '.toNat, ' '.toNat, 0,
  keyCapsLock, keyCapsLock, 0,
  keyF1, keyF1, 0,
  keyF2, keyF2, 0,
  keyF3, keyF3, 0,
  keyF4, keyF4, 0,
  keyF5, keyF5, 0,
  keyF6, keyF6, 0,
  keyF7, keyF7, 0,
  keyF8, keyF8, 0,
  keyF9, keyF9, 0,
  keyF10, keyF10, 0,
  keyNumLock, keyNumLock, 0,
  keyScrollLock, keyScrollLock, 0,
  padHome, '7'.toNat, keyHome,
  padUp, '8'.toNat, keyUp,
  padPageUp, '9'.toNat, keyPageUp,
  padMinus, '-'.toNat, 0,
  padLeft, '4'.toNat, keyLeft,
  padMid, '5'.toNat, 0,
  padRight, '6'.toNat, keyRight,
  padPlus, '+'.toNat, 0,
  padEnd, '1'.toNat, keyEnd,
  padDown, '2'.toNat, keyDown,
  padPageDown, '3'.toNat, keyPageDown,
  padIns, '0'.toNat, keyInsert,
  padDot, '.'.toNat, keyDelete,
  0, 0, 0,
  0, 0, 0,
  0, 0, 0,
  keyF11, keyF11, 0,
  keyF12, keyF12, 0,
  0, 0, 0,
  0, 0, 0,
  0, 0, keyGuiL,
  0, 0, keyGuiR,
  0, 0, keyApps] ++ List.replicate (34 * mapCols) 0

def keyrow (scanCode : UInt8) (column : Nat) : Nat :=
  keymap.getD ((scanCode &&& 0x7F).toNat * mapCols + column) 0

-- The keys of the list of scan codes.
inductive Key
  | A | B | C | D | E | F | G | H | I | J | K | L | M | N | O | P | Q | R | S | T | U | V | W
  | X | Y | Z | n0 | n1 | n2 | n3 | n4 | n5 | n6 | n7 | n8 | n9 | backquote | minus | equal
  | backslash | bksp | space | tab | caps | lShft | lCtrl | lGui | lAlt | rShft | rCtrl | rGui
  | rAlt | apps | enter | esc | f1 | f2 | f3 | f4 | f5 | f6 | f7 | f8 | f9 | f10 | f11 | f12
  | prtscrn | scroll | pause | bracketL | insert | home | pgUp | delete | end_ | pgDn | uArrow
  | lArrow | dArrow | rArrow | num | kpSlash | kpStar | kpMinus | kpPlus | kpEn | kpDot | kp0
  | kp1 | kp2 | kp3 | kp4 | kp5 | kp6 | kp7 | kp8 | kp9 | bracketR | semicolon | quote | comma
  | dot | slash | power | sleep | wake | nextTrack | previousTrack | stop | playPause | mute
  | volumeUp | volumeDown | mediaSelect | eMail | calculator | myComputer | wwwSearch | wwwHome
  | wwwBack | wwwForward | wwwStop | wwwRefresh | wwwFavorites
deriving DecidableEq, Repr

namespace Key

def makeCode : Key → List UInt8
  | .A => [0x1E]
  | .B => [0x30]
  | .C => [0x2E]
  | .D => [0x20]
  | .E => [0x12]
  | .F => [0x21]
  | .G => [0x22]
  | .H => [0x23]
  | .I => [0x17]
  | .J => [0x24]
  | .K => [0x25]
  | .L => [0x26]
  | .M => [0x32]
  | .N => [0x31]
  | .O => [0x18]
  | .P => [0x19]
  | .Q => [0x10]
  | .R => [0x13]
  | .S => [0x1F]
  | .T => [0x14]
  | .U => [0x16]
  | .V => [0x2F]
  | .W => [0x11]
  | .X => [0x2D]
  | .Y => [0x15]
  | .Z => [0x2C]
  | .n0 => [0x0B]
  | .n1 => [0x02]
  | .n2 => [0x03]
  | .n3 => [0x04]
  | .n4 => [0x05]
  | .n5 => [0x06]
  | .n6 => [0x07]
  | .n7 => [0x08]
  | .n8 => [0x09]
  | .n9 => [0x0A]
  | .backquote => [0x29]
  | .minus => [0x0C]
  | .equal => [0x0D]
  | .backslash => [0x2B]
  | .bksp => [0x0E]
  | .space => [0x39]
  | .tab => [0x0F]
  | .caps => [0x3A]
  | .lShft => [0x2A]
  | .lCtrl => [0x1D]
  | .lGui => [0xE0, 0x5B]
  | .lAlt => [0x38]
  | .rShft => [0x36]
  | .rCtrl => [0xE0, 0x1D]
  | .rGui => [0xE0, 0x5C]
  | .rAlt => [0xE0, 0x38]
  | .apps => [0xE0, 0x5D]
  | .enter => [0x1C]
  | .esc => [0x01]
  | .f1 => [0x3B]
  | .f2 => [0x3C]
  | .f3 => [0x3D]
  | .f4 => [0x3E]
  | .f5 => [0x3F]
  | .f6 => [0x40]
  | .f7 => [0x41]
  | .f8 => [0x42]
  | .f9 => [0x43]
  | .f10 => [0x44]
  | .f11 => [0x57]
  | .f12 => [0x58]
  | .prtscrn => [0xE0, 0x2A, 0xE0, 0x37]
  | .scroll => [0x46]
  | .pause => [0xE1, 0x1D, 0x45, 0xE1, 0x9D, 0xC5]
  | .bracketL => [0x1A]
  | .insert => [0xE0, 0x52]
  | .home => [0xE0, 0x47]
  | .pgUp => [0xE0, 0x49]
  | .delete => [0xE0, 0x53]
  | .end_ => [0xE0, 0x4F]
  | .pgDn => [0xE0, 0x51]
  | .uArrow => [0xE0, 0x48]
  | .lArrow => [0xE0, 0x4B]
  | .dArrow => [0xE0, 0x50]
  | .rArrow => [0xE0, 0x4D]
  | .num => [0x45]
  | .kpSlash => [0xE0, 0x35]
  | .kpStar => [0x37]
  | .kpMinus => [0x4A]
  | .kpPlus => [0x4E]
  | .kpEn => [0xE0, 0x1C]
  | .kpDot => [0x53]
  | .kp0 => [0x52]
  | .kp1 => [0x4F]
  | .kp2 => [0x50]
  | .kp3 => [0x51]
  | .kp4 => [0x4B]
  | .kp5 => [0x4C]
  | .kp6 => [0x4D]
  | .kp7 => [0x47]
  | .kp8 => [0x48]
  | .kp9 => [0x49]
  | .bracketR => [0x1B]
  | .semicolon => [0x27]
  | .quote => [0x28]
  | .comma => [0x33]
  | .dot => [0x34]
  | .slash => [0x35]
  | .power => [0xE0, 0x5E]
  | .sleep => [0xE0, 0x5F]
  | .wake => [0xE0, 0x63]
  | .nextTrack => [0xE0, 0x19]
  | .previousTrack => [0xE0, 0x10]
  | .stop => [0xE0, 0x24]
  | .playPause => [0xE0, 0x22]
  | .mute => [0xE0, 0x20]
  | .volumeUp => [0xE0, 0x30]
  | .volumeDown => [0xE0, 0x2E]
  | .mediaSelect => [0xE0, 0x6D]
  | .eMail => [0xE0, 0x6C]
  | .calculator => [0xE0, 0x21]
  | .myComputer => [0xE0, 0x6B]
  | .wwwSearch => [0xE0, 0x65]
  | .wwwHome => [0xE0, 0x32]
  | .wwwBack => [0xE0, 0x6A]
  | .wwwForward => [0xE0, 0x69]
  | .wwwStop => [0xE0, 0x68]
  | .wwwRefresh => [0xE0, 0x67]
  | .wwwFavorites => [0xE0, 0x66]

-- A key that is released; `pause` sends nothing then.
def breakCode : Key → List UInt8
  | .A => [0x9E]
  | .B => [0xB0]
  | .C => [0xAE]
  | .D => [0xA0]
  | .E => [0x92]
  | .F => [0xA1]
  | .G => [0xA2]
  | .H => [0xA3]
  | .I => [0x97]
  | .J => [0xA4]
  | .K => [0xA5]
  | .L => [0xA6]
  | .M => [0xB2]
  | .N => [0xB1]
  | .O => [0x98]
  | .P => [0x99]
  | .Q => [0x19]
  | .R => [0x93]
  | .S => [0x9F]
  | .T => [0x94]
  | .U => [0x96]
  | .V => [0xAF]
  | .W => [0x91]
  | .X => [0xAD]
  | .Y => [0x95]
  | .Z => [0xAC]
  | .n0 => [0x8B]
  | .n1 => [0x82]
  | .n2 => [0x83]
  | .n3 => [0x84]
  | .n4 => [0x85]
  | .n5 => [0x86]
  | .n6 => [0x87]
  | .n7 => [0x88]
  | .n8 => [0x89]
  | .n9 => [0x8A]
  | .backquote => [0x89]
  | .minus => [0x8C]
  | .equal => [0x8D]
  | .backslash => [0xAB]
  | .bksp => [0x8E]
  | .space => [0xB9]
  | .tab => [0x8F]
  | .caps => [0xBA]
  | .lShft => [0xAA]
  | .lCtrl => [0x9D]
  | .lGui => [0xE0, 0xDB]
  | .lAlt => [0xB8]
  | .rShft => [0xB6]
  | .rCtrl => [0xE0, 0x9D]
  | .rGui => [0xE0, 0xDC]
  | .rAlt => [0xE0, 0xB8]
  | .apps => [0xE0, 0xDD]
  | .enter => [0x9C]
  | .esc => [0x81]
  | .f1 => [0xBB]
  | .f2 => [0xBC]
  | .f3 => [0xBD]
  | .f4 => [0xBE]
  | .f5 => [0xBF]
  | .f6 => [0xC0]
  | .f7 => [0xC1]
  | .f8 => [0xC2]
  | .f9 => [0xC3]
  | .f10 => [0xC4]
  | .f11 => [0xD7]
  | .f12 => [0xD8]
  | .prtscrn => [0xE0, 0xB7, 0xE0, 0xAA]
  | .scroll => [0xC6]
  | .pause => []
  | .bracketL => [0x9A]
  | .insert => [0xE0, 0xD2]
  | .home => [0xE0, 0xC7]
  | .pgUp => [0xE0, 0xC9]
  | .delete => [0xE0, 0xD3]
  | .end_ => [0xE0, 0xCF]
  | .pgDn => [0xE0, 0xD1]
  | .uArrow => [0xE0, 0xC8]
  | .lArrow => [0xE0, 0xCB]
  | .dArrow => [0xE0, 0xD0]
  | .rArrow => [0xE0, 0xCD]
  | .num => [0xC5]
  | .kpSlash => [0xE0, 0xB5]
  | .kpStar => [0xB7]
  | .kpMinus => [0xCA]
  | .kpPlus => [0xCE]
  | .kpEn => [0xE0, 0x9C]
  | .kpDot => [0xD3]
  | .kp0 => [0xD2]
  | .kp1 => [0xCF]
  | .kp2 => [0xD0]
  | .kp3 => [0xD1]
  | .kp4 => [0xCB]
  | .kp5 => [0xCC]
  | .kp6 => [0xCD]
  | .kp7 => [0xC7]
  | .kp8 => [0xC8]
  | .kp9 => [0xC9]
  | .bracketR => [0x9B]
  | .semicolon => [0xA7]
  | .quote => [0xA8]
  | .comma => [0xB3]
  | .dot => [0xB4]
  | .slash => [0xB5]
  | .power => [0xE0, 0xDE]
  | .sleep => [0xE0, 0xDF]
  | .wake => [0xE0, 0xE3]
  | .nextTrack => [0xE0, 0x99]
  | .previousTrack => [0xE0, 0x90]
  | .stop => [0xE0, 0xA4]
  | .playPause => [0xE0, 0xA2]
  | .mute => [0xE0, 0xA0]
  | .volumeUp => [0xE0, 0xB0]
  | .volumeDown => [0xE0, 0xAE]
  | .mediaSelect => [0xE0, 0xED]
  | .eMail => [0xE0, 0xEC]
  | .calculator => [0xE0, 0xA1]
  | .myComputer => [0xE0, 0xEB]
  | .wwwSearch => [0xE0, 0xE5]
  | .wwwHome => [0xE0, 0xB2]
  | .wwwBack => [0xE0, 0xEA]
  | .wwwForward => [0xE0, 0xE9]
  | .wwwStop => [0xE0, 0xE8]
  | .wwwRefresh => [0xE0, 0xE7]
  | .wwwFavorites => [0xE0, 0xE6]

end Key

end Konix.Terminal
