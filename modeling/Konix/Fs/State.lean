import Konix.Const
import Konix.Lib.Words

set_option autoImplicit false

namespace Konix.Fs

open Splice Words

-- `struct inode`: four words on the disk, three more fields in memory.
structure Inode where
  iMode : Nat
  iSize : Nat
  iStartSect : Nat
  iNrSects : Nat
  iDev : Nat
  iCnt : Int
  iNum : Nat
deriving DecidableEq, Repr

structure FileDesc where
  fdMode : Nat
  fdPos : Int
  fdCnt : Int
  fdInode : Option Nat
deriving DecidableEq, Repr

structure SuperBlock where
  magic : Nat
  nrInodes : Nat
  nrSects : Nat
  nrImapSects : Nat
  nrSmapSects : Nat
  n1stSect : Nat
  nrInodeSects : Nat
  rootInode : Nat
  inodeSize : Nat
  inodeIsizeOff : Nat
  inodeStartOff : Nat
  dirEntSize : Nat
  dirEntInodeOff : Nat
  dirEntFnameOff : Nat
  sbDev : Nat
deriving DecidableEq, Repr

-- What ends a request before it is answered: a failed assertion, a panic, an access outside
-- the object it is made to (null pointers and negative sizes included), a product of `int`s
-- that overflows, for which C has no result, or a loop that does not end.
inductive Stop
  | assertion
  | smapBitBusy
  | panic
  | outOfBounds
  | overflow
  | diverges
deriving DecidableEq, Repr

structure State where
  disk : Nat → UInt8
  fsbuf : Nat → UInt8
  inodeTable : Nat → Inode
  fDescTable : Nat → FileDesc
  superBlock : Nat → SuperBlock
  rootInode : Nat
  filp : Int → Nat → Option Nat
  userMem : Int → Nat → UInt8
  fsMsg : Message
  -- every message sent to the disk driver, oldest first
  driverMsgs : List Message

def assertThat (holds : Bool) (stop : Stop) : Except Stop Unit :=
  if holds then .ok () else .error stop

@[simp] theorem assertThat_true (stop : Stop) : assertThat true stop = .ok () := rfl
@[simp] theorem assertThat_false (stop : Stop) : assertThat false stop = .error stop := rfl

theorem assertThat_ok {holds : Bool} {stop : Stop} {u : Unit} :
    assertThat holds stop = .ok u ↔ holds = true := by
  cases holds <;> simp [assertThat]

namespace State

-- The message `rw_sector()` sends to the driver of the device.
def driverMsg (ioType : MsgType) (dev pos bytes : Nat) : Message :=
  { resetMsg with
    type := ioType
    m3i4 := minor dev
    m3l1 := pos
    m3i2 := bytes
    m3i3 := taskFs }

-- The driver moves exactly the bytes asked for between the disk and `fsbuf`.
def transfer (s : State) (ioType : MsgType) (dev pos bytes : Nat) : State :=
  let s := { s with driverMsgs := s.driverMsgs ++ [driverMsg ioType dev pos bytes] }
  if ioType = .devRead then { s with fsbuf := splice s.fsbuf 0 bytes (window s.disk pos) }
  else { s with disk := splice s.disk pos bytes s.fsbuf }

def rwSector (s : State) (ioType : MsgType) (dev pos bytes : Nat) : Except Stop State := do
  assertThat (ddMap (major dev) ≠ invalidDriver) .assertion
  return s.transfer ioType dev pos bytes

-- The product is an `int` in `RD_SECT` and `WR_SECT`. The superblock, the maps, the inode array and
-- the directory that `mkfs()` makes all lie below sector 2^22, where it does not overflow.
def rdSect (s : State) (dev sect : Nat) : Except Stop State :=
  s.rwSector .devRead dev (sect * sectorSize) sectorSize

def wrSect (s : State) (dev sect : Nat) : Except Stop State :=
  s.rwSector .devWrite dev (sect * sectorSize) sectorSize

def setInode (s : State) (p : Nat) (inode : Inode) : State :=
  { s with inodeTable := Function.update s.inodeTable p inode }

def setFileDesc (s : State) (d : Nat) (desc : FileDesc) : State :=
  { s with fDescTable := Function.update s.fDescTable d desc }

-- `phys_copy()` from and to the memory of process `src`; a negative size runs away.
def copyFromUser (s : State) (src : Int) (va off : Nat) (bytes : Int) : Except Stop State :=
  if bytes < 0 then .error .outOfBounds
  else .ok { s with fsbuf := splice s.fsbuf off bytes.toNat (window (s.userMem src) va) }

def copyToUser (s : State) (src : Int) (va off : Nat) (bytes : Int) : Except Stop State :=
  if bytes < 0 then .error .outOfBounds
  else .ok { s with
    userMem := Function.update s.userMem src
      (splice (s.userMem src) va bytes.toNat (window s.fsbuf off)) }

-- `pcaller->filp[fd]`
def filpOf (s : State) (src fd : Int) : Except Stop (Option Nat) :=
  if 0 ≤ fd ∧ fd < nrFiles then .ok (s.filp src fd.toNat) else .error .outOfBounds

theorem rwSector_rootDev (s : State) (io : MsgType) (pos bytes : Nat) :
    s.rwSector io rootDev pos bytes = .ok (s.transfer io rootDev pos bytes) := by
  have driven : decide (ddMap (major rootDev) ≠ invalidDriver) = true := by decide
  simp only [State.rwSector, driven, assertThat_true]
  rfl

theorem rdSect_rootDev (s : State) (sect : Nat) :
    s.rdSect rootDev sect =
      .ok (s.transfer .devRead rootDev (sect * sectorSize) sectorSize) :=
  s.rwSector_rootDev ..

theorem wrSect_rootDev (s : State) (sect : Nat) :
    s.wrSect rootDev sect =
      .ok (s.transfer .devWrite rootDev (sect * sectorSize) sectorSize) :=
  s.rwSector_rootDev ..

end State

end Konix.Fs
