import Konix.Fs.State

set_option autoImplicit false

namespace Konix.Fs

open Splice Words

-- The first slot of `super_block[]` that belongs to the device.
def findSuperBlock (table : Nat → SuperBlock) (dev : Nat) : Nat → Nat → Option SuperBlock
  | 0, _ => none
  | fuel + 1, i =>
    if (table i).sbDev = dev then some (table i) else findSuperBlock table dev fuel (i + 1)

def getSuperBlock (s : State) (dev : Nat) : Except Stop SuperBlock :=
  match findSuperBlock s.superBlock dev nrSuperBlock 0 with
  | some sb => .ok sb
  | none => .error .panic

-- The block of the inode array that holds inode `num`, and its offset there.
def inodeBlk (sb : SuperBlock) (num : Nat) : Nat :=
  1 + 1 + sb.nrImapSects + sb.nrSmapSects + (num - 1) / (sectorSize / inodeSize)

def inodeOff (num : Nat) : Nat := (num - 1) % (sectorSize / inodeSize) * inodeSize

-- The cached slot of an inode, or the first free slot.
inductive Slot
  | cached (p : Nat)
  | free (q : Nat)
  | full
deriving DecidableEq, Repr

def findSlot (table : Nat → Inode) (dev num : Nat) : Nat → Nat → Option Nat → Slot
  | 0, _, none => .full
  | 0, _, some q => .free q
  | fuel + 1, p, q =>
    if (table p).iCnt ≠ 0 then
      if (table p).iDev = dev ∧ (table p).iNum = num then .cached p
      else findSlot table dev num fuel (p + 1) q
    else findSlot table dev num fuel (p + 1) (q.orElse fun _ => some p)

def loadInode (old : Inode) (dev num : Nat) (buf : Nat → UInt8) (off : Nat) : Inode :=
  { old with
    iDev := dev
    iNum := num
    iCnt := 1
    iMode := wordAt buf off
    iSize := wordAt buf (off + 4)
    iStartSect := wordAt buf (off + 8)
    iNrSects := wordAt buf (off + 12) }

-- `get_inode()`: the index of a slot of `inode_table[]`, `none` for the null pointer.
def getInode (s : State) (dev num : Nat) : Except Stop (Option Nat × State) :=
  if num = 0 then .ok (none, s)
  else
    match findSlot s.inodeTable dev num nrInode 0 none with
    | .cached p =>
      .ok (some p, s.setInode p { s.inodeTable p with iCnt := (s.inodeTable p).iCnt + 1 })
    | .full => .error .panic
    | .free q => do
      let sb ← getSuperBlock s dev
      -- a negative inode number would address memory in front of `fsbuf`
      assertThat (num < 2147483648) .outOfBounds
      let s ← s.rdSect dev (inodeBlk sb num)
      .ok (some q, s.setInode q (loadInode (s.inodeTable q) dev num s.fsbuf (inodeOff num)))

def putInode (s : State) (p : Nat) : Except Stop State := do
  assertThat ((s.inodeTable p).iCnt > 0) .assertion
  .ok (s.setInode p { s.inodeTable p with iCnt := (s.inodeTable p).iCnt - 1 })

def storeInode (buf : Nat → UInt8) (off : Nat) (inode : Inode) : Nat → UInt8 :=
  putWord (putWord (putWord (putWord buf off inode.iMode) (off + 4) inode.iSize)
    (off + 8) inode.iStartSect) (off + 12) inode.iNrSects

def syncInode (s : State) (p : Nat) : Except Stop State := do
  let inode := s.inodeTable p
  let sb ← getSuperBlock s inode.iDev
  let s ← s.rdSect inode.iDev (inodeBlk sb inode.iNum)
  let s := { s with fsbuf := storeInode s.fsbuf (inodeOff inode.iNum) inode }
  s.wrSect inode.iDev (inodeBlk sb inode.iNum)

def recordPos (sb : SuperBlock) (num : Nat) : Nat := inodeBlk sb num * sectorSize + inodeOff num

theorem inodeOff_fits (num : Nat) : inodeOff num + inodeSize ≤ sectorSize := by
  simp only [inodeOff, inodeSize, sectorSize]
  omega

theorem storeInode_outside (f : Nat → UInt8) {off b : Nat} (inode : Inode)
    (out : b < off ∨ off + 16 ≤ b) : storeInode f off inode b = f b := by
  unfold storeInode
  rw [putWord_outside _ _ (by omega), putWord_outside _ _ (by omega),
    putWord_outside _ _ (by omega), putWord_outside _ _ (by omega)]

theorem storeInode_size (f : Nat → UInt8) (off : Nat) (inode : Inode) :
    wordAt (storeInode f off inode) (off + 4) = inode.iSize % 2 ^ 32 := by
  unfold storeInode
  rw [wordAt_putWord_outside _ _ (by omega), wordAt_putWord_outside _ _ (by omega),
    wordAt_putWord]

theorem splice_storeInode (f buf : Nat → UInt8) (start off : Nat) (inode : Inode)
    (fits : off + 16 ≤ sectorSize) :
    splice f start sectorSize (storeInode (splice buf 0 sectorSize (window f start)) off inode) =
      storeInode f (start + off) inode := by
  unfold storeInode putWord
  rw [splice_inner _ _ _ (by omega), splice_inner _ _ _ (by omega), splice_inner _ _ _ (by omega),
    splice_inner _ _ _ (by omega), splice_readBack]
  simp only [Nat.add_assoc]

-- `sync_inode()` rewrites the four words of the inode's record and no other byte of the disk.
def State.synced (s : State) (sb : SuperBlock) (inode : Inode) : State :=
  let pos := inodeBlk sb inode.iNum * sectorSize
  { s with
    disk := storeInode s.disk (recordPos sb inode.iNum) inode
    fsbuf := storeInode (splice s.fsbuf 0 sectorSize (window s.disk pos))
      (inodeOff inode.iNum) inode
    driverMsgs := s.driverMsgs ++
      [State.driverMsg .devRead rootDev pos sectorSize,
        State.driverMsg .devWrite rootDev pos sectorSize] }

theorem syncInode_eq (s : State) (p : Nat) (sb : SuperBlock)
    (dev : (s.inodeTable p).iDev = rootDev) (super : getSuperBlock s rootDev = .ok sb) :
    syncInode s p = .ok (s.synced sb (s.inodeTable p)) := by
  have fits := inodeOff_fits (s.inodeTable p).iNum
  simp only [inodeSize] at fits
  have merge := splice_storeInode s.disk s.fsbuf (inodeBlk sb (s.inodeTable p).iNum * sectorSize)
    (inodeOff (s.inodeTable p).iNum) (s.inodeTable p) (by omega)
  simp only [syncInode, dev, super, State.rdSect_rootDev, State.wrSect_rootDev, bind, Except.bind,
    State.transfer, State.synced, recordPos, if_true, reduceCtorEq, if_false, merge,
    List.append_assoc, List.cons_append, List.nil_append]

end Konix.Fs
