import Konix.Fs.Inode

set_option autoImplicit false

namespace Konix.Fs

open Splice

structure Rdwt where
  type : MsgType
  src : Int
  buf : Nat
  desc : Nat
  dev : Nat
  chunk : Int
  rwSectMax : Int

structure RdwtVars where
  off : Int
  bytesRw : Int
  bytesLeft : Int
deriving DecidableEq, Repr

def rdwtChunk (c : Rdwt) (i : Int) (v : RdwtVars) (s : State) : Except Stop (RdwtVars × State) := do
  let bytes := min v.bytesLeft (c.chunk * sectorSize - v.off)
  -- `i * SECTOR_SIZE` overflows from sector 2^22 on
  assertThat (i * sectorSize < 2147483648) .overflow
  let pos := (i * sectorSize).toNat
  let size := (c.chunk * sectorSize).toNat
  let s ← s.rwSector .devRead c.dev pos size
  let s ← if c.type = .read then
      s.copyToUser c.src (c.buf + v.bytesRw.toNat) v.off.toNat bytes
    else do
      let s ← s.copyFromUser c.src (c.buf + v.bytesRw.toNat) v.off.toNat bytes
      s.rwSector .devWrite c.dev pos size
  let desc := s.fDescTable c.desc
  let s := s.setFileDesc c.desc { desc with fdPos := desc.fdPos + bytes }
  return (⟨0, v.bytesRw + bytes, v.bytesLeft - bytes⟩, s)

-- `for (i = rw_sect_min; i <= rw_sect_max; i += chunk)`
def rdwtLoop (c : Rdwt) : Nat → Int → RdwtVars → State → Except Stop (RdwtVars × State)
  | 0, i, v, s => if i ≤ c.rwSectMax then .error .diverges else .ok (v, s)
  | fuel + 1, i, v, s =>
    if i ≤ c.rwSectMax then do
      let (v, s) ← rdwtChunk c i v s
      rdwtLoop c fuel (i + c.chunk) v s
    else .ok (v, s)

-- The end of the range to transfer; `min` compares as unsigned, `i_size` being a `u32`.
def posEnd (type : MsgType) (pos len : Int) (inode : Inode) : Int :=
  if type = .read then i32 (min (u32 (pos + len)) inode.iSize)
  else i32 (min (u32 (pos + len)) (u32 (inode.iNrSects * sectorSize)))

-- The file has grown: the new size goes to the inode and to the disk.
def updateSize (s : State) (d p : Nat) (bytesRw : Int) : Except Stop (Int × State) :=
  if u32 (s.fDescTable d).fdPos > (s.inodeTable p).iSize then do
    let s := s.setInode p { s.inodeTable p with iSize := u32 (s.fDescTable d).fdPos }
    let s ← syncInode s p
    return (bytesRw, s)
  else return (bytesRw, s)

def rdwtFile (s : State) (d p : Nat) : Except Stop (Int × State) := do
  let len := s.fsMsg.cnt
  let pos := (s.fDescTable d).fdPos
  let pin := s.inodeTable p
  assertThat (pin.iMode = iRegular ∨ pin.iMode = iDirectory) .assertion
  assertThat (s.fsMsg.type = .read ∨ s.fsMsg.type = .write) .assertion
  let off := pos % sectorSize
  let rwSectMin := pin.iStartSect + pos / sectorSize
  let rwSectMax := pin.iStartSect + posEnd s.fsMsg.type pos len pin / sectorSize
  let chunk := min (rwSectMax - rwSectMin + 1) (fsbufSize / sectorSize : Nat)
  let c : Rdwt := ⟨s.fsMsg.type, s.fsMsg.source, s.fsMsg.buf, d, pin.iDev, chunk, rwSectMax⟩
  let (v, s) ← rdwtLoop c (rwSectMax - rwSectMin + 1).toNat rwSectMin ⟨off, 0, len⟩ s
  updateSize s d p v.bytesRw

-- Reading and writing a character device is left to its driver, whose reply overwrites `fs_msg`.
def rdwtCharDev (driver : Message → Message) (s : State) (p : Nat) : Except Stop (Int × State) := do
  let dev := (s.inodeTable p).iStartSect
  let len := s.fsMsg.cnt
  assertThat (major dev = 4) .assertion
  assertThat (ddMap (major dev) ≠ invalidDriver) .assertion
  let request := { s.fsMsg with
    type := if s.fsMsg.type = .read then .devRead else .devWrite
    m3i4 := minor dev
    m3i3 := s.fsMsg.source }
  let reply := driver request
  assertThat (reply.cnt = len) .assertion
  return (reply.cnt, { s with fsMsg := reply })

def doRdwt (driver : Message → Message) (s : State) : Except Stop (Int × State) := do
  match ← s.filpOf s.fsMsg.source s.fsMsg.fd with
  | none => .error .assertion
  | some d => do
    assertThat (d < nrFileDesc) .assertion
    if (s.fDescTable d).fdMode &&& oRdwr = 0 then return (-1, s)
    else match (s.fDescTable d).fdInode with
      | none => .error .assertion
      | some p => do
        assertThat (p < nrInode) .assertion
        if (s.inodeTable p).iMode &&& iTypeMask = iCharSpecial then rdwtCharDev driver s p
        else rdwtFile s d p

end Konix.Fs
