import Konix.Fs.Transfer

set_option autoImplicit false

namespace Konix.Fs

open Splice Words

/--
The request in `fs_msg` is a READ or WRITE on descriptor `d` of the caller, open on the regular
file or directory cached in slot `p`. The numbers fit the C types that hold them, as they do for
every inode `new_inode()` and `mkfs()` make.
-/
structure OnFile (s : State) (d p : Nat) : Prop where
  fdLower : 0 ≤ s.fsMsg.fd
  fdUpper : s.fsMsg.fd < nrFiles
  filp : s.filp s.fsMsg.source s.fsMsg.fd.toNat = some d
  desc : d < nrFileDesc
  inode : (s.fDescTable d).fdInode = some p
  slot : p < nrInode
  file : (s.inodeTable p).iMode = iRegular ∨ (s.inodeTable p).iMode = iDirectory
  request : s.fsMsg.type = .read ∨ s.fsMsg.type = .write
  dev : (s.inodeTable p).iDev = rootDev
  posLower : 0 ≤ (s.fDescTable d).fdPos
  posUpper : (s.fDescTable d).fdPos < 2147483648
  sizeUpper : (s.inodeTable p).iSize < 2147483648
  sectsUpper : (s.inodeTable p).iNrSects * sectorSize < 2147483648
  startUpper : (s.inodeTable p).iStartSect < 4294967296

-- What bounds a transfer: the size of the file for READ, its sectors for WRITE.
def transferLimit (type : MsgType) (inode : Inode) : Nat :=
  if type = .read then inode.iSize else inode.iNrSects * sectorSize

variable {s : State} {d p : Nat}

theorem OnFile.doRdwt_eq (h : OnFile s d p) (driver : Message → Message) :
    doRdwt driver s =
      if (s.fDescTable d).fdMode &&& oRdwr = 0 then .ok (-1, s) else rdwtFile s d p := by
  have bounds : 0 ≤ s.fsMsg.fd ∧ s.fsMsg.fd < nrFiles := ⟨h.fdLower, h.fdUpper⟩
  have found : s.filpOf s.fsMsg.source s.fsMsg.fd = .ok (some d) := by
    simp [State.filpOf, bounds, h.filp]
  have notChar : (s.inodeTable p).iMode &&& iTypeMask ≠ iCharSpecial := by
    rcases h.file with mode | mode <;> rw [mode] <;> decide
  simp only [doRdwt, found, h.desc, h.inode, h.slot, notChar, bind, Except.bind, decide_true,
    assertThat_true, if_false]
  rfl

theorem posEnd_eq (type : MsgType) {pos len : Int} {inode : Inode} (lower : 0 ≤ pos + len)
    (upper : pos + len < 4294967296) (sizeUpper : inode.iSize < 2147483648)
    (sectsUpper : inode.iNrSects * sectorSize < 2147483648) :
    posEnd type pos len inode = min (pos + len) (transferLimit type inode) := by
  have sum := u32_of_bounds lower upper
  have sects : (u32 (inode.iNrSects * sectorSize : Nat) : Int) =
      (inode.iNrSects * sectorSize : Nat) :=
    u32_of_bounds (by omega) (by omega)
  have sects' : ((inode.iNrSects : Int) * (sectorSize : Nat)) =
      (inode.iNrSects * sectorSize : Nat) := by
    push_cast; rfl
  unfold posEnd transferLimit
  split
  · rw [i32_of_bounds (by omega)]
    omega
  · rw [sects', i32_of_bounds (by omega)]
    omega

theorem OnFile.rdwtFile_eq (h : OnFile s d p) {stop : Int}
    (endEq : posEnd s.fsMsg.type (s.fDescTable d).fdPos s.fsMsg.cnt (s.inodeTable p) = stop) :
    let pos := (s.fDescTable d).fdPos
    let rwSectMin : Int := (s.inodeTable p).iStartSect + pos / sectorSize
    let rwSectMax : Int := (s.inodeTable p).iStartSect + stop / sectorSize
    let c : Rdwt := ⟨s.fsMsg.type, s.fsMsg.source, s.fsMsg.buf, d, rootDev,
      min (rwSectMax - rwSectMin + 1) (fsbufSize / sectorSize : Nat), rwSectMax⟩
    rdwtFile s d p = (do
      let (v, s') ← rdwtLoop c (rwSectMax - rwSectMin + 1).toNat rwSectMin
        ⟨pos % sectorSize, 0, s.fsMsg.cnt⟩ s
      updateSize s' d p v.bytesRw) := by
  intro pos rwSectMin rwSectMax c
  have request : decide (s.fsMsg.type = .read ∨ s.fsMsg.type = .write) = true := by
    simpa using h.request
  have file : decide ((s.inodeTable p).iMode = iRegular ∨ (s.inodeTable p).iMode = iDirectory) =
      true := by simpa using h.file
  simp only [rdwtFile, endEq, request, file, h.dev, assertThat_true, bind, Except.bind]
  rfl

-- The sectors of a transfer and its loop over them, in natural numbers.
structure FileRange (s : State) (d p : Nat) (c : Rdwt) (n first last off len : Nat) : Prop where
  type : c.type = s.fsMsg.type
  src : c.src = s.fsMsg.source
  buf : c.buf = s.fsMsg.buf
  desc : c.desc = d
  dev : c.dev = rootDev
  chunk : c.chunk = n
  max : c.rwSectMax = last
  positive : 0 < n
  offBound : off ≤ n * sectorSize
  count : s.fsMsg.cnt = len
  place : first * sectorSize + off =
    (s.inodeTable p).iStartSect * sectorSize + (s.fDescTable d).fdPos.toNat
  end_ : last = (s.inodeTable p).iStartSect + (min ((s.fDescTable d).fdPos + s.fsMsg.cnt)
    (transferLimit s.fsMsg.type (s.inodeTable p))).toNat / sectorSize
  loop : rdwtFile s d p = (do
    let (v, s') ← rdwtLoop c (last + 1 - first) first ⟨off, (0 : Nat), len⟩ s
    updateSize s' d p v.bytesRw)

theorem OnFile.fileRange (h : OnFile s d p) (lenLower : 0 ≤ s.fsMsg.cnt)
    (lenUpper : s.fsMsg.cnt < 2147483648)
    (within : (s.fDescTable d).fdPos ≤ transferLimit s.fsMsg.type (s.inodeTable p)) :
    ∃ c n first last off len, FileRange s d p c n first last off len := by
  have posLower := h.posLower
  have posUpper := h.posUpper
  have sumLower : 0 ≤ (s.fDescTable d).fdPos + s.fsMsg.cnt := by omega
  have sumUpper : (s.fDescTable d).fdPos + s.fsMsg.cnt < 4294967296 := by omega
  have endEq := posEnd_eq s.fsMsg.type sumLower sumUpper h.sizeUpper h.sectsUpper
  have fileEq := h.rdwtFile_eq endEq
  obtain ⟨pos, posEq⟩ := Int.eq_ofNat_of_zero_le posLower
  obtain ⟨len, lenEq⟩ := Int.eq_ofNat_of_zero_le lenLower
  generalize hlimit : transferLimit s.fsMsg.type (s.inodeTable p) = limit at fileEq within
  obtain ⟨stop, stopEq⟩ : ∃ stop : Nat,
      min ((s.fDescTable d).fdPos + s.fsMsg.cnt) limit = stop :=
    ⟨(min ((s.fDescTable d).fdPos + s.fsMsg.cnt) limit).toNat, by omega⟩
  have startEq (k : Nat) : ((s.inodeTable p).iStartSect : Int) + (k : Int) / (sectorSize : Nat) =
      ((s.inodeTable p).iStartSect + k / sectorSize : Nat) := by push_cast; rfl
  have offEq : (pos : Int) % (sectorSize : Nat) = (pos % sectorSize : Nat) := by push_cast; rfl
  have later : pos / sectorSize ≤ stop / sectorSize := Nat.div_le_div_right (by omega)
  rw [stopEq] at fileEq
  rw [posEq, lenEq] at fileEq
  simp only [startEq, offEq] at fileEq
  generalize hfirst : (s.inodeTable p).iStartSect + pos / sectorSize = first at fileEq
  generalize hlast : (s.inodeTable p).iStartSect + stop / sectorSize = last at fileEq
  have sects : ((last : Int) - first + 1).toNat = last + 1 - first := by omega
  have chunkEq : min ((last : Int) - first + 1) (fsbufSize / sectorSize : Nat) =
      (min (last - first + 1) (fsbufSize / sectorSize) : Nat) := by omega
  rw [sects, chunkEq] at fileEq
  exact ⟨_, _, first, last, pos % sectorSize, len, {
    type := rfl
    src := rfl
    buf := rfl
    desc := rfl
    dev := rfl
    chunk := rfl
    max := rfl
    positive := by
      simp only [fsbufSize, sectorSize]
      omega
    offBound := by
      simp only [fsbufSize, sectorSize]
      omega
    count := lenEq
    place := by
      rw [posEq, ← hfirst]
      simp only [sectorSize, Int.toNat_natCast]
      omega
    end_ := by
      rw [hlimit, stopEq, Int.toNat_natCast, hlast]
    loop := fileEq }⟩

/--
The whole transfer: `t` bytes are moved at the file position, where `t` is at most the length
asked for and reaches at least to the end of the sector in which the clamped range ends.
-/
structure FileMoved (s : State) (d p t : Nat) (s' : State) : Prop where
  moved : ∃ c n, c.type = s.fsMsg.type ∧ c.src = s.fsMsg.source ∧ c.buf = s.fsMsg.buf ∧
    c.desc = d ∧
    Moved c n ((s.inodeTable p).iStartSect * sectorSize + (s.fDescTable d).fdPos.toNat) 0 t s s'
  atMost : (t : Int) ≤ s.fsMsg.cnt
  covers : min s.fsMsg.cnt ((min ((s.fDescTable d).fdPos + s.fsMsg.cnt)
    (transferLimit s.fsMsg.type (s.inodeTable p)) / sectorSize + 1) * sectorSize -
      (s.fDescTable d).fdPos) ≤ t

theorem FileRange.fileMoved {c : Rdwt} {n first last off len : Nat} {v : RdwtVars} {s' : State}
    (range : FileRange s d p c n first last off len) (lower : 0 ≤ (s.fDescTable d).fdPos)
    (ran : rdwtLoop c (last + 1 - first) first ⟨off, (0 : Nat), len⟩ s = .ok (v, s')) :
    ∃ t : Nat, v.bytesRw = t ∧ FileMoved s d p t s' := by
  have looped := rdwtLoop_looped c n last (last + 1 - first) first off 0 len s range.chunk range.max
    range.dev range.offBound ran
  have atMost := movedBytes_le n last (last + 1 - first) first off len
  have covers := movedBytes_covers n last (last + 1 - first) first off len range.positive
    (le_refl _)
  obtain ⟨total, moved, -⟩ := looped
  generalize movedBytes n last (last + 1 - first) first off len = t at *
  rw [range.place] at moved
  have count := range.count
  have place := range.place
  have end_ := range.end_
  refine ⟨t, by rw [total, Nat.zero_add],
    ⟨c, n, range.type, range.src, range.buf, range.desc, moved⟩, by omega, ?_⟩
  simp only [sectorSize] at covers place end_ ⊢
  omega

theorem OnFile.rdwtFile_moved (h : OnFile s d p) (lenLower : 0 ≤ s.fsMsg.cnt)
    (lenUpper : s.fsMsg.cnt < 2147483648)
    (within : (s.fDescTable d).fdPos ≤ transferLimit s.fsMsg.type (s.inodeTable p))
    (inRange : (s.inodeTable p).iStartSect * sectorSize +
      transferLimit s.fsMsg.type (s.inodeTable p) < 2147483648) :
    ∃ t s', FileMoved s d p t s' ∧ rdwtFile s d p = updateSize s' d p t := by
  obtain ⟨c, n, first, last, off, len, range⟩ := h.fileRange lenLower lenUpper within
  have lastLe : last * sectorSize ≤ (s.inodeTable p).iStartSect * sectorSize +
      transferLimit s.fsMsg.type (s.inodeTable p) := by
    rw [range.end_, Nat.add_mul]
    have down := Nat.div_mul_le_self (min ((s.fDescTable d).fdPos + s.fsMsg.cnt)
      (transferLimit s.fsMsg.type (s.inodeTable p))).toNat sectorSize
    omega
  obtain ⟨v, s', ran⟩ := rdwtLoop_ends c n last (last + 1 - first) first off 0 len s range.chunk
    range.positive range.max range.dev range.offBound (le_refl _) (lt_of_le_of_lt lastLe inRange)
  obtain ⟨t, total, moved⟩ := range.fileMoved h.posLower ran
  refine ⟨t, s', moved, ?_⟩
  rw [range.loop, bind_of_ok _ ran, ← total]

theorem OnFile.rdwtFile_done {r : Int} {s' : State} (h : OnFile s d p) (lenLower : 0 ≤ s.fsMsg.cnt)
    (lenUpper : s.fsMsg.cnt < 2147483648)
    (within : (s.fDescTable d).fdPos ≤ transferLimit s.fsMsg.type (s.inodeTable p))
    (done : rdwtFile s d p = .ok (r, s')) :
    ∃ t s₁, FileMoved s d p t s₁ ∧ updateSize s₁ d p t = .ok (r, s') := by
  obtain ⟨c, n, first, last, off, len, range⟩ := h.fileRange lenLower lenUpper within
  rw [range.loop] at done
  obtain ⟨⟨v, s₁⟩, ran, update⟩ := bind_ok done
  obtain ⟨t, total, moved⟩ := range.fileMoved h.posLower ran
  exact ⟨t, s₁, moved, by rwa [← total]⟩

theorem updateSize_count {s s' : State} {d p : Nat} {count r : Int}
    (done : updateSize s d p count = .ok (r, s')) : r = count := by
  unfold updateSize at done
  split at done
  · cases synced : syncInode (s.setInode p
        { s.inodeTable p with iSize := u32 (s.fDescTable d).fdPos }) p with
    | error stop => simp [synced, bind, Except.bind] at done
    | ok s₁ =>
      simp only [synced, bind, Except.bind, pure, Except.pure, Except.ok.injEq,
        Prod.mk.injEq] at done
      exact done.1.symm
  · simp only [pure, Except.pure, Except.ok.injEq, Prod.mk.injEq] at done
    exact done.1.symm

theorem updateSize_same {s : State} {d p : Nat} (count : Int)
    (inside : u32 (s.fDescTable d).fdPos ≤ (s.inodeTable p).iSize) :
    updateSize s d p count = .ok (count, s) := by
  have : ¬ u32 (s.fDescTable d).fdPos > (s.inodeTable p).iSize := by omega
  simp only [updateSize, this, if_false]
  rfl

theorem updateSize_grows {s : State} {d p : Nat} {sb : SuperBlock} (count : Int)
    (beyond : u32 (s.fDescTable d).fdPos > (s.inodeTable p).iSize)
    (dev : (s.inodeTable p).iDev = rootDev) (super : getSuperBlock s rootDev = .ok sb) :
    let grown := { s.inodeTable p with iSize := u32 (s.fDescTable d).fdPos }
    updateSize s d p count = .ok (count, (s.setInode p grown).synced sb grown) := by
  intro grown
  have synced := syncInode_eq (s.setInode p grown) p sb (by simpa [State.setInode, grown] using dev)
    super
  simp only [updateSize, beyond, if_true, bind, Except.bind]
  rw [synced]
  simp only [State.setInode, Function.update_self]
  rfl

-- A regular file open for writing, with the position and the size inside its sectors.
structure Writable (s : State) (d p : Nat) : Prop extends OnFile s d p where
  isWrite : s.fsMsg.type = .write
  regular : (s.inodeTable p).iMode = iRegular
  mode : (s.fDescTable d).fdMode &&& oRdwr ≠ 0
  posLe : (s.fDescTable d).fdPos ≤ (s.inodeTable p).iSize
  sizeLe : (s.inodeTable p).iSize ≤ (s.inodeTable p).iNrSects * sectorSize
  -- the file and its record lie in front of sector 2^22
  inRange : ((s.inodeTable p).iStartSect + (s.inodeTable p).iNrSects) * sectorSize < 2147483648
  super : ∃ sb, getSuperBlock s rootDev = .ok sb ∧
    recordPos sb (s.inodeTable p).iNum < 2147483648

-- How many bytes are left between the file position and the end of the file's sectors.
def roomLeft (s : State) (d p : Nat) : Int :=
  (s.inodeTable p).iNrSects * sectorSize - (s.fDescTable d).fdPos

def OutsideFile (inode : Inode) (b : Nat) : Prop :=
  b < inode.iStartSect * sectorSize ∨ (inode.iStartSect + inode.iNrSects) * sectorSize ≤ b

def InRecord (sb : SuperBlock) (num b : Nat) : Prop :=
  recordPos sb num ≤ b ∧ b < recordPos sb num + inodeSize

theorem OnFile.movedAll {t : Nat} {s₁ : State} (h : OnFile s d p) (moved : FileMoved s d p t s₁)
    (fits : (s.fDescTable d).fdPos + s.fsMsg.cnt ≤ transferLimit s.fsMsg.type (s.inodeTable p)) :
    (t : Int) = s.fsMsg.cnt := by
  have posLower := h.posLower
  have atMost := moved.atMost
  have covers := moved.covers
  have size : ((sectorSize : Nat) : Int) = 512 := rfl
  rw [size] at covers
  omega

theorem OnFile.limitUpper (h : OnFile s d p) :
    transferLimit s.fsMsg.type (s.inodeTable p) < 2147483648 := by
  rw [transferLimit]
  split
  · exact h.sizeUpper
  · exact h.sectsUpper

theorem OnFile.doRdwt_moved (h : OnFile s d p) (driver : Message → Message)
    (mode : (s.fDescTable d).fdMode &&& oRdwr ≠ 0) (lenLower : 0 ≤ s.fsMsg.cnt)
    (fits : (s.fDescTable d).fdPos + s.fsMsg.cnt ≤ transferLimit s.fsMsg.type (s.inodeTable p))
    (inRange : (s.inodeTable p).iStartSect * sectorSize +
      transferLimit s.fsMsg.type (s.inodeTable p) < 2147483648) :
    ∃ s₁, FileMoved s d p s.fsMsg.cnt.toNat s₁ ∧
      doRdwt driver s = updateSize s₁ d p s.fsMsg.cnt := by
  have posLower := h.posLower
  have limit := h.limitUpper
  obtain ⟨t, s₁, moved, fileEq⟩ := h.rdwtFile_moved lenLower (by omega) (by omega) inRange
  have all := h.movedAll moved fits
  have count : s.fsMsg.cnt.toNat = t := by omega
  refine ⟨s₁, by rwa [count], ?_⟩
  rw [h.doRdwt_eq driver, if_neg mode, fileEq, all]

theorem OnFile.doRdwt_done {r : Int} {s' : State} (h : OnFile s d p) {driver : Message → Message}
    (mode : (s.fDescTable d).fdMode &&& oRdwr ≠ 0) (lenLower : 0 ≤ s.fsMsg.cnt)
    (fits : (s.fDescTable d).fdPos + s.fsMsg.cnt ≤ transferLimit s.fsMsg.type (s.inodeTable p))
    (done : doRdwt driver s = .ok (r, s')) :
    ∃ s₁, FileMoved s d p s.fsMsg.cnt.toNat s₁ ∧
      updateSize s₁ d p s.fsMsg.cnt = .ok (r, s') := by
  have posLower := h.posLower
  have limit := h.limitUpper
  rw [h.doRdwt_eq driver, if_neg mode] at done
  obtain ⟨t, s₁, moved, update⟩ := h.rdwtFile_done lenLower (by omega) (by omega) done
  have all := h.movedAll moved fits
  have count : s.fsMsg.cnt.toNat = t := by omega
  exact ⟨s₁, by rwa [count], by rwa [← all]⟩

theorem Writable.doRdwt_fits (h : Writable s d p) (driver : Message → Message)
    (lenLower : 0 ≤ s.fsMsg.cnt) (fits : s.fsMsg.cnt ≤ roomLeft s d p) :
    ∃ s₁, doRdwt driver s = updateSize s₁ d p s.fsMsg.cnt ∧
      (∀ b, OutsideFile (s.inodeTable p) b → s₁.disk b = s.disk b) ∧
      s₁.inodeTable = s.inodeTable ∧ s₁.superBlock = s.superBlock ∧
      (s₁.fDescTable d).fdPos = (s.fDescTable d).fdPos + s.fsMsg.cnt ∧
      (u32 (s₁.fDescTable d).fdPos : Int) = (s.fDescTable d).fdPos + s.fsMsg.cnt := by
  have posLower := h.posLower
  have sectsUpper := h.sectsUpper
  have limit : transferLimit s.fsMsg.type (s.inodeTable p) =
      (s.inodeTable p).iNrSects * sectorSize := by simp [transferLimit, h.isWrite]
  simp only [roomLeft] at fits
  have inRange := h.inRange
  rw [Nat.add_mul] at inRange
  obtain ⟨s₁, ⟨⟨c, n, type, -, -, desc, moved⟩, -, -⟩, done⟩ :=
    h.toOnFile.doRdwt_moved driver h.mode lenLower (by omega) (by omega)
  have notRead : c.type ≠ .read := by rw [type, h.isWrite]; decide
  have posNow : (s₁.fDescTable d).fdPos = (s.fDescTable d).fdPos + s.fsMsg.cnt := by
    rw [moved.descs, desc, Function.update_self, Int.toNat_of_nonneg lenLower]
  refine ⟨s₁, done, ?_, moved.inodes, moved.supers, posNow, ?_⟩
  · intro b out
    rw [moved.disk, if_neg notRead]
    apply splice_outside
    simp only [OutsideFile, Nat.add_mul] at out
    omega
  · rw [posNow]
    exact u32_of_bounds (by omega) (by omega)

theorem getSuperBlock_congr {s s' : State} (same : s'.superBlock = s.superBlock) (dev : Nat) :
    getSuperBlock s' dev = getSuperBlock s dev := by
  simp only [getSuperBlock, same]

theorem write_inside_file (driver : Message → Message) (h : Writable s d p)
    (lenLower : 0 ≤ s.fsMsg.cnt) (fits : s.fsMsg.cnt ≤ roomLeft s d p) :
    ∃ s', doRdwt driver s = .ok (min s.fsMsg.cnt (roomLeft s d p), s') ∧
      (∀ b, OutsideFile (s.inodeTable p) b →
        s'.disk b = s.disk b ∨
          ((s.inodeTable p).iSize < (s.fDescTable d).fdPos + s.fsMsg.cnt ∧
            ∃ sb, getSuperBlock s rootDev = .ok sb ∧ InRecord sb (s.inodeTable p).iNum b)) ∧
      (s'.fDescTable d).fdPos = (s.fDescTable d).fdPos + min s.fsMsg.cnt (roomLeft s d p) ∧
      (s'.inodeTable p).iSize ≤ (s.inodeTable p).iNrSects * sectorSize := by
  obtain ⟨sb, super, -⟩ := h.super
  obtain ⟨s₁, doneEq, sameData, inodes, supers, posNow, word⟩ := h.doRdwt_fits driver lenLower fits
  rw [Int.min_eq_left fits, doneEq]
  simp only [roomLeft] at fits
  by_cases grows : (s.inodeTable p).iSize < (s.fDescTable d).fdPos + s.fsMsg.cnt
  · have grown := updateSize_grows (s := s₁) (d := d) (p := p) s.fsMsg.cnt
      (by rw [inodes]; omega) (by rw [inodes]; exact h.dev)
      (by rw [getSuperBlock_congr supers]; exact super)
    refine ⟨_, grown, ?_, posNow, ?_⟩
    · intro b out
      by_cases record : InRecord sb (s.inodeTable p).iNum b
      · exact .inr ⟨grows, sb, super, record⟩
      · left
        simp only [State.synced, State.setInode, inodes]
        rw [storeInode_outside _ _ (by simp only [InRecord, inodeSize] at record; omega)]
        exact sameData b out
    · simp only [State.synced, State.setInode, Function.update_self]
      omega
  · refine ⟨s₁, updateSize_same _ (by rw [inodes]; omega), fun b out => .inl (sameData b out),
      posNow, ?_⟩
    rw [inodes]
    exact h.sizeLe

def sampleSuperBlock : SuperBlock where
  magic := magicV1
  nrInodes := 4096
  nrSects := 10000
  nrImapSects := 1
  nrSmapSects := 3
  n1stSect := 262
  nrInodeSects := 256
  rootInode := rootInodeNr
  inodeSize := inodeSize
  inodeIsizeOff := 4
  inodeStartOff := 8
  dirEntSize := dirEntrySize
  dirEntInodeOff := 0
  dirEntFnameOff := 4
  sbDev := rootDev

-- TestA has inode 5 open as descriptor 0; its file is the first one behind the root directory.
def sampleState (type : MsgType) (len pos : Int) (size : Nat) : State where
  disk := fun _ => 0
  fsbuf := fun _ => 0
  inodeTable := fun _ => ⟨iRegular, size, 2310, nrDefaultFileSects, rootDev, 1, 5⟩
  fDescTable := fun _ => ⟨oRdwr, pos, 1, some 1⟩
  superBlock := fun _ => sampleSuperBlock
  rootInode := 0
  filp := fun _ _ => some 0
  userMem := fun _ _ => 97
  fsMsg := ⟨6, type, 0, len, 0, 0, 0, 0, 0⟩
  driverMsgs := []

theorem sampleState_onFile (type : MsgType) (len pos : Int) (size : Nat)
    (request : type = .read ∨ type = .write) (lower : 0 ≤ pos) (upper : pos < 2147483648)
    (sizeUpper : size < 2147483648) : OnFile (sampleState type len pos size) 0 1 where
  fdLower := by simp [sampleState, Message.fd]
  fdUpper := by simp [sampleState, Message.fd, nrFiles]
  filp := by simp [sampleState]
  desc := by simp [nrFileDesc]
  inode := by simp [sampleState]
  slot := by simp [nrInode]
  file := .inl (by simp [sampleState])
  request := request
  dev := by simp [sampleState]
  posLower := by simpa [sampleState] using lower
  posUpper := by simpa [sampleState] using upper
  sizeUpper := by simpa [sampleState] using sizeUpper
  sectsUpper := by
    have size : nrDefaultFileSects * sectorSize < 2147483648 := by decide
    simpa only [sampleState] using size
  startUpper := by simp [sampleState]

theorem sampleState_writable (len pos : Int) (size : Nat) (lower : 0 ≤ pos) (posLe : pos ≤ size)
    (sizeLe : size ≤ nrDefaultFileSects * sectorSize) :
    Writable (sampleState .write len pos size) 0 1 where
  toOnFile := sampleState_onFile _ _ _ _ (.inr rfl) lower
    (by simp only [nrDefaultFileSects, sectorSize] at sizeLe; omega)
    (by simp only [nrDefaultFileSects, sectorSize] at sizeLe; omega)
  isWrite := rfl
  regular := rfl
  mode := by simp [sampleState, oRdwr]
  posLe := by simpa [sampleState] using posLe
  sizeLe := by simpa [sampleState] using sizeLe
  inRange := by
    show (2310 + nrDefaultFileSects) * sectorSize < 2147483648
    decide
  super := by
    have record : recordPos sampleSuperBlock 5 < 2147483648 := by decide
    exact ⟨sampleSuperBlock, rfl, record⟩

theorem write_inside_file_five :
    ∃ s', doRdwt id (sampleState .write 5 0 0) = .ok (5, s') ∧
      (s'.fDescTable 0).fdPos = 5 := by
  obtain ⟨s', done, -, pos, -⟩ := write_inside_file id
    (sampleState_writable 5 0 0 (by decide) (by decide) (by decide)) (by decide) (by decide)
  exact ⟨s', done, pos⟩

def WriteIsolated (driver : Message → Message) (s : State) (d p : Nat) : Prop :=
  ∃ s', doRdwt driver s = .ok (min s.fsMsg.cnt (roomLeft s d p), s') ∧
    (∀ b, OutsideFile (s.inodeTable p) b → s'.disk b = s.disk b) ∧
    (s'.fDescTable d).fdPos = (s.fDescTable d).fdPos + min s.fsMsg.cnt (roomLeft s d p) ∧
    (s'.inodeTable p).iSize ≤ (s.inodeTable p).iNrSects * sectorSize

-- Growing the file writes its inode record; writing at its end overruns its last sector.
theorem writeIsolated_fails :
    (Writable (sampleState .write 5 0 0) 0 1 ∧
      ¬ WriteIsolated id (sampleState .write 5 0 0) 0 1) ∧
    (Writable (sampleState .write 1 1048576 1048576) 0 1 ∧
      ¬ WriteIsolated id (sampleState .write 1 1048576 1048576) 0 1) := by
  have small : Writable (sampleState .write 5 0 0) 0 1 :=
    sampleState_writable 5 0 0 (by decide) (by decide) (by decide)
  have full : Writable (sampleState .write 1 1048576 1048576) 0 1 :=
    sampleState_writable 1 1048576 1048576 (by decide) (by decide) (by decide)
  refine ⟨⟨small, ?_⟩, full, ?_⟩
  · rintro ⟨s', done, same, -, -⟩
    obtain ⟨s₁, doneEq, -, inodes, supers, -, word⟩ :=
      small.doRdwt_fits id (by decide) (by decide)
    have five : u32 (s₁.fDescTable 0).fdPos = 5 := by
      simp only [sampleState, Message.cnt] at word
      omega
    have super : getSuperBlock s₁ rootDev = .ok sampleSuperBlock := by
      rw [getSuperBlock_congr supers]
      rfl
    have grown := updateSize_grows (s := s₁) (d := 0) (p := 1) 5
      (by rw [inodes, five]; decide) (by rw [inodes]; rfl) super
    have final := done.symm.trans (doneEq.trans grown)
    simp only [Except.ok.injEq, Prod.mk.injEq] at final
    have written : wordAt s'.disk (recordPos sampleSuperBlock 5 + 4) = 5 := by
      rw [final.2]
      have num : ((sampleState .write 5 0 0).inodeTable 1).iNum = 5 := rfl
      simp only [State.synced, State.setInode, inodes, num, storeInode_size, five]
      norm_num
    have kept : wordAt s'.disk (recordPos sampleSuperBlock 5 + 4) =
        wordAt (fun _ => 0) (recordPos sampleSuperBlock 5 + 4) := by
      apply wordAt_congr
      intro j bound
      refine same _ (.inl ?_)
      simp only [recordPos, inodeBlk, inodeOff, sampleSuperBlock, sampleState, sectorSize,
        inodeSize]
      omega
    rw [written] at kept
    exact absurd kept (by decide)
  · rintro ⟨s', done, -, -, -⟩
    obtain ⟨t, s₁, ⟨-, -, tGe⟩, fileEq⟩ :=
      full.toOnFile.rdwtFile_moved (by decide) (by decide) (by decide) (by decide)
    rw [full.doRdwt_eq id, if_neg full.mode, fileEq] at done
    have none := updateSize_count done
    have one : (1 : Int) ≤ t := le_trans (by decide) tGe
    have room : min (sampleState .write 1 1048576 1048576).fsMsg.cnt
        (roomLeft (sampleState .write 1 1048576 1048576) 0 1) = 0 := by decide
    omega

structure Readable (s : State) (d p : Nat) : Prop extends OnFile s d p where
  isRead : s.fsMsg.type = .read
  posLe : (s.fDescTable d).fdPos ≤ (s.inodeTable p).iSize
  sizeLe : (s.inodeTable p).iSize ≤ (s.inodeTable p).iNrSects * sectorSize
  -- the file lies in front of sector 2^22
  inRange : ((s.inodeTable p).iStartSect + (s.inodeTable p).iNrSects) * sectorSize < 2147483648

-- What READ is to do: stop at the end of the file, fill that much of the buffer, change no file.
def ReadStopsAtEof (driver : Message → Message) (s : State) (d p : Nat) : Prop :=
  let pos := (s.fDescTable d).fdPos
  let count := min s.fsMsg.cnt ((s.inodeTable p).iSize - pos)
  ∃ s', doRdwt driver s = .ok (count, s') ∧
    s'.userMem = Function.update s.userMem s.fsMsg.source
      (splice (s.userMem s.fsMsg.source) s.fsMsg.buf count.toNat
        (window s.disk ((s.inodeTable p).iStartSect * sectorSize + pos.toNat))) ∧
    (s'.fDescTable d).fdPos = pos + count ∧
    s'.inodeTable = s.inodeTable ∧ s'.disk = s.disk

theorem read_stops_at_eof_iff (driver : Message → Message) (h : Readable s d p)
    (lenLower : 0 ≤ s.fsMsg.cnt) (lenUpper : s.fsMsg.cnt < 2147483648) :
    ReadStopsAtEof driver s d p ↔
      (s.fDescTable d).fdMode &&& oRdwr ≠ 0 ∧
        (s.fDescTable d).fdPos + s.fsMsg.cnt ≤ (s.inodeTable p).iSize := by
  have posLower := h.posLower
  have sizeUpper := h.sizeUpper
  have posLe := h.posLe
  have limit : transferLimit s.fsMsg.type (s.inodeTable p) = (s.inodeTable p).iSize := by
    simp [transferLimit, h.isRead]
  have sizeLe := h.sizeLe
  have inRange := h.inRange
  rw [Nat.add_mul] at inRange
  obtain ⟨t, s₁, ⟨⟨c, n, type, src, buf, desc, moved⟩, tLe, tGe⟩, fileEq⟩ :=
    h.toOnFile.rdwtFile_moved lenLower lenUpper (by omega) (by omega)
  have size : ((sectorSize : Nat) : Int) = 512 := rfl
  rw [limit, size] at tGe
  have isRead : c.type = .read := by rw [type, h.isRead]
  constructor
  · rintro ⟨s', done, -⟩
    rw [h.doRdwt_eq driver] at done
    by_cases mode : (s.fDescTable d).fdMode &&& oRdwr = 0
    · -- refused with -1, which no count is
      simp only [mode, if_true, Except.ok.injEq, Prod.mk.injEq] at done
      omega
    · rw [if_neg mode, fileEq] at done
      have count := updateSize_count done
      exact ⟨mode, by omega⟩
  · rintro ⟨mode, fits⟩
    have all : (t : Int) = s.fsMsg.cnt := by omega
    have whole : min s.fsMsg.cnt ((s.inodeTable p).iSize - (s.fDescTable d).fdPos) = t := by omega
    have posNow : (s₁.fDescTable d).fdPos = (s.fDescTable d).fdPos + t := by
      rw [moved.descs, desc, Function.update_self]
    have word : (u32 (s₁.fDescTable d).fdPos : Int) = (s.fDescTable d).fdPos + t := by
      rw [posNow]
      exact u32_of_bounds (by omega) (by omega)
    simp only [ReadStopsAtEof, whole, Int.toNat_natCast]
    refine ⟨s₁, ?_, ?_, posNow, moved.inodes, ?_⟩
    · rw [h.doRdwt_eq driver, if_neg mode, fileEq]
      exact updateSize_same t (by rw [moved.inodes]; omega)
    · rw [moved.userMem, if_pos isRead, src, buf, Nat.add_zero]
    · rw [moved.disk, if_pos isRead]

theorem sampleState_readable (len pos : Int) (size : Nat) (lower : 0 ≤ pos) (posLe : pos ≤ size)
    (sizeLe : size ≤ nrDefaultFileSects * sectorSize) :
    Readable (sampleState .read len pos size) 0 1 where
  toOnFile := sampleState_onFile _ _ _ _ (.inl rfl) lower
    (by simp only [nrDefaultFileSects, sectorSize] at sizeLe; omega)
    (by simp only [nrDefaultFileSects, sectorSize] at sizeLe; omega)
  isRead := rfl
  posLe := by simpa [sampleState] using posLe
  sizeLe := by simpa [sampleState] using sizeLe
  inRange := by
    show (2310 + nrDefaultFileSects) * sectorSize < 2147483648
    decide

theorem read_stops_at_eof_three : ReadStopsAtEof id (sampleState .read 3 0 5) 0 1 :=
  (read_stops_at_eof_iff id (sampleState_readable 3 0 5 (by decide) (by decide) (by decide))
    (by decide) (by decide)).mpr (by decide)

-- Ten bytes asked of a file that holds five: ten are answered.
theorem readStopsAtEof_fails :
    Readable (sampleState .read 10 0 5) 0 1 ∧
      ¬ ReadStopsAtEof id (sampleState .read 10 0 5) 0 1 := by
  have short : Readable (sampleState .read 10 0 5) 0 1 :=
    sampleState_readable 10 0 5 (by decide) (by decide) (by decide)
  refine ⟨short, ?_⟩
  rintro ⟨s', done, -⟩
  obtain ⟨t, s₁, ⟨-, -, tGe⟩, fileEq⟩ :=
    short.toOnFile.rdwtFile_moved (by decide) (by decide) (by decide) (by decide)
  rw [short.doRdwt_eq id, if_neg (by decide), fileEq] at done
  have five := updateSize_count done
  have ten : (10 : Int) ≤ t := le_trans (by decide) tGe
  have asked : min (sampleState .read 10 0 5).fsMsg.cnt
      (((sampleState .read 10 0 5).inodeTable 1).iSize -
        ((sampleState .read 10 0 5).fDescTable 0).fdPos) = 5 := by decide
  omega

end Konix.Fs
