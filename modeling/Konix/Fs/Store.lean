import Konix.Fs.Elsewhere
import Konix.Lib.FileStore

set_option autoImplicit false

namespace Konix.Fs

open Splice Words Bits Runs RefCounts FileStores

def fileAt (f : Nat → UInt8) (size x : Nat) : File UInt8 where
  cells j :=
    if j < wordAt f (recordPos (mkfsSuper size) x + 12) * sectorSize then
      f (wordAt f (recordPos (mkfsSuper size) x + 8) * sectorSize + j)
    else 0
  size := wordAt f (recordPos (mkfsSuper size) x + 4)

-- The regular files on the disk, by the numbers of their inodes.
def storeOf (size : Nat) (f : Nat → UInt8) : Store Nat UInt8 := fun x =>
  if nrConsoles + 2 ≤ x ∧ x < bitsPerSect ∧ bitAt f imapBase x = true then some (fileAt f size x)
  else none

section Stores

variable {s s' : State} {size x y : Nat} {files files' : Finset Nat} {block block' : Nat → Nat}
  {f g : Nat → UInt8}

theorem Volume.storeOf_eq (volume : Volume s size files block) (x : Nat) :
    storeOf size s.disk x = if x ∈ files then some (fileAt s.disk size x) else none := by
  have member : nrConsoles + 2 ≤ x ∧ x < bitsPerSect ∧ bitAt s.disk imapBase x = true ↔
      x ∈ files := by
    constructor
    · rintro ⟨special, bound, set⟩
      exact ((volume.maps.imap x bound).mp set).resolve_left (by omega)
    · intro member
      have range := volume.maps.range x member
      exact ⟨range.1, range.2, (volume.maps.imap x range.2).mpr (.inr member)⟩
  rw [storeOf]
  by_cases known : x ∈ files
  next => rw [if_pos (member.mpr known), if_pos known]
  next => rw [if_neg (fun all => known (member.mp all)), if_neg known]

def fileStart (size : Nat) (block : Nat → Nat) (x : Nat) : Nat :=
  blockSect size (block x) * sectorSize

theorem Volume.fileBase_le (volume : Volume s size files block) (member : x ∈ files) :
    fileBase size ≤ fileStart size block x := by
  have positive := (volume.maps.blocks x member).1
  simp only [fileBase, fileSpace, fileStart, dataBase, blockSect, nrDefaultFileSects, sectorSize]
  omega

theorem Volume.files_apart (volume : Volume s size files block) (xFile : x ∈ files)
    (yFile : y ∈ files)
    (different : x ≠ y) : fileStart size block x + fileSpace ≤ fileStart size block y ∨
      fileStart size block y + fileSpace ≤ fileStart size block x := by
  have other : block x ≠ block y := fun same =>
    different (volume.maps.apart x xFile y yFile same)
  simp only [fileSpace, fileStart, blockSect, nrDefaultFileSects, sectorSize]
  omega

theorem fileAt_eq {start : Nat}
    (record : FileRecord f (recordPos (mkfsSuper size) x) start) : fileAt f size x =
      ⟨fun j => if j < fileSpace then f (start * sectorSize + j) else 0,
        wordAt f (recordPos (mkfsSuper size) x + 4)⟩ := by
  rw [fileAt, record.start, record.sects, fileSpace]

theorem Volume.fileAt_congr (volume : Volume s size files block) (member : x ∈ files)
    (record : ∀ j, j < 16 → g (recordPos (mkfsSuper size) x + j) =
      s.disk (recordPos (mkfsSuper size) x + j))
    (bytes : ∀ j, j < fileSpace →
      g (fileStart size block x + j) = s.disk (fileStart size block x + j)) :
    fileAt g size x = fileAt s.disk size x := by
  have made := volume.maps.file x member
  rw [fileAt_eq made, fileAt_eq (made.congr record), sizeWord_congr record]
  congr 1
  funext j
  by_cases inside : j < fileSpace
  next =>
    rw [if_pos inside, if_pos inside]
    exact bytes j inside
  next => rw [if_neg inside, if_neg inside]

theorem Elsewhere.kept (elsewhere : Elsewhere size y s.disk g) (volume : Volume s size files block)
    (member : x ∈ files) (other : x ≠ y) : fileAt g size x = fileAt s.disk size x := by
  have range := volume.maps.range x member
  have behind := volume.fileBase_le member
  exact volume.fileAt_congr member (elsewhere.records x range.1 range.2 other)
    fun j _ => elsewhere.data _ (by omega)

theorem Volume.storeOf_changed (volume : Volume s size files block)
    (volume' : Volume s' size files' block') (same : ∀ y, y ≠ x → (y ∈ files' ↔ y ∈ files))
    (kept : ∀ y ∈ files, y ≠ x → fileAt s'.disk size y = fileAt s.disk size y) :
    storeOf size s'.disk = Function.update (storeOf size s.disk) x (storeOf size s'.disk x) := by
  funext y
  by_cases here : y = x
  next => rw [here, Function.update_self]
  next =>
    rw [Function.update_of_ne here, volume.storeOf_eq, volume'.storeOf_eq]
    by_cases member : y ∈ files
    next => rw [if_pos member, if_pos ((same y here).mpr member), kept y member here]
    next => rw [if_neg member, if_neg (fun inside => member ((same y here).mp inside))]

theorem Elsewhere.same (elsewhere : Elsewhere size 0 s.disk s'.disk)
    (volume : Volume s size files block) (volume' : Volume s' size files block') :
    storeOf size s'.disk = storeOf size s.disk := by
  have absent : 0 ∉ files := fun member => by
    have special := (volume.maps.range 0 member).1
    omega
  rw [volume.storeOf_changed volume' (fun y _ => Iff.rfl)
      (fun y member other => elsewhere.kept volume member other), volume'.storeOf_eq,
    if_neg absent, Function.update_eq_iff]
  exact ⟨by rw [volume.storeOf_eq, if_neg absent], fun _ _ => rfl⟩

end Stores

def Inode.reaching (inode : Inode) (pos : Nat) : Inode :=
  { inode with iSize := max inode.iSize pos }

section Transfers

variable {s s' s₁ : State} {size d p pos n x y : Nat} {files : Finset Nat} {block : Nat → Nat}
  {count r : Int} {sb : SuperBlock}

theorem updateSize_effect (dev : (s₁.inodeTable p).iDev = rootDev)
    (super : getSuperBlock s₁ rootDev = .ok sb) (posNow : (s₁.fDescTable d).fdPos = pos)
    (small : pos < 2 ^ 32) (done : updateSize s₁ d p count = .ok (r, s')) :
    s'.inodeTable = Function.update s₁.inodeTable p ((s₁.inodeTable p).reaching pos) ∧
      s'.fDescTable = s₁.fDescTable ∧ s'.rootInode = s₁.rootInode ∧ s'.userMem = s₁.userMem ∧
      ((s'.disk = s₁.disk ∧ pos ≤ (s₁.inodeTable p).iSize) ∨ (s₁.inodeTable p).iSize < pos ∧
        s'.disk = storeInode s₁.disk (recordPos sb (s₁.inodeTable p).iNum)
          ((s₁.inodeTable p).reaching pos)) := by
  have word : u32 (s₁.fDescTable d).fdPos = pos := by
    have bounds := u32_of_bounds (x := pos) (by omega) (by omega)
    rw [posNow]
    omega
  by_cases beyond : pos ≤ (s₁.inodeTable p).iSize
  next =>
    have same : (s₁.inodeTable p).reaching pos = s₁.inodeTable p := by
      rw [Inode.reaching, max_eq_left beyond]
    rw [same, Function.update_eq_self]
    rw [updateSize_same count (by rw [word]; exact beyond)] at done
    cases done
    exact ⟨rfl, rfl, rfl, rfl, .inl ⟨rfl, beyond⟩⟩
  next =>
    have more : (s₁.inodeTable p).iSize < pos := by omega
    rw [updateSize_grows count (by rw [word]; exact more) dev super] at done
    cases done
    rw [word, Inode.reaching, max_eq_right (by omega)]
    exact ⟨rfl, rfl, rfl, rfl, .inr ⟨more, rfl⟩⟩

/--
A transfer of `n` bytes from or to byte `pos` of the file in slot `p` has been made whole: the disk
has the bytes, and the record of the inode the new size.
-/
structure MovedWhole (s s' : State) (size d p pos n : Nat) : Prop where
  inodes : s'.inodeTable = Function.update s.inodeTable p ((s.inodeTable p).reaching (pos + n))
  descs : s'.fDescTable =
    Function.update s.fDescTable d { s.fDescTable d with fdPos := (pos + n : Nat) }
  root : s'.rootInode = s.rootInode
  seen : s.fsMsg.type = .read → OpenFile.cellsAt (s'.userMem s.fsMsg.source) s.fsMsg.buf n =
    OpenFile.cellsAt s.disk ((s.inodeTable p).iStartSect * sectorSize + pos) n
  disk : ∃ f, f = (if s.fsMsg.type = .read then s.disk else
      splice s.disk ((s.inodeTable p).iStartSect * sectorSize + pos) n
        (window (s.userMem s.fsMsg.source) s.fsMsg.buf)) ∧
    (s'.disk = f ∧ pos + n ≤ (s.inodeTable p).iSize ∨ (s.inodeTable p).iSize < pos + n ∧
      s'.disk = storeInode f (recordPos (mkfsSuper size) (s.inodeTable p).iNum)
        ((s.inodeTable p).reaching (pos + n)))

theorem OnFile.movedWhole {driver : Message → Message} (onFile : OnFile s d p)
    (super : getSuperBlock s rootDev = .ok (mkfsSuper size))
    (mode : (s.fDescTable d).fdMode &&& oRdwr ≠ 0) (lower : 0 ≤ s.fsMsg.cnt)
    (fits : (s.fDescTable d).fdPos + s.fsMsg.cnt ≤ transferLimit s.fsMsg.type (s.inodeTable p))
    (done : doRdwt driver s = .ok (r, s')) :
    MovedWhole s s' size d p (s.fDescTable d).fdPos.toNat s.fsMsg.cnt.toNat := by
  obtain ⟨s₁, ⟨⟨c, k, type, src, buf, desc, moved⟩, -, -⟩, update⟩ :=
    onFile.doRdwt_done mode lower fits done
  have posLower := onFile.posLower
  have limit := onFile.limitUpper
  have posNow : (s₁.fDescTable d).fdPos =
      ((s.fDescTable d).fdPos.toNat + s.fsMsg.cnt.toNat : Nat) := by
    rw [moved.descs, desc, Function.update_self]
    simp only
    omega
  obtain ⟨inodes, descs, root, memory, disk⟩ := updateSize_effect
    (by rw [moved.inodes]; exact onFile.dev)
    (by rw [getSuperBlock_congr moved.supers]; exact super) posNow (by omega) update
  rw [moved.inodes] at inodes disk
  rw [moved.disk, type, src, buf, Nat.add_zero] at disk
  refine ⟨inodes, ?_, root.trans moved.root, fun isRead => ?_, _, rfl, disk⟩
  · rw [descs, moved.descs, desc]
    have same : (s.fDescTable d).fdPos + (s.fsMsg.cnt.toNat : Int) =
        ((s.fDescTable d).fdPos.toNat + s.fsMsg.cnt.toNat : Nat) := by omega
    rw [same]
  · rw [memory, moved.userMem, type, if_pos isRead, src, buf, Function.update_self]
    apply OpenFile.cellsAt_congr
    intro j below
    rw [splice_inside _ _ (by omega) (by omega)]
    simp only [window_apply, Nat.add_zero, Nat.add_sub_cancel_left]

structure CachedFile (s : State) (size : Nat) (files : Finset Nat) (block : Nat → Nat) (p : Nat) :
    Prop where
  member : (s.inodeTable p).iNum ∈ files
  record : FileRecord s.disk (recordPos (mkfsSuper size) (s.inodeTable p).iNum)
    (s.inodeTable p).iStartSect
  start : (s.inodeTable p).iStartSect = blockSect size (block (s.inodeTable p).iNum)
  length : wordAt s.disk (recordPos (mkfsSuper size) (s.inodeTable p).iNum + 4) =
    (s.inodeTable p).iSize
  sects : (s.inodeTable p).iNrSects = nrDefaultFileSects
  dev : (s.inodeTable p).iDev = rootDev

theorem Volume.cachedFile (volume : Volume s size files block) (slot : p < nrInode)
    (used : (s.inodeTable p).iCnt ≠ 0) (regular : (s.inodeTable p).iMode = iRegular) :
    CachedFile s size files block p := by
  have known := volume.cache.known p slot used
  have record := volume.cache.coherent p slot used
  have member := known.2.resolve_left fun special =>
    volume.maps.special _ known.1 special (record.mode.trans regular)
  have made := volume.maps.file _ member
  have start : (s.inodeTable p).iStartSect = blockSect size (block (s.inodeTable p).iNum) :=
    record.start.symm.trans made.start
  exact ⟨member, by rw [start]; exact made, start, record.size, record.sects.symm.trans made.sects,
    volume.cache.dev p slot used⟩

theorem CachedFile.fileAt (cached : CachedFile s size files block p) :
    fileAt s.disk size (s.inodeTable p).iNum = ⟨fun j => if j < fileSpace then
      s.disk ((s.inodeTable p).iStartSect * sectorSize + j) else 0, (s.inodeTable p).iSize⟩ := by
  rw [fileAt_eq cached.record, cached.length]

theorem CachedFile.read (cached : CachedFile s size files block p)
    (volume : Volume s size files block)
    (inside : pos + n ≤ (s.inodeTable p).iSize) (sizeLe : (s.inodeTable p).iSize ≤ fileSpace) :
    Step (storeOf size s.disk) (.read (s.inodeTable p).iNum pos
      (OpenFile.cellsAt s.disk ((s.inodeTable p).iStartSect * sectorSize + pos) n))
      (storeOf size s.disk) := by
  have bytes : OpenFile.cellsAt s.disk ((s.inodeTable p).iStartSect * sectorSize + pos) n =
      OpenFile.cellsAt (Fs.fileAt s.disk size (s.inodeTable p).iNum).cells pos n := by
    rw [cached.fileAt]
    apply List.map_congr_left
    intro j below
    have small := List.mem_range.mp below
    simp only [window_apply]
    rw [if_pos (by omega), Nat.add_assoc]
  rw [bytes]
  apply Step.read
  · rw [volume.storeOf_eq, if_pos cached.member]
  · rw [cached.fileAt]
    exact inside

theorem CachedFile.write (cached : CachedFile s size files block p)
    (volume : Volume s size files block) (volume' : Volume s' size files block)
    (moved : MovedWhole s s' size d p pos n) (isWrite : s.fsMsg.type ≠ .read)
    (begins : pos ≤ (s.inodeTable p).iSize) (inside : pos + n ≤ fileSpace) :
    Step (storeOf size s.disk) (.write (s.inodeTable p).iNum pos n
        (window (s.userMem s.fsMsg.source) s.fsMsg.buf)) (storeOf size s'.disk) := by
  obtain ⟨f, disk, stored⟩ := moved.disk
  rw [if_neg isWrite] at disk
  generalize hx : (s.inodeTable p).iNum = x at *
  have member : x ∈ files := hx ▸ cached.member
  have range := volume.maps.range x member
  have front := record_between size range.1 range.2
  have start : (s.inodeTable p).iStartSect * sectorSize = fileStart size block x := by
    rw [fileStart, cached.start, hx]
  have behind := volume.fileBase_le member
  have dataLe : dataBase size ≤ fileBase size := Nat.le_add_right ..
  rw [start] at disk
  -- every byte is the one that was written, or that was there, unless the record of the file has it
  have bytes (a : Nat) (out : a < recordPos (mkfsSuper size) x ∨
      recordPos (mkfsSuper size) x + 16 ≤ a) : s'.disk a = f a := by
    rcases stored with ⟨same, -⟩ | ⟨-, same⟩
    · rw [same]
    · rw [same]
      exact storeInode_outside _ _ out
  have kept (y : Nat) (yFile : y ∈ files) (other : y ≠ x) :
      Fs.fileAt s'.disk size y = Fs.fileAt s.disk size y := by
    have range' := volume.maps.range y yFile
    have front' := record_between size range'.1 range'.2
    have recordsApart := records_apart size (by omega : 0 < y) (by omega : 0 < x) other
    have filesApart := volume.files_apart yFile member other
    have behind' := volume.fileBase_le yFile
    apply volume.fileAt_congr yFile
    · intro j small
      rw [bytes _ (by omega), disk, splice_outside _ _ (by omega)]
    · intro j small
      rw [bytes _ (by omega), disk, splice_outside _ _ (by omega)]
  have here : storeOf size s'.disk x = some ((Fs.fileAt s.disk size x).written pos n
      (window (s.userMem s.fsMsg.source) s.fsMsg.buf)) := by
    rw [volume'.storeOf_eq, if_pos member, ← hx, cached.fileAt, hx,
      fileAt_eq (volume'.maps.file x member)]
    congr 1
    apply File.ext
    · funext j
      have place : blockSect size (block x) * sectorSize = fileStart size block x := rfl
      simp only [File.written, place, start]
      by_cases small : j < fileSpace
      next =>
        rw [if_pos small, bytes _ (by omega), disk]
        by_cases covered : pos ≤ j ∧ j < pos + n
        next =>
          rw [splice_inside _ _ (by omega) (by omega), splice_inside _ _ covered.1 covered.2]
          congr 1
          omega
        next =>
          rw [splice_outside _ _ (by omega), splice_outside _ _ (by omega), if_pos small]
      next => rw [if_neg small, splice_outside _ _ (by omega), if_neg small]
    · simp only [File.written]
      rcases stored with ⟨same, within⟩ | ⟨-, same⟩
      · have length := cached.length
        rw [hx] at length
        rw [same, disk, wordAt_congr (g := s.disk) fun j small => splice_outside _ _ (by omega),
          length,
          max_eq_left within]
      · rw [same, storeInode_size]
        apply Nat.mod_eq_of_lt
        have length := cached.length
        have word := wordAt_lt s.disk (recordPos (mkfsSuper size) (s.inodeTable p).iNum + 4)
        simp only [Inode.reaching]
        simp only [fileSpace, nrDefaultFileSects, sectorSize] at inside
        omega
  rw [volume.storeOf_changed volume' (fun _ _ => Iff.rfl) kept, here]
  apply Step.write
  · rw [volume.storeOf_eq, if_pos member]
  · rw [← hx, cached.fileAt]
    exact begins

theorem MovedWhole.directory (moved : MovedWhole s s' size d p pos n)
    (num : (s.inodeTable p).iNum = rootInodeNr)
    (start : (s.inodeTable p).iStartSect * sectorSize = dataBase size)
    (inside : s.fsMsg.type ≠ .read → pos + n ≤ fileSpace) : Elsewhere size 0 s.disk s'.disk := by
  obtain ⟨f, disk, stored⟩ := moved.disk
  rw [start] at disk
  have root : (s.inodeTable p).iNum = 1 := num
  have front := record_inside size Nat.one_pos (by decide)
  have kept (a : Nat) (out : a < dataBase size ∨ fileBase size ≤ a) : f a = s.disk a := by
    rw [disk]
    split
    next => rfl
    next isWrite =>
      have fits := inside isWrite
      apply splice_outside
      simp only [fileBase] at out
      omega
  have dataLe : dataBase size ≤ fileBase size := Nat.le_add_right ..
  have bytes (a : Nat) (out : a < recordPos (mkfsSuper size) 1 ∨
      recordPos (mkfsSuper size) 1 + 16 ≤ a) : s'.disk a = f a := by
    rcases stored with ⟨same, -⟩ | ⟨-, same⟩
    · rw [same]
    · rw [same, root]
      exact storeInode_outside _ _ out
  constructor
  · intro y special bound _ j small
    have place := record_between size special bound
    have apart := records_apart size (by omega : 0 < y) Nat.one_pos (by omega : y ≠ 1)
    rw [bytes _ (by omega), kept _ (by omega)]
  · intro a above
    rw [bytes _ (by omega), kept _ (by omega)]

end Transfers

-- The request in `fs_msg` goes through descriptor `d`, which is open on slot `p`.
def Uses (s : State) (d p : Nat) : Prop :=
  s.filp s.fsMsg.source s.fsMsg.fd.toNat = some d ∧ s.opens d = some p

structure Transfers (s : State) (d p : Nat) : Prop where
  uses : Uses s d p
  mode : (s.fDescTable d).fdMode &&& oRdwr ≠ 0
  regular : (s.inodeTable p).iMode = iRegular

/--
A READ ends within the size of its file and a WRITE within its sectors, and a file is created only
when the sectors of the root directory have room for its entry. FS checks none of this.
-/
structure Bounded (s : State) : Prop where
  transfer : s.fsMsg.type = .read ∨ s.fsMsg.type = .write → ∀ d p, Uses s d p →
    (s.inodeTable p).iMode = iRegular ∨ (s.inodeTable p).iMode = iDirectory →
    0 ≤ s.fsMsg.cnt ∧
      (s.fDescTable d).fdPos + s.fsMsg.cnt ≤ transferLimit s.fsMsg.type (s.inodeTable p)
  room : s.fsMsg.type = .open_ → u32 s.fsMsg.flags &&& oCreat ≠ 0 →
    freeSlotOf (s.inodeTable s.rootInode) s.disk < rootSlots

structure InSpace (size : Nat) (s : State) : Prop where
  dir : nrDirEntries (s.inodeTable s.rootInode) ≤ rootSlots
  sizes : ∀ x file, storeOf size s.disk x = some file → file.size ≤ fileSpace
  offsets : ∀ d p, s.opens d = some p → (s.inodeTable p).iMode = iRegular →
    (s.fDescTable d).fdPos ≤ (s.inodeTable p).iSize

-- What a request has done to the files, from the states of FS before and after it.
inductive Shows (s s' : State) : Op Nat UInt8 → Prop
  | read {d p : Nat} (type : s.fsMsg.type = .read) (transfers : Transfers s d p) :
      Shows s s' (.read (s.inodeTable p).iNum (s.fDescTable d).fdPos.toNat
        (OpenFile.cellsAt (s'.userMem s.fsMsg.source) s.fsMsg.buf s.fsMsg.cnt.toNat))
  | write {d p : Nat} (type : s.fsMsg.type = .write) (transfers : Transfers s d p) :
      Shows s s' (.write (s.inodeTable p).iNum (s.fDescTable d).fdPos.toNat s.fsMsg.cnt.toNat
        (window (s.userMem s.fsMsg.source) s.fsMsg.buf))
  | create {pathname : List UInt8} {nr : Nat} (type : s.fsMsg.type = .open_)
      (flags : u32 s.fsMsg.flags &&& oCreat ≠ 0) (path : pathnameOf s = .ok pathname)
      (missing : lookupPath s pathname = invalidInode) (lowest : LowestClear s.disk imapBase nr) :
      Shows s s' (.create nr)
  | remove {pathname : List UInt8} (type : s.fsMsg.type = .unlink)
      (path : pathnameOf s = .ok pathname) : Shows s s' (.remove (lookupPath s pathname))
  | quiet (other : s.fsMsg.type = .read ∨ s.fsMsg.type = .write → ∀ d p, ¬ Transfers s d p) :
      Shows s s' .quiet

section Requests

variable {s s' : State} {size p : Nat} {files : Finset Nat} {block : Nat → Nat}
  {holders : Finset (Int × Nat)} {base : Nat → Int}

-- What becomes of the descriptors and of the slots they are open on.
structure Followed (s s' : State) : Prop where
  descs : ∀ d p, s'.opens d = some p → s.opens d = some p ∧
    (s'.fDescTable d).fdPos = (s.fDescTable d).fdPos ∨ (s'.fDescTable d).fdPos = 0
  inodes : ∀ p, 0 < (s.inodeTable p).iCnt → (s'.inodeTable p).iMode = iRegular →
    (s.inodeTable p).iMode = iRegular ∧ (s.inodeTable p).iSize ≤ (s'.inodeTable p).iSize

theorem Followed.offsets (followed : Followed s s') (counted : Counted s holders base)
    (inSpace : InSpace size s) (d p : Nat) (opened : s'.opens d = some p)
    (regular : (s'.inodeTable p).iMode = iRegular) :
    (s'.fDescTable d).fdPos ≤ (s'.inodeTable p).iSize := by
  rcases followed.descs d p opened with ⟨before, same⟩ | zero
  · have used := counted.used before
    have nonneg := counted.nonneg p
    obtain ⟨regular', more⟩ := followed.inodes p (by omega) regular
    have old := inSpace.offsets d p before regular'
    omega
  · omega

theorem InSpace.followed (inSpace : InSpace size s) (counted : Counted s holders base)
    (followed : Followed s s') (disk : s'.disk = s.disk)
    (root : nrDirEntries (s'.inodeTable s'.rootInode) = nrDirEntries (s.inodeTable s.rootInode)) :
    InSpace size s' where
  dir := root ▸ inSpace.dir
  sizes := by
    rw [disk]
    exact inSpace.sizes
  offsets := followed.offsets counted inSpace

theorem OneSlot.followed (one : OneSlot s s' p)
    (root : (s'.inodeTable s'.rootInode).iMode = iDirectory) :
    Followed s s' where
  descs := by
    intro d q opened
    rw [State.opens, one.descs] at opened
    rw [one.descs]
    exact .inl ⟨opened, rfl⟩
  inodes := by
    intro q used regular
    by_cases isRoot : q = s.rootInode
    next =>
      rw [isRoot, ← one.root, root] at regular
      exact absurd regular (by decide)
    next =>
      have other : q ≠ p := by
        rintro rfl
        rw [one.free] at used
        exact absurd used (lt_irrefl 0)
      rw [one.others q other isRoot] at regular ⊢
      exact ⟨regular, le_refl _⟩

theorem Fetched.followed {num : Nat} {inode : Inode} (fetched : Fetched s num p inode s') :
    Followed s s' where
  descs := by
    intro d q opened
    rw [State.opens, fetched.only.fDescTable] at opened
    rw [fetched.only.fDescTable]
    exact .inl ⟨opened, rfl⟩
  inodes := by
    intro q used regular
    rw [fetched.only.inodeTable] at regular ⊢
    simp only [State.setInode] at regular ⊢
    by_cases here : q = p
    next =>
      subst here
      rw [Function.update_self] at regular ⊢
      rcases fetched.kind with ⟨-, rfl⟩ | ⟨free, -⟩
      · exact ⟨regular, le_refl _⟩
      · omega
    next =>
      rw [Function.update_of_ne here] at regular ⊢
      exact ⟨regular, le_refl _⟩

theorem Fetched.rootSlots {num : Nat} {inode : Inode} (fetched : Fetched s num p inode s')
    (used : (s.inodeTable s.rootInode).iCnt ≠ 0) :
    nrDirEntries (s'.inodeTable s'.rootInode) = nrDirEntries (s.inodeTable s.rootInode) := by
  rw [fetched.only.rootInode, fetched.only.inodeTable]
  show nrDirEntries (Function.update s.inodeTable p inode s.rootInode) = _
  by_cases here : s.rootInode = p
  next =>
    rw [here] at used ⊢
    rw [Function.update_self]
    rcases fetched.kind with ⟨-, rfl⟩ | ⟨free, -⟩
    · rfl
    · exact absurd free used
  next => rw [Function.update_of_ne here]

theorem Uses.unique {d d' p p' : Nat} (uses : Uses s d p) (uses' : Uses s d' p') :
    d' = d ∧ p' = p := by
  have sameDesc : d' = d := Option.some.inj (uses'.1.symm.trans uses.1)
  subst sameDesc
  exact ⟨rfl, Option.some.inj (uses'.2.symm.trans uses.2)⟩

theorem doRdwt_cases {driver : Message → Message} {r : Int} (done : doRdwt driver s = .ok (r, s')) :
    ((∃ msg, s' = { s with fsMsg := msg }) ∧ ∀ d p, ¬ Transfers s d p) ∨
      ∃ d p, (0 ≤ s.fsMsg.fd ∧ s.fsMsg.fd < nrFiles) ∧ Uses s d p ∧
        (s.fDescTable d).fdMode &&& oRdwr ≠ 0 ∧
        ((s.inodeTable p).iMode = iRegular ∨ (s.inodeTable p).iMode = iDirectory) := by
  obtain ⟨file, filp, rest⟩ := bind_ok done
  unfold State.filpOf at filp
  by_cases inside : 0 ≤ s.fsMsg.fd ∧ s.fsMsg.fd < nrFiles
  case neg =>
    rw [if_neg inside] at filp
    cases filp
  case pos =>
    rw [if_pos inside, Except.ok.injEq] at filp
    cases file with
    | none => cases rest
    | some d =>
      obtain ⟨u, -, rest⟩ := bind_ok rest
      by_cases mode : (s.fDescTable d).fdMode &&& oRdwr = 0
      next =>
        rw [if_pos mode] at rest
        cases rest
        refine .inl ⟨⟨s.fsMsg, rfl⟩, fun d' p' transfers => transfers.mode ?_⟩
        have same : d' = d := Option.some.inj (transfers.uses.1.symm.trans filp)
        rw [same, mode]
      next =>
        rw [if_neg mode] at rest
        cases opened : (s.fDescTable d).fdInode with
        | none =>
          simp only [opened] at rest
          cases rest
        | some p =>
          simp only [opened] at rest
          have uses : Uses s d p := ⟨filp, opened⟩
          obtain ⟨u, -, rest⟩ := bind_ok rest
          by_cases isChar : (s.inodeTable p).iMode &&& iTypeMask = iCharSpecial
          next =>
            rw [if_pos isChar] at rest
            obtain ⟨u, -, rest⟩ := bind_ok rest
            obtain ⟨u, -, rest⟩ := bind_ok rest
            obtain ⟨u, -, rest⟩ := bind_ok rest
            cases rest
            refine .inl ⟨⟨_, rfl⟩, fun d' p' transfers => ?_⟩
            have regular := transfers.regular
            rw [(uses.unique transfers.uses).2] at regular
            rw [regular] at isChar
            exact absurd isChar (by decide)
          next =>
            rw [if_neg isChar] at rest
            obtain ⟨u, file, -⟩ := bind_ok rest
            exact .inr ⟨d, p, inside, uses, mode, of_decide_eq_true (assertThat_ok.mp file)⟩

theorem MovedWhole.inSpace {d pos n : Nat} (moved : MovedWhole s s' size d p pos n)
    (inSpace : InSpace size s) (isOpen : s.opens d = some p)
    (root : p = s.rootInode → pos + n < fileSpace + dirEntrySize)
    (sizes : ∀ x file, storeOf size s'.disk x = some file → file.size ≤ fileSpace) :
    InSpace size s' where
  dir := by
    have before := inSpace.dir
    rw [moved.root, moved.inodes]
    by_cases here : p = s.rootInode
    next =>
      have fits := root here
      subst here
      rw [Function.update_self]
      simp only [Inode.reaching, nrDirEntries, rootSlots, entriesPerSect, nrDefaultFileSects,
        dirEntrySize, sectorSize, fileSpace] at before fits ⊢
      omega
    next =>
      rw [Function.update_of_ne (fun same => here same.symm)]
      exact before
  sizes := sizes
  offsets := by
    intro d' q opened regular
    have before := inSpace.offsets d' q
    rw [State.opens, moved.descs] at opened
    rw [moved.inodes] at regular ⊢
    rw [moved.descs]
    by_cases desc : d' = d
    next =>
      subst desc
      rw [Function.update_self] at opened ⊢
      have here : q = p := Option.some.inj (Eq.trans opened.symm isOpen)
      rw [here, Function.update_self]
      simp only [Inode.reaching]
      omega
    next =>
      rw [Function.update_of_ne desc] at opened ⊢
      by_cases here : q = p
      next =>
        subst here
        rw [Function.update_self] at regular ⊢
        have old := before opened regular
        simp only [Inode.reaching]
        omega
      next =>
        rw [Function.update_of_ne here] at regular ⊢
        exact before opened regular

theorem Volume.openDirectory (volume : Volume s size files block) (counted : Counted s holders base)
    {d : Nat} (opened : s.opens d = some p) (used : (s.inodeTable p).iCnt ≠ 0)
    (directory : (s.inodeTable p).iMode = iDirectory) : p = s.rootInode := by
  have checks := counted.checked d p opened
  have notChar : ¬ (s.inodeTable p).iMode &&& iTypeMask = iCharSpecial := by
    rw [directory]
    decide
  have isDirectory : (s.inodeTable p).iMode &&& iTypeMask = iDirectory := by
    rw [directory]
    decide
  rw [openChecks, if_neg notChar, if_pos isDirectory] at checks
  have num : (s.inodeTable p).iNum = rootInodeNr := of_decide_eq_true (assertThat_ok.mp checks)
  exact volume.cache.distinct p (counted.inside d p opened).2 used s.rootInode volume.rootSlot
    volume.root.cnt (num.trans volume.root.num.symm)

structure OpenSpace (s : State) (p : Nat) : Prop where
  used : (s.inodeTable p).iCnt ≠ 0
  size : (s.inodeTable p).iSize < fileSpace + dirEntrySize
  sects : (s.inodeTable p).iNrSects = nrDefaultFileSects

theorem Volume.openSpace (volume : Volume s size files block) (counted : Counted s holders base)
    (inSpace : InSpace size s) {d : Nat} (opened : s.opens d = some p)
    (file : (s.inodeTable p).iMode = iRegular ∨ (s.inodeTable p).iMode = iDirectory) :
    OpenSpace s p := by
  have slot := (counted.inside d p opened).2
  have used : (s.inodeTable p).iCnt ≠ 0 := by
    have more := counted.used opened
    have nonneg := counted.nonneg p
    omega
  rcases file with regular | directory
  case inl =>
    have cached := volume.cachedFile slot used regular
    have within := inSpace.sizes (s.inodeTable p).iNum _
      (by rw [volume.storeOf_eq, if_pos cached.member])
    rw [cached.fileAt] at within
    exact ⟨used, lt_of_le_of_lt within (Nat.lt_add_of_pos_right (by decide)), cached.sects⟩
  case inr =>
    have isRoot := volume.openDirectory counted opened used directory
    subst isRoot
    have slots := inSpace.dir
    refine ⟨used, ?_, volume.root.sects⟩
    simp only [nrDirEntries, rootSlots, entriesPerSect, nrDefaultFileSects, dirEntrySize,
      sectorSize,
      fileSpace] at slots ⊢
    omega

theorem OpenSpace.onFile (space : OpenSpace s p) (volume : Volume s size files block)
    (counted : Counted s holders base) (bounded : Bounded s) {d : Nat} (uses : Uses s d p)
    (fd : 0 ≤ s.fsMsg.fd ∧ s.fsMsg.fd < nrFiles)
    (type : s.fsMsg.type = .read ∨ s.fsMsg.type = .write)
    (file : (s.inodeTable p).iMode = iRegular ∨ (s.inodeTable p).iMode = iDirectory) :
    OnFile s d p := by
  have inside := counted.inside d p uses.2
  have size := space.size
  have sects := space.sects
  obtain ⟨lower, fits⟩ := bounded.transfer type d p uses file
  have limit : transferLimit s.fsMsg.type (s.inodeTable p) < 2147483648 := by
    rw [transferLimit]
    simp only [fileSpace, nrDefaultFileSects, dirEntrySize, sectorSize] at size sects ⊢
    split <;> omega
  exact {
    fdLower := fd.1
    fdUpper := fd.2
    filp := uses.1
    desc := inside.1
    inode := uses.2
    slot := inside.2
    file := file
    request := type
    dev := volume.cache.dev p inside.2 space.used
    posLower := counted.pos d
    posUpper := by omega
    sizeUpper := by
      simp only [fileSpace, nrDefaultFileSects, dirEntrySize, sectorSize] at size
      omega
    sectsUpper := by
      rw [sects]
      decide
    startUpper := (volume.cache.coherent p inside.2 space.used).stored.start }

-- A READ or WRITE is the access to the file that the abstract store makes.
theorem Volume.shows_moves (volume : Volume s size files block) (counted : Counted s holders base)
    (inSpace : InSpace size s) (bounded : Bounded s) {driver : Message → Message} {r : Int}
    (type : s.fsMsg.type = .read ∨ s.fsMsg.type = .write)
    (done : Fs.doRdwt driver s = .ok (r, s')) :
    (∃ op, Shows s s' op ∧ Step (storeOf size s.disk) op (storeOf size s'.disk)) ∧
      InSpace size s' := by
  have volume' := volume.doRdwt counted done
  rcases doRdwt_cases done with ⟨⟨msg, rfl⟩, none_⟩ | ⟨d, p, fd, uses, mode, file⟩
  case inl =>
    exact ⟨⟨.quiet, .quiet fun _ => none_, .quiet _⟩, ⟨inSpace.dir, inSpace.sizes, inSpace.offsets⟩⟩
  have slot := (counted.inside d p uses.2).2
  have space := volume.openSpace counted inSpace uses.2 file
  have onFile := space.onFile volume counted bounded uses fd type file
  obtain ⟨lower, fits⟩ := bounded.transfer type d p uses file
  have moved := onFile.movedWhole volume.super mode lower fits done
  have posLower := counted.pos d
  generalize hpos : (s.fDescTable d).fdPos.toNat = pos at moved
  generalize hn : s.fsMsg.cnt.toNat = n at moved
  have sum : ((pos + n : Nat) : Int) = (s.fDescTable d).fdPos + s.fsMsg.cnt := by omega
  rw [← sum, transferLimit] at fits
  rcases file with regular | directory
  case inl =>
    have cached := volume.cachedFile slot space.used regular
    have sizeLe : (s.inodeTable p).iSize ≤ fileSpace := by
      have within := inSpace.sizes (s.inodeTable p).iNum _
        (by rw [volume.storeOf_eq, if_pos cached.member])
      rwa [cached.fileAt] at within
    have begins := inSpace.offsets d p uses.2 regular
    have notRoot : p ≠ s.rootInode := by
      rintro rfl
      rw [volume.root.mode] at regular
      exact absurd regular (by decide)
    by_cases isRead : s.fsMsg.type = .read
    next =>
      rw [if_pos isRead] at fits
      have inside : pos + n ≤ (s.inodeTable p).iSize := by exact_mod_cast fits
      have disk : s'.disk = s.disk := by
        obtain ⟨f, rfl, stored⟩ := moved.disk
        rw [if_pos isRead] at stored
        exact stored.elim (fun same => same.1) fun grown => by omega
      have seen := moved.seen isRead
      rw [disk]
      refine ⟨⟨_, .read isRead ⟨uses, mode, regular⟩, ?_⟩,
        moved.inSpace inSpace uses.2 (fun same => absurd same notRoot)
          (by rw [disk]; exact inSpace.sizes)⟩
      rw [hn, hpos, seen]
      exact cached.read volume inside sizeLe
    next =>
      rw [if_neg isRead, space.sects] at fits
      have inside : pos + n ≤ fileSpace := by exact_mod_cast fits
      have step := cached.write volume volume' moved isRead (by omega) inside
      refine ⟨⟨_, .write (type.resolve_left isRead) ⟨uses, mode, regular⟩, ?_⟩,
        moved.inSpace inSpace uses.2 (fun same => absurd same notRoot)
          (step.size_le ?_ inSpace.sizes)⟩
      · rw [hn, hpos]
        exact step
      · rintro _ _ _ _ ⟨⟩
        exact inside
  case inr =>
    have isRoot := volume.openDirectory counted uses.2 space.used directory
    have start : (s.inodeTable p).iStartSect * sectorSize = dataBase size := by
      rw [isRoot, volume.root.start]
      rfl
    have sectsLe : s.fsMsg.type ≠ .read → pos + n ≤ fileSpace := by
      intro isWrite
      rw [if_neg isWrite, space.sects] at fits
      exact_mod_cast fits
    have inside : pos + n < fileSpace + dirEntrySize := by
      have size := space.size
      by_cases isRead : s.fsMsg.type = .read
      next =>
        rw [if_pos isRead] at fits
        omega
      next => exact lt_of_le_of_lt (sectsLe isRead) (Nat.lt_add_of_pos_right (by decide))
    have same := (moved.directory (by rw [isRoot]; exact volume.root.num) start sectsLe).same volume
      volume'
    rw [same]
    refine ⟨⟨.quiet, .quiet fun _ d' p' transfers => ?_, .quiet _⟩,
      moved.inSpace inSpace uses.2 (fun _ => inside) (by rw [same]; exact inSpace.sizes)⟩
    have regular := transfers.regular
    rw [(uses.unique transfers.uses).2, directory] at regular
    exact absurd regular (by decide)

theorem Volume.shows_open (volume : Volume s size files block) (small : size < 2 ^ 32)
    (counted : Counted s holders base) (inSpace : InSpace size s) (bounded : Bounded s) {r : Int}
    (type : s.fsMsg.type = .open_) (done : Fs.doOpen s = .ok (r, s')) :
    (∃ op, Shows s s' op ∧ Step (storeOf size s.disk) op (storeOf size s'.disk)) ∧
      InSpace size s' := by
  have idle : ∀ {t : State}, Shows s t .quiet := fun {t} =>
    .quiet fun moves => by
      rw [type] at moves
      exact absurd moves (by decide)
  obtain ⟨pathname, s₁, path, only, disk, ways⟩ := doOpen_ok volume.root.dev done
  have volume₁ := volume.reads only disk
  have counted₁ := counted.same only.sameReferences
  have inSpace₁ : InSpace size s₁ := by
    refine inSpace.followed counted ⟨fun d p opened => .inl ?_, fun p _ regular => ?_⟩ disk ?_
    · rw [State.opens, only.fDescTable] at opened
      exact ⟨opened, by rw [only.fDescTable]⟩
    · rw [only.inodeTable] at regular ⊢
      exact ⟨regular, le_refl _⟩
    · rw [only.inodeTable, only.rootInode]
  rcases ways with rfl | ⟨fd, d, p, s₂, -, -, -, idleDesc, finds, -, rfl⟩
  case inl =>
    rw [disk]
    exact ⟨⟨.quiet, idle, .quiet _⟩, inSpace₁⟩
  -- the new descriptor stands at the beginning of its file
  have connected (followed : Followed s₁ s₂) :
      Followed s₁ (s₂.connect s.fsMsg.source fd d p) := by
    refine ⟨fun d' q opened => ?_, followed.inodes⟩
    show _ ∨ (Function.update s₂.fDescTable d _ d').fdPos = 0
    have opened' : (Function.update s₂.fDescTable d ⟨u32 s₂.fsMsg.flags, 0, 1, some p⟩ d').fdInode =
      some q := opened
    by_cases new : d' = d
    next =>
      rw [new, Function.update_self]
      exact .inr rfl
    next =>
      rw [Function.update_of_ne new] at opened' ⊢
      have other : ((s₂.connect s.fsMsg.source fd d p).fDescTable d').fdPos =
          (s₂.fDescTable d').fdPos :=
        congrArg FileDesc.fdPos (Function.update_of_ne new ..)
      rw [other]
      exact followed.descs d' q opened'
  cases finds with
  | creates flags missing create =>
    rw [only.fsMsg] at flags
    have room := bounded.room type flags
    rw [← only.inodeTable, ← only.rootInode, ← disk] at room
    obtain ⟨nr, k, lowest, bound, num, volume₂, elsewhere, empty, dir, one⟩ :=
      volume₁.created small inSpace₁.dir room create
    have fresh := (clear_not_known volume₁.maps bound lowest.1).2
    have step : Step (storeOf size s₁.disk) (.create nr) (storeOf size s₂.disk) := by
      have changed := volume₁.storeOf_changed volume₂ (x := nr)
        (fun y other => by rw [Finset.mem_insert, or_iff_right other])
        (fun y member other => elsewhere.kept volume₁ member other)
      rw [changed, volume₂.storeOf_eq, if_pos (Finset.mem_insert_self ..)]
      have made : fileAt s₂.disk size nr = ⟨(fileAt s₂.disk size nr).cells, 0⟩ := by
        rw [← empty]
        rfl
      rw [made]
      apply Step.create
      rw [volume₁.storeOf_eq, if_neg fresh]
    have followed := connected (one.followed volume₂.root.mode)
    refine ⟨⟨.create nr, .create type flags path missing (disk ▸ lowest), ?_⟩,
      ⟨dir, step.size_le (by rintro _ _ _ _ ⟨⟩) inSpace₁.sizes,
        followed.offsets counted₁ inSpace₁⟩⟩
    rw [← disk]
    exact step
  | fetches flags get =>
    obtain ⟨inode, fetched⟩ := getInode_ok get
    have same : (s₂.connect s.fsMsg.source fd d p).disk = s₁.disk := fetched.disk
    have root := fetched.rootSlots volume₁.root.cnt
    rw [same, disk]
    exact ⟨⟨.quiet, idle, .quiet _⟩,
      inSpace₁.followed counted₁ (connected fetched.followed) same root⟩

theorem InSpace.recount (inSpace : InSpace size s) (counted : Counted s holders base) {cnt : Int}
    (inodes : s'.inodeTable =
      Function.update s.inodeTable p { s.inodeTable p with iCnt := cnt })
    (root : s'.rootInode = s.rootInode) (disk : s'.disk = s.disk)
    (descs : ∀ d q, s'.opens d = some q →
      s.opens d = some q ∧ (s'.fDescTable d).fdPos = (s.fDescTable d).fdPos) : InSpace size s' := by
  have same (q : Nat) : (s'.inodeTable q).iMode = (s.inodeTable q).iMode ∧
      (s'.inodeTable q).iSize = (s.inodeTable q).iSize := by
    rw [inodes]
    by_cases here : q = p
    next =>
      rw [here, Function.update_self]
      exact ⟨rfl, rfl⟩
    next =>
      rw [Function.update_of_ne here]
      exact ⟨rfl, rfl⟩
  refine inSpace.followed counted ⟨fun d q opened => .inl (descs d q opened), fun q _ regular => ?_⟩
    disk ?_
  · rw [(same q).1] at regular
    exact ⟨regular, le_of_eq (same q).2.symm⟩
  · rw [nrDirEntries, nrDirEntries, root, (same s.rootInode).2]

theorem InSpace.release (inSpace : InSpace size s) (counted : Counted s holders base) (src : Int)
    (fd d : Nat) : InSpace size (s.release src fd d p) := by
  refine @InSpace.recount s _ size p _ _ inSpace counted _ rfl rfl rfl fun d' q opened => ?_
  have opened' : (Function.update s.fDescTable d (s.fDescTable d).released d').fdInode = some q :=
    opened
  show s.opens d' = some q ∧
    (Function.update s.fDescTable d (s.fDescTable d).released d').fdPos = _
  by_cases here : d' = d
  next =>
    subst here
    rw [Function.update_self] at opened' ⊢
    have still : (s.fDescTable d').fdInode = some q := by
      simp only [FileDesc.released] at opened'
      split at opened'
      · cases opened'
      · exact opened'
    exact ⟨still, rfl⟩
  next =>
    rw [Function.update_of_ne here] at opened' ⊢
    exact ⟨opened', rfl⟩

theorem InSpace.share (inSpace : InSpace size s) (counted : Counted s holders base) (d : Nat) :
    InSpace size (s.share d p) := by
  refine @InSpace.recount s _ size p _ _ inSpace counted _ rfl rfl rfl fun d' q opened => ?_
  have opened' : (Function.update s.fDescTable d
      { s.fDescTable d with fdCnt := (s.fDescTable d).fdCnt + 1 } d').fdInode = some q := opened
  show s.opens d' = some q ∧ (Function.update s.fDescTable d
    { s.fDescTable d with fdCnt := (s.fDescTable d).fdCnt + 1 } d').fdPos = _
  by_cases here : d' = d
  next =>
    subst here
    rw [Function.update_self] at opened' ⊢
    exact ⟨opened', rfl⟩
  next =>
    rw [Function.update_of_ne here] at opened' ⊢
    exact ⟨opened', rfl⟩

theorem Volume.shows_unlink (volume : Volume s size files block) (counted : Counted s holders base)
    (inSpace : InSpace size s) {r : Int} (type : s.fsMsg.type = .unlink)
    (done : Fs.doUnlink s = .ok (r, s')) :
    (∃ op, Shows s s' op ∧ Step (storeOf size s.disk) op (storeOf size s'.disk)) ∧
      InSpace size s' := by
  have idle : Shows s s' .quiet :=
    .quiet fun moves => by
      rw [type] at moves
      exact absurd moves (by decide)
  obtain ⟨pathname, path, ways⟩ := doUnlink_ok volume.root.dev done
  rcases ways with
    ⟨-, -, only, disk⟩ | ⟨-, p, inode, s₁, fetched, ⟨-, rfl⟩ | ⟨rfl, -⟩⟩
  · rw [disk]
    refine ⟨⟨.quiet, idle, .quiet _⟩, inSpace.followed counted
      ⟨fun d p opened => .inl ?_, fun p _ regular => ?_⟩ disk ?_⟩
    · rw [State.opens, only.fDescTable] at opened
      exact ⟨opened, by rw [only.fDescTable]⟩
    · rw [only.inodeTable] at regular ⊢
      exact ⟨regular, le_refl _⟩
    · rw [only.inodeTable, only.rootInode]
  · rw [fetched.disk]
    exact ⟨⟨.quiet, idle, .quiet _⟩, inSpace.followed counted fetched.followed fetched.disk
      (fetched.rootSlots volume.root.cnt)⟩
  · obtain ⟨pathname, p, path, member, volume', elsewhere, dir, one⟩ :=
      volume.unlinked inSpace.dir done
    have step : Step (storeOf size s.disk) (.remove (lookupPath s pathname))
        (storeOf size s'.disk) := by
      have changed := volume.storeOf_changed volume' (x := lookupPath s pathname)
        (fun y other => by rw [Finset.mem_erase, and_iff_right other])
        (fun y member other => elsewhere.kept volume member other)
      rw [changed, volume'.storeOf_eq, if_neg (Finset.notMem_erase _ _)]
      have there : storeOf size s.disk (lookupPath s pathname) =
          some (fileAt s.disk size (lookupPath s pathname)) := by
        rw [volume.storeOf_eq, if_pos member]
      exact .remove there
    exact ⟨⟨_, .remove type path, step⟩, ⟨dir, step.size_le (by rintro _ _ _ _ ⟨⟩) inSpace.sizes,
      (one.followed volume'.root.mode).offsets counted inSpace⟩⟩

-- Each request of a process does to the files what one operation of the abstract store does.
theorem Volume.shows (volume : Volume s size files block) (small : size < 2 ^ 32)
    (counted : Counted s holders base) (inSpace : InSpace size s) (bounded : Bounded s)
    {driver : Message → Message} (does : Does driver s s') :
    (∃ op, Shows s s' op ∧ Step (storeOf size s.disk) op (storeOf size s'.disk)) ∧
      InSpace size s' := by
  cases does with
  | opens type done => exact volume.shows_open small counted inSpace bounded type done
  | closes type done =>
    obtain ⟨fd, d, p, -, -, -, rfl⟩ := doClose_ok done
    refine ⟨⟨.quiet, .quiet fun moves => ?_, .quiet _⟩, inSpace.release counted _ fd d⟩
    rw [type] at moves
    exact absurd moves (by decide)
  | moves type done => exact volume.shows_moves counted inSpace bounded type done
  | unlinks type done => exact volume.shows_unlink counted inSpace type done

end Requests

end Konix.Fs
