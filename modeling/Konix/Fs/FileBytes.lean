import Konix.Fs.FileAccess
import Konix.Fs.Volume
import Konix.Lib.OpenFile

set_option autoImplicit false

namespace Konix.Fs

open Splice

-- A request to FS, with the memory of the processes when it is made.
structure Request where
  msg : Message
  memory : Int → Nat → UInt8

def State.receive (s : State) (request : Request) : State :=
  { s with fsMsg := request.msg, userMem := request.memory }

-- What a READ has left in its caller's buffer.
def bytesRead (msg : Message) (s : State) : List UInt8 :=
  if msg.type = .read then OpenFile.cellsAt (s.userMem msg.source) msg.buf msg.cnt.toNat else []

-- `do_rdwt()` for one request after the other: each result, and the bytes a READ leaves its caller.
def rdwtAll (driver : Message → Message) :
    State → List Request → Except Stop (List (Int × List UInt8) × State)
  | s, [] => .ok ([], s)
  | s, request :: rest => do
    let (count, s₁) ← doRdwt driver (s.receive request)
    let (results, s₂) ← rdwtAll driver s₁ rest
    return ((count, bytesRead request.msg s₁) :: results, s₂)

/--
Slot `p` caches a regular file in front of sector 2^22. Its size and the offsets of its descriptors
lie in its sectors, and these behind its record, as `new_inode()` and `alloc_smap_bit()` place them.
-/
structure RegularFile (s : State) (p : Nat) : Prop where
  slot : p < nrInode
  regular : (s.inodeTable p).iMode = iRegular
  dev : (s.inodeTable p).iDev = rootDev
  sectsUpper : (s.inodeTable p).iNrSects * sectorSize < 2147483648
  startUpper : (s.inodeTable p).iStartSect < 4294967296
  inRange : ((s.inodeTable p).iStartSect + (s.inodeTable p).iNrSects) * sectorSize < 2147483648
  sizeLe : (s.inodeTable p).iSize ≤ (s.inodeTable p).iNrSects * sectorSize
  offsets : ∀ d, d < nrFileDesc → (s.fDescTable d).fdInode = some p →
    0 ≤ (s.fDescTable d).fdPos ∧ (s.fDescTable d).fdPos ≤ (s.inodeTable p).iSize
  super : ∃ sb, getSuperBlock s rootDev = .ok sb ∧
    recordPos sb (s.inodeTable p).iNum + 16 ≤ (s.inodeTable p).iStartSect * sectorSize

structure Through (s : State) (p d : Nat) (msg : Message) : Prop where
  request : msg.type = .read ∨ msg.type = .write
  len : 0 ≤ msg.cnt
  fdLower : 0 ≤ msg.fd
  fdUpper : msg.fd < nrFiles
  filp : s.filp msg.source msg.fd.toNat = some d
  desc : d < nrFileDesc
  inode : (s.fDescTable d).fdInode = some p

def fileOf (s : State) (p : Nat) : OpenFile UInt8 where
  cells := window s.disk ((s.inodeTable p).iStartSect * sectorSize)
  size := (s.inodeTable p).iSize
  pos d := (s.fDescTable d).fdPos.toNat

def accessOf (s : State) (request : Request) : Access UInt8 :=
  let msg := request.msg
  let d := (s.filp msg.source msg.fd.toNat).getD 0
  if msg.type = .read then .read d msg.cnt.toNat
  else .write d msg.cnt.toNat (window (request.memory msg.source) msg.buf)

def spaceOf (s : State) (p : Nat) : Nat := (s.inodeTable p).iNrSects * sectorSize

-- A request changes neither what the descriptors are open on nor where the file lies.
structure SameFiles (s s' : State) (p : Nat) : Prop where
  filp : s'.filp = s.filp
  inode : ∀ d, (s'.fDescTable d).fdInode = (s.fDescTable d).fdInode
  mode : ∀ d, (s'.fDescTable d).fdMode = (s.fDescTable d).fdMode
  start : (s'.inodeTable p).iStartSect = (s.inodeTable p).iStartSect
  sects : (s'.inodeTable p).iNrSects = (s.inodeTable p).iNrSects

theorem window_storeInode (f : Nat → UInt8) (inode : Inode) {off low : Nat}
    (above : off + 16 ≤ low) : window (storeInode f off inode) low = window f low := by
  funext j
  exact storeInode_outside f inode (by omega)

theorem window_splice_at {α : Type} (f g : Nat → α) (low pos n : Nat) :
    window (splice f (low + pos) n g) low = splice (window f low) pos n g := by
  funext j
  by_cases inside : pos ≤ j ∧ j < pos + n
  · rw [window_apply, splice_inside _ _ (by omega) (by omega), splice_inside _ _ inside.1 inside.2]
    exact congrArg g (by omega)
  · rw [window_apply, splice_outside _ _ (by omega), splice_outside _ _ (by omega), window_apply]

variable {s : State} {p d : Nat}

theorem Volume.regularFile {size : Nat} {files : Finset Nat} {block : Nat → Nat}
    (volume : Volume s size files block) (slot : p < nrInode) (used : (s.inodeTable p).iCnt ≠ 0)
    (member : (s.inodeTable p).iNum ∈ files)
    (inRange : blockSect size (block (s.inodeTable p).iNum + 1) * sectorSize < 2147483648)
    (sizeLe : (s.inodeTable p).iSize ≤ nrDefaultFileSects * sectorSize)
    (offsets : ∀ d, d < nrFileDesc → (s.fDescTable d).fdInode = some p →
      0 ≤ (s.fDescTable d).fdPos ∧ (s.fDescTable d).fdPos ≤ (s.inodeTable p).iSize) :
    RegularFile s p := by
  have known := volume.cache.known p slot used
  have record := volume.cache.coherent p slot used
  have made := volume.maps.file _ member
  have sects : (s.inodeTable p).iNrSects = nrDefaultFileSects := record.sects.symm.trans made.sects
  have start := record.start.symm.trans made.start
  have front := (record_inside size known.1 (known.bound volume.maps.range)).2
  have behind : dataBase size ≤ (s.inodeTable p).iStartSect * sectorSize := by
    rw [start]
    exact Nat.mul_le_mul_right _ (Nat.le_add_right ..)
  exact {
    slot := slot
    regular := record.mode.symm.trans made.mode
    dev := volume.cache.dev p slot used
    sectsUpper := by
      rw [sects]
      decide
    startUpper := record.stored.start
    inRange := by
      rw [sects, start]
      rw [blockSect, Nat.mul_succ, ← Nat.add_assoc] at inRange
      exact inRange
    sizeLe := by
      rw [sects]
      exact sizeLe
    offsets := offsets
    super := ⟨mkfsSuper size, volume.super, le_trans front behind⟩ }

theorem RegularFile.onFile (file : RegularFile s p) {request : Request}
    (through : Through s p d request.msg) : OnFile (s.receive request) d p := by
  have sectsUpper := file.sectsUpper
  have sizeLe := file.sizeLe
  have offset := file.offsets d through.desc through.inode
  exact {
    fdLower := through.fdLower
    fdUpper := through.fdUpper
    filp := through.filp
    desc := through.desc
    inode := through.inode
    slot := file.slot
    file := .inl file.regular
    request := through.request
    dev := file.dev
    posLower := offset.1
    posUpper := by
      show (s.fDescTable d).fdPos < 2147483648
      omega
    sizeUpper := by
      show (s.inodeTable p).iSize < 2147483648
      omega
    sectsUpper := file.sectsUpper
    startUpper := file.startUpper }

theorem RegularFile.finish (file : RegularFile s p) (count : Int) {s₁ : State} {pos : Nat}
    (inodes : s₁.inodeTable = s.inodeTable) (supers : s₁.superBlock = s.superBlock)
    (posNow : (s₁.fDescTable d).fdPos = pos) (inside : pos ≤ spaceOf s p) :
    ∃ s₂, updateSize s₁ d p count = .ok (count, s₂) ∧
      s₂.inodeTable = Function.update s.inodeTable p
        { s.inodeTable p with iSize := max (s.inodeTable p).iSize pos } ∧
      (∀ low, (s.inodeTable p).iStartSect * sectorSize ≤ low →
        window s₂.disk low = window s₁.disk low) ∧
      s₂.fDescTable = s₁.fDescTable ∧ s₂.superBlock = s.superBlock ∧ s₂.filp = s₁.filp ∧
      s₂.userMem = s₁.userMem := by
  obtain ⟨sb, super, front⟩ := file.super
  have sectsUpper := file.sectsUpper
  simp only [spaceOf] at inside
  have word : u32 (s₁.fDescTable d).fdPos = pos := by
    have bounds := u32_of_bounds (x := pos) (by omega) (by omega)
    rw [posNow]
    omega
  by_cases beyond : pos ≤ (s.inodeTable p).iSize
  · refine ⟨s₁, updateSize_same count (by rw [word, inodes]; exact beyond), ?_, fun _ _ => rfl, rfl,
      supers, rfl, rfl⟩
    rw [max_eq_left beyond, inodes]
    exact (Function.update_eq_self p s.inodeTable).symm
  · have grows := updateSize_grows (s := s₁) (d := d) (p := p) count
      (by rw [word, inodes]; omega) (by rw [inodes]; exact file.dev)
      (by rw [getSuperBlock_congr supers]; exact super)
    refine ⟨_, grows, ?_, ?_, rfl, supers, rfl, rfl⟩
    · simp only [State.synced, State.setInode, inodes, word]
      rw [max_eq_right (by omega)]
    · intro low above
      apply window_storeInode
      show recordPos sb (s₁.inodeTable p).iNum + 16 ≤ low
      rw [inodes]
      omega

-- The request has moved `n` bytes at `pos`, and the file has grown to reach there.
structure Accessed (s s' : State) (p d : Nat) (request : Request) (pos n : Nat) : Prop where
  count : request.msg.cnt = n
  offset : (s.fDescTable d).fdPos = pos
  inode : s'.inodeTable p = { s.inodeTable p with iSize := max (s.inodeTable p).iSize (pos + n) }
  descs : s'.fDescTable =
    Function.update s.fDescTable d { s.fDescTable d with fdPos := (pos + n : Nat) }
  cells : (fileOf s' p).cells =
    if request.msg.type = .read then (fileOf s p).cells
    else splice (fileOf s p).cells pos n
      (window (request.memory request.msg.source) request.msg.buf)
  seen : request.msg.type = .read →
    OpenFile.cellsAt (s'.userMem request.msg.source) request.msg.buf n =
      OpenFile.cellsAt (fileOf s p).cells pos n
  supers : s'.superBlock = s.superBlock
  filp : s'.filp = s.filp

theorem RegularFile.accessed (file : RegularFile s p) (driver : Message → Message)
    {request : Request} (through : Through s p d request.msg)
    (mode : (s.fDescTable d).fdMode &&& oRdwr ≠ 0)
    (limit : (s.fDescTable d).fdPos + request.msg.cnt ≤
      transferLimit request.msg.type (s.inodeTable p)) :
    ∃ s' pos n, doRdwt driver (s.receive request) = .ok (request.msg.cnt, s') ∧
      Accessed s s' p d request pos n := by
  have onFile := file.onFile through
  have offset := file.offsets d through.desc through.inode
  have sizeLe := file.sizeLe
  have inRange := file.inRange
  rw [Nat.add_mul] at inRange
  have limitLe : transferLimit request.msg.type (s.inodeTable p) ≤ spaceOf s p := by
    rw [transferLimit, spaceOf]
    split <;> omega
  obtain ⟨s₁, ⟨⟨c, k, type, src, buf, desc, moved⟩, -, -⟩, done⟩ :=
    onFile.doRdwt_moved driver mode through.len limit
      (lt_of_le_of_lt (Nat.add_le_add_left limitLe _) inRange)
  obtain ⟨pos, posEq⟩ := Int.eq_ofNat_of_zero_le offset.1
  obtain ⟨n, lenEq⟩ := Int.eq_ofNat_of_zero_le through.len
  have count : (s.receive request).fsMsg.cnt.toNat = n := by
    show request.msg.cnt.toNat = n
    omega
  have place : ((s.receive request).fDescTable d).fdPos.toNat = pos := by
    show (s.fDescTable d).fdPos.toNat = pos
    omega
  rw [count, place] at moved
  have posNow : (s₁.fDescTable d).fdPos = (pos + n : Nat) := by
    rw [moved.descs, desc, Function.update_self]
    show (s.fDescTable d).fdPos + (n : Int) = (pos + n : Nat)
    omega
  have inside : pos + n ≤ spaceOf s p := by omega
  obtain ⟨s', updated, inodes, kept, descs, supers, filp, memory⟩ :=
    file.finish request.msg.cnt moved.inodes moved.supers posNow inside
  have inode : s'.inodeTable p =
      { s.inodeTable p with iSize := max (s.inodeTable p).iSize (pos + n) } := by
    rw [inodes, Function.update_self]
  refine ⟨s', pos, n, done.trans updated, lenEq, posEq, inode, ?_, ?_, fun isRead => ?_, supers,
    filp.trans moved.filp⟩
  · rw [descs, ← posNow, moved.descs, desc, Function.update_self]
    rfl
  · simp only [fileOf, inode]
    rw [kept _ (Nat.le_refl _), moved.disk, type, src, buf]
    by_cases isRead : request.msg.type = .read
    · have reads : (s.receive request).fsMsg.type = .read := isRead
      rw [if_pos reads, if_pos isRead]
      rfl
    · have writes : (s.receive request).fsMsg.type ≠ .read := isRead
      rw [if_neg writes, if_neg isRead, ← window_splice_at]
      rfl
  · have reads : (s.receive request).fsMsg.type = .read := isRead
    rw [memory, moved.userMem, type, if_pos reads, src, buf]
    simp only [State.receive, Function.update_self, fileOf]
    apply OpenFile.cellsAt_congr
    intro j below
    rw [splice_inside _ _ (by omega) (by omega)]
    simp only [window_apply, Nat.add_zero, Nat.add_sub_cancel_left, Nat.add_assoc]

section Accesses

variable {s' : State} {request : Request} {pos n : Nat}

theorem Accessed.desc (accessed : Accessed s s' p d request pos n) (d' : Nat) :
    s'.fDescTable d' =
      if d' = d then { s.fDescTable d with fdPos := (pos + n : Nat) } else s.fDescTable d' := by
  rw [accessed.descs]
  by_cases same : d' = d
  · rw [if_pos same, same, Function.update_self]
  · rw [if_neg same, Function.update_of_ne same]

theorem Accessed.regularFile (accessed : Accessed s s' p d request pos n) (file : RegularFile s p)
    (inside : pos + n ≤ spaceOf s p) : RegularFile s' p := by
  have inode := accessed.inode
  obtain ⟨sb, super, front⟩ := file.super
  exact {
    slot := file.slot
    regular := by rw [inode]; exact file.regular
    dev := by rw [inode]; exact file.dev
    sectsUpper := by rw [inode]; exact file.sectsUpper
    startUpper := by rw [inode]; exact file.startUpper
    inRange := by rw [inode]; exact file.inRange
    sizeLe := by
      rw [inode]
      exact Nat.max_le.mpr ⟨file.sizeLe, inside⟩
    offsets := by
      intro d' bound isOpen
      rw [inode]
      rw [accessed.desc] at isOpen ⊢
      by_cases same : d' = d
      · simp only [same, if_true]
        omega
      · rw [if_neg same] at isOpen ⊢
        have old := file.offsets d' bound isOpen
        exact ⟨old.1, le_trans old.2 (by exact_mod_cast Nat.le_max_left ..)⟩
    super := by
      refine ⟨sb, ?_, ?_⟩
      · rw [getSuperBlock_congr accessed.supers]
        exact super
      · rw [inode]
        exact front }

theorem Accessed.sameFiles (accessed : Accessed s s' p d request pos n) : SameFiles s s' p := by
  have kind (d' : Nat) : (s'.fDescTable d').fdInode = (s.fDescTable d').fdInode ∧
      (s'.fDescTable d').fdMode = (s.fDescTable d').fdMode := by
    rw [accessed.desc]
    by_cases same : d' = d
    · rw [if_pos same, same]
      exact ⟨rfl, rfl⟩
    · rw [if_neg same]
      exact ⟨rfl, rfl⟩
  exact ⟨accessed.filp, fun d' => (kind d').1, fun d' => (kind d').2, by rw [accessed.inode],
    by rw [accessed.inode]⟩

theorem Accessed.view (accessed : Accessed s s' p d request pos n)
    (through : Through s p d request.msg)
    (reads : request.msg.type = .read → pos + n ≤ (s.inodeTable p).iSize) :
    fileOf s' p = (fileOf s p).step (accessOf s request) := by
  have found : (s.filp request.msg.source request.msg.fd.toNat).getD 0 = d := by
    rw [through.filp]
    rfl
  have count : request.msg.cnt.toNat = n := by
    rw [accessed.count, Int.toNat_natCast]
  have place : (s.fDescTable d).fdPos.toNat = pos := by
    rw [accessed.offset, Int.toNat_natCast]
  have offsets : (fileOf s' p).pos = Function.update (fileOf s p).pos d (pos + n) := by
    funext d'
    simp only [fileOf, accessed.desc]
    by_cases same : d' = d
    · rw [if_pos same, same, Function.update_self]
      rfl
    · rw [if_neg same, Function.update_of_ne same]
  have moves (access : Access UInt8) (desc : access.desc = d) (len : access.len = n) :
      Function.update (fileOf s p).pos d (pos + n) = ((fileOf s p).step access).pos := by
    rw [OpenFile.step_pos]
    simp only [OpenFile.moved, desc, len, fileOf, place]
  have cells := accessed.cells
  rw [accessOf, found, count]
  by_cases isRead : request.msg.type = .read
  · rw [if_pos isRead] at cells ⊢
    apply OpenFile.ext
    · rw [cells]
      rfl
    · simp only [fileOf, accessed.inode, max_eq_left (reads isRead), OpenFile.step]
    · rw [offsets]
      exact moves (.read d n) rfl rfl
  · rw [if_neg isRead] at cells ⊢
    apply OpenFile.ext
    · rw [cells]
      simp only [OpenFile.step, fileOf, place]
    · simp only [fileOf, accessed.inode, OpenFile.step, place]
    · rw [offsets]
      exact moves (.write d n (window (request.memory request.msg.source) request.msg.buf)) rfl rfl

theorem Accessed.answer (accessed : Accessed s s' p d request pos n)
    (through : Through s p d request.msg) :
    bytesRead request.msg s' = (fileOf s p).answer (accessOf s request) := by
  have found : (s.filp request.msg.source request.msg.fd.toNat).getD 0 = d := by
    rw [through.filp]
    rfl
  by_cases isRead : request.msg.type = .read
  · rw [bytesRead, if_pos isRead, accessOf, found, if_pos isRead, accessed.count,
      Int.toNat_natCast, accessed.seen isRead]
    simp only [OpenFile.answer, fileOf, accessed.offset, Int.toNat_natCast]
  · rw [bytesRead, if_neg isRead, accessOf, if_neg isRead]
    rfl

end Accesses

theorem RegularFile.serve (file : RegularFile s p) (driver : Message → Message) {request : Request}
    (through : Through s p d request.msg) (mode : (s.fDescTable d).fdMode &&& oRdwr ≠ 0)
    (fits : (fileOf s p).Fits (spaceOf s p) (accessOf s request)) :
    ∃ s', doRdwt driver (s.receive request) = .ok (request.msg.cnt, s') ∧
      RegularFile s' p ∧ SameFiles s s' p ∧
      fileOf s' p = (fileOf s p).step (accessOf s request) ∧
      bytesRead request.msg s' = (fileOf s p).answer (accessOf s request) := by
  have len := through.len
  have offset := file.offsets d through.desc through.inode
  have sizeLe := file.sizeLe
  have found : (s.filp request.msg.source request.msg.fd.toNat).getD 0 = d := by
    rw [through.filp]
    rfl
  have limit : (s.fDescTable d).fdPos + request.msg.cnt ≤
      transferLimit request.msg.type (s.inodeTable p) := by
    rcases through.request with isRead | isWrite
    · simp only [accessOf, found, isRead, if_true, OpenFile.Fits, fileOf] at fits
      simp only [transferLimit, isRead, if_true]
      omega
    · simp only [accessOf, found, isWrite, reduceCtorEq, if_false, OpenFile.Fits, fileOf,
        spaceOf] at fits
      simp only [transferLimit, isWrite, reduceCtorEq, if_false]
      omega
  obtain ⟨s', pos, n, done, accessed⟩ := file.accessed driver through mode limit
  rw [accessed.count, accessed.offset, transferLimit] at limit
  have inside : pos + n ≤ spaceOf s p := by
    rw [spaceOf]
    split at limit <;> omega
  refine ⟨s', done, accessed.regularFile file inside, accessed.sameFiles,
    accessed.view through fun isRead => ?_, accessed.answer through⟩
  rw [if_pos isRead] at limit
  omega

theorem SameFiles.through {s' : State} (same : SameFiles s s' p) {msg : Message}
    (through : Through s p d msg) : Through s' p d msg where
  request := through.request
  len := through.len
  fdLower := through.fdLower
  fdUpper := through.fdUpper
  filp := by
    rw [same.filp]
    exact through.filp
  desc := through.desc
  inode := by
    rw [same.inode]
    exact through.inode

theorem SameFiles.accessOf {s' : State} (same : SameFiles s s' p) :
    accessOf s' = accessOf s := by
  funext request
  simp only [Fs.accessOf, same.filp]

theorem SameFiles.spaceOf {s' : State} (same : SameFiles s s' p) : spaceOf s' p = spaceOf s p := by
  simp only [Fs.spaceOf, same.sects]

/--
Each request returns its length, each READ the bytes of the array, and in the end the file is what
the array has become: bytes that no write covers keep their value, and the size is the largest of
its first value and the ends of the writes.
-/
def RefinesBytes (driver : Message → Message) (s : State) (p : Nat) (requests : List Request) :
    Prop :=
  let file := fileOf s p
  let accesses := requests.map (accessOf s)
  ∃ results s', rdwtAll driver s requests = .ok (results, s') ∧
    results.map Prod.fst = requests.map (fun request => request.msg.cnt) ∧
    results.map Prod.snd = file.answers accesses ∧
    fileOf s' p = file.run accesses ∧
    (∀ b, ¬ OpenFile.Written b file accesses → (fileOf s' p).cells b = file.cells b) ∧
    (s'.inodeTable p).iSize = (file.ends accesses).foldl max file.size

theorem RegularFile.serveAll (driver : Message → Message) (requests : List Request)
    (file : RegularFile s p)
    (through : ∀ request ∈ requests, ∃ d, Through s p d request.msg ∧
      (s.fDescTable d).fdMode &&& oRdwr ≠ 0)
    (fits : OpenFile.FitsAll (spaceOf s p) (fileOf s p) (requests.map (accessOf s))) :
    ∃ results s', rdwtAll driver s requests = .ok (results, s') ∧
      results.map Prod.fst = requests.map (fun request => request.msg.cnt) ∧
      results.map Prod.snd = (fileOf s p).answers (requests.map (accessOf s)) ∧
      fileOf s' p = (fileOf s p).run (requests.map (accessOf s)) := by
  induction requests generalizing s with
  | nil => exact ⟨[], s, rfl, rfl, rfl, rfl⟩
  | cons request rest ih =>
    obtain ⟨d, isOpen, mode⟩ := through request (List.mem_cons_self ..)
    simp only [List.map_cons, OpenFile.FitsAll] at fits
    obtain ⟨s₁, done, file', same, view, bytes⟩ := file.serve driver isOpen mode fits.1
    have through' : ∀ next_ ∈ rest, ∃ d', Through s₁ p d' next_.msg ∧
        (s₁.fDescTable d').fdMode &&& oRdwr ≠ 0 := by
      intro next_ member
      obtain ⟨d', isOpen', mode'⟩ := through next_ (List.mem_cons_of_mem _ member)
      rw [← same.mode] at mode'
      exact ⟨d', same.through isOpen', mode'⟩
    have fits' : OpenFile.FitsAll (spaceOf s₁ p) (fileOf s₁ p) (rest.map (accessOf s₁)) := by
      rw [same.spaceOf, same.accessOf, view]
      exact fits.2
    obtain ⟨results, s₂, served, counts, answers, final⟩ := ih file' through' fits'
    rw [same.accessOf, view] at answers final
    refine ⟨(request.msg.cnt, bytesRead request.msg s₁) :: results, s₂, ?_, ?_, ?_, final⟩
    · rw [rdwtAll, bind_of_ok _ done]
      simp only
      rw [bind_of_ok _ served]
      rfl
    · rw [List.map_cons, List.map_cons, counts]
    · rw [List.map_cons, List.map_cons, OpenFile.answers, answers, bytes]

theorem file_refines_bytes (driver : Message → Message) (requests : List Request)
    (file : RegularFile s p)
    (through : ∀ request ∈ requests, ∃ d, Through s p d request.msg ∧
      (s.fDescTable d).fdMode &&& oRdwr ≠ 0)
    (fits : OpenFile.FitsAll (spaceOf s p) (fileOf s p) (requests.map (accessOf s))) :
    RefinesBytes driver s p requests := by
  obtain ⟨results, s', done, counts, answers, final⟩ :=
    file.serveAll driver requests through fits
  refine ⟨results, s', done, counts, answers, final, ?_, ?_⟩
  · intro b kept
    rw [final]
    exact OpenFile.run_kept _ _ kept
  · rw [← OpenFile.run_size, ← final]
    rfl

-- The sample file is open twice, as descriptors 0 and 1.
def openTwice (mode : Nat) : State :=
  { sampleState .write 0 0 0 with
    fDescTable := fun _ => ⟨mode, 0, 1, some 1⟩
    filp := fun _ fd => some fd }

theorem openTwice_regular (mode : Nat) : RegularFile (openTwice mode) 1 where
  slot := by decide
  regular := rfl
  dev := rfl
  sectsUpper := by
    have size : nrDefaultFileSects * sectorSize < 2147483648 := by decide
    exact size
  startUpper := by
    have start : 2310 < 4294967296 := by decide
    exact start
  inRange := by
    show (2310 + nrDefaultFileSects) * sectorSize < 2147483648
    decide
  sizeLe := Nat.zero_le _
  offsets := fun _ _ _ => ⟨le_refl 0, le_refl 0⟩
  super := by
    have front : recordPos sampleSuperBlock 5 + 16 ≤ 2310 * sectorSize := by decide
    exact ⟨sampleSuperBlock, rfl, front⟩

def sampleRequest (type : MsgType) (fd len : Int) : Request :=
  ⟨⟨6, type, fd, len, 0, 0, 0, 0, 0⟩, fun _ _ => 97⟩

theorem openTwice_through (mode : Nat) (type : MsgType) (fd : Nat) (len : Int)
    (request : type = .read ∨ type = .write) (lower : 0 ≤ len) (upper : fd < nrFiles) :
    Through (openTwice mode) 1 fd (sampleRequest type fd len).msg where
  request := request
  len := lower
  fdLower := Int.natCast_nonneg fd
  fdUpper := Int.ofNat_lt.mpr upper
  filp := rfl
  desc := lt_of_lt_of_le upper (by decide)
  inode := rfl

-- Five bytes are written through one descriptor and read through the other.
theorem file_refines_bytes_five :
    RefinesBytes id (openTwice oRdwr) 1 [sampleRequest .write 0 5, sampleRequest .read 1 5] := by
  apply file_refines_bytes id _ (openTwice_regular oRdwr)
  · intro request member
    rcases List.mem_cons.mp member with rfl | member
    · exact ⟨0, openTwice_through oRdwr .write 0 5 (.inr rfl) (by decide) (by decide), by decide⟩
    · rw [List.mem_singleton.mp member]
      exact ⟨1, openTwice_through oRdwr .read 1 5 (.inl rfl) (by decide) (by decide), by decide⟩
  · have room : 0 + 5 ≤ nrDefaultFileSects * sectorSize := by decide
    have there : 0 + 5 ≤ max 0 (0 + 5) := by decide
    exact ⟨room, there, trivial⟩

-- A descriptor that was opened with `O_CREAT` alone is refused.
theorem file_refines_bytes_refused :
    ¬ ∀ (driver : Message → Message) (s : State) (p : Nat) (requests : List Request),
      RegularFile s p → (∀ request ∈ requests, ∃ d, Through s p d request.msg) →
        OpenFile.FitsAll (spaceOf s p) (fileOf s p) (requests.map (accessOf s)) →
          RefinesBytes driver s p requests := by
  intro always
  have through : Through (openTwice oCreat) 1 0 (sampleRequest .read 0 0).msg :=
    openTwice_through oCreat .read 0 0 (.inl rfl) (le_refl 0) (by decide)
  have empty : 0 + 0 ≤ 0 := by decide
  obtain ⟨results, s', done, counts, -⟩ := always id (openTwice oCreat) 1
    [sampleRequest .read 0 0] (openTwice_regular oCreat)
    (fun request member => by
      rw [List.mem_singleton.mp member]
      exact ⟨0, through⟩) ⟨empty, trivial⟩
  have refused := ((openTwice_regular oCreat).onFile through).doRdwt_eq id
  rw [if_pos (by decide)] at refused
  rw [rdwtAll, bind_of_ok _ refused] at done
  cases done
  simp [sampleRequest, Message.cnt] at counts

end Konix.Fs
