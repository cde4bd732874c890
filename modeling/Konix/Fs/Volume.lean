import Konix.Fs.Maps

set_option autoImplicit false

namespace Konix.Fs

open Splice Words Bits

-- The numbers of inodes in use: the root, the terminals and the regular files.
def Known (files : Finset Nat) (num : Nat) : Prop :=
  0 < num ∧ (num < nrConsoles + 2 ∨ num ∈ files)

-- The slots of `inode_table[]` in use: one for each number, and the same as the record on the disk.
structure Cached (table : Nat → Inode) (f : Nat → UInt8) (size : Nat) (files : Finset Nat) :
    Prop where
  nonneg : ∀ p, p < nrInode → 0 ≤ (table p).iCnt
  dev : ∀ p, p < nrInode → (table p).iCnt ≠ 0 → (table p).iDev = rootDev
  known : ∀ p, p < nrInode → (table p).iCnt ≠ 0 → Known files (table p).iNum
  distinct : ∀ p, p < nrInode → (table p).iCnt ≠ 0 → ∀ q, q < nrInode → (table q).iCnt ≠ 0 →
    (table p).iNum = (table q).iNum → p = q
  coherent : ∀ p, p < nrInode → (table p).iCnt ≠ 0 →
    OnDisk f (recordPos (mkfsSuper size) (table p).iNum) (table p)

structure IsRoot (inode : Inode) (size : Nat) : Prop where
  cnt : inode.iCnt ≠ 0
  dev : inode.iDev = rootDev
  num : inode.iNum = rootInodeNr
  mode : inode.iMode = iDirectory
  start : inode.iStartSect = (mkfsSuper size).n1stSect
  sects : inode.iNrSects = nrDefaultFileSects

structure Volume (s : State) (size : Nat) (files : Finset Nat) (block : Nat → Nat) : Prop where
  super : getSuperBlock s rootDev = .ok (mkfsSuper size)
  maps : Maps s.disk size files block
  cache : Cached s.inodeTable s.disk size files
  rootSlot : s.rootInode < nrInode
  root : IsRoot (s.inodeTable s.rootInode) size

section Cache

variable {table : Nat → Inode} {f g : Nat → UInt8} {size : Nat} {files files' : Finset Nat}

theorem Known.bound {num : Nat} (known : Known files num)
    (range : ∀ x ∈ files, nrConsoles + 2 ≤ x ∧ x < bitsPerSect) : num < bitsPerSect := by
  rcases known.2 with small | member
  · exact lt_of_lt_of_le small (by decide)
  · exact (range num member).2

theorem Cached.congr (cache : Cached table f size files)
    (range : ∀ x ∈ files, nrConsoles + 2 ≤ x ∧ x < bitsPerSect)
    (agree : ∀ a, recordBase size ≤ a → a < dataBase size → g a = f a) :
    Cached table g size files where
  nonneg := cache.nonneg
  dev := cache.dev
  known := cache.known
  distinct := cache.distinct
  coherent := by
    intro p slot used
    have known := cache.known p slot used
    have inside := record_inside size known.1 (known.bound range)
    exact (cache.coherent p slot used).congr fun j below => agree _ (by omega) (by omega)

theorem Cached.mono (cache : Cached table f size files) (more : files ⊆ files') :
    Cached table f size files' where
  nonneg := cache.nonneg
  dev := cache.dev
  known := fun p slot used => ⟨(cache.known p slot used).1, (cache.known p slot used).2.imp_right
    fun member => more member⟩
  distinct := cache.distinct
  coherent := cache.coherent

-- One slot changes: what has to hold of it when it is in use, and of the records of the others.
theorem Cached.change (cache : Cached table f size files) {table' : Nat → Inode} {q : Nat}
    (others : ∀ p, p ≠ q → table' p = table p) (nonneg : 0 ≤ (table' q).iCnt)
    (here : (table' q).iCnt ≠ 0 → (table' q).iDev = rootDev ∧ Known files (table' q).iNum ∧
      OnDisk g (recordPos (mkfsSuper size) (table' q).iNum) (table' q) ∧
      ∀ p, p < nrInode → p ≠ q → (table p).iCnt ≠ 0 → (table p).iNum ≠ (table' q).iNum)
    (kept : ∀ p, p < nrInode → p ≠ q → (table p).iCnt ≠ 0 →
      OnDisk g (recordPos (mkfsSuper size) (table p).iNum) (table p)) :
    Cached table' g size files := by
  constructor
  case nonneg =>
    intro p slot
    by_cases same : p = q
    · rwa [same]
    · rw [others p same]
      exact cache.nonneg p slot
  case dev =>
    intro p slot used
    by_cases same : p = q
    · subst same
      exact (here used).1
    · rw [others p same] at used ⊢
      exact cache.dev p slot used
  case known =>
    intro p slot used
    by_cases same : p = q
    · subst same
      exact (here used).2.1
    · rw [others p same] at used ⊢
      exact cache.known p slot used
  case distinct =>
    intro p pSlot pUsed r rSlot rUsed same
    by_cases hp : p = q <;> by_cases hr : r = q
    · rw [hp, hr]
    · subst hp
      rw [others r hr] at rUsed same
      exact absurd same.symm ((here pUsed).2.2.2 r rSlot hr rUsed)
    · subst hr
      rw [others p hp] at pUsed same
      exact absurd same ((here rUsed).2.2.2 p pSlot hp pUsed)
    · rw [others p hp] at pUsed same
      rw [others r hr] at rUsed same
      exact cache.distinct p pSlot pUsed r rSlot rUsed same
  case coherent =>
    intro p slot used
    by_cases same : p = q
    · subst same
      exact (here used).2.2.1
    · rw [others p same] at used ⊢
      exact kept p slot same used

theorem Cached.store (cache : Cached table f size files) {q : Nat} {inode : Inode}
    (nonneg : 0 ≤ inode.iCnt) (dev : inode.iDev = rootDev) (known : Known files inode.iNum)
    (stored : Stored inode)
    (alone : ∀ p, p < nrInode → p ≠ q → (table p).iCnt ≠ 0 → (table p).iNum ≠ inode.iNum) :
    Cached (Function.update table q inode)
      (storeInode f (recordPos (mkfsSuper size) inode.iNum) inode) size files := by
  have self : Function.update table q inode q = inode := Function.update_self ..
  apply cache.change (q := q) (fun p same => Function.update_of_ne same ..)
  · rwa [self]
  · intro used
    rw [self]
    exact ⟨dev, known, storeInode_onDisk f _ stored, alone⟩
  · intro p slot same used
    exact (cache.coherent p slot used).store inode
      (records_apart size (cache.known p slot used).1 known.1 (alone p slot same used))

theorem Cached.count (cache : Cached table f size files) {q : Nat} {cnt : Int} (slot : q < nrInode)
    (used : (table q).iCnt ≠ 0) (nonneg : 0 ≤ cnt) :
    Cached (Function.update table q { table q with iCnt := cnt }) f size files := by
  have self : Function.update table q { table q with iCnt := cnt } q =
      { table q with iCnt := cnt } := Function.update_self ..
  have record := cache.coherent q slot used
  apply cache.change (q := q) (fun p same => Function.update_of_ne same ..)
  · rwa [self]
  · intro _
    rw [self]
    exact ⟨cache.dev q slot used, cache.known q slot used,
      ⟨record.mode, record.size, record.start, record.sects⟩, fun p bound different usedP same =>
        different (cache.distinct p bound usedP q slot used same)⟩
  · exact fun p bound _ => cache.coherent p bound

theorem Cached.drop (cache : Cached table f size files) {q : Nat} {inode : Inode}
    (slot : q < nrInode)
    (used : (table q).iCnt ≠ 0) (free : inode.iCnt = 0) :
    Cached (Function.update table q inode)
      (storeInode f (recordPos (mkfsSuper size) (table q).iNum) inode) size
      (files.erase (table q).iNum) := by
  have self : Function.update table q inode q = inode := Function.update_self ..
  have others (p : Nat) (bound : p < nrInode) (different : p ≠ q) (usedP : (table p).iCnt ≠ 0) :
      (table p).iNum ≠ (table q).iNum :=
    fun same => different (cache.distinct p bound usedP q slot used same)
  have rest : Cached (Function.update table q inode)
      (storeInode f (recordPos (mkfsSuper size) (table q).iNum) inode) size files := by
    apply cache.change (q := q) (fun p same => Function.update_of_ne same ..)
    · rw [self, free]
    · intro now
      rw [self] at now
      exact absurd free now
    · intro p bound different usedP
      exact (cache.coherent p bound usedP).store inode
        (records_apart size (cache.known p bound usedP).1
        (cache.known q slot used).1 (others p bound different usedP))
  refine { rest with known := fun p bound now => ?_ }
  have known := rest.known p bound now
  refine ⟨known.1, known.2.imp_right fun member => Finset.mem_erase.mpr ⟨?_, member⟩⟩
  by_cases same : p = q
  · rw [same, self] at now
    exact absurd free now
  · rw [Function.update_of_ne same] at now ⊢
    exact others p bound same now

end Cache

section Steps

variable {s s' : State} {size : Nat} {files : Finset Nat} {block : Nat → Nat}

theorem Volume.data (volume : Volume s size files block) (super : s'.superBlock = s.superBlock)
    (inodes : s'.inodeTable = s.inodeTable) (root : s'.rootInode = s.rootInode)
    (agree : ∀ a, a < dataBase size → s'.disk a = s.disk a) : Volume s' size files block where
  super := by
    have same : getSuperBlock s' rootDev = getSuperBlock s rootDev := by
      rw [getSuperBlock, getSuperBlock, super]
    rw [same, volume.super]
  maps := volume.maps.data agree
  cache := by
    rw [inodes]
    exact volume.cache.congr volume.maps.range fun a _ below => agree a below
  rootSlot := by
    rw [root]
    exact volume.rootSlot
  root := by
    rw [inodes, root]
    exact volume.root

theorem Volume.reads (volume : Volume s size files block) (only : DiskOnly s s')
    (same : s'.disk = s.disk) : Volume s' size files block :=
  volume.data only.superBlock only.inodeTable only.rootInode fun a _ => congrFun same a

theorem Volume.fetched (volume : Volume s size files block) {num p : Nat} {inode : Inode}
    (known : Known files num) (fetched : Fetched s num p inode s') :
    Volume s' size files block := by
  have table : s'.inodeTable = Function.update s.inodeTable p inode := fetched.only.inodeTable
  have root : s'.rootInode = s.rootInode := fetched.only.rootInode
  refine ⟨?_, ?_, ?_, ?_, ?_⟩
  · rw [fetched.only.getSuperBlock rootDev]
    exact volume.super
  · rw [fetched.disk]
    exact volume.maps
  · rw [table, fetched.disk]
    rcases fetched.kind with ⟨⟨used, -, -⟩, rfl⟩ | ⟨free, none_, one, sb, super, record⟩
    · have nonneg := volume.cache.nonneg p fetched.slot
      exact volume.cache.count fetched.slot used (by omega)
    · rw [volume.super] at super
      cases super
      have self : Function.update s.inodeTable p inode p = inode := Function.update_self ..
      apply volume.cache.change (q := p) (fun q same => Function.update_of_ne same ..)
      · rw [self, one]
        decide
      · intro _
        rw [self, fetched.iNum]
        refine ⟨fetched.dev, known, record, fun q bound different used same => ?_⟩
        exact none_ q bound ⟨used, volume.cache.dev q bound used, same⟩
      · exact fun q bound _ => volume.cache.coherent q bound
  · rw [root]
    exact volume.rootSlot
  · rw [table, root]
    by_cases same : s.rootInode = p
    · subst same
      rw [Function.update_self]
      have isRoot := volume.root
      rcases fetched.kind with ⟨-, rfl⟩ | ⟨free, -⟩
      · have nonneg := volume.cache.nonneg _ fetched.slot
        refine { isRoot with cnt := ?_ }
        show (s.inodeTable s.rootInode).iCnt + 1 ≠ 0
        omega
      · exact absurd free isRoot.cnt
    · rw [Function.update_of_ne same]
      exact volume.root

theorem Volume.recount (volume : Volume s size files block) {p : Nat} {cnt : Int}
    (slot : p < nrInode) (used : (s.inodeTable p).iCnt ≠ 0) (nonneg : 0 ≤ cnt)
    (root : p = s.rootInode → cnt ≠ 0) :
    Volume (s.setInode p { s.inodeTable p with iCnt := cnt }) size files block := by
  refine ⟨volume.super, volume.maps, volume.cache.count slot used nonneg, volume.rootSlot, ?_⟩
  by_cases same : p = s.rootInode
  · have isRoot := volume.root
    have more := root same
    subst same
    simp only [State.setInode, Function.update_self]
    exact ⟨more, isRoot.dev, isRoot.num, isRoot.mode, isRoot.start, isRoot.sects⟩
  · have other : s.rootInode ≠ p := fun h => same h.symm
    simp only [State.setInode, Function.update_of_ne other]
    exact volume.root

theorem Volume.put (volume : Volume s size files block) {p : Nat} (slot : p < nrInode)
    (root : p = s.rootInode → 1 < (s.inodeTable p).iCnt) (done : putInode s p = .ok s') :
    Volume s' size files block := by
  obtain ⟨positive, rfl⟩ := putInode_ok done
  apply volume.recount slot
  · omega
  · omega
  · intro same
    have more := root same
    omega

theorem Volume.resized (volume : Volume s size files block) {dirSize : Nat} {disk : Nat → UInt8}
    (small : dirSize = (s.inodeTable s.rootInode).iSize ∨ dirSize < 2 ^ 32)
    (only : DiskOnly (s.setInode s.rootInode
      { s.inodeTable s.rootInode with iSize := dirSize }) s')
    (stored : s'.disk = storeInode disk
      (recordPos (mkfsSuper size) (s.inodeTable s.rootInode).iNum)
      { s.inodeTable s.rootInode with iSize := dirSize })
    (agree : ∀ a, a < dirPos (s.inodeTable s.rootInode) → disk a = s.disk a) :
    Volume s' size files block := by
  have isRoot := volume.root
  have start : dirPos (s.inodeTable s.rootInode) = dataBase size := by
    rw [dirPos, isRoot.start]
    rfl
  rw [start] at agree
  have table : s'.inodeTable = Function.update s.inodeTable s.rootInode
      { s.inodeTable s.rootInode with iSize := dirSize } := only.inodeTable
  have root : s'.rootInode = s.rootInode := only.rootInode
  have known := volume.cache.known _ volume.rootSlot isRoot.cnt
  have record := (volume.cache.coherent _ volume.rootSlot isRoot.cnt).stored
  have words : Stored { s.inodeTable s.rootInode with iSize := dirSize } :=
    ⟨record.mode, small.elim (fun same => same ▸ record.size) id, record.start, record.sects⟩
  refine ⟨?_, ?_, ?_, ?_, ?_⟩
  · rw [only.getSuperBlock rootDev]
    exact volume.super
  · rw [stored]
    refine (volume.maps.data agree).store known.1 (known.bound volume.maps.range) words ?_ ?_
    · intro member
      have range := volume.maps.range _ member
      rw [isRoot.num] at range
      exact absurd range.1 (by decide)
    · intro _
      show (s.inodeTable s.rootInode).iMode ≠ iRegular
      rw [isRoot.mode]
      decide
  · rw [stored, table]
    exact (volume.cache.congr volume.maps.range fun a _ below => agree a below).store
      (volume.cache.nonneg _ volume.rootSlot) isRoot.dev known words
      fun p slot different used same => different
        (volume.cache.distinct p slot used _ volume.rootSlot isRoot.cnt same)
  · rw [root]
    exact volume.rootSlot
  · rw [root, table, Function.update_self]
    exact ⟨isRoot.cnt, isRoot.dev, isRoot.num, isRoot.mode, isRoot.start, isRoot.sects⟩

theorem Volume.newDirEntry (volume : Volume s size files block) {inodeNr : Nat}
    {filename : List UInt8} (done : newDirEntry s inodeNr filename = .ok s') :
    Volume s' size files block := by
  obtain ⟨sb, dirSize, disk, super, small, only, stored, agree⟩ :=
    newDirEntry_ok volume.root.dev done
  rw [volume.super] at super
  cases super
  exact volume.resized small only stored agree

theorem Volume.freeDirEntry (volume : Volume s size files block) {inodeNr : Nat}
    (done : freeDirEntry s inodeNr = .ok s') : Volume s' size files block := by
  obtain ⟨dirSize, disk, only, changed, agree⟩ := freeDirEntry_ok volume.root.dev volume.super done
  rcases changed with ⟨rfl, same⟩ | ⟨small, stored⟩
  case inl =>
    have unchanged : s.setInode s.rootInode { s.inodeTable s.rootInode with
        iSize := (s.inodeTable s.rootInode).iSize } = s := by
      simp only [State.setInode, Function.update_eq_self]
    rw [unchanged] at only
    have start : dirPos (s.inodeTable s.rootInode) = dataBase size := by
      rw [dirPos, volume.root.start]
      rfl
    rw [start, ← same] at agree
    exact volume.data only.superBlock only.inodeTable only.rootInode agree
  case inr => exact volume.resized (.inr small) only stored agree

end Steps

end Konix.Fs
