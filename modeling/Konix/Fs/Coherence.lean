import Konix.Fs.Counts

set_option autoImplicit false

namespace Konix.Fs

open RefCounts Runs Words Bits

/--
No inode is cached twice, each cached one is as on the disk, and writing one back leaves the
records of the others alone.
-/
structure Coherent (size : Nat) (s : State) : Prop where
  distinct : ∀ p, p < nrInode → 0 < (s.inodeTable p).iCnt →
    ∀ q, q < nrInode → 0 < (s.inodeTable q).iCnt →
      (s.inodeTable p).iDev = (s.inodeTable q).iDev →
      (s.inodeTable p).iNum = (s.inodeTable q).iNum → p = q
  records : ∀ p, p < nrInode → 0 < (s.inodeTable p).iCnt →
    OnDisk s.disk (recordPos (mkfsSuper size) (s.inodeTable p).iNum) (s.inodeTable p)
  synced : ∀ p, p < nrInode → 0 < (s.inodeTable p).iCnt → ∀ s', syncInode s p = .ok s' →
    ∀ num, 0 < num → num ≠ (s.inodeTable p).iNum → ∀ j, j < inodeSize →
      s'.disk (recordPos (mkfsSuper size) num + j) = s.disk (recordPos (mkfsSuper size) num + j)

-- An OPEN of an existing file, or an UNLINK, finds a number only if it is allocated.
def NamesAllocated (s : State) : Prop :=
  s.fsMsg.type = .open_ ∧ u32 s.fsMsg.flags &&& oCreat = 0 ∨ s.fsMsg.type = .unlink →
    ∀ pathname, pathnameOf s = .ok pathname → lookupPath s pathname = invalidInode ∨
      lookupPath s pathname < bitsPerSect ∧ bitAt s.disk imapBase (lookupPath s pathname) = true

section Steps

variable {s s' : State} {size d p : Nat} {files : Finset Nat} {block : Nat → Nat}
  {holders : Finset (Int × Nat)} {base : Nat → Int}

theorem Volume.coherent (volume : Volume s size files block) : Coherent size s := by
  constructor
  case distinct =>
    intro p slot used q slot' used' _ num
    exact volume.cache.distinct p slot (by omega) q slot' (by omega) num
  case records => exact fun p slot used => volume.cache.coherent p slot (by omega)
  case synced =>
    intro p slot used s' sync num positive other j bound
    have busy : (s.inodeTable p).iCnt ≠ 0 := by omega
    obtain ⟨sb, super, -, disk⟩ := syncInode_ok (volume.cache.dev p slot busy) sync
    rw [volume.super] at super
    cases super
    have known := (volume.cache.known p slot busy).1
    rw [disk]
    apply storeInode_outside
    rw [recordPos_eq, recordPos_eq]
    simp only [inodeSize] at bound ⊢
    omega

theorem Volume.allocated (volume : Volume s size files block) {num : Nat} (nonzero : num ≠ 0)
    (bound : num < bitsPerSect) (set : bitAt s.disk imapBase num = true) : Known files num :=
  ⟨Nat.pos_of_ne_zero nonzero, (volume.maps.imap num bound).mp set⟩

theorem Volume.createsFresh (volume : Volume s size files block) : CreatesFresh s := by
  intro pathname filename _ _ _ _ nr lowest p slot caches
  have known := volume.cache.known p slot caches.1
  rw [caches.2.2] at known
  have set := (volume.maps.imap nr (known.bound volume.maps.range)).mpr known.2
  rw [lowest.1] at set
  cases set

theorem Volume.tables (volume : Volume s size files block) (super : s'.superBlock = s.superBlock)
    (inodes : s'.inodeTable = s.inodeTable) (root : s'.rootInode = s.rootInode)
    (disk : s'.disk = s.disk) : Volume s' size files block :=
  volume.data super inodes root fun a _ => congrFun disk a

theorem Volume.start_above (volume : Volume s size files block)
    (counted : Counted s holders base) (opened : s.opens d = some p)
    (file : (s.inodeTable p).iMode = iRegular ∨ (s.inodeTable p).iMode = iDirectory) :
    dataBase size ≤ (s.inodeTable p).iStartSect * sectorSize := by
  have slot := (counted.inside d p opened).2
  have used := counted.used opened
  have nonneg := counted.nonneg p
  have busy : (s.inodeTable p).iCnt ≠ 0 := by omega
  have known := volume.cache.known p slot busy
  have record := volume.cache.coherent p slot busy
  apply Nat.mul_le_mul_right
  rcases file with regular | directory
  case inl =>
    rcases known.2 with special | member
    · exact absurd (record.mode.trans regular) (volume.maps.special _ known.1 special)
    · have made := volume.maps.file _ member
      rw [← record.start, made.start]
      exact Nat.le_add_right ..
  case inr =>
    have num : (s.inodeTable p).iNum = rootInodeNr := by
      have checks := counted.checked d p opened
      have notChar : ¬ (s.inodeTable p).iMode &&& iTypeMask = iCharSpecial := by
        rw [directory]
        decide
      have isDirectory : (s.inodeTable p).iMode &&& iTypeMask = iDirectory := by
        rw [directory]
        decide
      rw [openChecks, if_neg notChar, if_pos isDirectory] at checks
      exact of_decide_eq_true (assertThat_ok.mp checks)
    have same := volume.cache.distinct p slot busy s.rootInode volume.rootSlot volume.root.cnt
      (num.trans volume.root.num.symm)
    rw [same, volume.root.start]

theorem Volume.grown (volume : Volume s size files block) {bytes : Nat} (slot : p < nrInode)
    (used : (s.inodeTable p).iCnt ≠ 0) (small : bytes < 2 ^ 32)
    (done : syncInode (s.setInode p { s.inodeTable p with iSize := bytes }) p = .ok s') :
    Volume s' size files block := by
  have known := volume.cache.known p slot used
  have record := volume.cache.coherent p slot used
  have dev := volume.cache.dev p slot used
  have here : (s.setInode p { s.inodeTable p with iSize := bytes }).inodeTable p =
      { s.inodeTable p with iSize := bytes } := Function.update_self ..
  obtain ⟨sb, super, only, disk⟩ := syncInode_ok (by rw [here]; exact dev) done
  have sameSuper : getSuperBlock (s.setInode p { s.inodeTable p with iSize := bytes }) rootDev =
      .ok (mkfsSuper size) := volume.super
  rw [sameSuper] at super
  cases super
  rw [here] at disk
  have words : Stored { s.inodeTable p with iSize := bytes } :=
    ⟨record.stored.mode, small, record.stored.start, record.stored.sects⟩
  refine ⟨?_, ?_, ?_, ?_, ?_⟩
  · rw [only.getSuperBlock]
    exact volume.super
  · rw [disk]
    refine volume.maps.store known.1 (known.bound volume.maps.range) words ?_ ?_
    · intro member
      have made := volume.maps.file _ member
      exact ⟨record.mode.symm.trans made.mode, record.start.symm.trans made.start,
        record.sects.symm.trans made.sects⟩
    · exact fun special regular =>
        volume.maps.special _ known.1 special (record.mode.trans regular)
  · rw [only.inodeTable, disk]
    exact volume.cache.store (volume.cache.nonneg p slot) dev known words
      fun q bound other busy same => other (volume.cache.distinct q bound busy p slot used same)
  · rw [only.rootInode]
    exact volume.rootSlot
  · rw [only.rootInode, only.inodeTable]
    by_cases same : p = s.rootInode
    next =>
      have isRoot := volume.root
      subst same
      simp only [State.setInode, Function.update_self]
      exact ⟨isRoot.cnt, isRoot.dev, isRoot.num, isRoot.mode, isRoot.start, isRoot.sects⟩
    next =>
      have other : s.rootInode ≠ p := fun h => same h.symm
      simp only [State.setInode, Function.update_of_ne other]
      exact volume.root

theorem Volume.release (volume : Volume s size files block) (counted : Counted s holders base)
    (src : Int) (fd : Nat) (opened : s.opens d = some p) :
    Volume (s.release src fd d p) size files block := by
  have used := counted.used opened
  have nonneg := counted.nonneg p
  have fewer :=
    @Volume.recount _ _ _ _ volume p ((s.inodeTable p).iCnt - 1) (counted.inside d p opened).2
    (by omega) (by omega) (by
      rintro rfl
      have root := counted.root
      omega)
  exact fewer.tables rfl rfl rfl rfl

theorem Volume.share (volume : Volume s size files block) (counted : Counted s holders base)
    (opened : s.opens d = some p) : Volume (s.share d p) size files block := by
  have used := counted.used opened
  have nonneg := counted.nonneg p
  have more :=
    @Volume.recount _ _ _ _ volume p ((s.inodeTable p).iCnt + 1) (counted.inside d p opened).2
    (by omega) (by omega) (fun _ => by omega)
  exact more.tables rfl rfl rfl rfl

theorem Volume.doRdwt (volume : Volume s size files block) (counted : Counted s holders base)
    {driver : Message → Message} {r : Int} (done : doRdwt driver s = .ok (r, s')) :
    Volume s' size files block := by
  rcases doRdwt_ok counted.pos done with
    ⟨msg, rfl⟩ | ⟨d, p, s₁, count, opened, slot, file, transferred, update⟩
  case inl => exact volume.tables rfl rfl rfl rfl
  case inr =>
    have above := volume.start_above counted opened file
    have volume₁ : Volume s₁ size files block :=
      volume.data transferred.super transferred.inodes transferred.root fun a below =>
        transferred.disk a (lt_of_lt_of_le below above)
    rcases updateSize_ok update with rfl | ⟨bytes, small, sync⟩
    · exact volume₁
    · have used := counted.used opened
      have nonneg := counted.nonneg p
      apply volume₁.grown slot _ small sync
      rw [transferred.inodes]
      omega

theorem Volume.does (volume : Volume s size files block) (small : size < 2 ^ 32)
    (counted : Counted s holders base) (allocated : NamesAllocated s)
    {driver : Message → Message} (does : Does driver s s') :
    ∃ files' block', Volume s' size files' block' := by
  have known (asks : s.fsMsg.type = .open_ ∧ u32 s.fsMsg.flags &&& oCreat = 0 ∨
        s.fsMsg.type = .unlink) {pathname : List UInt8} (path : pathnameOf s = .ok pathname)
      (nonzero : lookupPath s pathname ≠ 0) : Known files (lookupPath s pathname) := by
    obtain ⟨bound, set⟩ := (allocated asks pathname path).resolve_left nonzero
    exact volume.allocated nonzero bound set
  cases does with
  | opens type done =>
    obtain ⟨pathname, s₁, path, only, disk, ways⟩ := doOpen_ok volume.root.dev done
    have volume₁ := volume.reads only disk
    rcases ways with rfl | ⟨fd, d, p, s₂, -, -, -, -, finds, -, rfl⟩
    · exact ⟨files, block, volume₁⟩
    · cases finds with
      | creates flags missing create =>
        obtain ⟨k, -, -, -, volume₂⟩ := volume₁.create small create
        exact ⟨_, _, volume₂.tables rfl rfl rfl rfl⟩
      | fetches flags get =>
        obtain ⟨inode, fetched⟩ := getInode_ok get
        rw [only.fsMsg] at flags
        have volume₂ := volume₁.fetched (known (.inl ⟨type, flags⟩) path fetched.nonzero) fetched
        exact ⟨_, _, volume₂.tables rfl rfl rfl rfl⟩
  | closes type done =>
    obtain ⟨fd, d, p, -, -, opened, rfl⟩ := doClose_ok done
    exact ⟨files, block, volume.release counted s.fsMsg.source fd opened⟩
  | moves type done => exact ⟨files, block, volume.doRdwt counted done⟩
  | unlinks type done =>
    obtain ⟨pathname, path, ways⟩ := doUnlink_ok volume.root.dev done
    rcases ways with ⟨-, -, only, disk⟩ | ⟨-, p, inode, s₁, fetched, ⟨-, rfl⟩ | ⟨rfl, -⟩⟩
    · exact ⟨files, block, volume.reads only disk⟩
    · exact ⟨files, block, volume.fetched (known (.inr type) path fetched.nonzero) fetched⟩
    · obtain ⟨pathname', t, -, -, volume', -, entry⟩ := volume.unlink done
      exact ⟨_, _, volume'.freeDirEntry entry⟩

end Steps

structure Sound (size : Nat) (v : Service) : Prop where
  served : ∃ base, Served v base
  volume : ∃ files block, Volume v.fs size files block

section Runs

variable {size : Nat} {v v' : Service} {e : Event}

theorem Begins.sound (small : size < 2 ^ 32) (begins : Begins size v) : Sound size v := by
  refine ⟨⟨rootOnly, begins.served small⟩, ∅, fun _ => 0, ?_⟩
  obtain ⟨s, done, -⟩ := begins
  obtain ⟨s', done', started⟩ := initFs_spec s small
  rw [done, Except.ok.injEq] at done'
  subst done'
  exact started.volume small _

theorem Sound.step (small : size < 2 ^ 32) (sound : Sound size v) (serves : Serves v e v')
    (allocated : ∀ request, e = .asks request → NamesAllocated (v.fs.receive request)) :
    Sound size v' := by
  obtain ⟨⟨base, served⟩, files, block, volume⟩ := sound
  have received (request : Request) :=
    served.counted.same (receive_sameReferences v.fs request)
  constructor
  case served =>
    obtain ⟨base', served', -⟩ := served.step serves fun request _ _ =>
      (volume.receive request).createsFresh
    exact ⟨base', served'⟩
  case volume =>
    cases serves with
    | @asked request driver answer s' live runs kind done =>
      obtain ⟨t, msg, does, rfl⟩ := taskFs_does kind done
      obtain ⟨files', block', after⟩ := (volume.receive request).does small (received request)
        (allocated request rfl) does
      exact ⟨files', block', after.tables rfl rfl rfl rfl⟩
    | copied live slot new idle => exact ⟨files, block, volume.tables rfl rfl rfl rfl⟩
    | @forked request driver answer s' parent child forking source type pid done =>
      obtain ⟨t, msg, fork, rfl⟩ := taskFs_fork type done
      have isChild : (v.fs.receive request).fsMsg.pid = child := pid
      rw [isChild] at fork
      obtain ⟨-, after, -⟩ := (received request).forkFiles (Q := fun s => Volume s size files block)
        (volume.receive request) (served.child parent child forking).2
        (fun s holders d p counted volume opened => volume.share counted opened) fork
      exact ⟨files, block, after.tables rfl rfl rfl rfl⟩
    | @exited request driver answer s' idle source type live done =>
      obtain ⟨t, msg, exit_, rfl⟩ := taskFs_exit type done
      obtain ⟨-, after, -⟩ := (received request).exitFiles (Q := fun s => Volume s size files block)
        (volume.receive request) live
        (fun s fd d p counted volume opened => volume.release counted _ fd opened) exit_
      exact ⟨files, block, after.tables rfl rfl rfl rfl⟩

end Runs

theorem cache_coherent {size : Nat} (small : size < 2 ^ 32) (run : Run (Begins size) Serves)
    (allocated : ∀ t, t < run.length → ∀ request, run.act t = .asks request →
      NamesAllocated ((run.state t).fs.receive request)) :
    ∀ t, t ≤ run.length → Coherent size (run.state t).fs := by
  intro t within
  have sound : ∀ t, t ≤ run.length → Sound size (run.state t) := by
    apply run.timed_invariant (P := fun _ v => Sound size v)
    · exact fun v begins => begins.sound small
    · exact fun t within before => before.step small (run.steps t within) (allocated t within)
  obtain ⟨files, block, volume⟩ := (sound t within).volume
  exact volume.coherent

-- INIT creates the file "a", writes to it, closes and unlinks it.
def createA : Request := askOpen (oCreat ||| oRdwr) [97]

def writeA : Request := ask .write 0 5 [104, 101, 108, 108, 111]

def removeA : Request := ask .unlink 0 1 [97]

def allocatedA : Except Stop (Nat × Bool) := do
  let s ← initFs (blankState 10000) 10000
  let (_, s) ← taskFs id (s.receive createA)
  let (_, s) ← taskFs id (s.receive writeA)
  let (_, s) ← taskFs id (s.receive (ask .close 0 0 []))
  let (_, _) ← taskFs id (s.receive removeA)
  return (lookupPath (s.receive removeA) [97], bitAt s.disk imapBase 5)

theorem cache_coherent_life : ∃ run : Run (Begins 10000) Serves, run.length = 4 ∧
    run.act 0 = .asks createA ∧ run.act 1 = .asks writeA ∧ run.act 3 = .asks removeA ∧
    ∀ t, t ≤ run.length → Coherent 10000 (run.state t).fs := by
  have answers : allocatedA = .ok (5, true) := by decide +kernel
  obtain ⟨s₀, made, rest⟩ := bind_ok answers
  obtain ⟨⟨a₁, s₁⟩, created, rest⟩ := bind_ok rest
  obtain ⟨⟨a₂, s₂⟩, written, rest⟩ := bind_ok rest
  obtain ⟨⟨a₃, s₃⟩, closed, rest⟩ := bind_ok rest
  obtain ⟨⟨a₄, s₄⟩, removed, rest⟩ := bind_ok rest
  simp only [pure, Except.pure, Except.ok.injEq, Prod.mk.injEq] at rest
  obtain ⟨number, set⟩ := rest
  have runs (child : Int) : (none : Option (Int × Int)) ≠ some (initPid, child) :=
    fun same => nomatch same
  have alone : initPid ∈ ({initPid} : Finset Int) := Finset.mem_singleton_self _
  refine ⟨⟨4, fun t => match t with
      | 0 => ⟨s₀, {initPid}, none⟩
      | 1 => ⟨s₁, {initPid}, none⟩
      | 2 => ⟨s₂, {initPid}, none⟩
      | 3 => ⟨s₃, {initPid}, none⟩
      | _ => ⟨s₄, {initPid}, none⟩,
    fun t => match t with
      | 0 => .asks createA
      | 1 => .asks writeA
      | 2 => .asks (ask .close 0 0 [])
      | _ => .asks removeA,
    begins_blank made, ?_⟩, rfl, rfl, rfl, rfl, cache_coherent (by decide) _ ?_⟩
  · intro t within
    interval_cases t
    · exact .asked alone runs (by decide) created
    · exact .asked alone runs (by decide) written
    · exact .asked alone runs (by decide) closed
    · exact .asked alone runs (by decide) removed
  · intro t within request act
    interval_cases t <;> cases act
    · rintro (⟨-, plain⟩ | other)
      · have creates : u32 createA.msg.flags &&& oCreat ≠ 0 := by decide
        exact absurd plain creates
      · cases other
    · rintro (⟨type, -⟩ | other)
      · cases type
      · cases other
    · rintro (⟨type, -⟩ | other)
      · cases type
      · cases other
    · intro _ pathname path
      have name : pathnameOf (s₃.receive removeA) = .ok [97] := rfl
      have same : pathname = [97] := Except.ok.inj (path.symm.trans name)
      subst same
      right
      have found : lookupPath (s₃.receive removeA) [97] = 5 := number
      show lookupPath (s₃.receive removeA) [97] < bitsPerSect ∧
        bitAt s₃.disk imapBase (lookupPath (s₃.receive removeA) [97]) = true
      rw [found]
      exact ⟨by decide, set⟩

-- The file "x" starts at the inode array, where the record of the root directory is overwritten.
def overwriteRoot : Request := ask .write 1 4 [0, 0, 0, 0]

def rootOverwritten : Except Stop (List Bool × Int × Nat × Nat × Nat) := do
  let s₀ ← initFs (blankState 10000) 10000
  let (_, s₁) ← taskFs id (s₀.receive (askOpen oRdwr [slash]))
  let (_, s₂) ← taskFs id (s₁.receive (ask .read 0 64 []))
  let (_, s₃) ← taskFs id (s₂.receive (ask .write 0 48 (forgedBytes 6)))
  let (_, s₄) ← taskFs id (s₃.receive (askOpen oRdwr [120]))
  let (_, s₅) ← taskFs id (s₄.receive overwriteRoot)
  return ([s₀, s₁, s₂, s₃, s₄, s₅].map fun s => bitAt s.disk imapBase 5, (s₅.inodeTable 0).iCnt,
    (s₅.inodeTable 0).iNum, (s₅.inodeTable 0).iMode, wordAt s₅.disk (recordPos (mkfsSuper 10000) 1))

-- The inode map has not filled up.
def ImapRoom (s : State) : Prop := ∃ i, i < bitsPerSect ∧ bitAt s.disk imapBase i = false

theorem cache_incoherent :
    ¬ ∀ size, size < 2 ^ 32 → ∀ run : Run (Begins size) Serves,
      (∀ t, t ≤ run.length → ImapRoom (run.state t).fs) →
      ∀ t, t ≤ run.length → Coherent size (run.state t).fs := by
  intro claim
  have record : rootOverwritten =
      .ok ([false, false, false, false, false, false], 2, 1, iDirectory, 0) := by decide +kernel
  obtain ⟨s₀, made, rest⟩ := bind_ok record
  obtain ⟨⟨a₁, s₁⟩, step₁, rest⟩ := bind_ok rest
  obtain ⟨⟨a₂, s₂⟩, step₂, rest⟩ := bind_ok rest
  obtain ⟨⟨a₃, s₃⟩, step₃, rest⟩ := bind_ok rest
  obtain ⟨⟨a₄, s₄⟩, step₄, rest⟩ := bind_ok rest
  obtain ⟨⟨a₅, s₅⟩, step₅, rest⟩ := bind_ok rest
  simp only [pure, Except.pure, Except.ok.injEq, Prod.mk.injEq, List.map_cons, List.map_nil,
    List.cons.injEq, and_true] at rest
  obtain ⟨⟨clear₀, clear₁, clear₂, clear₃, clear₄, clear₅⟩, two, num, mode, word⟩ := rest
  have runs (child : Int) : (none : Option (Int × Int)) ≠ some (initPid, child) :=
    fun same => nomatch same
  have alone : initPid ∈ ({initPid} : Finset Int) := Finset.mem_singleton_self _
  have room {s : State} (clear : bitAt s.disk imapBase 5 = false) : ImapRoom s :=
    ⟨5, by decide, clear⟩
  have coherent : Coherent 10000 s₅ := by
    refine claim 10000 (by decide) ⟨5, fun t => match t with
        | 0 => ⟨s₀, {initPid}, none⟩
        | 1 => ⟨s₁, {initPid}, none⟩
        | 2 => ⟨s₂, {initPid}, none⟩
        | 3 => ⟨s₃, {initPid}, none⟩
        | 4 => ⟨s₄, {initPid}, none⟩
        | _ => ⟨s₅, {initPid}, none⟩,
      fun t => match t with
        | 0 => .asks (askOpen oRdwr [slash])
        | 1 => .asks (ask .read 0 64 [])
        | 2 => .asks (ask .write 0 48 (forgedBytes 6))
        | 3 => .asks (askOpen oRdwr [120])
        | _ => .asks overwriteRoot,
      begins_blank made, ?_⟩ ?_ 5 (le_refl _)
    · intro t within
      interval_cases t
      · exact .asked alone runs (by decide) step₁
      · exact .asked alone runs (by decide) step₂
      · exact .asked alone runs (by decide) step₃
      · exact .asked alone runs (by decide) step₄
      · exact .asked alone runs (by decide) step₅
    · intro t within
      have bound : t ≤ 5 := within
      interval_cases t
      · exact room clear₀
      · exact room clear₁
      · exact room clear₂
      · exact room clear₃
      · exact room clear₄
      · exact room clear₅
  have same := (coherent.records 0 (by decide) (by omega)).mode
  rw [num, mode, word] at same
  exact absurd same (by decide)

end Konix.Fs
