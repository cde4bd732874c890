import Konix.Fs.Coherence
import Konix.Fs.Names
import Konix.Fs.Refusals

set_option autoImplicit false

namespace Konix.Fs

open Splice Words Bits RefCounts

def State.creates (s : State) : Prop := u32 s.fsMsg.flags &&& oCreat ≠ 0

def Found (s : State) (pathname : List UInt8) : Prop :=
  ∃ inodeNr, Answers s pathname inodeNr ∧ inodeNr ≠ invalidInode

-- The path is no name in the root directory, or the name is taken, or nobody has it.
def OpenRefused (s : State) (pathname : List UInt8) : Prop :=
  stripPath pathname = none ∨ s.creates ∧ Found s pathname ∨ ¬ s.creates ∧ ¬ Found s pathname

def Unopened (s s' : State) : Prop :=
  s'.filp = s.filp ∧ s'.fDescTable = s.fDescTable ∧ Untouched s s'

structure Unused (s : State) (fd d : Nat) : Prop where
  entry : fd < nrFiles ∧ s.filp s.fsMsg.source fd = none
  lowest : ∀ i, i < fd → s.filp s.fsMsg.source i ≠ none
  desc : d < nrFileDesc ∧ (s.fDescTable d).fdInode = none

/--
The entry leads to the descriptor, the descriptor to the inode that the name leads to, and nothing
else has changed in the tables. A file that is created gets its name by being created.
-/
structure Opened (s : State) (pathname : List UInt8) (fd d p : Nat) (s' : State) : Prop where
  unused : Unused s fd d
  filp : s'.filp =
    Function.update s.filp s.fsMsg.source (Function.update (s.filp s.fsMsg.source) fd (some d))
  desc : (s'.fDescTable d).fdInode = some p ∧ (s'.fDescTable d).fdCnt = 1 ∧
    (s'.fDescTable d).fdPos = 0
  others : ∀ e, e ≠ d → s'.fDescTable e = s.fDescTable e
  inode : ∃ inodeNr, Caches s'.inodeTable inodeNr p ∧
    (s.creates → Answers s' pathname inodeNr) ∧ (¬ s.creates → Answers s pathname inodeNr)

def AllOrNothing (s : State) (pathname : List UInt8) : Prop :=
  ∃ r s', doOpen s = .ok (r, s') ∧ (r = -1 ↔ OpenRefused s pathname) ∧
    (OpenRefused s pathname → Unopened s s') ∧
    (¬ OpenRefused s pathname → ∃ fd d p : Nat, r = fd ∧ Opened s pathname fd d p s')

def SmapRoom (s : State) (size : Nat) : Prop :=
  ∃ b, b + nrDefaultFileSects ≤ smapBitCount (mkfsSuper size) ∧
    ∀ i, b ≤ i → i < b + nrDefaultFileSects → bitAt s.disk (smapBase (mkfsSuper size)) i = false

def FreeSlot (s : State) : Prop := ∃ q, q < nrInode ∧ (s.inodeTable q).iCnt = 0

structure OpenRoom (s : State) (size : Nat) : Prop where
  entry : ∃ fd, fd < nrFiles ∧ s.filp s.fsMsg.source fd = none
  desc : ∃ d, d < nrFileDesc ∧ (s.fDescTable d).fdInode = none
  slot : FreeSlot s
  imap : ImapRoom s
  smap : SmapRoom s size

-- The record of an inode, as `get_inode()` loads it.
def recordOf (f : Nat → UInt8) (size inodeNr : Nat) : Inode :=
  loadInode freeInode rootDev inodeNr f (recordPos (mkfsSuper size) inodeNr)

def Openable (s : State) (size inodeNr : Nat) : Prop :=
  inodeNr < 2147483648 ∧ openChecks (recordOf s.disk size inodeNr) = .ok ()

/--
The size of the directory does not wrap around; and the name's field is zero behind the name and
`search_file()` reaches it, or the slot behind the directory passes for the entry.
-/
structure EntryFits (dir : Inode) (f : Nat → UInt8) (inodeNr : Nat) (filename : List UInt8) :
    Prop where
  size : dir.iSize + sectorSize < 4294967296
  found : Padded f (dirPos dir) (freeSlotOf dir f) filename ∧
      freeSlotOf dir f < searched (grownDir dir f) ∨
    lookup f (dirPos dir) filename (searched (grownDir dir f)) = inodeNr

structure OpenFits (s : State) (size : Nat) (pathname : List UInt8) : Prop where
  loads : ¬ s.creates → lookupPath s pathname ≠ invalidInode →
    Openable s size (lookupPath s pathname)
  enters : s.creates → lookupPath s pathname = invalidInode →
    ∀ filename, stripPath pathname = some filename →
      ∀ inodeNr, LowestClear s.disk imapBase inodeNr →
        EntryFits (s.inodeTable s.rootInode) s.disk inodeNr filename

section Search

variable {s s' : State} {pathname : List UInt8} {inodeNr : Nat}

theorem answers_iff (dev : (s.inodeTable s.rootInode).iDev = rootDev) :
    Answers s pathname inodeNr ↔ lookupPath s pathname = inodeNr := by
  obtain ⟨t, search, -, -⟩ := searchFile_eq s pathname dev
  constructor
  · rintro ⟨t', search'⟩
    rw [search, Except.ok.injEq, Prod.mk.injEq] at search'
    exact search'.1
  · rintro rfl
    exact ⟨t, search⟩

theorem found_iff (dev : (s.inodeTable s.rootInode).iDev = rootDev) :
    Found s pathname ↔ lookupPath s pathname ≠ invalidInode := by
  constructor
  · rintro ⟨inodeNr, answers, nonzero⟩
    rwa [(answers_iff dev).mp answers]
  · exact fun nonzero => ⟨_, (answers_iff dev).mpr rfl, nonzero⟩

theorem lookupPath_rejected (rejected : stripPath pathname = none) :
    lookupPath s pathname = invalidInode := by
  rw [lookupPath, rejected]
  rfl

end Search

section Open

variable {s s₁ s₂ : State} {size fd d p inodeNr : Nat} {files : Finset Nat} {block : Nat → Nat}
  {pathname filename : List UInt8}

-- The end of `do_open()`, when the slots have been chosen and the inode has been looked for.
def bindInode (src : Int) (fd d : Nat) : Option Nat × State → Except Stop (Int × State)
  | (none, s) => .ok (-1, s)
  | (some p, s) => do
    openChecks (s.inodeTable p)
    return (fd, s.connect src fd d p)

theorem doOpen_eq (room : OpenRoom s size) (dev : (s.inodeTable s.rootInode).iDev = rootDev)
    (path : pathnameOf s = .ok pathname) :
    ∃ fd d s₁, Unused s fd d ∧ DiskOnly s s₁ ∧ s₁.disk = s.disk ∧
      doOpen s = openInode s₁ pathname (lookupPath s pathname) >>=
        bindInode s.fsMsg.source fd d := by
  obtain ⟨fd₀, fdBound, fdFree⟩ := room.entry
  obtain ⟨d₀, dBound, dFree⟩ := room.desc
  obtain ⟨fd, foundFd, bound, free, before⟩ :=
    @firstFree_lowest (fun i => (s.filp s.fsMsg.source i).isNone) nrFiles 0 fd₀
      (Option.isNone_iff_eq_none.mpr fdFree) (Nat.zero_le _) (by omega)
  obtain ⟨d, foundDesc, dBound', dFree', -⟩ :=
    @firstFree_lowest (fun e => (s.fDescTable e).fdInode.isNone) nrFileDesc 0 d₀
      (Option.isNone_iff_eq_none.mpr dFree) (Nat.zero_le _) (by omega)
  obtain ⟨s₁, search, only, disk⟩ := searchFile_eq s pathname dev
  refine ⟨fd, d, s₁, ⟨⟨by omega, Option.isNone_iff_eq_none.mp free⟩, fun i below => ?_,
    by omega, Option.isNone_iff_eq_none.mp dFree'⟩, only, disk, ?_⟩
  · intro none_
    have some_ := before i (Nat.zero_le i) below
    simp only [none_, Option.isNone_none, Bool.true_eq_false] at some_
  · simp only [doOpen, path, foundFd, foundDesc, search, bind, Except.bind]
    cases openInode s₁ pathname (lookupPath s pathname) with
    | error stop => rfl
    | ok found =>
      obtain ⟨slot, s₂⟩ := found
      cases slot <;> rfl

theorem allOrNothing_connect (unused : Unused s fd d) (filp : s₂.filp = s.filp)
    (descs : s₂.fDescTable = s.fDescTable) (accepted : ¬ OpenRefused s pathname)
    (done : doOpen s = .ok ((fd : Int), s₂.connect s.fsMsg.source fd d p)) :
    AllOrNothing s pathname ↔ ∃ inodeNr, Caches s₂.inodeTable inodeNr p ∧
      (s.creates → Answers (s₂.connect s.fsMsg.source fd d p) pathname inodeNr) ∧
      (¬ s.creates → Answers s pathname inodeNr) := by
  have here : ((s₂.connect s.fsMsg.source fd d p).fDescTable d).fdInode = some p := by
    simp only [State.connect, State.setFileDesc, Function.update_self]
  constructor
  · rintro ⟨r, s', done', -, -, opened⟩
    rw [done, Except.ok.injEq, Prod.mk.injEq] at done'
    obtain ⟨rfl, rfl⟩ := done'
    obtain ⟨fd', d', p', same, opened⟩ := opened accepted
    have sameFd : fd' = fd := (Int.ofNat_inj.mp same).symm
    subst sameFd
    have entry := congrFun (congrFun opened.filp s.fsMsg.source) fd'
    simp only [State.connect, State.setFileDesc, State.setFilp, Function.update_self,
      Option.some.injEq] at entry
    subst entry
    have slot := opened.desc.1
    rw [here, Option.some.injEq] at slot
    subst slot
    exact opened.inode
  · intro inode
    refine ⟨fd, _, done, ⟨fun negative => absurd negative (by omega),
      fun refused => absurd refused accepted⟩, fun refused => absurd refused accepted,
      fun _ => ⟨fd, d, p, rfl, unused, ?_, ⟨here, ?_, ?_⟩, fun e other => ?_, inode⟩⟩
    · simp only [State.connect, State.setFileDesc, State.setFilp, filp]
    · simp only [State.connect, State.setFileDesc, Function.update_self]
    · simp only [State.connect, State.setFileDesc, Function.update_self]
    · simp only [State.connect, State.setFileDesc, State.setFilp,
        Function.update_of_ne other, descs]

theorem not_allOrNothing {stop : Stop} (fails : doOpen s = .error stop) :
    ¬ AllOrNothing s pathname := by
  rintro ⟨r, s', done, -⟩
  rw [fails] at done
  cases done

theorem openInode_creates (creates : s.creates) :
    openInode s pathname inodeNr =
      if inodeNr ≠ invalidInode then .ok (none, s) else createFile s pathname :=
  if_pos creates

theorem openInode_plain (plain : ¬ s.creates) (readsWrites : u32 s.fsMsg.flags &&& oRdwr ≠ 0) :
    openInode s pathname inodeNr =
      match stripPath pathname with
      | none => .ok (none, s)
      | some _ => getInode s (s.inodeTable s.rootInode).iDev inodeNr := by
  refine (if_neg plain).trans ?_
  cases stripPath pathname <;>
    simp only [ne_eq, readsWrites, not_false_eq_true, decide_true, assertThat_true, bind,
      Except.bind]

theorem openInode_refused (readsWrites : u32 s.fsMsg.flags &&& oRdwr ≠ 0)
    (refused : stripPath pathname = none ∨ s.creates ∧ inodeNr ≠ invalidInode ∨
      ¬ s.creates ∧ inodeNr = invalidInode) : openInode s pathname inodeNr = .ok (none, s) := by
  by_cases creates : s.creates
  next =>
    rw [openInode_creates creates]
    by_cases taken : inodeNr ≠ invalidInode
    next => exact if_pos taken
    next =>
      have rejected : stripPath pathname = none := by
        rcases refused with rejected | ⟨-, found⟩ | ⟨plain, -⟩
        · exact rejected
        · exact absurd found taken
        · exact absurd creates plain
      refine (if_neg taken).trans ?_
      rw [createFile, rejected]
  next =>
    rw [openInode_plain creates readsWrites]
    cases strip : stripPath pathname with
    | none => rfl
    | some filename =>
      have missing : inodeNr = invalidInode := by
        rcases refused with rejected | ⟨wants, -⟩ | ⟨-, missing⟩
        · rw [rejected] at strip
          cases strip
        · exact absurd wants creates
        · exact missing
      exact if_pos missing

theorem open_refused (room : OpenRoom s size) (dev : (s.inodeTable s.rootInode).iDev = rootDev)
    (path : pathnameOf s = .ok pathname) (readsWrites : u32 s.fsMsg.flags &&& oRdwr ≠ 0)
    (refused : OpenRefused s pathname) : AllOrNothing s pathname := by
  obtain ⟨fd, d, s₁, -, only, disk, run⟩ := doOpen_eq room dev path
  have none_ : openInode s₁ pathname (lookupPath s pathname) = .ok (none, s₁) := by
    apply openInode_refused
    · rwa [only.fsMsg]
    · rw [OpenRefused, found_iff dev, not_not] at refused
      rwa [State.creates, only.fsMsg]
  rw [none_] at run
  exact ⟨-1, s₁, run, ⟨fun _ => refused, fun _ => rfl⟩,
    fun _ => ⟨only.filp, only.fDescTable, only.inodeTable, disk⟩,
    fun accepted => absurd refused accepted⟩

end Open

section Loads

variable {s s' : State} {size p inodeNr : Nat} {files : Finset Nat} {block : Nat → Nat}
  {pathname : List UInt8} {inode : Inode}

theorem openChecks_congr {x y : Inode} (mode : x.iMode = y.iMode)
    (start : x.iStartSect = y.iStartSect)
    (num : x.iNum = y.iNum) : openChecks x = openChecks y := by
  rw [openChecks, openChecks, mode, start, num]

theorem freshInode_checks (inodeNr : Nat) (start : Int) :
    openChecks (freshInode inodeNr start) = .ok () := by
  have mode : (freshInode inodeNr start).iMode = iRegular := rfl
  rw [openChecks, mode, if_neg (by decide), if_neg (by decide)]
  rfl

theorem Volume.fetched_record (volume : Volume s size files block)
    (fetched : Fetched s inodeNr p inode s') :
    openChecks inode = openChecks (recordOf s.disk size inodeNr) := by
  have record : OnDisk s.disk (recordPos (mkfsSuper size) inodeNr) inode := by
    rcases fetched.kind with ⟨⟨used, -, num⟩, rfl⟩ | ⟨-, -, -, sb, super, record⟩
    · have cached := volume.cache.coherent p fetched.slot used
      rw [num] at cached
      exact ⟨cached.mode, cached.size, cached.start, cached.sects⟩
    · rw [volume.super] at super
      cases super
      exact record
  exact openChecks_congr record.mode.symm record.start.symm fetched.iNum

theorem Volume.fetched_used (volume : Volume s size files block)
    (fetched : Fetched s inodeNr p inode s') : inode.iCnt ≠ 0 := by
  rcases fetched.kind with ⟨⟨used, -⟩, rfl⟩ | ⟨-, -, one, -⟩
  · have nonneg := volume.cache.nonneg p fetched.slot
    simp only
    omega
  · rw [one]
    exact Int.one_ne_zero

theorem Volume.open_loads (volume : Volume s size files block) (room : OpenRoom s size)
    (path : pathnameOf s = .ok pathname) (readsWrites : u32 s.fsMsg.flags &&& oRdwr ≠ 0)
    (plain : ¬ s.creates) (found : lookupPath s pathname ≠ invalidInode) :
    AllOrNothing s pathname ↔ Openable s size (lookupPath s pathname) := by
  have dev := volume.root.dev
  obtain ⟨fd, d, s₁, unused, only, disk, run⟩ := doOpen_eq room dev path
  have volume₁ := volume.reads only disk
  have fetch : openInode s₁ pathname (lookupPath s pathname) =
      getInode s₁ rootDev (lookupPath s pathname) := by
    have plain₁ : ¬ s₁.creates := by rwa [State.creates, only.fsMsg]
    rw [openInode_plain plain₁ (by rwa [only.fsMsg]), volume₁.root.dev]
    cases strip : stripPath pathname with
    | none => exact absurd (lookupPath_rejected strip) found
    | some filename => rfl
  have accepted : ¬ OpenRefused s pathname := by
    rintro (rejected | ⟨creates, -⟩ | ⟨-, missing⟩)
    · exact found (lookupPath_rejected rejected)
    · exact plain creates
    · exact missing ((found_iff dev).mpr found)
  rw [fetch] at run
  cases get : getInode s₁ rootDev (lookupPath s pathname) with
  | error stop =>
    rw [get] at run
    refine iff_of_false (not_allOrNothing run) fun openable => ?_
    obtain ⟨q, slot, free⟩ := room.slot
    obtain ⟨p, inode, s₂, get', -⟩ :=
      @getInode_fetches s₁ _ _ q found openable.1 volume₁.super slot (by rwa [only.inodeTable])
    rw [get] at get'
    cases get'
  | ok fetched =>
    obtain ⟨slot, s₂⟩ := fetched
    cases slot with
    | none => exact absurd (getInode_none get).1 found
    | some p =>
      rw [get] at run
      obtain ⟨inode, fetched⟩ := getInode_ok get
      have record := volume₁.fetched_record fetched
      rw [disk] at record
      have slot : s₂.inodeTable p = inode := by
        rw [fetched.only.inodeTable]
        exact Function.update_self ..
      have small : lookupPath s pathname < 2147483648 := by
        rcases getInode_small get with small | ⟨q, bound, used, -, num⟩
        · exact small
        · have known := volume₁.cache.known q bound used
          rw [num] at known
          have inMap := known.bound volume.maps.range
          simp only [bitsPerSect, sectorSize] at inMap
          omega
      cases checks : openChecks (s₂.inodeTable p) with
      | error stop =>
        have fails : doOpen s = .error stop := by
          rw [run]
          simp only [bindInode, checks, bind, Except.bind]
        refine iff_of_false (not_allOrNothing fails) fun openable => ?_
        rw [slot, record, openable.2] at checks
        cases checks
      | ok u =>
        have done : doOpen s = .ok ((fd : Int), s₂.connect s.fsMsg.source fd d p) := by
          rw [run]
          simp only [bindInode, checks, bind, Except.bind]
          rfl
        have filp := fetched.only.filp.trans only.filp
        have descs := fetched.only.fDescTable.trans only.fDescTable
        rw [slot, record] at checks
        refine iff_of_true ((allOrNothing_connect unused filp descs accepted done).mpr ?_)
          ⟨small, checks⟩
        refine ⟨lookupPath s pathname, ⟨?_, ?_, ?_⟩, fun creates => absurd creates plain,
          fun _ => (answers_iff dev).mpr rfl⟩
        · rw [slot]
          exact volume₁.fetched_used fetched
        · rw [slot, fetched.dev]
        · rw [slot, fetched.iNum]

end Loads

structure Made (s : State) (size inodeNr p : Nat) (t : State) : Prop where
  volume : ∃ files block, Volume t size files block
  same : SameDirectory size s t
  slot : p ≠ t.rootInode
  inode : ∃ start, t.inodeTable p = freshInode inodeNr start
  filp : t.filp = s.filp
  descs : t.fDescTable = s.fDescTable

section Creates

variable {s s' t : State} {size p inodeNr : Nat} {files : Finset Nat} {block : Nat → Nat}
  {pathname filename : List UInt8} {c : UInt8} {rest : List UInt8}

-- With room in the maps and a free slot, nothing stops `create_file()` before the directory.
theorem Volume.makes (volume : Volume s size files block) (small : size < 2 ^ 32)
    (slot : FreeSlot s) (imap : ImapRoom s) (smap : SmapRoom s size)
    (lowest : LowestClear s.disk imapBase inodeNr) (strip : stripPath pathname = some filename) :
    inodeNr < bitsPerSect ∧ ∃ p t, Made s size inodeNr p t ∧
      Fs.createFile s pathname =
        Fs.newDirEntry t inodeNr filename >>= fun s' => .ok (some p, s') := by
  obtain ⟨i, inMap, clear⟩ := imap
  obtain ⟨nr, s₁, imap, only₁, ways⟩ := allocImapBit_spec s volume.super Nat.one_pos
  rcases ways with ⟨-, -, full⟩ | ⟨bound, lowest', disk₁⟩
  case inl =>
    rw [full i inMap] at clear
    cases clear
  case inr =>
    have sameNr := lowest'.unique lowest
    subst sameNr
    obtain ⟨k, positive, few, unused, run, ends⟩ :=
      volume.allocSmapBit small only₁ fun a above _ => by
        rw [disk₁]
        exact setBits_same _ (imap_outside bound above)
    rcases ends with ⟨short, -⟩ | ⟨fits, s₂, smap', only₂, disk₂⟩
    case inl =>
      obtain ⟨b, inside, free⟩ := smap
      by_cases before : b < blockBit k
      next =>
        have some_ : 0 < nrDefaultFileSects := by decide
        have set := run.set b before (by omega)
        rw [free b (le_refl b) (by omega)] at set
        cases set
      next => omega
    case inr =>
      have only := only₁.trans only₂
      obtain ⟨notSpecial, -⟩ := clear_not_known volume.maps bound lowest.1
      obtain ⟨q, slotBound, free⟩ := slot
      have super₂ := (only.getSuperBlock rootDev).trans volume.super
      obtain ⟨p, inode, s₃, get, fetched⟩ := @getInode_fetches s₂ _ nr q (by omega)
        (by simp only [bitsPerSect, sectorSize] at bound; omega) super₂ slotBound
        (by rwa [only.inodeTable])
      obtain ⟨s₄, made⟩ := newInode_makes (blockSect size k : Nat) get
        ((fetched.only.getSuperBlock rootDev).trans super₂)
      rw [disk₁] at disk₂
      have inSmap : nrDefaultFileSects * (k + 1) < smapBitCount (mkfsSuper size) := by
        simp only [blockBit, nrDefaultFileSects] at fits ⊢
        omega
      have sectSmall := (freeSectNr_block small few).2
      obtain ⟨volume₄, same, notRoot, inode₄⟩ := volume.newInode only bound lowest.1 positive few
        unused inSmap (by omega) disk₂ made
      obtain ⟨-, -, -, only₄, -⟩ := newInode_ok made
      refine ⟨bound, p, s₄, ⟨⟨_, _, volume₄⟩, same, notRoot, ⟨_, inode₄⟩,
        only₄.filp.trans only.filp, only₄.fDescTable.trans only.fDescTable⟩, ?_⟩
      have num : (s₄.inodeTable p).iNum = nr := by
        rw [inode₄]
        rfl
      rw [Fs.createFile, strip]
      simp only
      rw [volume.root.dev, bind_of_ok _ imap]
      simp only
      rw [bind_of_ok _ smap']
      simp only
      rw [bind_of_ok _ made]
      simp only [num]
      rfl

theorem le_searched {dir : Inode} (fits : dir.iSize + sectorSize < 4294967296) :
    nrDirEntries dir ≤ searched dir := by
  simp only [searched, searchDirBlks, nrDirEntries, entriesPerSect, sectorSize, dirEntrySize]
    at fits ⊢
  omega

theorem Made.front (made : Made s size inodeNr p t)
    (root : IsRoot (s.inodeTable s.rootInode) size) :
    (t.inodeTable t.rootInode).iDev = rootDev ∧ dirPos (s.inodeTable s.rootInode) = dataBase size ∧
      getSuperBlock t rootDev = .ok (mkfsSuper size) ∧
      recordPos (mkfsSuper size) (t.inodeTable t.rootInode).iNum + 16 ≤
        dirPos (t.inodeTable t.rootInode) := by
  obtain ⟨files, block, volume⟩ := made.volume
  have known := volume.cache.known _ volume.rootSlot volume.root.cnt
  have inside := record_inside size known.1 (known.bound volume.maps.range)
  have place : dirPos (s.inodeTable s.rootInode) = dataBase size := by
    rw [dirPos, root.start]
    rfl
  refine ⟨volume.root.dev, place, volume.super, ?_⟩
  rw [made.same.inode, place, ← made.same.inode]
  exact inside.2

theorem Made.lookup_iff (made : Made s size inodeNr p t)
    (root : IsRoot (s.inodeTable s.rootInode) size)
    (strip : stripPath pathname = some (c :: rest)) (missing : lookupPath s pathname = invalidInode)
    (fits : (s.inodeTable s.rootInode).iSize + sectorSize < 4294967296)
    (small : inodeNr < bitsPerSect)
    (entry : newDirEntry t inodeNr (c :: rest) = .ok s') :
    lookupPath s' pathname = inodeNr ↔
      EntryFits (s.inodeTable s.rootInode) s.disk inodeNr (c :: rest) := by
  obtain ⟨dev, place, super, apart⟩ := made.front root
  rw [made.same.inode] at dev apart
  obtain ⟨s'', entry', grown, agree⟩ := newDirEntry_bytes inodeNr (c :: rest)
    (by rw [made.same.inode]; exact dev) super (by rw [made.same.inode]; exact apart)
    (by rw [made.same.inode]; exact fits)
  rw [entry, Except.ok.injEq] at entry'
  subst entry'
  rw [made.same.inode] at grown agree
  simp only [lookupPath, strip] at missing ⊢
  generalize s.inodeTable s.rootInode = dir at *
  have slot : freeSlotOf dir t.disk = freeSlotOf dir s.disk := by
    rw [freeSlotOf, freeSlotOf, place]
    exact slotOf_congr made.same.bytes
  have bytes (a : Nat) (above : dirPos dir ≤ a) :
      s'.disk a =
        entryWritten s.disk (dirPos dir) (freeSlotOf dir s.disk) inodeNr (c :: rest) a := by
    rw [agree a above, slot]
    rw [place] at above
    simp only [entryWritten, putWord, splice, made.same.bytes a above]
  have sameGrown : grownDir dir t.disk = grownDir dir s.disk := by
    rw [grownDir, grownDir, slot]
  have start : dirPos (grownDir dir s.disk) = dirPos dir := by
    rw [grownDir]
    split <;> rfl
  rw [grown, sameGrown, start]
  have short := stripPath_length strip
  have nrSmall : inodeNr < 4294967296 := by
    simp only [bitsPerSect, sectorSize] at small
    omega
  have before := unnamed_of_missing
    (fun y below zero => by
      have used := freeSlotOf_before below
      rw [zero] at used
      cases used)
    (le_trans slotOf_le (le_searched fits)) missing
  by_cases seen : Padded s.disk (dirPos dir) (freeSlotOf dir s.disk) (c :: rest) ∧
      freeSlotOf dir s.disk < searched (grownDir dir s.disk)
  next =>
    exact iff_of_true (inserted_found bytes short nrSmall before seen.1 seen.2) ⟨fits, .inl seen⟩
  next =>
    rw [inserted_unseen bytes short nrSmall seen]
    exact ⟨fun found => ⟨fits, .inr found⟩, fun entry => entry.found.resolve_left seen⟩

theorem Volume.open_creates (volume : Volume s size files block) (small : size < 2 ^ 32)
    (room : OpenRoom s size) (path : pathnameOf s = .ok pathname) (creates : s.creates)
    (missing : lookupPath s pathname = invalidInode) (strip : stripPath pathname = some filename)
    (lowest : LowestClear s.disk imapBase inodeNr) :
    AllOrNothing s pathname ↔
      EntryFits (s.inodeTable s.rootInode) s.disk inodeNr filename := by
  have isRoot := volume.root
  have dev := isRoot.dev
  obtain ⟨fd, d, s₁, unused, only, disk, run⟩ := doOpen_eq room dev path
  have volume₁ := volume.reads only disk
  have accepted : ¬ OpenRefused s pathname := by
    rintro (rejected | ⟨-, found⟩ | ⟨plain, -⟩)
    · rw [rejected] at strip
      cases strip
    · exact (found_iff dev).mp found missing
    · exact plain creates
  cases filename with
  | nil =>
    rw [lookupPath, strip] at missing
    simp only at missing
    rw [isRoot.num] at missing
    cases missing
  | cons c rest =>
    have slot₁ : FreeSlot s₁ := by
      rw [FreeSlot, only.inodeTable]
      exact room.slot
    have imap₁ : ImapRoom s₁ := by
      rw [ImapRoom, disk]
      exact room.imap
    have smap₁ : SmapRoom s₁ size := by
      rw [SmapRoom, disk]
      exact room.smap
    obtain ⟨nrSmall, p, t, made₁, create⟩ :=
      volume₁.makes small slot₁ imap₁ smap₁ (by rwa [disk]) strip
    have made : Made s size inodeNr p t := by
      refine ⟨made₁.volume, ⟨?_, fun a above => ?_⟩, made₁.slot, made₁.inode,
        made₁.filp.trans only.filp, made₁.descs.trans only.fDescTable⟩
      · rw [made₁.same.inode, only.inodeTable, only.rootInode]
      · rw [made₁.same.bytes a above, disk]
    have creates₁ : s₁.creates := by rwa [State.creates, only.fsMsg]
    rw [openInode_creates creates₁, if_neg (not_not.mpr missing), create] at run
    have whole : (t.inodeTable t.rootInode).iSize = (s.inodeTable s.rootInode).iSize := by
      rw [made.same.inode]
    by_cases fits : (s.inodeTable s.rootInode).iSize + sectorSize < 4294967296
    case neg =>
      have stored := (volume.cache.coherent _ volume.rootSlot isRoot.cnt).stored
      have wraps := @newDirEntry_wraps t inodeNr (c :: rest) (by rw [whole]; exact stored.size)
        (by rw [whole]; omega)
      rw [wraps] at run
      exact iff_of_false (not_allOrNothing run) fun entry => absurd entry.size fits
    case pos =>
      obtain ⟨tDev, -, super, apart⟩ := made.front isRoot
      obtain ⟨s', entry, -, -⟩ := newDirEntry_bytes inodeNr (c :: rest) tDev super apart
        (by rwa [whole])
      obtain ⟨sb, dirSize, disk', -, -, only', -⟩ := newDirEntry_ok tDev entry
      obtain ⟨start, fresh⟩ := made.inode
      have inode : s'.inodeTable p = freshInode inodeNr start := by
        rw [only'.inodeTable, ← fresh]
        exact Function.update_of_ne made.slot ..
      have done : doOpen s = .ok ((fd : Int), s'.connect s.fsMsg.source fd d p) := by
        have checks : openChecks (s'.inodeTable p) = .ok () := by
          rw [inode]
          exact freshInode_checks inodeNr start
        rw [run, bind_of_ok _ entry]
        show bindInode s.fsMsg.source fd d (some p, s') = _
        simp only [bindInode, checks, bind, Except.bind]
        rfl
      have rootDev' : ((s'.connect s.fsMsg.source fd d p).inodeTable
          (s'.connect s.fsMsg.source fd d p).rootInode).iDev = rootDev := by
        obtain ⟨files', block', volume'⟩ := made.volume
        exact (volume'.newDirEntry entry).root.dev
      rw [allOrNothing_connect unused (only'.filp.trans made.filp)
        (only'.fDescTable.trans made.descs) accepted done,
        ← made.lookup_iff isRoot strip missing fits nrSmall entry]
      constructor
      · rintro ⟨nr, ⟨-, -, num⟩, answers, -⟩
        have same := (answers_iff rootDev').mp (answers creates)
        rw [inode] at num
        exact same.trans num.symm
      · intro same
        refine ⟨inodeNr, ⟨?_, ?_, ?_⟩, fun _ => (answers_iff rootDev').mpr same,
          fun plain => absurd creates plain⟩ <;> rw [inode]
        · exact Int.one_ne_zero
        · rfl
        · rfl

end Creates

theorem lowestClear_exists {f : Nat → UInt8} {base i : Nat} (clear : bitAt f base i = false) :
    ∃ b, LowestClear f base b := by
  have some_ : ∃ b, bitAt f base b = false := ⟨i, clear⟩
  refine ⟨Nat.find some_, Nat.find_spec some_, fun j below => ?_⟩
  exact Bool.eq_true_of_not_eq_false (Nat.find_min some_ below)

theorem open_all_or_nothing_iff (s : State) (size : Nat) (files : Finset Nat) (block : Nat → Nat)
    (pathname : List UInt8) (small : size < 2 ^ 32) (volume : Volume s size files block)
    (room : OpenRoom s size) (path : pathnameOf s = .ok pathname)
    (readsWrites : u32 s.fsMsg.flags &&& oRdwr ≠ 0) :
    AllOrNothing s pathname ↔ OpenFits s size pathname := by
  have dev := volume.root.dev
  by_cases creates : s.creates
  next =>
    by_cases missing : lookupPath s pathname = invalidInode
    next =>
      cases strip : stripPath pathname with
      | none =>
        refine iff_of_true (open_refused room dev path readsWrites (.inl strip))
          ⟨fun plain => absurd creates plain, fun _ _ filename strip' => ?_⟩
        rw [strip] at strip'
        cases strip'
      | some filename =>
        obtain ⟨i, -, clear⟩ := room.imap
        obtain ⟨inodeNr, lowest⟩ := lowestClear_exists clear
        rw [volume.open_creates small room path creates missing strip lowest]
        constructor
        · intro entry
          refine ⟨fun plain => absurd creates plain, fun _ _ filename' strip' nr lowest' => ?_⟩
          rw [strip, Option.some.injEq] at strip'
          rwa [← strip', lowest'.unique lowest]
        · exact fun fits => fits.enters creates missing filename strip inodeNr lowest
    next =>
      exact iff_of_true
        (open_refused room dev path readsWrites
          (.inr (.inl ⟨creates, (found_iff dev).mpr missing⟩)))
        ⟨fun plain => absurd creates plain, fun _ none_ => absurd none_ missing⟩
  next =>
    by_cases missing : lookupPath s pathname = invalidInode
    next =>
      have notFound : ¬ Found s pathname := by
        rw [found_iff dev, not_not]
        exact missing
      exact iff_of_true (open_refused room dev path readsWrites (.inr (.inr ⟨creates, notFound⟩)))
        ⟨fun _ found => absurd missing found, fun wants => absurd wants creates⟩
    next =>
      rw [volume.open_loads room path readsWrites creates missing]
      exact ⟨fun openable => ⟨fun _ _ => openable, fun wants => absurd wants creates⟩,
        fun fits => fits.loads creates missing⟩

-- A disk without regular files, and the OPEN of a file in its root directory.
section Fresh

variable {disk : Nat → UInt8} {root : Inode} {block : Nat → Nat}

theorem mounted_lowest (maps : Maps disk 10000 ∅ block) : LowestClear disk imapBase 5 := by
  constructor
  · apply Bool.eq_false_of_not_eq_true
    rw [maps.imap 5 (by decide)]
    decide
  · intro i below
    rw [maps.imap i (by simp only [bitsPerSect, sectorSize]; omega)]
    exact .inl below

theorem mounted_room (maps : Maps disk 10000 ∅ block) (request : Request) :
    OpenRoom ((mounted disk (mkfsSuper 10000) root).receive request) 10000 where
  entry := ⟨0, by decide, rfl⟩
  desc := ⟨0, by decide, rfl⟩
  slot := ⟨1, by decide, rfl⟩
  imap := ⟨5, by decide, (mounted_lowest maps).1⟩
  smap := by
    refine ⟨nrDefaultFileSects + 1, by decide, fun i lower upper => ?_⟩
    apply Bool.eq_false_of_not_eq_true
    show ¬ bitAt disk (smapBase (mkfsSuper 10000)) i = true
    have bound : nrDefaultFileSects + 1 + nrDefaultFileSects ≤ smapBitCount (mkfsSuper 10000) := by
      decide
    rw [maps.smap i (by omega)]
    rintro (inRoot | ⟨x, member, -⟩)
    · omega
    · cases member

end Fresh

def createState : State :=
  (mounted (mkfsDisk (fun _ => 0) 10000) (mkfsSuper 10000) (rootRecord (mkfsSuper 10000))).receive
    createA

theorem open_all_or_nothing_iff_new :
    AllOrNothing createState [97] ↔ OpenFits createState 10000 [97] := by
  have formatted := formatted_mkfs (fun _ => 0) (by decide : 10000 < 2 ^ 32)
  have maps := maps_mkfs formatted fun _ => 0
  have isRoot : IsRoot (rootRecord (mkfsSuper 10000)) 10000 := by
    constructor <;> decide
  exact open_all_or_nothing_iff createState 10000 ∅ (fun _ => 0) [97] (by decide)
    ((mounted_volume maps isRoot Int.one_nonneg formatted.root).receive createA)
    (mounted_room maps createA) rfl (by decide)

-- A free fifth slot with a name of twelve bytes, as a WRITE to the root directory leaves it.
def leftoverDir : Inode := { rootRecord (mkfsSuper 10000) with iSize := 5 * dirEntrySize }

def leftoverDisk : Nat → UInt8 :=
  storeInode
    (putEntry (mkfsDisk (fun _ => 0) 10000) (dataBase 10000 + 4 * dirEntrySize) 0 twelveBytes)
    (recordPos (mkfsSuper 10000) rootInodeNr) leftoverDir

def leftoverState : State := (mounted leftoverDisk (mkfsSuper 10000) leftoverDir).receive createA

theorem leftover_stored : Stored leftoverDir := by
  constructor <;> decide

theorem leftover_maps : Maps leftoverDisk 10000 ∅ (fun _ => 0) := by
  have formatted := formatted_mkfs (fun _ => 0) (by decide : 10000 < 2 ^ 32)
  have maps := (maps_mkfs formatted fun _ => 0).data
    (g := putEntry (mkfsDisk (fun _ => 0) 10000) (dataBase 10000 + 4 * dirEntrySize) 0 twelveBytes)
    fun a below => by
      have inFront : a < dataBase 10000 + 4 * dirEntrySize := Nat.lt_add_right _ below
      rw [putEntry, splice_outside _ _ (.inl (by omega)), putWord_outside _ _ (.inl inFront)]
  exact maps.store (y := rootInodeNr) (by decide) (by decide) leftover_stored
    (fun member => absurd member (by decide)) fun _ => by decide

theorem leftover_volume : Volume leftoverState 10000 ∅ (fun _ => 0) := by
  have isRoot : IsRoot leftoverDir 10000 := by
    constructor <;> decide
  have record : OnDisk leftoverDisk (recordPos (mkfsSuper 10000) rootInodeNr) leftoverDir :=
    storeInode_onDisk _ _ leftover_stored
  exact (mounted_volume leftover_maps isRoot Int.one_nonneg record).receive createA

-- "a" is created over the name, and is not found.
theorem open_name_not_found :
    ¬ ∀ (s : State) (size : Nat) (files : Finset Nat) (block : Nat → Nat)
      (holders : Finset (Int × Nat)) (base : Nat → Int) (pathname : List UInt8), size < 2 ^ 32 →
      Counted s holders base → Volume s size files block → OpenRoom s size →
      pathnameOf s = .ok pathname → u32 s.fsMsg.flags &&& oRdwr ≠ 0 → AllOrNothing s pathname := by
  intro claim
  have counted : Counted leftoverState (entries processes) rootOnly :=
    @counted_unopened _ _ leftoverDir _ leftover_volume.super Nat.one_pos rfl rfl rfl rfl rfl
      fun _ _ => rfl
  have room : OpenRoom leftoverState 10000 := mounted_room leftover_maps createA
  have path : pathnameOf leftoverState = .ok [97] := rfl
  have creates : leftoverState.creates := by
    show u32 createA.msg.flags &&& oCreat ≠ 0
    decide
  have missing : lookupPath leftoverState [97] = invalidInode := by decide +kernel
  have strip : stripPath [97] = some [97] := by decide
  obtain ⟨disk, dir⟩ := mounted_receives leftoverDisk (mkfsSuper 10000) leftoverDir createA
  rw [← leftoverState] at disk dir
  have lowest : LowestClear leftoverState.disk imapBase 5 := by
    rw [disk]
    exact mounted_lowest leftover_maps
  have all := claim leftoverState 10000 ∅ (fun _ => 0) _ _ [97] (by decide) counted leftover_volume
    room path (by decide)
  have entry :=
    (leftover_volume.open_creates (by decide) room path creates missing strip lowest).mp all
  rw [disk, dir] at entry
  have slot : freeSlotOf leftoverDir leftoverDisk = 4 := by decide +kernel
  rcases entry.found with ⟨padded, -⟩ | twin
  · have zero := padded 2 (by decide) (by decide)
    rw [slot] at zero
    revert zero
    decide +kernel
  · revert twin
    decide +kernel

end Konix.Fs
