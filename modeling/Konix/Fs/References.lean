import Konix.Fs.FileAccess
import Konix.Fs.Files
import Konix.Fs.Mkfs
import Konix.Lib.RefCount

set_option autoImplicit false

namespace Konix.Fs

open RefCounts

structure Transferred (d low : Nat) (s s' : State) : Prop where
  super : s'.superBlock = s.superBlock
  root : s'.rootInode = s.rootInode
  inodes : s'.inodeTable = s.inodeTable
  filp : s'.filp = s.filp
  descs : ∃ pos, (s.fDescTable d).fdPos ≤ pos ∧
    s'.fDescTable = Function.update s.fDescTable d { s.fDescTable d with fdPos := pos }
  disk : ∀ a, a < low → s'.disk a = s.disk a

section Transfers

variable {s s' s'' : State} {c : Rdwt} {d p low : Nat} {v v' : RdwtVars} {i : Int}

theorem Transferred.refl (d low : Nat) (s : State) : Transferred d low s s where
  super := rfl
  root := rfl
  inodes := rfl
  filp := rfl
  descs := ⟨(s.fDescTable d).fdPos, le_refl _, (Function.update_eq_self ..).symm⟩
  disk := fun _ _ => rfl

theorem Transferred.trans (first : Transferred d low s s') (second : Transferred d low s' s'') :
    Transferred d low s s'' where
  super := second.super.trans first.super
  root := second.root.trans first.root
  inodes := second.inodes.trans first.inodes
  filp := second.filp.trans first.filp
  descs := by
    obtain ⟨pos, more, table⟩ := first.descs
    obtain ⟨pos', more', table'⟩ := second.descs
    rw [table, Function.update_self] at more'
    refine ⟨pos', le_trans more more', ?_⟩
    rw [table', table, Function.update_self, Function.update_idem]
  disk := fun a below => (second.disk a below).trans (first.disk a below)

theorem rwSector_below {io : MsgType} {dev pos bytes : Nat}
    (done : s.rwSector io dev pos bytes = .ok s') {a : Nat} (below : a < pos) :
    s'.disk a = s.disk a := by
  obtain ⟨u, -, rest⟩ := bind_ok done
  cases rest
  unfold State.transfer
  split
  next => rfl
  next => exact Splice.splice_outside _ _ (.inl below)

theorem copyToUser_ok {src : Int} {va off : Nat} {bytes : Int}
    (done : s.copyToUser src va off bytes = .ok s') :
    0 ≤ bytes ∧ ∃ mem, s' = { s with userMem := mem } := by
  rw [State.copyToUser] at done
  by_cases negative : bytes < 0
  next =>
    rw [if_pos negative] at done
    cases done
  next =>
    rw [if_neg negative] at done
    cases done
    exact ⟨by omega, _, rfl⟩

theorem copyFromUser_ok {src : Int} {va off : Nat} {bytes : Int}
    (done : s.copyFromUser src va off bytes = .ok s') :
    0 ≤ bytes ∧ ∃ buf, s' = { s with fsbuf := buf } := by
  rw [State.copyFromUser] at done
  by_cases negative : bytes < 0
  next =>
    rw [if_pos negative] at done
    cases done
  next =>
    rw [if_neg negative] at done
    cases done
    exact ⟨by omega, _, rfl⟩

theorem Transferred.advance {s₁ : State} {bytes : Int} (nonneg : 0 ≤ bytes)
    (before : Transferred d low s s₁) (same : s₁.fDescTable = s.fDescTable) :
    Transferred d low s (s₁.setFileDesc d
      { s₁.fDescTable d with fdPos := (s₁.fDescTable d).fdPos + bytes }) where
  super := before.super
  root := before.root
  inodes := before.inodes
  filp := before.filp
  descs := ⟨(s.fDescTable d).fdPos + bytes, by omega, by rw [State.setFileDesc, same]⟩
  disk := before.disk

theorem DiskOnly.transferred (only : DiskOnly s s') (d : Nat)
    (disk : ∀ a, a < low → s'.disk a = s.disk a) : Transferred d low s s' where
  super := only.superBlock
  root := only.rootInode
  inodes := only.inodeTable
  filp := only.filp
  descs := ⟨(s.fDescTable d).fdPos, le_refl _, by rw [only.fDescTable, Function.update_eq_self]⟩
  disk := disk

theorem rdwtChunk_transferred (lower : (low : Int) ≤ i * sectorSize)
    (done : rdwtChunk c i v s = .ok (v', s')) : Transferred c.desc low s s' := by
  obtain ⟨u, -, rest⟩ := bind_ok done
  obtain ⟨s₁, read, rest⟩ := bind_ok rest
  have below (a : Nat) (inFront : a < low) : a < (i * sectorSize).toNat := by omega
  have before : Transferred c.desc low s s₁ := (DiskOnly.rwSector read).transferred c.desc
    fun a inFront => rwSector_below read (below a inFront)
  have descs₁ := (DiskOnly.rwSector read).fDescTable
  by_cases isRead : c.type = .read
  next =>
    rw [if_pos isRead] at rest
    obtain ⟨s₂, copy, last⟩ := bind_ok rest
    cases last
    obtain ⟨nonneg, mem, rfl⟩ := copyToUser_ok copy
    have copied : Transferred c.desc low s { s₁ with userMem := mem } :=
      ⟨before.super, before.root, before.inodes, before.filp, before.descs, before.disk⟩
    exact copied.advance nonneg descs₁
  next =>
    rw [if_neg isRead] at rest
    obtain ⟨s₂, copy, later⟩ := bind_ok rest
    obtain ⟨s₃, write, last⟩ := bind_ok later
    cases last
    obtain ⟨nonneg, buf, rfl⟩ := copyFromUser_ok copy
    have written : Transferred c.desc low { s₁ with fsbuf := buf } s₃ :=
      (DiskOnly.rwSector write).transferred c.desc
        fun a inFront => rwSector_below write (below a inFront)
    have filled : Transferred c.desc low s { s₁ with fsbuf := buf } :=
      ⟨before.super, before.root, before.inodes, before.filp, before.descs, before.disk⟩
    exact (filled.trans written).advance nonneg ((DiskOnly.rwSector write).fDescTable.trans descs₁)

theorem rdwtLoop_transferred (fuel : Nat) (forward : 0 ≤ c.chunk)
    (lower : (low : Int) ≤ i * sectorSize) (done : rdwtLoop c fuel i v s = .ok (v', s')) :
    Transferred c.desc low s s' := by
  induction fuel generalizing i v s with
  | zero =>
    rw [rdwtLoop] at done
    by_cases more : i ≤ c.rwSectMax
    next =>
      rw [if_pos more] at done
      cases done
    next =>
      rw [if_neg more] at done
      cases done
      exact Transferred.refl ..
  | succ fuel ih =>
    rw [rdwtLoop] at done
    by_cases more : i ≤ c.rwSectMax
    next =>
      rw [if_pos more] at done
      obtain ⟨⟨v₁, s₁⟩, chunk, rest⟩ := bind_ok done
      have further : i * sectorSize ≤ (i + c.chunk) * sectorSize :=
        mul_le_mul_of_nonneg_right (by omega) (by decide)
      exact (rdwtChunk_transferred lower chunk).trans (ih (le_trans lower further) rest)
    next =>
      rw [if_neg more] at done
      cases done
      exact Transferred.refl ..

theorem rdwtFile_transferred {r : Int} (pos : 0 ≤ (s.fDescTable d).fdPos)
    (done : rdwtFile s d p = .ok (r, s')) :
    ((s.inodeTable p).iMode = iRegular ∨ (s.inodeTable p).iMode = iDirectory) ∧
      ∃ s₁ count, Transferred d ((s.inodeTable p).iStartSect * sectorSize) s s₁ ∧
        updateSize s₁ d p count = .ok (r, s') := by
  obtain ⟨u, file, rest⟩ := bind_ok done
  obtain ⟨u, -, rest⟩ := bind_ok rest
  obtain ⟨⟨v, s₁⟩, loop, rest⟩ := bind_ok rest
  refine ⟨of_decide_eq_true (assertThat_ok.mp file), s₁, v.bytesRw, ?_, rest⟩
  generalize posEnd s.fsMsg.type (s.fDescTable d).fdPos s.fsMsg.cnt (s.inodeTable p) = stop at loop
  by_cases enter : (s.inodeTable p).iStartSect + (s.fDescTable d).fdPos / sectorSize ≤
      (s.inodeTable p).iStartSect + stop / sectorSize
  next =>
    have chunk : (0 : Int) ≤ (fsbufSize / sectorSize : Nat) := Int.natCast_nonneg _
    have sector : 0 ≤ (s.fDescTable d).fdPos / sectorSize :=
      Int.ediv_nonneg pos (Int.natCast_nonneg _)
    refine rdwtLoop_transferred _ (by simp only; omega) ?_ loop
    push_cast
    exact mul_le_mul_of_nonneg_right (by omega) (by decide)
  next =>
    -- the range is empty, and so is the loop
    have none_ : ((s.inodeTable p).iStartSect + stop / sectorSize -
        ((s.inodeTable p).iStartSect + (s.fDescTable d).fdPos / sectorSize) + 1 : Int).toNat =
          0 := by
      omega
    rw [none_, rdwtLoop, if_neg enter] at loop
    cases loop
    exact Transferred.refl ..

theorem doRdwt_ok {driver : Message → Message} {r : Int} (pos : ∀ d, 0 ≤ (s.fDescTable d).fdPos)
    (done : doRdwt driver s = .ok (r, s')) :
    (∃ msg, s' = { s with fsMsg := msg }) ∨
      ∃ d p s₁ count, (s.fDescTable d).fdInode = some p ∧ p < nrInode ∧
        ((s.inodeTable p).iMode = iRegular ∨ (s.inodeTable p).iMode = iDirectory) ∧
        Transferred d ((s.inodeTable p).iStartSect * sectorSize) s s₁ ∧
        updateSize s₁ d p count = .ok (r, s') := by
  obtain ⟨file, filp, rest⟩ := bind_ok done
  cases file with
  | none => cases rest
  | some d =>
    obtain ⟨u, -, rest⟩ := bind_ok rest
    by_cases mode : (s.fDescTable d).fdMode &&& oRdwr = 0
    next =>
      rw [if_pos mode] at rest
      cases rest
      exact .inl ⟨s.fsMsg, rfl⟩
    next =>
      rw [if_neg mode] at rest
      cases inode : (s.fDescTable d).fdInode with
      | none =>
        simp only [inode] at rest
        cases rest
      | some p =>
        simp only [inode] at rest
        obtain ⟨u, slot, rest⟩ := bind_ok rest
        by_cases isChar : (s.inodeTable p).iMode &&& iTypeMask = iCharSpecial
        next =>
          rw [if_pos isChar] at rest
          obtain ⟨u, -, rest⟩ := bind_ok rest
          obtain ⟨u, -, rest⟩ := bind_ok rest
          obtain ⟨u, -, rest⟩ := bind_ok rest
          cases rest
          exact .inl ⟨_, rfl⟩
        next =>
          rw [if_neg isChar] at rest
          obtain ⟨regular, s₁, count, transferred, update⟩ := rdwtFile_transferred (pos d) rest
          exact .inr ⟨d, p, s₁, count, inode, of_decide_eq_true (assertThat_ok.mp slot), regular,
            transferred, update⟩

theorem updateSize_ok {count r : Int} (done : updateSize s d p count = .ok (r, s')) :
    s' = s ∨ ∃ size, size < 2 ^ 32 ∧
      syncInode (s.setInode p { s.inodeTable p with iSize := size }) p = .ok s' := by
  unfold updateSize at done
  by_cases grown : u32 (s.fDescTable d).fdPos > (s.inodeTable p).iSize
  next =>
    rw [if_pos grown] at done
    obtain ⟨s₁, sync, rest⟩ := bind_ok done
    cases rest
    refine .inr ⟨u32 (s.fDescTable d).fdPos, ?_, sync⟩
    simp only [u32]
    omega
  next =>
    rw [if_neg grown] at done
    cases done
    exact .inl rfl

end Transfers

theorem firstFree_spec {free : Nat → Bool} {fuel i j : Nat}
    (found : firstFree free fuel i = some j) :
    j < i + fuel ∧ free j = true := by
  induction fuel generalizing i with
  | zero => cases found
  | succ fuel ih =>
    rw [firstFree] at found
    by_cases here : free i = true
    next =>
      rw [if_pos here] at found
      cases found
      exact ⟨by omega, here⟩
    next =>
      rw [if_neg here] at found
      have later := ih found
      exact ⟨by omega, later.2⟩

theorem firstFree_lowest {free : Nat → Bool} {fuel i j : Nat} (isFree : free j = true)
    (lower : i ≤ j)
    (upper : j < i + fuel) : ∃ k, firstFree free fuel i = some k ∧ k < i + fuel ∧ free k = true ∧
      ∀ m, i ≤ m → m < k → free m = false := by
  induction fuel generalizing i with
  | zero => omega
  | succ fuel ih =>
    rw [firstFree]
    by_cases here : free i = true
    next => exact ⟨i, if_pos here, by omega, here, fun m above below => by omega⟩
    next =>
      have other : j ≠ i := fun same => here (same ▸ isFree)
      obtain ⟨k, found, bound, isFree', before⟩ := ih (i := i + 1) (by omega) (by omega)
      rw [if_neg here]
      refine ⟨k, found, by omega, isFree', fun m above below => ?_⟩
      by_cases first_ : m = i
      next => rw [first_, Bool.eq_false_of_not_eq_true here]
      next => exact before m (by omega) below

section Open

variable {s s' : State} {r : Int}

inductive Finds (s : State) (pathname : List UInt8) (num p : Nat) (s' : State) : Prop
  | creates (flags : u32 s.fsMsg.flags &&& oCreat ≠ 0) (missing : num = 0)
      (done : createFile s pathname = .ok (some p, s'))
  | fetches (flags : u32 s.fsMsg.flags &&& oCreat = 0)
      (done : getInode s rootDev num = .ok (some p, s'))

theorem openInode_ok {pathname : List UInt8} {num : Nat} {slot : Option Nat}
    (dev : (s.inodeTable s.rootInode).iDev = rootDev)
    (done : openInode s pathname num = .ok (slot, s')) :
    slot = none ∧ s' = s ∨ ∃ p, slot = some p ∧ Finds s pathname num p s' := by
  unfold openInode at done
  by_cases flags : u32 s.fsMsg.flags &&& oCreat ≠ 0
  next =>
    rw [if_pos flags] at done
    by_cases missing : num ≠ 0
    next =>
      rw [if_pos missing] at done
      cases done
      exact .inl ⟨rfl, rfl⟩
    next =>
      rw [if_neg missing] at done
      cases slot with
      | some p => exact .inr ⟨p, rfl, .creates flags (not_not.mp missing) done⟩
      | none =>
        unfold createFile at done
        cases strip : stripPath pathname with
        | none =>
          rw [strip] at done
          cases done
          exact .inl ⟨rfl, rfl⟩
        | some filename =>
          rw [strip] at done
          obtain ⟨a, -, rest⟩ := bind_ok done
          obtain ⟨a, -, rest⟩ := bind_ok rest
          obtain ⟨a, -, rest⟩ := bind_ok rest
          obtain ⟨a, -, rest⟩ := bind_ok rest
          cases rest
  next =>
    rw [if_neg flags] at done
    obtain ⟨u, -, rest⟩ := bind_ok done
    cases strip : stripPath pathname with
    | none =>
      rw [strip] at rest
      cases rest
      exact .inl ⟨rfl, rfl⟩
    | some filename =>
      rw [strip] at rest
      simp only [dev] at rest
      cases slot with
      | some p => exact .inr ⟨p, rfl, .fetches (not_not.mp flags) rest⟩
      | none => exact .inl ⟨rfl, (getInode_none rest).2⟩

-- Entry `fd` of the caller, and descriptor `d`, are connected with slot `p`.
def State.connect (s : State) (src : Int) (fd d p : Nat) : State :=
  (s.setFilp src fd (some d)).setFileDesc d ⟨u32 s.fsMsg.flags, 0, 1, some p⟩

theorem doOpen_ok (dev : (s.inodeTable s.rootInode).iDev = rootDev)
    (done : doOpen s = .ok (r, s')) :
    ∃ pathname s₁, pathnameOf s = .ok pathname ∧ DiskOnly s s₁ ∧ s₁.disk = s.disk ∧
      (s' = s₁ ∨ ∃ fd d p s₂, fd < nrFiles ∧ s.filp s.fsMsg.source fd = none ∧ d < nrFileDesc ∧
        (s.fDescTable d).fdInode = none ∧ Finds s₁ pathname (lookupPath s pathname) p s₂ ∧
        openChecks (s₂.inodeTable p) = .ok () ∧ s' = s₂.connect s.fsMsg.source fd d p) := by
  obtain ⟨pathname, path, rest⟩ := bind_ok done
  cases freeFd : firstFree (fun fd => (s.filp s.fsMsg.source fd).isNone) nrFiles 0 with
  | none =>
    simp only [freeFd] at rest
    cases rest
  | some fd =>
    simp only [freeFd] at rest
    cases freeDesc : firstFree (fun d => (s.fDescTable d).fdInode.isNone) nrFileDesc 0 with
    | none =>
      simp only [freeDesc] at rest
      cases rest
    | some d =>
      simp only [freeDesc] at rest
      obtain ⟨⟨num, s₁⟩, search, rest⟩ := bind_ok rest
      obtain ⟨⟨slot, s₂⟩, inode, last⟩ := bind_ok rest
      obtain ⟨s₁', search', only, disk⟩ := searchFile_eq s pathname dev
      rw [search, Except.ok.injEq, Prod.mk.injEq] at search'
      obtain ⟨rfl, rfl⟩ := search'
      refine ⟨pathname, s₁, path, only, disk, ?_⟩
      simp only at inode
      have dev₁ : (s₁.inodeTable s₁.rootInode).iDev = rootDev := by
        rw [only.inodeTable, only.rootInode]
        exact dev
      rcases openInode_ok dev₁ inode with ⟨rfl, rfl⟩ | ⟨p, rfl, finds⟩
      case inl =>
        cases last
        exact .inl rfl
      case inr =>
        obtain ⟨u, checks, last⟩ := bind_ok last
        cases last
        have fdSpec := firstFree_spec freeFd
        have descSpec := firstFree_spec freeDesc
        exact .inr ⟨fd, d, p, s₂, by omega, Option.isNone_iff_eq_none.mp fdSpec.2, by omega,
          Option.isNone_iff_eq_none.mp descSpec.2, finds, checks, rfl⟩

end Open

-- What each entry of a `filp[]` refers to, and what each descriptor does and how often it is
-- shared.
def State.handles (s : State) : Int × Nat → Option Nat := fun h => s.filp h.1 h.2

def State.opens (s : State) : Nat → Option Nat := fun d => (s.fDescTable d).fdInode

def State.shares (s : State) : Nat → Int := fun d => (s.fDescTable d).fdCnt

/--
The two levels of counters: a descriptor counts the entries that lead to it, and a slot of
`inode_table[]` the shares of the descriptors open on it, and what FS holds of it beside them.
-/
structure Counted (s : State) (holders : Finset (Int × Nat)) (base : Nat → Int) : Prop where
  super : ∃ sb, getSuperBlock s rootDev = .ok sb ∧ 0 < sb.nrImapSects
  dev : (s.inodeTable s.rootInode).iDev = rootDev
  share : ∀ d, s.shares d = load holders s.handles (fun _ => 1) d
  idle : ∀ d, s.opens d = none ↔ s.shares d = 0
  inside : ∀ d p, s.opens d = some p → d < nrFileDesc ∧ p < nrInode
  pos : ∀ d, 0 ≤ (s.fDescTable d).fdPos
  count : ∀ p, (s.inodeTable p).iCnt =
    load (Finset.range nrFileDesc) s.opens s.shares p + base p
  checked : ∀ d p, s.opens d = some p → openChecks (s.inodeTable p) = .ok ()
  nonneg : ∀ p, 0 ≤ base p
  root : 0 < base s.rootInode

section Counts

variable {s s' : State} {holders : Finset (Int × Nat)} {base : Nat → Int} {d p : Nat}

theorem Counted.shares_nonneg (counted : Counted s holders base) (d : Nat) : 0 ≤ s.shares d := by
  rw [counted.share]
  exact load_nonneg fun _ => Int.one_nonneg

theorem Counted.used (counted : Counted s holders base) (opened : s.opens d = some p) :
    base p < (s.inodeTable p).iCnt := by
  have shared : s.shares d ≠ 0 := by
    intro zero
    rw [(counted.idle d).mpr zero] at opened
    cases opened
  have nonneg := counted.shares_nonneg d
  have part := weight_le_load counted.shares_nonneg
    (Finset.mem_range.mpr (counted.inside d p opened).1) opened
  rw [counted.count]
  omega

def SameFile (x y : Inode) : Prop := ∃ size, x = { y with iSize := size }

theorem SameFile.refl (x : Inode) : SameFile x x := ⟨x.iSize, rfl⟩

theorem SameFile.trans {x y z : Inode} (first : SameFile x y) (second : SameFile y z) :
    SameFile x z := by
  obtain ⟨size, rfl⟩ := first
  obtain ⟨size', rfl⟩ := second
  exact ⟨size, rfl⟩

-- Files may have grown, and positions may have moved on.
structure SameReferences (s s' : State) : Prop where
  super : s'.superBlock = s.superBlock
  root : s'.rootInode = s.rootInode
  filp : s'.filp = s.filp
  descs : ∀ d, (s'.fDescTable d).fdInode = (s.fDescTable d).fdInode ∧
    (s'.fDescTable d).fdCnt = (s.fDescTable d).fdCnt ∧
    (s.fDescTable d).fdPos ≤ (s'.fDescTable d).fdPos
  inodes : ∀ p, SameFile (s'.inodeTable p) (s.inodeTable p)

theorem SameReferences.trans {s'' : State} (first : SameReferences s s')
    (second : SameReferences s' s'') : SameReferences s s'' where
  super := second.super.trans first.super
  root := second.root.trans first.root
  filp := second.filp.trans first.filp
  descs := fun d => ⟨(second.descs d).1.trans (first.descs d).1,
    (second.descs d).2.1.trans (first.descs d).2.1,
    le_trans (first.descs d).2.2 (second.descs d).2.2⟩
  inodes := fun p => (second.inodes p).trans (first.inodes p)

theorem DiskOnly.sameReferences (only : DiskOnly s s') : SameReferences s s' where
  super := only.superBlock
  root := only.rootInode
  filp := only.filp
  descs := fun d => by
    rw [only.fDescTable]
    exact ⟨rfl, rfl, le_refl _⟩
  inodes := fun p => by
    rw [only.inodeTable]
    exact SameFile.refl _

theorem Transferred.sameReferences {low : Nat} (transferred : Transferred d low s s') :
    SameReferences s s' where
  super := transferred.super
  root := transferred.root
  filp := transferred.filp
  descs := by
    obtain ⟨pos, more, table⟩ := transferred.descs
    intro e
    rw [table]
    by_cases same : e = d
    next =>
      subst same
      rw [Function.update_self]
      exact ⟨rfl, rfl, more⟩
    next =>
      rw [Function.update_of_ne same]
      exact ⟨rfl, rfl, le_refl _⟩
  inodes := fun p => by
    rw [transferred.inodes]
    exact SameFile.refl _

theorem setInode_sameReferences {x : Inode} (same : SameFile x (s.inodeTable p)) :
    SameReferences s (s.setInode p x) where
  super := rfl
  root := rfl
  filp := rfl
  descs := fun _ => ⟨rfl, rfl, le_refl _⟩
  inodes := fun q => by
    by_cases here : q = p
    next =>
      subst here
      simp only [State.setInode, Function.update_self]
      exact same
    next =>
      simp only [State.setInode, Function.update_of_ne here]
      exact SameFile.refl _

theorem Counted.same (counted : Counted s holders base) (same : SameReferences s s') :
    Counted s' holders base := by
  have handles : s'.handles = s.handles := by
    unfold State.handles
    rw [same.filp]
  have opens : s'.opens = s.opens := funext fun d => (same.descs d).1
  have shares : s'.shares = s.shares := funext fun d => (same.descs d).2.1
  constructor
  case super =>
    rw [getSuperBlock_congr same.super]
    exact counted.super
  case dev =>
    obtain ⟨size, slot⟩ := same.inodes s.rootInode
    rw [same.root, slot]
    exact counted.dev
  case share =>
    rw [handles, shares]
    exact counted.share
  case idle =>
    rw [opens, shares]
    exact counted.idle
  case inside =>
    rw [opens]
    exact counted.inside
  case pos => exact fun d => le_trans (counted.pos d) (same.descs d).2.2
  case count =>
    intro p
    obtain ⟨size, slot⟩ := same.inodes p
    rw [opens, shares, slot]
    exact counted.count p
  case checked =>
    intro d p opened
    obtain ⟨size, slot⟩ := same.inodes p
    rw [opens] at opened
    rw [slot]
    exact counted.checked d p opened
  case nonneg => exact counted.nonneg
  case root =>
    rw [same.root]
    exact counted.root

theorem Counted.slot (counted : Counted s holders base) {x : Inode} {more : Int}
    (only : DiskOnly (s.setInode p x) s') (cnt : x.iCnt = (s.inodeTable p).iCnt + more)
    (nonneg : 0 ≤ base p + more)
    (root : p = s.rootInode → 0 < base p + more ∧ x.iDev = rootDev)
    (kept : ∀ d, s.opens d = some p → openChecks x = .ok ()) :
    Counted s' holders (Function.update base p (base p + more)) := by
  have opens : s'.opens = s.opens := by
    unfold State.opens
    rw [only.fDescTable]
    rfl
  have shares : s'.shares = s.shares := by
    unfold State.shares
    rw [only.fDescTable]
    rfl
  have handles : s'.handles = s.handles := by
    unfold State.handles
    rw [only.filp]
    rfl
  have table : s'.inodeTable = Function.update s.inodeTable p x := only.inodeTable
  have sameRoot : s'.rootInode = s.rootInode := only.rootInode
  constructor
  case super =>
    rw [only.getSuperBlock]
    exact counted.super
  case dev =>
    rw [sameRoot, table]
    by_cases here : s.rootInode = p
    next =>
      rw [here, Function.update_self]
      exact (root here.symm).2
    next =>
      rw [Function.update_of_ne here]
      exact counted.dev
  case share =>
    rw [shares, handles]
    exact counted.share
  case idle =>
    rw [opens, shares]
    exact counted.idle
  case inside =>
    rw [opens]
    exact counted.inside
  case pos =>
    rw [only.fDescTable]
    exact counted.pos
  case count =>
    intro q
    rw [opens, shares, table]
    have before := counted.count q
    by_cases here : q = p
    next =>
      subst here
      rw [Function.update_self, Function.update_self, cnt]
      omega
    next =>
      rw [Function.update_of_ne here, Function.update_of_ne here]
      exact before
  case checked =>
    intro d q opened
    rw [opens] at opened
    rw [table]
    by_cases here : q = p
    next =>
      subst here
      rw [Function.update_self]
      exact kept d opened
    next =>
      rw [Function.update_of_ne here]
      exact counted.checked d q opened
  case nonneg =>
    intro q
    by_cases here : q = p
    next =>
      rw [here, Function.update_self]
      exact nonneg
    next =>
      rw [Function.update_of_ne here]
      exact counted.nonneg q
  case root =>
    rw [sameRoot]
    by_cases here : s.rootInode = p
    next =>
      rw [here, Function.update_self]
      exact (root here.symm).1
    next =>
      rw [Function.update_of_ne here]
      exact counted.root

theorem Counted.fetched (counted : Counted s holders base) {num : Nat} {inode : Inode}
    (fetched : Fetched s num p inode s') :
    Counted s' holders (Function.update base p (base p + 1)) := by
  have nonneg := counted.nonneg p
  apply counted.slot fetched.only
  case cnt =>
    rcases fetched.kind with ⟨-, rfl⟩ | ⟨free, -, one, -⟩
    · rfl
    · rw [one, free, Int.zero_add]
  case nonneg => omega
  case root => exact fun _ => ⟨by omega, fetched.dev⟩
  case kept =>
    intro d opened
    have used := counted.used opened
    rcases fetched.kind with ⟨-, rfl⟩ | ⟨free, -⟩
    · exact counted.checked d p opened
    · omega

theorem Counted.createFile (counted : Counted s holders base) {pathname : List UInt8}
    (fresh : ∀ nr, LowestClear s.disk imapBase nr → ∀ q, q < nrInode → ¬ Caches s.inodeTable nr q)
    (done : createFile s pathname = .ok (some p, s')) :
    Counted s' holders (Function.update base p (base p + 1)) ∧ s'.filp = s.filp ∧
      s'.fDescTable = s.fDescTable ∧ s'.rootInode = s.rootInode ∧ p < nrInode := by
  obtain ⟨filename, nr, start, s₁, s₂, s₃, -, imap, smap, inode, entry⟩ :=
    createFile_ok counted.dev done
  obtain ⟨sb, super, sects⟩ := counted.super
  obtain ⟨nr', s₁', imap', only₁, ways⟩ := allocImapBit_spec s super sects
  rw [imap, Except.ok.injEq, Prod.mk.injEq] at imap'
  obtain ⟨rfl, rfl⟩ := imap'
  have only := only₁.trans (allocSmapBit_only smap)
  obtain ⟨⟨old, s₂', fetched⟩, sb', -, only₃, -⟩ := newInode_ok inode
  have lowest : LowestClear s.disk imapBase nr := by
    rcases ways with ⟨zero, -⟩ | ⟨-, lowest, -⟩
    · exact absurd zero fetched.nonzero
    · exact lowest
  have free : (s₂.inodeTable p).iCnt = 0 := by
    rcases fetched.kind with ⟨caches, -⟩ | ⟨free, -⟩
    · rw [only.inodeTable] at caches
      exact absurd caches (fresh nr lowest p fetched.slot)
    · exact free
  have counted₂ := counted.same only.sameReferences
  have nonneg := counted.nonneg p
  have counted₃ : Counted s₃ holders (Function.update base p (base p + 1)) := by
    apply counted₂.slot only₃
    case cnt =>
      rw [free]
      rfl
    case nonneg => omega
    case root => exact fun _ => ⟨by omega, rfl⟩
    case kept =>
      intro d opened
      have used := counted₂.used opened
      omega
  obtain ⟨-, dirSize, -, -, -, only₄, -⟩ := newDirEntry_ok counted₃.dev entry
  have grown : SameReferences s₃ s' :=
    (setInode_sameReferences ⟨dirSize, rfl⟩).trans only₄.sameReferences
  exact ⟨counted₃.same grown, only₄.filp.trans (only₃.filp.trans only.filp),
    only₄.fDescTable.trans (only₃.fDescTable.trans only.fDescTable),
    only₄.rootInode.trans (only₃.rootInode.trans only.rootInode), fetched.slot⟩

@[simp] theorem setFilp_handles (src : Int) (fd : Nat) (file : Option Nat) :
    (s.setFilp src fd file).handles = Function.update s.handles (src, fd) file := by
  funext h
  obtain ⟨pid, i⟩ := h
  simp only [State.handles, State.setFilp]
  by_cases caller : pid = src
  next =>
    subst caller
    by_cases entry : i = fd
    next =>
      subst entry
      simp only [Function.update_self]
    next =>
      have other : (pid, i) ≠ (pid, fd) := fun same => entry (Prod.ext_iff.mp same).2
      simp only [Function.update_self, Function.update_of_ne entry, Function.update_of_ne other]
      rfl
  next =>
    have other : (pid, i) ≠ (src, fd) := fun same => caller (Prod.ext_iff.mp same).1
    simp only [Function.update_of_ne caller, Function.update_of_ne other]
    rfl

@[simp] theorem setFileDesc_opens (desc : FileDesc) :
    (s.setFileDesc d desc).opens = Function.update s.opens d desc.fdInode := by
  funext e
  by_cases same : e = d
  next =>
    subst same
    simp only [State.opens, State.setFileDesc, Function.update_self]
  next => simp only [State.opens, State.setFileDesc, Function.update_of_ne same]

@[simp] theorem setFileDesc_shares (desc : FileDesc) :
    (s.setFileDesc d desc).shares = Function.update s.shares d desc.fdCnt := by
  funext e
  by_cases same : e = d
  next =>
    subst same
    simp only [State.shares, State.setFileDesc, Function.update_self]
  next => simp only [State.shares, State.setFileDesc, Function.update_of_ne same]

theorem setFileDesc_fdPos {desc : FileDesc} (same : desc.fdPos = (s.fDescTable d).fdPos) (e : Nat) :
    ((s.setFileDesc d desc).fDescTable e).fdPos = (s.fDescTable e).fdPos := by
  by_cases here : e = d
  next =>
    subst here
    simp only [State.setFileDesc, Function.update_self, same]
  next => simp only [State.setFileDesc, Function.update_of_ne here]

theorem recounted {table table' : Nat → Inode} {cnt : Int}
    (slot : ∀ q, table' q = if q = p then { table p with iCnt := cnt } else table q) (q : Nat) :
    (table' q).iDev = (table q).iDev ∧ openChecks (table' q) = openChecks (table q) := by
  rw [slot]
  split
  next here =>
    subst here
    exact ⟨rfl, rfl⟩
  next => exact ⟨rfl, rfl⟩

theorem Counted.connect {src : Int} {fd : Nat}
    (counted : Counted s holders (Function.update base p (base p + 1)))
    (nonneg : ∀ q, 0 ≤ base q) (root : 0 < base s.rootInode) (member : (src, fd) ∈ holders)
    (free : s.filp src fd = none) (inside : d < nrFileDesc) (slot : p < nrInode)
    (idle : s.opens d = none) (checks : openChecks (s.inodeTable p) = .ok ()) :
    Counted (s.connect src fd d p) holders base := by
  have none_ : s.shares d = 0 := (counted.idle d).mp idle
  have noHandle : s.handles (src, fd) = none := free
  have opens : (s.connect src fd d p).opens = Function.update s.opens d (some p) :=
    setFileDesc_opens _
  have shares : (s.connect src fd d p).shares = Function.update s.shares d 1 :=
    setFileDesc_shares _
  have handles : (s.connect src fd d p).handles =
      Function.update s.handles (src, fd) (some d) := setFilp_handles ..
  constructor
  case super => exact counted.super
  case dev => exact counted.dev
  case share =>
    intro e
    have one := update_add s.shares d e 1
    rw [none_, Int.zero_add] at one
    rw [shares, handles, load_update_ref member, noHandle, if_neg (by simp), ← counted.share, one,
      Int.sub_zero]
  case idle =>
    intro e
    rw [opens, shares]
    by_cases same : e = d
    next =>
      subst same
      simp only [Function.update_self, reduceCtorEq, one_ne_zero]
    next =>
      rw [Function.update_of_ne same, Function.update_of_ne same]
      exact counted.idle e
  case inside =>
    intro e q opened
    rw [opens] at opened
    by_cases same : e = d
    next =>
      rw [same, Function.update_self, Option.some.injEq] at opened
      rw [same, ← opened]
      exact ⟨inside, slot⟩
    next =>
      rw [Function.update_of_ne same] at opened
      exact counted.inside e q opened
  case pos =>
    intro e
    simp only [State.connect, State.setFileDesc]
    by_cases same : e = d
    next =>
      rw [same, Function.update_self]
    next =>
      rw [Function.update_of_ne same]
      exact counted.pos e
  case count =>
    intro q
    have before := counted.count q
    rw [opens, shares, load_update (Finset.mem_range.mpr inside), idle, if_neg (by simp)]
    show (s.inodeTable q).iCnt = _
    by_cases same : q = p
    next =>
      subst same
      rw [Function.update_self] at before
      rw [if_pos rfl]
      omega
    next =>
      have other : ¬ some p = some q := fun h => same (Option.some.inj h).symm
      rw [Function.update_of_ne same] at before
      rw [if_neg other]
      omega
  case checked =>
    intro e q opened
    show openChecks (s.inodeTable q) = .ok ()
    rw [opens] at opened
    by_cases same : e = d
    next =>
      rw [same, Function.update_self, Option.some.injEq] at opened
      rwa [← opened]
    next =>
      rw [Function.update_of_ne same] at opened
      exact counted.checked e q opened
  case nonneg => exact nonneg
  case root => exact root

-- Entry `fd` of process `src` gives up descriptor `d`, which is open on the inode in slot `p`.
def State.release (s : State) (src : Int) (fd d p : Nat) : State :=
  ((s.setInode p { s.inodeTable p with iCnt := (s.inodeTable p).iCnt - 1 }).setFileDesc d
    (s.fDescTable d).released).setFilp src fd none

theorem Counted.release {src : Int} {fd : Nat} (counted : Counted s holders base)
    (member : (src, fd) ∈ holders) (handle : s.filp src fd = some d) (opened : s.opens d = some p) :
    Counted (s.release src fd d p) holders base := by
  have holds : s.handles (src, fd) = some d := handle
  have opens : (s.release src fd d p).opens =
      Function.update s.opens d (if s.shares d - 1 = 0 then none else some p) := by
    rw [← opened]
    exact setFileDesc_opens _
  have shares : (s.release src fd d p).shares = Function.update s.shares d (s.shares d - 1) :=
    setFileDesc_shares _
  have handles : (s.release src fd d p).handles = Function.update s.handles (src, fd) none :=
    setFilp_handles ..
  have slot (q : Nat) : (s.release src fd d p).inodeTable q = if q = p then
      { s.inodeTable p with iCnt := (s.inodeTable p).iCnt - 1 } else s.inodeTable q := by
    simp only [State.release, State.setFilp, State.setFileDesc, State.setInode,
      Function.update_apply]
  have before (e q : Nat) (opened' : (s.release src fd d p).opens e = some q) :
      s.opens e = some q := by
    rw [opens] at opened'
    by_cases same : e = d
    next =>
      rw [same, Function.update_self] at opened'
      split at opened'
      next => cases opened'
      next => rw [same, opened, ← opened']
    next => rwa [Function.update_of_ne same] at opened'
  constructor
  case super => exact counted.super
  case dev =>
    exact (recounted slot s.rootInode).1.trans counted.dev
  case share =>
    intro e
    have noneLeft : ¬ (none : Option Nat) = some e := by simp
    rw [shares, handles, load_update_ref member, holds, if_neg noneLeft, ← counted.share,
      Int.sub_eq_add_neg, update_add]
    split
    next => omega
    next => omega
  case idle =>
    intro e
    rw [opens, shares]
    by_cases same : e = d
    next =>
      subst same
      rw [Function.update_self, Function.update_self]
      by_cases last : s.shares e - 1 = 0
      next => simp only [last, if_true]
      next => simp only [last, if_false, reduceCtorEq]
    next =>
      rw [Function.update_of_ne same, Function.update_of_ne same]
      exact counted.idle e
  case inside => exact fun e q opened' => counted.inside e q (before e q opened')
  case pos =>
    intro e
    have same := @setFileDesc_fdPos s d (s.fDescTable d).released rfl e
    exact le_of_le_of_eq (counted.pos e) same.symm
  case count =>
    intro q
    have before := counted.count q
    rw [opens, shares, load_update (Finset.mem_range.mpr (counted.inside d p opened).1),
      opened, slot]
    by_cases same : q = p
    next =>
      subst same
      rw [if_pos rfl, if_pos rfl]
      by_cases last : s.shares d - 1 = 0
      next =>
        rw [if_pos last, if_neg (by simp)]
        show (s.inodeTable q).iCnt - 1 = _
        omega
      next =>
        rw [if_neg last, if_pos rfl]
        show (s.inodeTable q).iCnt - 1 = _
        omega
    next =>
      have other : ¬ some p = some q := fun h => same (Option.some.inj h).symm
      have kept : ¬ (if s.shares d - 1 = 0 then none else some p) = some q := by
        by_cases last : s.shares d - 1 = 0
        next => simp only [last, if_true, reduceCtorEq, not_false_eq_true]
        next => rwa [if_neg last]
      rw [if_neg same, if_neg other, if_neg kept]
      omega
  case checked =>
    intro e q opened'
    exact (recounted slot q).2.trans (counted.checked e q (before e q opened'))
  case nonneg => exact counted.nonneg
  case root => exact counted.root

-- One more entry leads to descriptor `d`, which is open on the inode in slot `p`.
def State.share (s : State) (d p : Nat) : State :=
  (s.setFileDesc d { s.fDescTable d with fdCnt := (s.fDescTable d).fdCnt + 1 }).setInode p
    { s.inodeTable p with iCnt := (s.inodeTable p).iCnt + 1 }

theorem Counted.share_ {h : Int × Nat} (counted : Counted s holders base) (new : h ∉ holders)
    (handle : s.handles h = some d) (opened : s.opens d = some p) :
    Counted (s.share d p) (insert h holders) base := by
  have opens : (s.share d p).opens = s.opens := by
    have same : (s.share d p).opens = Function.update s.opens d (s.opens d) := setFileDesc_opens _
    rw [same, Function.update_eq_self]
  have shares : (s.share d p).shares = Function.update s.shares d (s.shares d + 1) :=
    setFileDesc_shares _
  have slot (q : Nat) : (s.share d p).inodeTable q = if q = p then
      { s.inodeTable p with iCnt := (s.inodeTable p).iCnt + 1 } else s.inodeTable q := by
    simp only [State.share, State.setFileDesc, State.setInode, Function.update_apply]
  constructor
  case super => exact counted.super
  case dev =>
    exact (recounted slot s.rootInode).1.trans counted.dev
  case share =>
    intro e
    show (s.share d p).shares e = load _ s.handles _ e
    rw [shares, load_insert new, handle, ← counted.share, update_add]
  case idle =>
    intro e
    rw [opens, shares]
    by_cases same : e = d
    next =>
      subst same
      have nonneg := counted.shares_nonneg e
      rw [Function.update_self, opened]
      simp only [reduceCtorEq, false_iff]
      omega
    next =>
      rw [Function.update_of_ne same]
      exact counted.idle e
  case inside =>
    rw [opens]
    exact counted.inside
  case pos =>
    intro e
    have same := @setFileDesc_fdPos s d
      { s.fDescTable d with fdCnt := (s.fDescTable d).fdCnt + 1 } rfl e
    exact le_of_le_of_eq (counted.pos e) same.symm
  case count =>
    intro q
    have before := counted.count q
    have inside := Finset.mem_range.mpr (counted.inside d p opened).1
    have changed := @load_update _ _ _ _ s.opens s.shares q _ d inside (s.opens d) (s.shares d + 1)
    rw [Function.update_eq_self, opened] at changed
    rw [opens, shares, changed, slot]
    by_cases same : q = p
    next =>
      subst same
      rw [if_pos rfl, if_pos rfl, if_pos rfl]
      show (s.inodeTable q).iCnt + 1 = _
      omega
    next =>
      have other : ¬ some p = some q := fun h => same (Option.some.inj h).symm
      rw [if_neg same, if_neg other, if_neg other]
      omega
  case checked =>
    intro e q opened'
    rw [opens] at opened'
    exact (recounted slot q).2.trans (counted.checked e q opened')
  case nonneg => exact counted.nonneg
  case root => exact counted.root

end Counts

end Konix.Fs
