import Konix.Fs.Lifetime
import Konix.Fs.References

set_option autoImplicit false

namespace Konix.Fs

open RefCounts Runs

def CreatesFresh (s : State) : Prop :=
  ∀ pathname filename, pathnameOf s = .ok pathname → stripPath pathname = some filename →
    u32 s.fsMsg.flags &&& oCreat ≠ 0 → lookupPath s pathname = 0 →
    ∀ nr, LowestClear s.disk imapBase nr → ∀ p, p < nrInode → ¬ Caches s.inodeTable nr p

section Requests

variable {s s' : State} {r : Int} {holders : Finset (Int × Nat)} {base : Nat → Int}

theorem Counted.doOpen (counted : Counted s holders base) (fresh : CreatesFresh s)
    (member : ∀ fd, fd < nrFiles → (s.fsMsg.source, fd) ∈ holders) (done : doOpen s = .ok (r, s')) :
    Counted s' holders base ∧ ∀ pid, pid ≠ s.fsMsg.source → s'.filp pid = s.filp pid := by
  obtain ⟨pathname, s₁, path, only, disk, ways⟩ := doOpen_ok counted.dev done
  have counted₁ := counted.same only.sameReferences
  rcases ways with rfl | ⟨fd, d, p, s₂, fdBound, freeFd, inside, idle, finds, checks, rfl⟩
  case inl =>
    refine ⟨counted₁, fun pid _ => ?_⟩
    rw [only.filp]
  case inr =>
    have found : Counted s₂ holders (Function.update base p (base p + 1)) ∧
        s₂.filp = s₁.filp ∧ s₂.fDescTable = s₁.fDescTable ∧ s₂.rootInode = s₁.rootInode ∧
        p < nrInode := by
      cases finds with
      | creates flags missing create =>
        obtain ⟨filename, -, -, -, -, -, strip, -⟩ := createFile_ok counted₁.dev create
        rw [only.fsMsg] at flags
        apply counted₁.createFile _ create
        rw [disk, only.inodeTable]
        exact fresh pathname filename path strip flags missing
      | fetches flags get =>
        obtain ⟨inode, fetched⟩ := getInode_ok get
        exact ⟨counted₁.fetched fetched, fetched.only.filp, fetched.only.fDescTable,
          fetched.only.rootInode, fetched.slot⟩
    obtain ⟨counted₂, filp, descs, root, slot⟩ := found
    constructor
    · apply counted₂.connect counted.nonneg _ (member fd fdBound) _ inside slot _ checks
      · rw [root, only.rootInode]
        exact counted.root
      · rw [filp, only.filp]
        exact freeFd
      · rw [State.opens, descs, only.fDescTable]
        exact idle
    · intro pid other
      simp only [State.connect, State.setFileDesc, State.setFilp, Function.update_of_ne other, filp,
        only.filp]

theorem doClose_ok (done : doClose s = .ok (r, s')) :
    ∃ fd d p, fd < nrFiles ∧ s.filp s.fsMsg.source fd = some d ∧ s.opens d = some p ∧
      s' = s.release s.fsMsg.source fd d p := by
  obtain ⟨file, filp, rest⟩ := bind_ok done
  unfold State.filpOf at filp
  by_cases inside : 0 ≤ s.fsMsg.fd ∧ s.fsMsg.fd < nrFiles
  next =>
    rw [if_pos inside, Except.ok.injEq] at filp
    cases file with
    | none => cases rest
    | some d =>
      cases opened : (s.fDescTable d).fdInode with
      | none =>
        simp only [opened] at rest
        cases rest
      | some p =>
        simp only [opened] at rest
        obtain ⟨s₁, put, last⟩ := bind_ok rest
        obtain ⟨-, rfl⟩ := putInode_ok put
        cases last
        exact ⟨s.fsMsg.fd.toNat, d, p, by omega, filp, opened, rfl⟩
  next =>
    rw [if_neg inside] at filp
    cases filp

theorem Counted.doClose (counted : Counted s holders base)
    (member : ∀ fd, fd < nrFiles → (s.fsMsg.source, fd) ∈ holders)
    (done : doClose s = .ok (r, s')) :
    Counted s' holders base ∧ ∀ pid, pid ≠ s.fsMsg.source → s'.filp pid = s.filp pid := by
  obtain ⟨fd, d, p, bound, handle, opened, rfl⟩ := doClose_ok done
  refine ⟨counted.release (member fd bound) handle opened, fun pid other => ?_⟩
  exact Function.update_of_ne other ..

theorem updateSize_sameReferences {d p : Nat} {count : Int}
    (done : updateSize s d p count = .ok (r, s')) : SameReferences s s' := by
  rcases updateSize_ok done with rfl | ⟨size, -, sync⟩
  · exact (DiskOnly.refl s').sameReferences
  · exact (setInode_sameReferences ⟨size, rfl⟩).trans (syncInode_only sync).sameReferences

theorem sameReferences_msg (s : State) (msg : Message) :
    SameReferences s { s with fsMsg := msg } where
  super := rfl
  root := rfl
  filp := rfl
  descs := fun _ => ⟨rfl, rfl, le_refl _⟩
  inodes := fun _ => SameFile.refl _

theorem doRdwt_sameReferences {driver : Message → Message}
    (pos : ∀ d, 0 ≤ (s.fDescTable d).fdPos) (done : doRdwt driver s = .ok (r, s')) :
    SameReferences s s' := by
  rcases doRdwt_ok pos done with ⟨msg, rfl⟩ | ⟨d, p, s₁, count, -, -, -, transferred, update⟩
  · exact sameReferences_msg s msg
  · exact transferred.sameReferences.trans (updateSize_sameReferences update)

theorem forkFiles_invariant {child : Int} {P : Nat → State → Prop}
    (skip : ∀ i s, i < nrFiles → P i s → s.filp child i = none → P (i + 1) s)
    (share : ∀ i s d p, i < nrFiles → P i s → s.filp child i = some d → s.opens d = some p →
      P (i + 1) (s.share d p))
    (fuel i : Nat) (whole : i + fuel = nrFiles) (holds : P i s)
    (done : forkFiles child fuel i s = .ok s') : P nrFiles s' := by
  induction fuel generalizing i s with
  | zero =>
    cases done
    rwa [← whole]
  | succ fuel ih =>
    rw [forkFiles] at done
    cases handle : s.filp child i with
    | none =>
      simp only [handle] at done
      exact ih (i + 1) (by omega) (skip i s (by omega) holds handle) done
    | some d =>
      simp only [handle] at done
      split at done
      next => cases done
      next p opened =>
        exact ih (i + 1) (by omega) (share i s d p (by omega) holds handle opened) done

theorem exitFiles_invariant {pid : Int} {P : Nat → State → Prop}
    (skip : ∀ i s, i < nrFiles → P i s → s.filp pid i = none → P (i + 1) s)
    (release : ∀ i s d p, i < nrFiles → P i s → s.filp pid i = some d → s.opens d = some p →
      P (i + 1) (s.release pid i d p))
    (fuel i : Nat) (whole : i + fuel = nrFiles) (holds : P i s)
    (done : exitFiles pid fuel i s = .ok s') : P nrFiles s' := by
  induction fuel generalizing i s with
  | zero =>
    cases done
    rwa [← whole]
  | succ fuel ih =>
    rw [exitFiles] at done
    cases handle : s.filp pid i with
    | none =>
      simp only [handle] at done
      exact ih (i + 1) (by omega) (skip i s (by omega) holds handle) done
    | some d =>
      simp only [handle] at done
      split at done
      next => cases done
      next p opened =>
        exact ih (i + 1) (by omega) (release i s d p (by omega) holds handle opened) done

theorem Counted.rehold (counted : Counted s holders base) {holders' : Finset (Int × Nat)}
    (same : ∀ d, load holders' s.handles (fun _ => 1) d = load holders s.handles (fun _ => 1) d) :
    Counted s holders' base :=
  { counted with share := fun d => (counted.share d).trans (same d).symm }

def entries (live : Finset Int) : Finset (Int × Nat) := live ×ˢ Finset.range nrFiles

theorem mem_entries {live : Finset Int} {pid : Int} {fd : Nat} :
    (pid, fd) ∈ entries live ↔ pid ∈ live ∧ fd < nrFiles := by
  rw [entries, Finset.mem_product, Finset.mem_range]

def entriesWith (live : Finset Int) (child : Int) (i : Nat) : Finset (Int × Nat) :=
  entries live ∪ {child} ×ˢ Finset.range i

theorem mem_entriesWith {live : Finset Int} {child : Int} {i : Nat} {h : Int × Nat} :
    h ∈ entriesWith live child i ↔ h ∈ entries live ∨ h.1 = child ∧ h.2 < i := by
  rw [entriesWith, Finset.mem_union, Finset.mem_product, Finset.mem_singleton, Finset.mem_range]

theorem entriesWith_zero (live : Finset Int) (child : Int) :
    entriesWith live child 0 = entries live := by
  ext h
  simp only [mem_entriesWith, Nat.not_lt_zero, and_false, or_false]

theorem entriesWith_succ (live : Finset Int) (child : Int) (i : Nat) :
    entriesWith live child (i + 1) = insert (child, i) (entriesWith live child i) := by
  ext h
  obtain ⟨pid, fd⟩ := h
  simp only [Finset.mem_insert, mem_entriesWith, Prod.mk.injEq]
  have split_ : fd < i + 1 ↔ fd = i ∨ fd < i := by omega
  rw [split_]
  tauto

theorem entriesWith_all (live : Finset Int) (child : Int) :
    entriesWith live child nrFiles = entries (insert child live) := by
  ext h
  obtain ⟨pid, fd⟩ := h
  rw [mem_entriesWith, mem_entries, mem_entries, Finset.mem_insert]
  tauto

/--
`fs_fork()` counts the entries of the child in. What else is to hold of the state has to stand each
new share.
-/
theorem Counted.forkFiles {live : Finset Int} {child : Int}
    (counted : Counted s (entries live) base)
    {Q : State → Prop} (holds : Q s) (new : child ∉ live)
    (kept : ∀ s holders d p, Counted s holders base → Q s → s.opens d = some p → Q (s.share d p))
    (done : forkFiles child nrFiles 0 s = .ok s') :
    Counted s' (entries (insert child live)) base ∧ Q s' ∧ s'.filp = s.filp := by
  rw [← entriesWith_all]
  refine forkFiles_invariant
    (P := fun i t => Counted t (entriesWith live child i) base ∧ Q t ∧ t.filp = s.filp)
    ?_ ?_ nrFiles 0 (Nat.zero_add _) ⟨?_, holds, rfl⟩ done
  · intro i t _ before none_
    refine ⟨before.1.rehold fun d => ?_, before.2⟩
    rw [entriesWith_succ]
    refine (load_subset (Finset.subset_insert ..) fun h inside outside => ?_).symm
    have last := (Finset.mem_insert.mp inside).resolve_right outside
    rw [last]
    exact none_
  · intro i t d p _ before handle opened
    refine ⟨?_, kept t _ d p before.1 before.2.1 opened, before.2.2⟩
    have holds : t.handles (child, i) = some d := handle
    rw [entriesWith_succ]
    refine before.1.share_ ?_ holds opened
    rw [mem_entriesWith]
    rintro (old | ⟨-, below⟩)
    · exact new (mem_entries.mp old).1
    · exact absurd below (Nat.lt_irrefl i)
  · rw [entriesWith_zero]
    exact counted

structure Leaving (s : State) (live : Finset Int) (base : Nat → Int) (Q : State → Prop) (pid : Int)
    (i : Nat) (t : State) : Prop where
  counted : Counted t (entries live) base
  holds : Q t
  cleared : ∀ fd, fd < i → t.filp pid fd = none
  others : ∀ q, q ≠ pid → t.filp q = s.filp q

theorem Leaving.skip {t : State} {live : Finset Int} {Q : State → Prop} {pid : Int} {i : Nat}
    (leaving : Leaving s live base Q pid i t) (none_ : t.filp pid i = none) :
    Leaving s live base Q pid (i + 1) t where
  counted := leaving.counted
  holds := leaving.holds
  cleared := by
    intro fd below
    by_cases last : fd = i
    next => rwa [last]
    next => exact leaving.cleared fd (by omega)
  others := leaving.others

theorem Leaving.release {t : State} {live : Finset Int} {Q : State → Prop} {pid : Int} {i d p : Nat}
    (leaving : Leaving s live base Q pid i t)
    (counted : Counted (t.release pid i d p) (entries live) base)
    (holds : Q (t.release pid i d p)) :
    Leaving s live base Q pid (i + 1) (t.release pid i d p) where
  counted := counted
  holds := holds
  cleared := by
    intro fd below
    show Function.update t.filp pid (Function.update (t.filp pid) i none) pid fd = none
    rw [Function.update_self]
    by_cases last : fd = i
    next => rw [last, Function.update_self]
    next =>
      rw [Function.update_of_ne last]
      exact leaving.cleared fd (by omega)
  others := by
    intro q other
    show Function.update t.filp pid (Function.update (t.filp pid) i none) q = s.filp q
    rw [Function.update_of_ne other]
    exact leaving.others q other

/--
`fs_exit()` takes the entries of the process away. What else is to hold of the state has to stand
each release.
-/
theorem Counted.exitFiles {live : Finset Int} {pid : Int} (counted : Counted s (entries live) base)
    {Q : State → Prop} (holds : Q s) (member : pid ∈ live)
    (kept : ∀ s fd d p, Counted s (entries live) base → Q s → s.opens d = some p →
      Q (s.release pid fd d p))
    (done : exitFiles pid nrFiles 0 s = .ok s') :
    Counted s' (entries (live.erase pid)) base ∧ Q s' ∧
      (∀ fd, fd < nrFiles → s'.filp pid fd = none) ∧ ∀ q, q ≠ pid → s'.filp q = s.filp q := by
  have left : Leaving s live base Q pid nrFiles s' := by
    refine exitFiles_invariant (P := Leaving s live base Q pid) ?_ ?_ nrFiles 0 (Nat.zero_add _)
      ⟨counted, holds, fun fd below => absurd below (Nat.not_lt_zero fd), fun q _ => rfl⟩ done
    · exact fun i t _ leaving none_ => leaving.skip none_
    · intro i t d p bound leaving handle opened
      exact leaving.release
        (leaving.counted.release (mem_entries.mpr ⟨member, bound⟩) handle opened)
        (kept t i d p leaving.counted leaving.holds opened)
  refine ⟨left.counted.rehold fun d => ?_, left.holds, left.cleared, left.others⟩
  apply load_subset
  · exact Finset.product_subset_product_left (Finset.erase_subset ..)
  · rintro ⟨q, fd⟩ inside outside
    obtain ⟨alive, bound⟩ := mem_entries.mp inside
    have gone : q = pid := by
      by_contra other
      exact outside (mem_entries.mpr ⟨Finset.mem_erase.mpr ⟨other, alive⟩, bound⟩)
    rw [gone]
    exact left.cleared fd bound

end Requests

section Removal

variable {s s' : State} {holders : Finset (Int × Nat)} {base : Nat → Int}

theorem nextSect_only {dev sect i sect' i' : Nat}
    (done : nextSect dev sect i s = .ok (sect', i', s')) : DiskOnly s s' := by
  rw [nextSect] at done
  by_cases last : i = sectorSize
  next =>
    rw [if_pos last] at done
    obtain ⟨s₁, write, rest⟩ := bind_ok done
    obtain ⟨s₂, read, rest⟩ := bind_ok rest
    cases rest
    exact (DiskOnly.wrSect write).trans (DiskOnly.rdSect read)
  next =>
    rw [if_neg last] at done
    cases done
    exact DiskOnly.refl _

theorem dropBytes_only {dev fuel sect i left sect' i' left' : Nat}
    (done : dropBytes dev fuel sect i left s = .ok (sect', i', left', s')) : DiskOnly s s' := by
  induction fuel generalizing sect i left s with
  | zero =>
    cases done
    exact DiskOnly.refl _
  | succ fuel ih =>
    obtain ⟨⟨sect₁, i₁, s₁⟩, next_, rest⟩ := bind_ok done
    obtain ⟨u, -, rest⟩ := bind_ok rest
    exact (nextSect_only next_).trans ((DiskOnly.buffer s₁ _).trans (ih rest))

theorem freeSmapBits_only {sb : SuperBlock} {dev bitIdx nrSects : Nat}
    (done : freeSmapBits s sb dev bitIdx nrSects = .ok s') : DiskOnly s s' := by
  obtain ⟨s₁, read, rest⟩ := bind_ok done
  obtain ⟨⟨byte, left⟩, -, rest⟩ := bind_ok rest
  obtain ⟨⟨sect, i, left', s₂⟩, bytes, rest⟩ := bind_ok rest
  obtain ⟨⟨sect', i', s₃⟩, next_, rest⟩ := bind_ok rest
  obtain ⟨u, -, rest⟩ := bind_ok rest
  exact (DiskOnly.rdSect read).trans ((DiskOnly.buffer s₁ _).trans ((dropBytes_only bytes).trans
    ((nextSect_only next_).trans ((DiskOnly.buffer s₃ _).trans (DiskOnly.wrSect rest)))))

theorem removeFile_ok {nr p : Nat} (dev : (s.inodeTable p).iDev = rootDev)
    (done : removeFile s nr p = .ok s') :
    ∃ t, DiskOnly (s.setInode p { clearedInode (s.inodeTable p) with
        iCnt := (s.inodeTable p).iCnt - 1 }) t ∧ 0 < (s.inodeTable p).iCnt ∧
      freeDirEntry t nr = .ok s' := by
  obtain ⟨sb, -, rest⟩ := bind_ok done
  obtain ⟨s₁, imap, rest⟩ := bind_ok rest
  rw [dev] at imap
  obtain ⟨-, -, only₁, -⟩ := freeImapBit_ok imap
  obtain ⟨u, -, rest⟩ := bind_ok rest
  obtain ⟨s₂, smap, rest⟩ := bind_ok rest
  obtain ⟨s₃, sync, rest⟩ := bind_ok rest
  obtain ⟨s₄, put, entry⟩ := bind_ok rest
  have only := only₁.trans (freeSmapBits_only smap)
  have only₃ := syncInode_only sync
  obtain ⟨positive, rfl⟩ := putInode_ok put
  have slot : s₃.inodeTable p = clearedInode (s.inodeTable p) := by
    rw [only₃.inodeTable]
    exact Function.update_self ..
  rw [slot] at positive
  refine ⟨_, ?_, positive, entry⟩
  rw [slot]
  unfold DiskOnly at only only₃ ⊢
  rw [only₃, only]
  simp only [State.setInode, Function.update_idem]
  rfl

-- A removal gives the reference back that FS has taken, and a refusal keeps it.
theorem Counted.doUnlink (counted : Counted s holders base) {r : Int}
    (done : doUnlink s = .ok (r, s')) :
    ∃ base', Counted s' holders base' ∧ s'.filp = s.filp := by
  obtain ⟨pathname, -, ways⟩ := doUnlink_ok counted.dev done
  rcases ways with
    ⟨-, -, only, -⟩ | ⟨-, p, inode, s₁, fetched, ⟨-, rfl⟩ | ⟨-, regular, last, remove⟩⟩
  · exact ⟨base, counted.same only.sameReferences, only.filp⟩
  · exact ⟨_, counted.fetched fetched, fetched.only.filp⟩
  · have counted₁ := counted.fetched fetched
    have slot : s₁.inodeTable p = inode := by
      rw [fetched.only.inodeTable]
      exact Function.update_self ..
    obtain ⟨t, only, positive, entry⟩ := removeFile_ok (by rw [slot]; exact fetched.dev) remove
    rw [slot] at only positive
    have here : Function.update base p (base p + 1) p = base p + 1 := Function.update_self ..
    have nonneg := counted.nonneg p
    have counted₂ : Counted t holders (Function.update (Function.update base p (base p + 1)) p
        (Function.update base p (base p + 1) p + -1)) := by
      apply counted₁.slot only
      case cnt =>
        rw [slot]
        rfl
      case nonneg => omega
      case root =>
        intro same
        have atRoot := counted.root
        have root : s₁.rootInode = s.rootInode := fetched.only.rootInode
        rw [← root, ← same] at atRoot
        exact ⟨by omega, fetched.dev⟩
      case kept =>
        intro d opened
        have used := counted₁.used opened
        rw [slot] at used
        omega
    obtain ⟨sb, super, -⟩ := counted₂.super
    obtain ⟨size, -, only₃, -⟩ := freeDirEntry_ok counted₂.dev super entry
    have grown : SameReferences t s' :=
      (setInode_sameReferences ⟨size, rfl⟩).trans only₃.sameReferences
    exact ⟨_, counted₂.same grown, only₃.filp.trans (only.filp.trans fetched.only.filp)⟩

end Removal

-- FS, the processes that run, and the fork that MM has begun: its parent and its child.
structure Service where
  fs : State
  live : Finset Int
  forking : Option (Int × Int)

inductive Event
  | asks (request : Request)
  | copies (parent child : Int)

def processes : Finset Int := (Finset.range (nrTasks + nrProcs)).image Int.ofNat

def Begins (size : Nat) (v : Service) : Prop :=
  ∃ s, initFs s size = .ok v.fs ∧ (∀ pid fd, s.filp pid fd = none) ∧ v.live ⊆ processes ∧
    v.forking = none

-- `*p = proc_table[pid]` in `do_fork()`, as far as FS is concerned.
def State.copyFilp (s : State) (parent child : Int) : State :=
  { s with filp := Function.update s.filp child (s.filp parent) }

/--
A process asks FS for something, MM copies the parent of a fork into a free slot of the process
table, and then MM tells FS of the fork, or of an exit. While the fork lasts, MM does nothing else
and the parent waits.
-/
inductive Serves : Service → Event → Service → Prop
  | asked {v : Service} {request : Request} {driver : Message → Message} {answer : Option Int}
      {s' : State} (live : request.msg.source ∈ v.live)
      (runs : ∀ child, v.forking ≠ some (request.msg.source, child))
      (kind : request.msg.type ∈ [MsgType.open_, .close, .read, .write, .unlink])
      (done : taskFs driver (v.fs.receive request) = .ok (answer, s')) :
      Serves v (.asks request) { v with fs := s' }
  | copied {v : Service} {parent child : Int} (live : parent ∈ v.live) (slot : child ∈ processes)
      (new : child ∉ v.live) (idle : v.forking = none) :
      Serves v (.copies parent child)
        { v with fs := v.fs.copyFilp parent child, forking := some (parent, child) }
  | forked {v : Service} {request : Request} {driver : Message → Message} {answer : Option Int}
      {s' : State} {parent child : Int} (forking : v.forking = some (parent, child))
      (source : request.msg.source = taskMm) (type : request.msg.type = .fork)
      (pid : request.msg.pid = child)
      (done : taskFs driver (v.fs.receive request) = .ok (answer, s')) :
      Serves v (.asks request) ⟨s', insert child v.live, none⟩
  | exited {v : Service} {request : Request} {driver : Message → Message} {answer : Option Int}
      {s' : State} (idle : v.forking = none) (source : request.msg.source = taskMm)
      (type : request.msg.type = .exit) (live : request.msg.pid ∈ v.live)
      (done : taskFs driver (v.fs.receive request) = .ok (answer, s')) :
      Serves v (.asks request) { v with fs := s', live := v.live.erase request.msg.pid }

structure Served (v : Service) (base : Nat → Int) : Prop where
  counted : Counted v.fs (entries v.live) base
  live : v.live ⊆ processes
  child : ∀ parent child, v.forking = some (parent, child) → child ∈ processes ∧ child ∉ v.live
  rows : ∀ pid, pid ∉ v.live → (∀ parent, v.forking ≠ some (parent, pid)) →
    ∀ fd, fd < nrFiles → v.fs.filp pid fd = none

section Steps

variable {v v' : Service} {base : Nat → Int} {e : Event} {request : Request} {s s' : State}

theorem receive_sameReferences (s : State) (request : Request) :
    SameReferences s (s.receive request) where
  super := rfl
  root := rfl
  filp := rfl
  descs := fun _ => ⟨rfl, rfl, le_refl _⟩
  inodes := fun _ => SameFile.refl _

theorem taskFs_ok {driver : Message → Message} {answer : Option Int}
    (done : taskFs driver s = .ok (answer, s')) :
    ∃ src t msg, serveMsg driver s = .ok (src, t) ∧ s' = { t with fsMsg := msg } := by
  obtain ⟨⟨src, t⟩, serve, rest⟩ := bind_ok done
  simp only at rest
  by_cases answered : t.fsMsg.type ≠ .suspendProc
  next =>
    rw [if_pos answered] at rest
    cases rest
    exact ⟨src, t, _, serve, rfl⟩
  next =>
    rw [if_neg answered] at rest
    cases rest
    exact ⟨src, s', s'.fsMsg, serve, rfl⟩

inductive Does (driver : Message → Message) (s : State) : State → Prop
  | opens {r : Int} {t : State} (type : s.fsMsg.type = .open_) (done : doOpen s = .ok (r, t)) :
      Does driver s t
  | closes {r : Int} {t : State} (type : s.fsMsg.type = .close) (done : doClose s = .ok (r, t)) :
      Does driver s t
  | moves {r : Int} {t : State} (type : s.fsMsg.type = .read ∨ s.fsMsg.type = .write)
      (done : doRdwt driver s = .ok (r, t)) : Does driver s t
  | unlinks {r : Int} {t : State} (type : s.fsMsg.type = .unlink)
      (done : doUnlink s = .ok (r, t)) : Does driver s t

theorem taskFs_does {driver : Message → Message} {answer : Option Int}
    (kind : s.fsMsg.type ∈ [MsgType.open_, .close, .read, .write, .unlink])
    (done : taskFs driver s = .ok (answer, s')) :
    ∃ t msg, Does driver s t ∧ s' = { t with fsMsg := msg } := by
  obtain ⟨src, t, msg, serve, rfl⟩ := taskFs_ok done
  simp only [List.mem_cons, List.not_mem_nil, or_false] at kind
  rcases kind with type | type | type | type | type <;>
    simp only [serveMsg, type] at serve <;> obtain ⟨⟨r, u⟩, request, rest⟩ := bind_ok serve <;>
    cases rest
  case inl => exact ⟨u, msg, .opens type request, rfl⟩
  case inr.inl => exact ⟨u, msg, .closes type request, rfl⟩
  case inr.inr.inl => exact ⟨u, msg, .moves (.inl type) request, rfl⟩
  case inr.inr.inr.inl => exact ⟨u, msg, .moves (.inr type) request, rfl⟩
  case inr.inr.inr.inr => exact ⟨u, msg, .unlinks type request, rfl⟩

theorem taskFs_fork {driver : Message → Message} {answer : Option Int}
    (type : s.fsMsg.type = .fork) (done : taskFs driver s = .ok (answer, s')) :
    ∃ t msg, forkFiles s.fsMsg.pid nrFiles 0 s = .ok t ∧ s' = { t with fsMsg := msg } := by
  obtain ⟨src, t, msg, serve, rfl⟩ := taskFs_ok done
  simp only [serveMsg, type] at serve
  obtain ⟨u, fork, rest⟩ := bind_ok serve
  cases rest
  exact ⟨u, msg, fork, rfl⟩

theorem taskFs_exit {driver : Message → Message} {answer : Option Int}
    (type : s.fsMsg.type = .exit) (done : taskFs driver s = .ok (answer, s')) :
    ∃ t msg, exitFiles s.fsMsg.pid nrFiles 0 s = .ok t ∧ s' = { t with fsMsg := msg } := by
  obtain ⟨src, t, msg, serve, rfl⟩ := taskFs_ok done
  simp only [serveMsg, type] at serve
  obtain ⟨u, exit_, rest⟩ := bind_ok serve
  cases rest
  exact ⟨u, msg, exit_, rfl⟩

-- Each request of a process keeps the counters, and an UNLINK alone may leave a reference behind.
theorem Counted.does {holders : Finset (Int × Nat)} {driver : Message → Message}
    (counted : Counted s holders base) (does : Does driver s s')
    (member : ∀ fd, fd < nrFiles → (s.fsMsg.source, fd) ∈ holders)
    (fresh : s.fsMsg.type = .open_ → CreatesFresh s) :
    (∃ base', Counted s' holders base' ∧ (s.fsMsg.type ≠ .unlink → base' = base)) ∧
      ∀ pid, pid ≠ s.fsMsg.source → s'.filp pid = s.filp pid := by
  cases does with
  | opens type done =>
    obtain ⟨counted', others⟩ := counted.doOpen (fresh type) member done
    exact ⟨⟨base, counted', fun _ => rfl⟩, others⟩
  | closes type done =>
    obtain ⟨counted', others⟩ := counted.doClose member done
    exact ⟨⟨base, counted', fun _ => rfl⟩, others⟩
  | moves type done =>
    have same := doRdwt_sameReferences counted.pos done
    exact ⟨⟨base, counted.same same, fun _ => rfl⟩, fun pid _ => congrFun same.filp pid⟩
  | unlinks type done =>
    obtain ⟨base', counted', filp⟩ := counted.doUnlink done
    exact ⟨⟨base', counted', fun other => absurd type other⟩, fun pid _ => congrFun filp pid⟩

theorem Counted.copyFilp {live : Finset Int} {parent child : Int}
    (counted : Counted s (entries live) base) (new : child ∉ live) :
    Counted (s.copyFilp parent child) (entries live) base := by
  refine { counted with share := fun d => (counted.share d).trans ?_ }
  apply load_congr
  · rintro ⟨pid, fd⟩ inside
    have other : pid ≠ child := by
      rintro rfl
      exact new (mem_entries.mp inside).1
    simp only [State.handles, State.copyFilp, Function.update_of_ne other]
  · exact fun _ _ => rfl

theorem Served.step (served : Served v base) (serves : Serves v e v')
    (fresh : ∀ request, e = .asks request → request.msg.type = .open_ →
      CreatesFresh (v.fs.receive request)) :
    ∃ base', Served v' base' ∧
      ((∀ request, e = .asks request → request.msg.type ≠ .unlink) → base' = base) := by
  have received (request : Request) :=
    served.counted.same (receive_sameReferences v.fs request)
  cases serves with
  | @asked request driver answer s' live runs kind done =>
    obtain ⟨t, msg, does, rfl⟩ := taskFs_does kind done
    obtain ⟨⟨base', counted, sameBase⟩, others⟩ := (received request).does does
      (fun fd bound => mem_entries.mpr ⟨live, bound⟩) (fresh request rfl)
    refine ⟨base', ⟨counted.same (sameReferences_msg t msg), served.live, served.child, ?_⟩,
      fun noUnlink => sameBase (noUnlink request rfl)⟩
    intro pid dead notChild fd bound
    have other : pid ≠ request.msg.source := by
      rintro rfl
      exact dead live
    exact (congrFun (others pid other) fd).trans (served.rows pid dead notChild fd bound)
  | @copied parent child live slot new idle =>
    refine ⟨base, ⟨served.counted.copyFilp new, served.live, ?_, ?_⟩, fun _ => rfl⟩
    · intro parent' child' same
      cases same
      exact ⟨slot, new⟩
    · intro pid dead notChild fd bound
      have other : pid ≠ child := by
        rintro rfl
        exact notChild parent rfl
      show Function.update v.fs.filp child (v.fs.filp parent) pid fd = none
      rw [Function.update_of_ne other]
      apply served.rows pid dead _ fd bound
      rw [idle]
      intro _ same
      cases same
  | @forked request driver answer s' parent child forking source type pid done =>
    obtain ⟨slot, new⟩ := served.child parent child forking
    obtain ⟨t, msg, fork, rfl⟩ := taskFs_fork type done
    have isChild : (v.fs.receive request).fsMsg.pid = child := pid
    rw [isChild] at fork
    obtain ⟨counted, -, filp⟩ := (received request).forkFiles (Q := fun _ => True) trivial new
      (fun _ _ _ _ _ _ _ => trivial) fork
    refine ⟨base,
      ⟨counted.same (sameReferences_msg t msg), ?_, (fun _ _ same => by cases same), ?_⟩,
      fun _ => rfl⟩
    · exact Finset.insert_subset slot served.live
    · intro pid dead _ fd bound
      rw [Finset.mem_insert, not_or] at dead
      show t.filp pid fd = none
      rw [filp]
      apply served.rows pid dead.2 _ fd bound
      intro parent' same
      rw [forking, Option.some.injEq, Prod.mk.injEq] at same
      exact dead.1 same.2.symm
  | @exited request driver answer s' idle source type live done =>
    obtain ⟨t, msg, exit_, rfl⟩ := taskFs_exit type done
    obtain ⟨counted, -, cleared, others⟩ := (received request).exitFiles (Q := fun _ => True)
      trivial live (fun _ _ _ _ _ _ _ => trivial) exit_
    refine ⟨base, ⟨counted.same (sameReferences_msg t msg), ?_, ?_, ?_⟩, fun _ => rfl⟩
    · exact (Finset.erase_subset ..).trans served.live
    · intro parent child forking
      obtain ⟨slot, new⟩ := served.child parent child forking
      exact ⟨slot, fun member => new (Finset.mem_of_mem_erase member)⟩
    · intro pid dead notChild fd bound
      by_cases here : pid = request.msg.pid
      next =>
        rw [here]
        exact cleared fd bound
      next =>
        have gone : pid ∉ v.live := fun member => dead (Finset.mem_erase.mpr ⟨here, member⟩)
        exact (congrFun (others pid here) fd).trans (served.rows pid gone notChild fd bound)

end Steps

end Konix.Fs
