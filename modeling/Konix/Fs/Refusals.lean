import Konix.Fs.Files
import Konix.Fs.Mkfs

set_option autoImplicit false

namespace Konix.Fs

def BadFd (s : State) : Prop :=
  s.fsMsg.fd < 0 ∨ nrFiles ≤ s.fsMsg.fd ∨ s.filp s.fsMsg.source s.fsMsg.fd.toNat = none

-- The result that FS puts into the message it answers a CLOSE, READ or WRITE with.
def resultOf (type : MsgType) (m : Message) : Int := if type = .close then m.retval else m.cnt

-- The caller is answered -1, and nothing else has changed.
def Refused (driver : Message → Message) (s : State) : Prop :=
  ∃ s', taskFs driver s = .ok (some s.fsMsg.source, s') ∧ resultOf s.fsMsg.type s'.fsMsg = -1 ∧
    s'.filp = s.filp ∧ s'.fDescTable = s.fDescTable ∧ s'.inodeTable = s.inodeTable ∧
    s'.disk = s.disk

theorem filpOf_bad {s : State} (bad : BadFd s) :
    s.filpOf s.fsMsg.source s.fsMsg.fd = .error .outOfBounds ∨
      s.filpOf s.fsMsg.source s.fsMsg.fd = .ok none := by
  by_cases inside : 0 ≤ s.fsMsg.fd ∧ s.fsMsg.fd < nrFiles
  next =>
    rcases bad with below | above | empty
    · omega
    · omega
    · exact .inr (by rw [State.filpOf, if_pos inside, empty])
  next => exact .inl (by rw [State.filpOf, if_neg inside])

theorem doClose_bad {s : State} (bad : BadFd s) : doClose s = .error .outOfBounds := by
  rcases filpOf_bad bad with outside | empty
  · simp only [doClose, outside, bind, Except.bind]
  · simp only [doClose, empty, bind, Except.bind]

theorem doRdwt_bad (driver : Message → Message) {s : State} (bad : BadFd s) :
    doRdwt driver s = .error .outOfBounds ∨ doRdwt driver s = .error .assertion := by
  rcases filpOf_bad bad with outside | empty
  · exact .inl (by simp only [doRdwt, outside, bind, Except.bind])
  · exact .inr (by simp only [doRdwt, empty, bind, Except.bind])

-- A bad descriptor is never refused: FS stops at it.
theorem bad_fd_stops (driver : Message → Message) (s : State)
    (request : s.fsMsg.type = .close ∨ s.fsMsg.type = .read ∨ s.fsMsg.type = .write)
    (bad : BadFd s) :
    ¬ Refused driver s ∧
      (taskFs driver s = .error .outOfBounds ∨ taskFs driver s = .error .assertion) := by
  have stops : taskFs driver s = .error .outOfBounds ∨ taskFs driver s = .error .assertion := by
    rcases request with type | type | type
    case inl =>
      left
      simp only [taskFs, serveMsg, type, doClose_bad bad, bind, Except.bind]
    all_goals
      rcases doRdwt_bad driver bad with fails | fails
      · exact .inl (by simp only [taskFs, serveMsg, type, fails, bind, Except.bind])
      · exact .inr (by simp only [taskFs, serveMsg, type, fails, bind, Except.bind])
  refine ⟨?_, stops⟩
  rintro ⟨s', done, -⟩
  rcases stops with fails | fails <;> rw [fails] at done <;> cases done

def closeState : State :=
  { mounted (fun _ => 0) (mkfsSuper 10000) freeInode with
    fsMsg := { resetMsg with source := initPid, type := .close } }

theorem bad_fd_stops_close :
    ¬ Refused id closeState ∧
      (taskFs id closeState = .error .outOfBounds ∨ taskFs id closeState = .error .assertion) :=
  bad_fd_stops id closeState (.inl rfl) (.inr (.inr rfl))

theorem bad_fd_not_refused :
    ¬ ∀ (driver : Message → Message) (s : State),
      (s.fsMsg.type = .close ∨ s.fsMsg.type = .read ∨ s.fsMsg.type = .write) → BadFd s →
      Refused driver s := by
  intro claim
  have bad : BadFd closeState := .inr (.inr rfl)
  obtain ⟨s', done, -⟩ := claim id closeState (.inl rfl) bad
  have fails : taskFs id closeState = .error .outOfBounds := by
    have type : closeState.fsMsg.type = .close := rfl
    simp only [taskFs, serveMsg, type, doClose_bad bad, bind, Except.bind]
  rw [fails] at done
  cases done

def Untouched (s s' : State) : Prop := s'.inodeTable = s.inodeTable ∧ s'.disk = s.disk

theorem Fetched.counted {s s' : State} {num p : Nat} {inode : Inode}
    (fetched : Fetched s num p inode s') : s'.inodeTable ≠ s.inodeTable := by
  intro same
  have slot : s.inodeTable p = inode := by
    rw [← same, fetched.only.inodeTable]
    exact Function.update_self ..
  rcases fetched.kind with ⟨-, more⟩ | ⟨free, -, one, -⟩
  · rw [← slot] at more
    have cnt := congrArg Inode.iCnt more
    simp only at cnt
    omega
  · rw [slot, one] at free
    cases free

theorem unlink_refusal_iff (s s' : State) (pathname : List UInt8)
    (dev : (s.inodeTable s.rootInode).iDev = rootDev) (path : pathnameOf s = .ok pathname)
    (refused : doUnlink s = .ok (-1, s')) :
    Untouched s s' ↔ pathname = [slash] ∨ lookupPath s pathname = invalidInode := by
  obtain ⟨pathname', path', ways⟩ := doUnlink_ok dev refused
  rw [path, Except.ok.injEq] at path'
  subst path'
  rcases ways with ⟨missing, -, only, same⟩ | ⟨notRoot, p, inode, s₁, fetched, way⟩
  case inl => exact ⟨fun _ => missing, fun _ => ⟨only.inodeTable, same⟩⟩
  case inr =>
    rcases way with ⟨-, rfl⟩ | ⟨zero, -⟩
    · constructor
      · exact fun untouched => absurd untouched.1 fetched.counted
      · rintro (root | missing)
        · exact absurd root notRoot
        · exact absurd missing fetched.nonzero
    · cases zero

-- INIT has opened "b", which is inode 6, and asks FS to unlink "/b".
def openedDir : Inode := ⟨iDirectory, 2 * dirEntrySize, 262, nrDefaultFileSects, rootDev, 1, 1⟩

def openedDisk : Nat → UInt8 := putEntry (fun _ => 0) (262 * sectorSize + dirEntrySize) 6 [98]

def openedState (name : List UInt8) : State :=
  { mounted openedDisk (mkfsSuper 10000) openedDir with
    inodeTable := fun p => if p = 0 then openedDir
      else if p = 1 then ⟨iRegular, 0, 2310, nrDefaultFileSects, rootDev, 1, 6⟩ else freeInode
    fDescTable := fun d => if d = 0 then ⟨oRdwr, 0, 1, some 1⟩ else freeDesc
    filp := fun pid fd => if pid = initPid ∧ fd = 0 then some 0 else none
    userMem := fun _ j => name.getD j 0
    fsMsg := { resetMsg with source := initPid, type := .unlink, m3i2 := name.length } }

theorem unlink_refusal_missing :
    ∃ s', doUnlink (openedState [slash, 99]) = .ok (-1, s') ∧
      (Untouched (openedState [slash, 99]) s' ↔
        [slash, 99] = [slash] ∨ lookupPath (openedState [slash, 99]) [slash, 99] =
          invalidInode) := by
  have refused : (doUnlink (openedState [slash, 99])).map (·.1) = .ok (-1) := by decide +kernel
  cases done : doUnlink (openedState [slash, 99]) with
  | error stop =>
    rw [done] at refused
    cases refused
  | ok answer =>
    obtain ⟨r, s'⟩ := answer
    rw [done] at refused
    cases refused
    exact ⟨s', rfl, unlink_refusal_iff _ s' _ rfl (by decide +kernel) done⟩

def State.asks (s : State) (m : Message) : State := { s with fsMsg := m }

def openedRetry : Except Stop (Int × Int × Int) := do
  let unlink := (openedState [slash, 98]).fsMsg
  let (first_, s) ← doUnlink (openedState [slash, 98])
  let (closed, s) ← doClose (s.asks { resetMsg with source := initPid, type := .close })
  let (again, _) ← doUnlink (s.asks unlink)
  return (first_, closed, again)

-- The file is in use: its count is raised for good, so that it cannot be removed after the close.
theorem unlink_refusal_counts :
    (¬ ∀ s s' : State, (s.inodeTable s.rootInode).iDev = rootDev → doUnlink s = .ok (-1, s') →
      Untouched s s') ∧ openedRetry = .ok (-1, 0, -1) := by
  refine ⟨fun claim => ?_, by decide +kernel⟩
  have counted : (doUnlink (openedState [slash, 98])).map
      (fun answer => (answer.1, (answer.2.inodeTable 1).iCnt)) = .ok (-1, 2) := by decide +kernel
  cases done : doUnlink (openedState [slash, 98]) with
  | error stop =>
    rw [done] at counted
    cases counted
  | ok answer =>
    obtain ⟨r, s'⟩ := answer
    rw [done] at counted
    simp only [Except.map, Except.ok.injEq, Prod.mk.injEq] at counted
    obtain ⟨rfl, two⟩ := counted
    rw [(claim _ s' rfl done).1] at two
    cases two

end Konix.Fs
