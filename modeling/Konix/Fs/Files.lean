import Konix.Fs.ReadWrite
import Konix.Fs.Unlink

set_option autoImplicit false

namespace Konix.Fs

def State.setFilp (s : State) (src : Int) (fd : Nat) (file : Option Nat) : State :=
  { s with filp := Function.update s.filp src (Function.update (s.filp src) fd file) }

-- The first of the slots from `i` on that is free.
def firstFree (free : Nat → Bool) : Nat → Nat → Option Nat
  | 0, _ => none
  | fuel + 1, i => if free i then some i else firstFree free fuel (i + 1)

-- The inode `do_open()` is to open: `none` for the null pointer.
def openInode (s : State) (pathname : List UInt8) (inodeNr : Nat) :
    Except Stop (Option Nat × State) :=
  if u32 s.fsMsg.flags &&& oCreat ≠ 0 then
    if inodeNr ≠ 0 then .ok (none, s) else createFile s pathname
  else do
    assertThat (u32 s.fsMsg.flags &&& oRdwr ≠ 0) .assertion
    match stripPath pathname with
    | none => .ok (none, s)
    | some _ => getInode s (s.inodeTable s.rootInode).iDev inodeNr

-- A terminal is also opened at its driver, which is told the minor device and answers.
def openChecks (pin : Inode) : Except Stop Unit :=
  if pin.iMode &&& iTypeMask = iCharSpecial then do
    assertThat (major pin.iStartSect = 4) .assertion
    assertThat (ddMap (major pin.iStartSect) ≠ invalidDriver) .assertion
  else if pin.iMode &&& iTypeMask = iDirectory then
    assertThat (pin.iNum = rootInodeNr) .assertion
  else assertThat (pin.iMode = iRegular) .assertion

def doOpen (s : State) : Except Stop (Int × State) := do
  let pathname ← pathnameOf s
  let src := s.fsMsg.source
  match firstFree (fun fd => (s.filp src fd).isNone) nrFiles 0 with
  | none => .error .panic
  | some fd =>
    match firstFree (fun d => (s.fDescTable d).fdInode.isNone) nrFileDesc 0 with
    | none => .error .panic
    | some d => do
      let (inodeNr, s) ← searchFile s pathname
      let (slot, s) ← openInode s pathname inodeNr
      match slot with
      | none => return (-1, s)
      | some p => do
        let s := s.setFilp src fd (some d)
        let s := s.setFileDesc d ⟨u32 s.fsMsg.flags, 0, 1, some p⟩
        openChecks (s.inodeTable p)
        return (fd, s)

-- The descriptor gives up one reference, and with the last one its inode.
def FileDesc.released (desc : FileDesc) : FileDesc :=
  { desc with
    fdCnt := desc.fdCnt - 1
    fdInode := if desc.fdCnt - 1 = 0 then none else desc.fdInode }

def doClose (s : State) : Except Stop (Int × State) := do
  let src := s.fsMsg.source
  let fd := s.fsMsg.fd
  match ← s.filpOf src fd with
  -- the descriptor, or its inode, is reached through a null pointer
  | none => .error .outOfBounds
  | some d =>
    match (s.fDescTable d).fdInode with
    | none => .error .outOfBounds
    | some p => do
      let s ← putInode s p
      let s := s.setFileDesc d (s.fDescTable d).released
      return (0, s.setFilp src fd.toNat none)

-- The child of a fork shares the descriptors of its parent, which MM has copied.
def forkFiles (child : Int) : Nat → Nat → State → Except Stop State
  | 0, _, s => .ok s
  | fuel + 1, i, s =>
    match s.filp child i with
    | none => forkFiles child fuel (i + 1) s
    | some d =>
      match (s.fDescTable d).fdInode with
      | none => .error .outOfBounds
      | some p =>
        let desc := s.fDescTable d
        let s := s.setFileDesc d { desc with fdCnt := desc.fdCnt + 1 }
        let pin := s.inodeTable p
        forkFiles child fuel (i + 1) (s.setInode p { pin with iCnt := pin.iCnt + 1 })

def fsFork (s : State) : Except Stop State := forkFiles s.fsMsg.pid nrFiles 0 s

def exitFiles (pid : Int) : Nat → Nat → State → Except Stop State
  | 0, _, s => .ok s
  | fuel + 1, i, s =>
    match s.filp pid i with
    | none => exitFiles pid fuel (i + 1) s
    | some d =>
      match (s.fDescTable d).fdInode with
      | none => .error .outOfBounds
      | some p =>
        let pin := s.inodeTable p
        let s := s.setInode p { pin with iCnt := pin.iCnt - 1 }
        let s := s.setFileDesc d (s.fDescTable d).released
        exitFiles pid fuel (i + 1) (s.setFilp pid i none)

def fsExit (s : State) : Except Stop State := exitFiles s.fsMsg.pid nrFiles 0 s

def State.setFd (s : State) (value : Int) : State :=
  { s with fsMsg := { s.fsMsg with m3i1 := value } }

def State.setRetval (s : State) (value : Int) : State :=
  { s with fsMsg := { s.fsMsg with m3i1 := value } }

def State.setCnt (s : State) (value : Int) : State :=
  { s with fsMsg := { s.fsMsg with m3i2 := value } }

-- The `switch` of the main loop: who is to be answered, and the message with the result.
def serveMsg (driver : Message → Message) (s : State) : Except Stop (Int × State) :=
  match s.fsMsg.type with
  | .open_ => do
    let (fd, s') ← doOpen s
    return (s.fsMsg.source, s'.setFd fd)
  | .close => do
    let (retval, s') ← doClose s
    return (s.fsMsg.source, s'.setRetval retval)
  | .read | .write => do
    let (cnt, s') ← doRdwt driver s
    return (s.fsMsg.source, s'.setCnt cnt)
  | .unlink => do
    let (retval, s') ← doUnlink s
    return (s.fsMsg.source, s'.setRetval retval)
  | .resumeProc => .ok (s.fsMsg.procNr, s)
  | .fork => do
    let s' ← fsFork s
    return (s.fsMsg.source, s'.setRetval 0)
  | .exit => do
    let s' ← fsExit s
    return (s.fsMsg.source, s'.setRetval 0)
  | _ => .error .assertion

-- One turn of the loop of `task_fs()`; a suspended caller is not answered yet.
def taskFs (driver : Message → Message) (s : State) : Except Stop (Option Int × State) := do
  let (src, s) ← serveMsg driver s
  if s.fsMsg.type ≠ .suspendProc then
    return (some src, { s with fsMsg := { s.fsMsg with type := .syscallRet } })
  else return (none, s)

end Konix.Fs
