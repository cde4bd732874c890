import Konix.Kernel.Frame

set_option autoImplicit false

namespace Konix.Mm

open Kernel

def procsBase : Int := 0xA00000
def procImageSizeDefault : Int := 0x100000

def slots : List Int := (List.range (nrTasks + nrProcs)).map Int.ofNat

theorem mem_slots (p : Int) : p ∈ slots ↔ InTable p := by
  simp only [slots, InTable, List.mem_map, List.mem_range, nrTasks, nrProcs]
  constructor
  · rintro ⟨n, bound, rfl⟩
    exact ⟨Int.natCast_nonneg n, by simpa using bound⟩
  · rintro ⟨nonneg, bound⟩
    exact ⟨p.toNat, by omega, Int.toNat_of_nonneg nonneg⟩

structure State where
  kernel : Kernel.State
  sent : List (Int × Message)

/--
What MM runs on: the size of memory, the bytes an uninitialised message has on MM's stack, and
what has become of the kernel when a `send_recv()` of MM returns. Other processes may run before
it does.
-/
structure Machine where
  memorySize : Int
  stack : Message
  sendRecv : Function → Int → Message → Kernel.State → Except Halted Kernel.State
  keeps : ∀ {function dest m k k'}, sendRecv function dest m k = .ok k' → Keeps k k'

namespace State

def modify (s : State) (p : Int) (f : Proc → Proc) : State :=
  { s with kernel := s.kernel.modify p f }

def sendRecv (s : State) (machine : Machine) (function : Function) (dest : Int) (m : Message) :
    Except Halted State := do
  let k ← machine.sendRecv function dest m s.kernel
  return ⟨k, s.sent ++ [(dest, m)]⟩

end State

theorem sendRecv_ok {s s' : State} {machine : Machine} {function : Function} {dest : Int}
    {m : Message} (done : s.sendRecv machine function dest m = .ok s') :
    Keeps s.kernel s'.kernel ∧ s'.sent = s.sent ++ [(dest, m)] := by
  unfold State.sendRecv at done
  obtain ⟨k', sends, done⟩ := bind_ok done
  cases done
  exact ⟨machine.keeps sends, rfl⟩

def reassembly (high highShift mid midShift low : Nat) : Int :=
  i32 (high <<< highShift + mid <<< midShift + low)

def segBase (ppd : Descriptor) : Int := reassembly ppd.baseHigh 24 ppd.baseMid 16 ppd.baseLow

-- The bytes of a segment whose last unit is `limit`.
def segSize (ppd : Descriptor) (limit : Int) : Int :=
  i32 (u32 ((limit + 1) * if ppd.limitHighAttr2 &&& daLimit4K >>> 8 ≠ 0 then 4096 else 1))

def allocMem (memorySize : Int) (k : Kernel.State) (pid memsize : Int) : Except Halted Int := do
  k.assertThat (pid ≥ nrTasks + nrNativeProcs)
  if memsize > procImageSizeDefault then .error ⟨.panic, k⟩
  else
    let base := procsBase + (pid - (nrTasks + nrNativeProcs)) * procImageSizeDefault
    if base + memsize ≥ memorySize then .error ⟨.panic, k⟩
    else return base

def copySegment (k : Kernel.State) (dst src size : Int) : Kernel.State :=
  { k with
    mem := fun la =>
      if u32 dst ≤ la ∧ la < u32 dst + u32 size then k.mem (la - u32 dst + u32 src)
      else k.mem la }

-- The entry of the child, copied from the caller's.
def Proc.child (pid : Int) (caller : Proc) : Proc := { caller with pParent := pid }

def childSegment (base : Int) (attr : Nat) : Descriptor :=
  initDescriptor (u32 base) (u32 ((procImageSizeDefault - 1) >>> limit4KShift))
    (daLimit4K ||| da32 ||| attr ||| privilegeUser <<< 5)

def Proc.inMemory (base : Int) (p : Proc) : Proc :=
  { p with ldtC := childSegment base daC, ldtRw := childSegment base daDRW }

def freeSlot (k : Kernel.State) : Option Int :=
  slots.find? fun i => (k.procTable i).pFlags = .onlyFreeSlot

-- `do_fork()` up to the segments of the child.
def duplicate (memorySize : Int) (k : Kernel.State) (pid childPid : Int) :
    Except Halted Kernel.State := do
  let caller := k.procTable pid
  let k := k.modify childPid fun _ => Proc.child pid caller
  let callerTBase := segBase (k.procTable pid).ldtC
  let callerTLimit := reassembly 0 0 ((k.procTable pid).ldtC.limitHighAttr2 &&& 0xF) 16
    (k.procTable pid).ldtC.limitLow
  let callerTSize := segSize (k.procTable pid).ldtC callerTLimit
  let callerDSBase := segBase (k.procTable pid).ldtRw
  let callerDSLimit := reassembly ((k.procTable pid).ldtRw.limitHighAttr2 &&& 0xF) 16 0 0
    (k.procTable pid).ldtRw.limitLow
  let callerDSSize := segSize (k.procTable pid).ldtRw callerTLimit
  k.assertThat (callerTBase = callerDSBase ∧ callerTLimit = callerDSLimit ∧
    callerTSize = callerDSSize)
  let childBase ← allocMem memorySize k childPid callerTSize
  let k := copySegment k childBase callerTBase callerTSize
  return k.modify childPid (Proc.inMemory childBase)

/-- `do_fork()`: its return value, `mm_msg` and the state it leaves. -/
def doFork (machine : Machine) (s : State) (mmMsg : Message) :
    Except Halted (Int × Message × State) :=
  match freeSlot s.kernel with
  | none => return (-1, mmMsg, s)
  | some childPid => do
    s.kernel.assertThat (childPid ≥ nrTasks + nrNativeProcs)
    let k ← duplicate machine.memorySize s.kernel mmMsg.source childPid
    let s := { s with kernel := k }
    let s ← s.sendRecv machine .both taskFs { machine.stack with type := .fork, m3i2 := childPid }
    let birth := { machine.stack with type := .syscallRet, m3i1 := 0, m3i2 := 0 }
    let s ← s.sendRecv machine .send childPid birth
    return (0, { mmMsg with m3i2 := childPid }, s)

def Proc.stopsWaiting (p : Proc) : Proc := { p with pFlags := { p.pFlags with waiting := false } }

def Proc.waits (p : Proc) : Proc := { p with pFlags := { p.pFlags with waiting := true } }

def Proc.hangs (p : Proc) : Proc := { p with pFlags := { p.pFlags with hanging := true } }

def Proc.exits (status : Int) (p : Proc) : Proc := { p with exitStatus := status }

def Proc.released (p : Proc) : Proc := { p with pFlags := .onlyFreeSlot }

def Proc.adopted (p : Proc) : Proc := { p with pParent := initPid }

def cleanup (machine : Machine) (s : State) (proc : Int) : Except Halted State := do
  let msg2parent := { machine.stack with
    type := .syscallRet, m3i2 := proc, m3i1 := (s.kernel.procTable proc).exitStatus }
  let s ← s.sendRecv machine .send (s.kernel.procTable proc).pParent msg2parent
  return s.modify proc Proc.released

-- One turn of the loop in which INIT becomes the parent of the children of `pid`.
def adopt (machine : Machine) (pid : Int) (s : State) (i : Int) : Except Halted State :=
  if (s.kernel.procTable i).pParent = pid then
    let s := s.modify i Proc.adopted
    if (s.kernel.procTable initPid).pFlags.waiting ∧ (s.kernel.procTable i).pFlags.hanging then
      cleanup machine (s.modify initPid Proc.stopsWaiting) i
    else return s
  else return s

-- `p` is dead: its parent collects it at once or it is left hanging.
def leave (machine : Machine) (s : State) (pid parentPid : Int) : Except Halted State :=
  if (s.kernel.procTable parentPid).pFlags.waiting then
    cleanup machine (s.modify parentPid Proc.stopsWaiting) pid
  else return s.modify pid Proc.hangs

def doExit (machine : Machine) (s : State) (mmMsg : Message) (status : Int) :
    Except Halted State := do
  let pid := mmMsg.source
  let parentPid := (s.kernel.procTable pid).pParent
  let s ← s.sendRecv machine .both taskFs { machine.stack with type := .exit, m3i2 := pid }
  let s := s.modify pid (Proc.exits status)
  let s ← leave machine s pid parentPid
  slots.foldlM (adopt machine pid) s

-- What `do_wait()` finds in the slots: a child that is hanging, or how many children there are.
inductive Found
  | hanging (child : Int)
  | children (count : Nat)

def scan (k : Kernel.State) (pid : Int) : Nat → List Int → Found
  | children, [] => .children children
  | children, i :: rest =>
    if (k.procTable i).pParent = pid then
      if (k.procTable i).pFlags.hanging then .hanging i
      else scan k pid (children + 1) rest
    else scan k pid children rest

def doWait (machine : Machine) (s : State) (mmMsg : Message) : Except Halted State :=
  let pid := mmMsg.source
  match scan s.kernel pid 0 slots with
  | .hanging child => cleanup machine s child
  | .children 0 =>
    s.sendRecv machine .send pid { machine.stack with type := .syscallRet, m3i2 := noTask }
  | .children _ => return s.modify pid Proc.waits

-- `task_mm()` from a message it has received to the next.
def taskMmLoop (machine : Machine) (s : State) (mmMsg : Message) : Except Halted State :=
  match mmMsg.type with
  | .fork => do
    let (retval, mmMsg, s) ← doFork machine s mmMsg
    s.sendRecv machine .send mmMsg.source { mmMsg with m3i1 := retval, type := .syscallRet }
  | .exit => doExit machine s mmMsg mmMsg.status
  | .wait => doWait machine s mmMsg
  | _ => .error ⟨.assertion, s.kernel⟩

theorem scan_hanging {k : Kernel.State} {pid child : Int} {children : Nat} {l : List Int}
    (found : scan k pid children l = .hanging child) :
    child ∈ l ∧ (k.procTable child).pParent = pid ∧ (k.procTable child).pFlags.hanging = true := by
  induction l generalizing children with
  | nil => cases found
  | cons i rest ih =>
    unfold scan at found
    split at found
    next parent =>
      split at found
      next hanging =>
        cases found
        exact ⟨List.mem_cons_self .., parent, hanging⟩
      next => exact (ih found).imp_left (List.mem_cons_of_mem i)
    next => exact (ih found).imp_left (List.mem_cons_of_mem i)

theorem scan_children {k : Kernel.State} {pid : Int} {children count : Nat} {l : List Int}
    (found : scan k pid children l = .children count) :
    count = children ∨ ∃ c ∈ l, (k.procTable c).pParent = pid := by
  induction l generalizing children with
  | nil =>
    cases found
    exact .inl rfl
  | cons i rest ih =>
    unfold scan at found
    split at found
    next parent => exact .inr ⟨i, List.mem_cons_self .., parent⟩
    next =>
      refine (ih found).imp_right ?_
      rintro ⟨c, member, parent⟩
      exact ⟨c, List.mem_cons_of_mem i member, parent⟩

theorem scan_alive {k : Kernel.State} {pid : Int} {children count : Nat} {l : List Int}
    (found : scan k pid children l = .children count) (c : Int) (member : c ∈ l)
    (parent : (k.procTable c).pParent = pid) : (k.procTable c).pFlags.hanging = false := by
  induction l generalizing children with
  | nil => cases member
  | cons i rest ih =>
    unfold scan at found
    by_cases same : c = i
    · subst same
      simp only [parent, if_true] at found
      split at found
      next => cases found
      next alive => simpa using alive
    · have inRest : c ∈ rest := (List.mem_cons.mp member).resolve_left same
      split at found
      next =>
        split at found
        next => cases found
        next => exact ih found inRest
      next => exact ih found inRest

theorem scan_childless {k : Kernel.State} {pid : Int} (l : List Int)
    (childless : ∀ i ∈ l, (k.procTable i).pParent ≠ pid) : scan k pid 0 l = .children 0 := by
  induction l with
  | nil => rfl
  | cons i rest ih =>
    unfold scan
    simp only [childless i (List.mem_cons_self ..), if_false]
    exact ih fun j member => childless j (List.mem_cons_of_mem i member)

-- `do_fork()` changes the slot of the child only.
theorem duplicate_copies {memorySize : Int} {k k' : Kernel.State} {pid childPid : Int}
    (done : duplicate memorySize k pid childPid = .ok k') :
    (∀ p, p ≠ childPid → k'.procTable p = k.procTable p) ∧
      ∃ base, k'.procTable childPid = Proc.inMemory base (Proc.child pid (k.procTable pid)) := by
  unfold duplicate at done
  obtain ⟨_, -, done⟩ := bind_ok done
  obtain ⟨childBase, -, done⟩ := bind_ok done
  cases done
  constructor
  · intro p other
    rw [State.modify_other _ _ other]
    exact State.modify_other k (fun _ => Proc.child pid (k.procTable pid)) other
  · refine ⟨childBase, ?_⟩
    have copied := State.modify_self k childPid fun _ => Proc.child pid (k.procTable pid)
    rw [State.modify_self]
    exact congrArg (Proc.inMemory childBase) copied

theorem freeSlot_found {k : Kernel.State} {child : Int} (found : freeSlot k = some child) :
    InTable child ∧ (k.procTable child).pFlags = .onlyFreeSlot := by
  constructor
  · exact (mem_slots child).mp (List.mem_of_find?_eq_some found)
  · simpa using List.find?_some found

theorem doFork_ok {machine : Machine} {s s' : State} {mmMsg answer : Message} {retval : Int}
    (done : doFork machine s mmMsg = .ok (retval, answer, s')) :
    s' = s ∨ ∃ childPid k' told told' birth,
      freeSlot s.kernel = some childPid ∧
      duplicate machine.memorySize s.kernel mmMsg.source childPid = .ok k' ∧
      { s with kernel := k' }.sendRecv machine .both taskFs told = .ok told' ∧
      told'.sendRecv machine .send childPid birth = .ok s' := by
  unfold doFork at done
  cases found : freeSlot s.kernel with
  | none =>
    simp only [found] at done
    cases done
    exact .inl rfl
  | some childPid =>
    simp only [found] at done
    obtain ⟨_, -, done⟩ := bind_ok done
    obtain ⟨k', duplicates, done⟩ := bind_ok done
    obtain ⟨told, tells, done⟩ := bind_ok done
    obtain ⟨born, births, done⟩ := bind_ok done
    cases done
    exact .inr ⟨childPid, k', _, told, _, rfl, duplicates, tells, births⟩

end Konix.Mm
