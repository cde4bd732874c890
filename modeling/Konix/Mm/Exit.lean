import Konix.Mm.Waiting
import Konix.Mm.Indexing

set_option autoImplicit false

namespace Konix.Mm

open Kernel Runs

-- `cleanup()` sends a message to the parent.
def cleanupUses (s : State) (proc : Int) : List Int := [(s.kernel.procTable proc).pParent]

def leaveUses (s : State) (pid parentPid : Int) : List Int :=
  parentPid :: pid ::
    if (s.kernel.procTable parentPid).pFlags.waiting then
      cleanupUses (s.modify parentPid Proc.stopsWaiting) pid
    else []

def adoptUses (pid : Int) (s : State) (i : Int) : List Int :=
  i ::
    if (s.kernel.procTable i).pParent = pid then
      let s := s.modify i Proc.adopted
      initPid ::
        if (s.kernel.procTable initPid).pFlags.waiting ∧ (s.kernel.procTable i).pFlags.hanging then
          cleanupUses (s.modify initPid Proc.stopsWaiting) i
        else []
    else []

def adoptAllUses (machine : Machine) (pid : Int) : List Int → State → List Int
  | [], _ => []
  | i :: rest, s =>
    adoptUses pid s i ++
      match adopt machine pid s i with
      | .error _ => []
      | .ok s => adoptAllUses machine pid rest s

/--
The indices into `proc_table[]` that `do_exit()` and `cleanup()` use and the processes they send a
message to, up to the end or to where the kernel stops.
-/
def exitUses (machine : Machine) (s : State) (mmMsg : Message) (status : Int) : List Int :=
  let pid := mmMsg.source
  let parentPid := (s.kernel.procTable pid).pParent
  pid :: taskFs ::
    match s.sendRecv machine .both taskFs { machine.stack with type := .exit, m3i2 := pid } with
    | .error _ => []
    | .ok s =>
      let s := s.modify pid (Proc.exits status)
      leaveUses s pid parentPid ++
        match leave machine s pid parentPid with
        | .error _ => []
        | .ok s => adoptAllUses machine pid slots s

-- The tasks and the native processes have no parent; every other slot names one in the table.
def Parented (k : Kernel.State) : Prop :=
  ∀ p, InTable p →
    if p < nrTasks + nrNativeProcs then (k.procTable p).pParent = noTask
    else InTable (k.procTable p).pParent

namespace Parented

variable {k k' : Kernel.State} {machine : Machine} {s s' : State} {pid i : Int}

theorem native (parented : Parented k) (inTable : InTable i)
    (isNative : i < nrTasks + nrNativeProcs) :
    (k.procTable i).pParent = noTask := by
  have here := parented i inTable
  rwa [if_pos isNative] at here

theorem forked (parented : Parented k) (inTable : InTable i)
    (isForked : nrTasks + nrNativeProcs ≤ i) : InTable (k.procTable i).pParent := by
  have here := parented i inTable
  rwa [if_neg (not_lt.mpr isForked)] at here

-- Only a forked process has a parent in the table.
theorem forked_of_parent (parented : Parented k) (inTable : InTable i)
    (parent : InTable (k.procTable i).pParent) : nrTasks + nrNativeProcs ≤ i := by
  by_contra isNative
  rw [parented.native inTable (not_le.mp isNative)] at parent
  exact absurd parent (by decide)

theorem same (parented : Parented k)
    (parents : ∀ p, (k'.procTable p).pParent = (k.procTable p).pParent) : Parented k' := by
  intro p inTable
  rw [parents p]
  exact parented p inTable

theorem keeps (parented : Parented k) (keeps : Keeps k k') : Parented k' :=
  parented.same keeps.pParent

theorem modify (parented : Parented k) (i : Int) {f : Proc → Proc}
    (same : ∀ proc, (f proc).pParent = proc.pParent) : Parented (k.modify i f) :=
  parented.same fun p => modify_pParent k i p f same

theorem adopted (parented : Parented k) (child : InTable (k.procTable i).pParent) :
    Parented (k.modify i Proc.adopted) := by
  intro p inTable
  rw [State.modify_apply]
  by_cases same : p = i
  next =>
    subst same
    rw [if_pos rfl, if_neg (not_lt.mpr (parented.forked_of_parent inTable child))]
    exact show InTable initPid by decide
  next =>
    rw [if_neg same]
    exact parented p inTable

theorem sendRecv (parented : Parented s.kernel) {function : Function} {dest : Int} {m : Message}
    (done : s.sendRecv machine function dest m = .ok s') : Parented s'.kernel :=
  parented.keeps (sendRecv_ok done).1

theorem cleanup (parented : Parented s.kernel) (done : cleanup machine s i = .ok s') :
    Parented s'.kernel := by
  unfold Mm.cleanup at done
  obtain ⟨told, tells, done⟩ := bind_ok done
  cases done
  exact (parented.sendRecv tells).modify i fun _ => rfl

theorem leave (parented : Parented s.kernel) {parentPid : Int}
    (done : leave machine s pid parentPid = .ok s') : Parented s'.kernel := by
  unfold Mm.leave at done
  split at done
  · have stopped : Parented (s.modify parentPid Proc.stopsWaiting).kernel :=
      parented.modify parentPid fun _ => rfl
    exact stopped.cleanup done
  · cases done
    exact parented.modify pid fun _ => rfl

theorem adopt (parented : Parented s.kernel) (pidIn : InTable pid)
    (done : adopt machine pid s i = .ok s') : Parented s'.kernel := by
  unfold Mm.adopt at done
  split at done
  next child =>
    have moved : Parented (s.modify i Proc.adopted).kernel := parented.adopted (child ▸ pidIn)
    simp only at done
    split at done
    · have stopped : Parented ((s.modify i Proc.adopted).modify initPid Proc.stopsWaiting).kernel :=
        moved.modify initPid fun _ => rfl
      exact stopped.cleanup done
    · cases done
      exact moved
  next =>
    cases done
    exact parented

theorem adoptAll (parented : Parented s.kernel) (pidIn : InTable pid) (l : List Int)
    (done : l.foldlM (Mm.adopt machine pid) s = .ok s') : Parented s'.kernel := by
  induction l generalizing s with
  | nil =>
    cases done
    exact parented
  | cons i rest ih =>
    rw [List.foldlM_cons] at done
    obtain ⟨next, first, done⟩ := bind_ok done
    exact ih (parented.adopt pidIn first) done

theorem doExit (parented : Parented s.kernel) {mmMsg : Message} (source : InTable mmMsg.source)
    {status : Int} (done : doExit machine s mmMsg status = .ok s') : Parented s'.kernel := by
  unfold Mm.doExit at done
  obtain ⟨told, tells, done⟩ := bind_ok done
  obtain ⟨left, leaves, done⟩ := bind_ok done
  have marked : Parented (told.modify mmMsg.source (Proc.exits status)).kernel :=
    (parented.sendRecv tells).modify _ fun _ => rfl
  exact (marked.leave leaves).adoptAll source slots done

theorem doFork (parented : Parented s.kernel) {mmMsg answer : Message}
    (source : InTable mmMsg.source) {retval : Int}
    (done : doFork machine s mmMsg = .ok (retval, answer, s')) : Parented s'.kernel := by
  obtain rfl | ⟨childPid, k', _, told, _, -, duplicates, tells, births⟩ := doFork_ok done
  · exact parented
  · have copied : Parented k' := by
      obtain ⟨others, base, child⟩ := duplicate_copies duplicates
      intro p inTable
      by_cases isChild : p = childPid
      next =>
        subst isChild
        rw [child, if_neg (not_lt.mpr (duplicate_forked duplicates))]
        exact source
      next =>
        rw [others p isChild]
        exact parented p inTable
    exact ((copied.sendRecv (s := ⟨k', s.sent⟩) tells).sendRecv births)

theorem doWait (parented : Parented s.kernel) {mmMsg : Message}
    (done : doWait machine s mmMsg = .ok s') : Parented s'.kernel := by
  unfold Mm.doWait at done
  simp only at done
  cases found : scan s.kernel mmMsg.source 0 slots with
  | hanging c =>
    rw [found] at done
    exact parented.cleanup done
  | children count =>
    rw [found] at done
    cases count with
    | zero => exact parented.sendRecv done
    | succ count =>
      cases done
      exact parented.modify mmMsg.source fun _ => rfl

theorem serve (parented : Parented s.kernel) {mmMsg : Message} (source : InTable mmMsg.source)
    (done : taskMmLoop machine s mmMsg = .ok s') : Parented s'.kernel := by
  unfold taskMmLoop at done
  split at done
  · obtain ⟨⟨retval, answer, forked⟩, forks, done⟩ := bind_ok done
    exact (parented.doFork source forks).sendRecv done
  · exact parented.doExit source done
  · exact parented.doWait done
  · cases done

theorem kernelMain (kBase kLimit : Nat) (mem : Nat → Message) :
    Parented (Kernel.kernelMain kBase kLimit mem) := by
  intro p inTable
  by_cases isNative : p < nrTasks + nrNativeProcs
  next =>
    have here : (Kernel.kernelMain kBase kLimit mem).procTable p = nativeProc kBase kLimit p :=
      if_pos isNative
    rw [if_pos isNative, here]
    rfl
  next =>
    have here : (Kernel.kernelMain kBase kLimit mem).procTable p =
        { zeroProc with pFlags := .onlyFreeSlot } := if_neg isNative
    rw [if_neg isNative, here]
    exact show InTable 0 by decide

theorem leaveUses (parented : Parented s.kernel) (pidIn : InTable pid)
    (parent : InTable (s.kernel.procTable pid).pParent) :
    ∀ i ∈ leaveUses s pid (s.kernel.procTable pid).pParent, InTable i := by
  rw [Mm.leaveUses, List.forall_mem_cons, List.forall_mem_cons]
  refine ⟨parent, pidIn, ?_⟩
  split_ifs
  · refine List.forall_mem_singleton.mpr ?_
    have stopped : Parented (s.modify (s.kernel.procTable pid).pParent Proc.stopsWaiting).kernel :=
      parented.modify _ fun _ => rfl
    exact stopped.forked pidIn (parented.forked_of_parent pidIn parent)
  · exact List.forall_mem_nil _

theorem adoptUses (parented : Parented s.kernel) (pidIn : InTable pid) (slot : InTable i) :
    ∀ j ∈ adoptUses pid s i, InTable j := by
  rw [Mm.adoptUses, List.forall_mem_cons]
  refine ⟨slot, ?_⟩
  by_cases child : (s.kernel.procTable i).pParent = pid
  next =>
    have childIn : InTable (s.kernel.procTable i).pParent := child ▸ pidIn
    have moved : Parented (s.modify i Proc.adopted).kernel := parented.adopted childIn
    rw [if_pos child, List.forall_mem_cons]
    refine ⟨show InTable initPid by decide, ?_⟩
    split_ifs
    · refine List.forall_mem_singleton.mpr ?_
      have stopped : Parented ((s.modify i Proc.adopted).modify initPid Proc.stopsWaiting).kernel :=
        moved.modify initPid fun _ => rfl
      exact stopped.forked slot (parented.forked_of_parent slot childIn)
    · exact List.forall_mem_nil _
  next =>
    rw [if_neg child]
    exact List.forall_mem_nil _

theorem adoptAllUses (parented : Parented s.kernel) (pidIn : InTable pid) {l : List Int}
    (inside : ∀ i ∈ l, InTable i) : ∀ j ∈ adoptAllUses machine pid l s, InTable j := by
  induction l generalizing s with
  | nil => exact List.forall_mem_nil _
  | cons i rest ih =>
    rw [List.forall_mem_cons] at inside
    rw [Mm.adoptAllUses, List.forall_mem_append]
    refine ⟨parented.adoptUses pidIn inside.1, ?_⟩
    cases adopts : Mm.adopt machine pid s i with
    | error halted => exact List.forall_mem_nil _
    | ok s' => exact ih (parented.adopt pidIn adopts) inside.2

theorem exitUses (parented : Parented s.kernel) {mmMsg : Message} (source : InTable mmMsg.source)
    (isForked : nrTasks + nrNativeProcs ≤ mmMsg.source) (status : Int) :
    ∀ i ∈ exitUses machine s mmMsg status, InTable i := by
  rw [Mm.exitUses, List.forall_mem_cons, List.forall_mem_cons]
  refine ⟨source, show InTable taskFs by decide, ?_⟩
  cases tells : s.sendRecv machine .both taskFs
      { machine.stack with type := .exit, m3i2 := mmMsg.source } with
  | error halted => exact List.forall_mem_nil _
  | ok told =>
    have marked : Parented (told.modify mmMsg.source (Proc.exits status)).kernel :=
      (parented.sendRecv tells).modify _ fun _ => rfl
    have parent : ((told.modify mmMsg.source (Proc.exits status)).kernel.procTable
        mmMsg.source).pParent = (s.kernel.procTable mmMsg.source).pParent := by
      rw [← (sendRecv_ok tells).1.pParent]
      exact modify_pParent _ _ _ (Proc.exits status) fun _ => rfl
    have uses := marked.leaveUses source (marked.forked source isForked)
    rw [parent] at uses
    rw [List.forall_mem_append]
    refine ⟨uses, ?_⟩
    cases leaves : Mm.leave machine (told.modify mmMsg.source (Proc.exits status)) mmMsg.source
        (s.kernel.procTable mmMsg.source).pParent with
    | error halted => exact List.forall_mem_nil _
    | ok left => exact (marked.leave leaves).adoptAllUses source fun i => (mem_slots i).mp

end Parented

theorem exitUses_parent {machine : Machine} {s told : State} {mmMsg : Message} (status : Int)
    (tells : s.sendRecv machine .both taskFs
      { machine.stack with type := .exit, m3i2 := mmMsg.source } = .ok told) :
    (s.kernel.procTable mmMsg.source).pParent ∈ exitUses machine s mmMsg status := by
  simp only [exitUses, tells, leaveUses]
  simp

structure Requests (s : System) : Prop where
  parented : Parented s.mm.kernel
  asking : ∀ p m, s.asked p = some m → m.source = p ∧ InTable p

theorem Requests.step {s s' : System} (h : Requests s) {event : Event} (step : Step s event s') :
    Requests s' := by
  cases step with
  | ask p m inTable notMm runs quiet request source =>
    refine ⟨h.parented, fun q m' asks => ?_⟩
    by_cases same : q = p
    · subst same
      simp only [Function.update_self, Option.some.injEq] at asks
      subst asks
      exact ⟨source, inTable⟩
    · simp only [Function.update_of_ne same] at asks
      exact h.asking q m' asks
  | serve machine p m asks serves =>
    obtain ⟨source, inTable⟩ := h.asking p m asks
    refine ⟨h.parented.serve (source.symm ▸ inTable) serves, fun q m' asks' => ?_⟩
    by_cases same : q = p
    · subst same
      simp at asks'
    · simp only [Function.update_of_ne same] at asks'
      exact h.asking q m' asks'
  | others keeps => exact ⟨h.parented.keeps keeps, h.asking⟩

theorem run_requests (run : Run BootsMm Step) : ∀ t, t ≤ run.length → Requests (run.state t) := by
  refine run.invariant ?_ fun _ _ _ h step => h.step step
  rintro s ⟨⟨kBase, kLimit, mem, boot⟩, -, quiet⟩
  refine ⟨?_, fun p m asks => ?_⟩
  · rw [boot]
    exact Parented.kernelMain kBase kLimit mem
  · rw [quiet p] at asks
    cases asks

-- A machine on which every call of MM returns at once.
def promptMachine : Machine where
  memorySize := 0x2000000
  stack := resetMsg
  sendRecv := fun _ _ _ k => .ok k
  keeps := by
    rintro function dest m k k' ⟨⟩
    exact Keeps.refl k

/--
Whatever MM runs on, the exit of a process stays in the process table if and only if the process has
been forked.
-/
theorem exit_inside_iff (run : Run BootsMm Step) {t : Nat} (within : t ≤ run.length) {pid : Int}
    {mmMsg : Message} (asks : (run.state t).asked pid = some mmMsg) :
    (∀ machine, ∀ i ∈ exitUses machine (run.state t).mm mmMsg mmMsg.status, InTable i) ↔
      nrTasks + nrNativeProcs ≤ pid := by
  have h := run_requests run t within
  obtain ⟨source, inTable⟩ := h.asking pid mmMsg asks
  subst source
  constructor
  · intro inside
    refine h.parented.forked_of_parent inTable (inside promptMachine _ ?_)
    exact exitUses_parent _ rfl
  · exact fun isForked machine => h.parented.exitUses inTable isForked _

-- INIT's child exits.
theorem exit_inside_family : (family 3).asked 9 = some (request 9 .exit) ∧
    ∀ machine, ∀ i ∈ exitUses machine (family 3).mm (request 9 .exit) (request 9 .exit).status,
      InTable i := by
  have states : (familyRun 3 (by decide)).state = family := rfl
  have inside := @exit_inside_iff (familyRun 3 (by decide)) 3 (le_refl 3) 9 (request 9 .exit)
  rw [states] at inside
  exact ⟨rfl, (inside rfl).mpr (by decide)⟩

-- TestA, which has no parent, asks for its exit.
def nativeExit : Run BootsMm Step where
  length := 1
  state := fun t => if t = 0 then bootSystem else perform bootSystem (.ask 6 (request 6 .exit))
  act := fun _ => .ask 6 (request 6 .exit)
  start := ⟨⟨0, 0, _, rfl⟩, rfl, fun _ => rfl⟩
  steps := by
    intro t within
    have first : t = 0 := Nat.lt_one_iff.mp within
    subst first
    exact .ask 6 (request 6 .exit) (by decide) (by decide) (by decide) rfl (.inr (.inl rfl)) rfl

theorem exit_leaves_table : (nativeExit.state 1).asked 6 = some (request 6 .exit) ∧
    noTask ∈ exitUses promptMachine (nativeExit.state 1).mm (request 6 .exit) 0 ∧
    ¬ InTable noTask :=
  ⟨rfl, exitUses_parent 0 rfl, by decide⟩

end Konix.Mm
