import Konix.Const
import Konix.Lib.Chain

set_option autoImplicit false

namespace Konix.Kernel

structure Descriptor where
  limitLow : Nat
  baseLow : Nat
  baseMid : Nat
  attr1 : Nat
  limitHighAttr2 : Nat
  baseHigh : Nat
deriving DecidableEq, Repr

def initDescriptor (base limit attr : Nat) : Descriptor where
  limitLow := limit &&& 0xFFFF
  baseLow := base &&& 0xFFFF
  baseMid := base >>> 16 &&& 0xFF
  attr1 := attr &&& 0xFF
  limitHighAttr2 := limit >>> 16 &&& 0x0F ||| (attr >>> 8 &&& 0xF0)
  baseHigh := base >>> 24 &&& 0xFF

structure PFlags where
  sending : Bool
  receiving : Bool
  waiting : Bool
  hanging : Bool
  freeSlot : Bool
deriving DecidableEq, Repr

namespace PFlags

def clear : PFlags := ⟨false, false, false, false, false⟩
def onlySending : PFlags := { clear with sending := true }
def onlyReceiving : PFlags := { clear with receiving := true }
def onlyFreeSlot : PFlags := { clear with freeSlot := true }

end PFlags

-- The fields of `struct proc` that message passing, MM and the memory functions work on.
structure Proc where
  ldtC : Descriptor
  ldtRw : Descriptor
  pFlags : PFlags
  pMsg : Nat
  pRecvfrom : Int
  pSendto : Int
  hasIntMsg : Bool
  qSending : Option Int
  nextSending : Option Int
  pParent : Int
  exitStatus : Int
deriving DecidableEq, Repr

-- `proc_table[]` and the messages in memory, each under its linear address.
structure State where
  procTable : Int → Proc
  mem : Nat → Message

inductive Halt
  | assertion
  | deadlock
  | panic
  | hang
deriving DecidableEq, Repr

-- Why the kernel stopped, and what it had done by then.
structure Halted where
  why : Halt
  state : State

def InTable (p : Int) : Prop := 0 ≤ p ∧ p < nrTasks + nrProcs

instance (p : Int) : Decidable (InTable p) := by unfold InTable; infer_instance

namespace State

def assertThat (k : State) (holds : Bool) : Except Halted Unit :=
  if holds then .ok () else .error ⟨.assertion, k⟩

def modify (k : State) (p : Int) (f : Proc → Proc) : State :=
  { k with procTable := Function.update k.procTable p (f (k.procTable p)) }

def next (k : State) (p : Int) : Option Int := (k.procTable p).nextSending

def head (k : State) (p : Int) : Option Int := (k.procTable p).qSending

def setNext (k : State) (p : Int) (link : Option Int) : State :=
  k.modify p fun proc => { proc with nextSending := link }

def setHead (k : State) (p : Int) (link : Option Int) : State :=
  k.modify p fun proc => { proc with qSending := link }

@[simp] theorem assertThat_true (k : State) : k.assertThat true = .ok () := rfl

theorem assertThat_of {k : State} {holds : Prop} [Decidable holds] (h : holds) :
    k.assertThat (decide holds) = .ok () := by
  simp only [h, decide_true, assertThat_true]

@[simp] theorem modify_mem (k : State) (p : Int) (f : Proc → Proc) : (k.modify p f).mem = k.mem :=
  rfl

@[simp] theorem modify_self (k : State) (p : Int) (f : Proc → Proc) :
    (k.modify p f).procTable p = f (k.procTable p) :=
  Function.update_self _ _ _

@[simp] theorem modify_other (k : State) {p q : Int} (f : Proc → Proc) (other : q ≠ p) :
    (k.modify p f).procTable q = k.procTable q :=
  Function.update_of_ne other _ _

theorem modify_field {α : Type} (field : Proc → α) (k : State) (p q : Int) {f : Proc → Proc}
    (same : ∀ proc, field (f proc) = field proc) :
    field ((k.modify p f).procTable q) = field (k.procTable q) := by
  by_cases isSelf : q = p
  · subst isSelf
    rw [modify_self]
    exact same _
  · rw [modify_other _ _ isSelf]

theorem modify_apply (k : State) (p q : Int) (f : Proc → Proc) :
    (k.modify p f).procTable q = if q = p then f (k.procTable p) else k.procTable q := by
  by_cases same : q = p
  · subst same
    simp
  · simp [same]

@[simp] theorem setNext_next (k : State) (p : Int) (link : Option Int) :
    (k.setNext p link).next = Function.update k.next p link := by
  funext q
  by_cases same : q = p
  · subst same
    simp [next, setNext]
  · simp [next, setNext, same]

@[simp] theorem setNext_head (k : State) (p : Int) (link : Option Int) :
    (k.setNext p link).head = k.head := by
  funext q
  by_cases same : q = p
  · subst same
    simp [head, setNext]
  · simp [head, setNext, same]

@[simp] theorem setHead_head (k : State) (p : Int) (link : Option Int) :
    (k.setHead p link).head = Function.update k.head p link := by
  funext q
  by_cases same : q = p
  · subst same
    simp [head, setHead]
  · simp [head, setHead, same]

@[simp] theorem setHead_next (k : State) (p : Int) (link : Option Int) :
    (k.setHead p link).next = k.next := by
  funext q
  by_cases same : q = p
  · subst same
    simp [next, setHead]
  · simp [next, setHead, same]

end State

-- A process without the links of the sending queues.
def Proc.core (p : Proc) : Proc := { p with qSending := none, nextSending := none }

namespace State

@[simp] theorem setNext_core (k : State) (p q : Int) (link : Option Int) :
    ((k.setNext p link).procTable q).core = (k.procTable q).core := by
  by_cases same : q = p
  · subst same
    simp [setNext, Proc.core]
  · simp [setNext, same]

@[simp] theorem setHead_core (k : State) (p q : Int) (link : Option Int) :
    ((k.setHead p link).procTable q).core = (k.procTable q).core := by
  by_cases same : q = p
  · subst same
    simp [setHead, Proc.core]
  · simp [setHead, same]

end State

def ldtSegLinear (d : Descriptor) : Nat := d.baseHigh <<< 24 ||| d.baseMid <<< 16 ||| d.baseLow

def va2la (k : State) (pid : Int) (va : Nat) : Except Halted Nat := do
  let la := (ldtSegLinear (k.procTable pid).ldtRw + va) % 4294967296
  if pid < nrTasks + nrNativeProcs then k.assertThat (la = va)
  return la

-- The kernel's flat segments, as the loader leaves them in the GDT.
def daCR : Nat := 0x9A
def daC : Nat := 0x98
def daDRW : Nat := 0x92
def da32 : Nat := 0x4000
def daLimit4K : Nat := 0x8000
def limit4KShift : Nat := 12
def privilegeTask : Nat := 1
def privilegeUser : Nat := 3

def kernelCs : Descriptor := initDescriptor 0 0xFFFFF (daCR ||| da32 ||| daLimit4K)
def kernelDs : Descriptor := initDescriptor 0 0xFFFFF (daDRW ||| da32 ||| daLimit4K)

-- A slot of the table after the `memset()` of `init_prot()`.
def zeroProc : Proc where
  ldtC := ⟨0, 0, 0, 0, 0, 0⟩
  ldtRw := ⟨0, 0, 0, 0, 0, 0⟩
  pFlags := .clear
  pMsg := 0
  pRecvfrom := 0
  pSendto := 0
  hasIntMsg := false
  qSending := none
  nextSending := none
  pParent := 0
  exitStatus := 0

-- Task or native process `i` as `kernel_main()` sets it up.
def nativeProc (kBase kLimit : Nat) (i : Int) : Proc :=
  let priv := if i < nrTasks then privilegeTask else privilegeUser
  let limit := (kBase + kLimit) >>> limit4KShift
  { zeroProc with
    ldtC := if i ≠ initPid then { kernelCs with attr1 := daC ||| priv <<< 5 }
      else initDescriptor 0 limit (da32 ||| daLimit4K ||| daC ||| priv <<< 5)
    ldtRw := if i ≠ initPid then { kernelDs with attr1 := daDRW ||| priv <<< 5 }
      else initDescriptor 0 limit (da32 ||| daLimit4K ||| daDRW ||| priv <<< 5)
    pParent := noTask
    pFlags := .clear
    pMsg := 0
    pRecvfrom := noTask
    pSendto := noTask
    hasIntMsg := false
    qSending := none
    nextSending := none }

/--
The table `kernel_main()` builds, for the extent of the kernel that `get_kernel_map()` found.
Memory is arbitrary.
-/
def kernelMain (kBase kLimit : Nat) (mem : Nat → Message) : State where
  procTable := fun i =>
    if i < nrTasks + nrNativeProcs then nativeProc kBase kLimit i
    else { zeroProc with pFlags := .onlyFreeSlot }
  mem := mem

theorem ldtSegLinear_init (limit attr : Nat) :
    ldtSegLinear (initDescriptor 0 limit attr) = 0 := by
  simp [ldtSegLinear, initDescriptor]

theorem nativeProc_segment (kBase kLimit : Nat) (i : Int) :
    ldtSegLinear (nativeProc kBase kLimit i).ldtRw = 0 := by
  unfold nativeProc
  by_cases isInit : i = initPid
  · simp only [isInit, ne_eq, not_true_eq_false, if_false]
    exact ldtSegLinear_init _ _
  · have flat : ldtSegLinear kernelDs = 0 := ldtSegLinear_init _ _
    simp only [isInit, ne_eq, not_false_eq_true, if_true]
    exact flat

end Konix.Kernel
