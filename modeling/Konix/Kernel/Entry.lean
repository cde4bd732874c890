import Konix.Const
import Konix.Lib.Contexts

set_option autoImplicit false

namespace Konix.Entry

open Contexts

-- The offsets in a process' stack frame.
def gsReg : Nat := 0
def fsReg : Nat := gsReg + 4
def esReg : Nat := fsReg + 4
def dsReg : Nat := esReg + 4
def ediReg : Nat := dsReg + 4
def esiReg : Nat := ediReg + 4
def ebpReg : Nat := esiReg + 4
def kernelEspReg : Nat := ebpReg + 4
def ebxReg : Nat := kernelEspReg + 4
def edxReg : Nat := ebxReg + 4
def ecxReg : Nat := edxReg + 4
def eaxReg : Nat := ecxReg + 4
def retAdr : Nat := eaxReg + 4
def eipReg : Nat := retAdr + 4
def csReg : Nat := eipReg + 4
def eflagsReg : Nat := csReg + 4
def espReg : Nat := eflagsReg + 4
def ssReg : Nat := espReg + 4
def pStackTop : Nat := ssReg + 4
def pLdtSel : Nat := pStackTop

def eoi : Nat := 0x20

structure Regs where
  gs : Nat
  fs : Nat
  es : Nat
  ds : Nat
  edi : Nat
  esi : Nat
  ebp : Nat
  ebx : Nat
  edx : Nat
  ecx : Nat
  eax : Nat
  eip : Nat
  cs : Nat
  eflags : Nat
  esp : Nat
  ss : Nat
deriving DecidableEq, Repr

-- Where code and data are. The table of processes and the kernel's stack do not overlap.
structure Layout where
  procTable : Nat
  procSize : Nat
  stackSpace : Nat
  stackTop : Nat
  kernelCs : Nat
  kernelDs : Nat
  hwint : Nat → Nat
  irqTable : Nat → Nat
  hwintBack : Nat → Nat
  sysCall : Nat
  sysCallTable : Nat → Nat
  sysCallBack : Nat
  restart : Nat
  restartReenter : Nat
  stackSize : stackTop = stackSpace + 2 * 1024
  frame : pLdtSel + 4 ≤ procSize
  apart : procTable + (nrTasks + nrProcs) * procSize ≤ stackSpace ∨ stackTop ≤ procTable
  ring0 : kernelCs % 4 = 0
  different : restart ≠ restartReenter

-- The words of memory under their addresses, and beside them the variables of the kernel that its
-- entries use, the stack pointer in the TSS, and the mask registers of both interrupt controllers.
structure Cpu where
  regs : Regs
  ldt : Nat
  mem : Nat → Nat
  kReenter : Int
  pProcReady : Nat
  sp0 : Nat
  imr : Nat → Bool

namespace Cpu

def withRegs (m : Cpu) (f : Regs → Regs) : Cpu := { m with regs := f m.regs }

def push (m : Cpu) (v : Nat) : Cpu :=
  { m with
    regs := { m.regs with esp := m.regs.esp - 4 }
    mem := Function.update m.mem (m.regs.esp - 4) v }

def pushAll (m : Cpu) (vs : List Nat) : Cpu := vs.foldl push m

def arg (m : Cpu) (n : Nat) : Nat := m.mem (m.regs.esp + 4 * n)

def drop (m : Cpu) (n : Nat) : Cpu := m.withRegs fun r => { r with esp := r.esp + 4 * n }

def setIf (m : Cpu) (on : Bool) : Cpu :=
  m.withRegs fun r => { r with
    eflags :=
      if r.eflags.testBit 9 = on then r.eflags else if on then r.eflags + 512 else r.eflags - 512 }

def jump (m : Cpu) (eip : Nat) : Cpu := m.withRegs fun r => { r with eip := eip }

def pushad (m : Cpu) : Cpu :=
  m.pushAll [m.regs.eax, m.regs.ecx, m.regs.edx, m.regs.ebx, m.regs.esp, m.regs.ebp, m.regs.esi,
    m.regs.edi]

def popad (m : Cpu) : Cpu :=
  (m.withRegs fun r => { r with
    edi := m.arg 0, esi := m.arg 1, ebp := m.arg 2, ebx := m.arg 4, edx := m.arg 5,
    ecx := m.arg 6, eax := m.arg 7 }).drop 8

def popSegs (m : Cpu) : Cpu :=
  (m.withRegs fun r => { r with gs := m.arg 0, fs := m.arg 1, es := m.arg 2, ds := m.arg 3 }).drop 4

-- What the processor does by itself: it changes to the stack of the TSS if it comes from a process.
def interrupt (L : Layout) (handler : Nat) (m : Cpu) : Cpu :=
  let r := m.regs
  let m :=
    if r.cs % 4 = 0 then m
    else (m.withRegs fun r => { r with esp := m.sp0, ss := L.kernelDs }).pushAll [r.ss, r.esp]
  let m := (m.pushAll [r.eflags, r.cs, r.eip]).setIf false
  m.withRegs fun r => { r with cs := L.kernelCs, eip := handler }

def iret (m : Cpu) : Cpu :=
  let cs := m.arg 1
  let m' := m.withRegs fun r => { r with eip := m.arg 0, cs := cs, eflags := m.arg 2 }
  if cs % 4 = 0 then m'.drop 3
  else m'.withRegs fun r => { r with esp := m.arg 3, ss := m.arg 4 }

-- The kernel has one stack; who is on it already stays where he is.
def switchStack (L : Layout) (m : Cpu) : Cpu :=
  if m.kReenter = 0 then (m.withRegs fun r => { r with esp := L.stackTop }).push L.restart
  else m.push L.restartReenter

/--
`call save` at `from_`, up to the jump back. The flags that `inc` and `cmp` set are left out, and so
is what `dx` holds in between.
-/
def save (L : Layout) (from_ : Nat) (m : Cpu) : Cpu :=
  let r := m.regs
  let m := ((m.push (from_ + 5)).pushad).pushAll [r.ds, r.es, r.fs, r.gs]
  let m := m.withRegs fun r => { r with ds := r.ss, es := r.ss, esi := r.esp }
  let m := { m with kReenter := m.kReenter + 1 }
  let m := m.switchStack L
  m.jump (m.mem (m.regs.esi + retAdr))

def restartReenter (m : Cpu) : Cpu :=
  let m := { m with kReenter := m.kReenter - 1 }
  (m.popSegs.popad.drop 1).iret

def restart (m : Cpu) : Cpu :=
  let m := m.withRegs fun r => { r with esp := m.pProcReady }
  let m := { m with ldt := m.mem (m.regs.esp + pLdtSel) % 65536 }
  let m := m.withRegs fun r => { r with eax := r.esp + pStackTop }
  let m := { m with sp0 := m.regs.eax }
  m.restartReenter

def maskByte (m : Cpu) (line : Nat) : Nat :=
  ((List.range 8).map fun i => if m.imr (line / 8 * 8 + i) then 2 ^ i else 0).sum

def setAl (m : Cpu) (al : Nat) : Cpu := m.withRegs fun r => { r with eax := r.eax / 256 * 256 + al }

def setMask (m : Cpu) (line : Nat) (masked : Bool) : Cpu :=
  { m with imr := Function.update m.imr line masked }

-- `hwint_master` and `hwint_slave` from the interrupt to the handler's first instruction.
def hwint (L : Layout) (line : Nat) (m : Cpu) : Cpu :=
  let m := (m.interrupt L (L.hwint line)).save L (L.hwint line)
  let m := ((m.setMask line true).setAl eoi).setIf true
  (m.pushAll [line, L.hwintBack line]).jump (L.irqTable line)

-- What they do when the handler has returned, `ret` included.
def hwintEnd (line : Nat) (m : Cpu) : Cpu :=
  let m := ((m.withRegs fun r => { r with ecx := m.arg 0 }).drop 1).setIf false
  let m := m.setMask line false
  let m := m.setAl (m.maskByte line)
  (m.jump (m.arg 0)).drop 1

def sysCall (L : Layout) (m : Cpu) : Cpu :=
  let m := ((m.interrupt L L.sysCall).save L L.sysCall).setIf true
  let r := m.regs
  (m.pushAll [r.esi, m.pProcReady, r.edx, r.ecx, r.ebx, L.sysCallBack]).jump (L.sysCallTable r.eax)

def sysCallEnd (m : Cpu) : Cpu :=
  let m := m.drop 4
  let m := (m.withRegs fun r => { r with esi := m.arg 0 }).drop 1
  let m := { m with mem := Function.update m.mem (m.regs.esi + eaxReg) m.regs.eax }
  let m := m.setIf false
  (m.jump (m.arg 0)).drop 1

-- `ret` has taken the address that `save` pushed.
def goOn (L : Layout) (m : Cpu) : Cpu :=
  if m.regs.eip = L.restart then m.restart
  else if m.regs.eip = L.restartReenter then m.restartReenter
  else m

end Cpu

def frameRegs (mem : Nat → Nat) (b : Nat) : Regs where
  gs := mem (b + gsReg)
  fs := mem (b + fsReg)
  es := mem (b + esReg)
  ds := mem (b + dsReg)
  edi := mem (b + ediReg)
  esi := mem (b + esiReg)
  ebp := mem (b + ebpReg)
  ebx := mem (b + ebxReg)
  edx := mem (b + edxReg)
  ecx := mem (b + ecxReg)
  eax := mem (b + eaxReg)
  eip := mem (b + eipReg)
  cs := mem (b + csReg)
  eflags := mem (b + eflagsReg)
  esp := mem (b + espReg)
  ss := mem (b + ssReg)

def handlerRegs (mem : Nat → Nat) (b ss : Nat) : Regs :=
  { frameRegs mem b with esp := b + espReg, ss := ss }

-- Memory after pushes from `e` on down.
def stored (mem : Nat → Nat) (e : Nat) : List Nat → Nat → Nat
  | [] => mem
  | v :: vs => stored (Function.update mem (e - 4) v) (e - 4) vs

section Stored

variable {mem : Nat → Nat} {e a : Nat} {vs : List Nat}

theorem stored_outside (room : 4 * vs.length ≤ e) (out : a < e - 4 * vs.length ∨ e ≤ a) :
    stored mem e vs a = mem a := by
  induction vs generalizing mem e with
  | nil => rfl
  | cons v vs ih =>
    rw [List.length_cons] at room out
    rw [stored, ih (by omega) (by omega)]
    exact Function.update_of_ne (by omega) ..

theorem stored_get (vs : List Nat) (room : 4 * vs.length ≤ e) {k : Nat} (bound : k < vs.length)
    (place : a + 4 * (k + 1) = e) : stored mem e vs a = vs.get ⟨k, bound⟩ := by
  induction vs generalizing mem e k with
  | nil => exact absurd bound (Nat.not_lt_zero k)
  | cons v vs ih =>
    rw [List.length_cons] at room bound
    rw [stored]
    cases k with
    | zero =>
      rw [stored_outside (by omega) (by omega)]
      have same : a = e - 4 := by omega
      rw [same]
      exact Function.update_self ..
    | succ k => exact ih (by omega) (by omega) (by omega)

theorem stored_append (mem : Nat → Nat) (e : Nat) (vs ws : List Nat) :
    stored (stored mem e vs) (e - 4 * vs.length) ws = stored mem e (vs ++ ws) := by
  induction vs generalizing mem e with
  | nil => rfl
  | cons v vs ih =>
    have place : e - 4 * (v :: vs).length = e - 4 - 4 * vs.length := by
      rw [List.length_cons]
      omega
    rw [place, List.cons_append, stored, stored, ih]

theorem pushAll_eq (m : Cpu) (vs : List Nat) :
    m.pushAll vs =
      { m with
        regs := { m.regs with esp := m.regs.esp - 4 * vs.length }
        mem := stored m.mem m.regs.esp vs } := by
  induction vs generalizing m with
  | nil => rfl
  | cons v vs ih =>
    have place : m.regs.esp - 4 * (v :: vs).length = m.regs.esp - 4 - 4 * vs.length := by
      rw [List.length_cons]
      omega
    rw [Cpu.pushAll, List.foldl_cons, ← Cpu.pushAll, ih, place]
    rfl

end Stored

section Entries

variable {m : Cpu} {b : Nat}

def ifOff (eflags : Nat) : Nat :=
  if eflags.testBit 9 = false then eflags else eflags - 512

theorem interrupt_process (L : Layout) (handler : Nat) (user : m.regs.cs % 4 ≠ 0)
    (sp0 : m.sp0 = b + 20) :
    m.interrupt L handler =
      { m with
        regs := { m.regs with
          esp := b, ss := L.kernelDs, cs := L.kernelCs, eip := handler
          eflags := ifOff m.regs.eflags }
        mem := stored m.mem (b + 20)
          [m.regs.ss, m.regs.esp, m.regs.eflags, m.regs.cs, m.regs.eip] } := by
  have mem := stored_append m.mem (b + 20) [m.regs.ss, m.regs.esp]
    [m.regs.eflags, m.regs.cs, m.regs.eip]
  simp only [List.cons_append, List.nil_append] at mem
  rw [Cpu.interrupt]
  simp only [if_neg user]
  rw [pushAll_eq, pushAll_eq, ← mem]
  simp only [Cpu.withRegs, Cpu.setIf, sp0, List.length_cons, List.length_nil, ifOff]
  rfl

theorem switchStack_first (L : Layout) (first : m.kReenter = 0) :
    m.switchStack L = (m.withRegs fun r => { r with esp := L.stackTop }).push L.restart :=
  if_pos first

theorem switchStack_again (L : Layout) (again : m.kReenter ≠ 0) :
    m.switchStack L = m.push L.restartReenter :=
  if_neg again

def savedWords (r : Regs) (ret kernelEsp : Nat) : List Nat :=
  [ret, r.eax, r.ecx, r.edx, r.ebx, kernelEsp, r.ebp, r.esi, r.edi, r.ds, r.es, r.fs, r.gs]

theorem save_stack (from_ : Nat) (esp : m.regs.esp = b + 52) :
    ((m.push (from_ + 5)).pushad).pushAll [m.regs.ds, m.regs.es, m.regs.fs, m.regs.gs] =
      { m with
        regs := { m.regs with esp := b }
        mem := stored m.mem (b + 52) (savedWords m.regs (from_ + 5) (b + 48)) } := by
  have mem := stored_append m.mem (b + 52) [from_ + 5] [m.regs.eax, m.regs.ecx, m.regs.edx,
    m.regs.ebx, b + 48, m.regs.ebp, m.regs.esi, m.regs.edi]
  have mem' := stored_append m.mem (b + 52) [from_ + 5, m.regs.eax, m.regs.ecx, m.regs.edx,
    m.regs.ebx, b + 48, m.regs.ebp, m.regs.esi, m.regs.edi]
    [m.regs.ds, m.regs.es, m.regs.fs, m.regs.gs]
  simp only [List.cons_append, List.nil_append] at mem mem'
  rw [savedWords, ← mem', ← mem]
  have one : m.push (from_ + 5) = m.pushAll [from_ + 5] := rfl
  rw [Cpu.pushad, one, pushAll_eq, pushAll_eq, pushAll_eq]
  simp only [esp, List.length_cons, List.length_nil]
  rfl

theorem saved_ret (mem : Nat → Nat) (r : Regs) (ret kernelEsp : Nat) :
    stored mem (b + 52) (savedWords r ret kernelEsp) (b + retAdr) = ret :=
  stored_get _ (k := 0) (by simp only [savedWords, List.length_cons, List.length_nil]; omega)
    (by simp only [savedWords, List.length_cons, List.length_nil]; omega) rfl

theorem save_first (L : Layout) (from_ : Nat) (esp : m.regs.esp = b + 52)
    (first : m.kReenter = -1) (apart : b + retAdr ≠ L.stackTop - 4) :
    m.save L from_ =
      { m with
        regs := { m.regs with
          ds := m.regs.ss, es := m.regs.ss, esi := b, esp := L.stackTop - 4, eip := from_ + 5 }
        mem := Function.update (stored m.mem (b + 52) (savedWords m.regs (from_ + 5) (b + 48)))
          (L.stackTop - 4) L.restart
        kReenter := 0 } := by
  have ret := saved_ret m.mem m.regs (from_ + 5) (b + 48) (b := b)
  have stack := save_stack from_ esp
  have ret' := Function.update_of_ne apart L.restart
    (stored m.mem (b + 52) (savedWords m.regs (from_ + 5) (b + 48)))
  rw [ret] at ret'
  rw [Cpu.save]
  simp only [stack]
  rw [switchStack_first _ (by rw [first]; rfl)]
  simp only [Cpu.withRegs, Cpu.push, Cpu.jump, ret', first]
  rfl

theorem save_again (L : Layout) (from_ : Nat) (esp : m.regs.esp = b + 52)
    (nested : m.kReenter + 1 ≠ 0) (room : 4 ≤ b) :
    m.save L from_ =
      { m with
        regs := { m.regs with
          ds := m.regs.ss, es := m.regs.ss, esi := b, esp := b - 4, eip := from_ + 5 }
        mem := stored m.mem (b + 52)
          (savedWords m.regs (from_ + 5) (b + 48) ++ [L.restartReenter])
        kReenter := m.kReenter + 1 } := by
  have stack := save_stack from_ esp
  have one : stored m.mem (b + 52) (savedWords m.regs (from_ + 5) (b + 48) ++ [L.restartReenter]) =
      Function.update (stored m.mem (b + 52) (savedWords m.regs (from_ + 5) (b + 48)))
        (b - 4) L.restartReenter := by
    rw [← stored_append]
    rfl
  have ret : stored m.mem (b + 52) (savedWords m.regs (from_ + 5) (b + 48) ++ [L.restartReenter])
      (b + retAdr) = from_ + 5 := by
    rw [one, Function.update_of_ne (by omega), saved_ret]
  rw [Cpu.save]
  rw [one] at ret ⊢
  simp only [stack]
  rw [switchStack_again _ nested]
  simp only [Cpu.withRegs, Cpu.push, Cpu.jump, ret]

def processWords (r : Regs) (ret kernelEsp : Nat) : List Nat :=
  [r.ss, r.esp, r.eflags, r.cs, r.eip] ++ savedWords r ret kernelEsp

def handlerWords (r : Regs) (ret kernelEsp : Nat) : List Nat :=
  [r.eflags, r.cs, r.eip] ++ savedWords r ret kernelEsp

theorem entered_process (L : Layout) (from_ : Nat) (user : m.regs.cs % 4 ≠ 0)
    (sp0 : m.sp0 = b + pStackTop) (first : m.kReenter = -1)
    (apart : b + retAdr ≠ L.stackTop - 4) :
    (m.interrupt L from_).save L from_ =
      { m with
        regs := { m.regs with
          es := L.kernelDs, ds := L.kernelDs, esi := b, eip := from_ + 5, cs := L.kernelCs
          eflags := ifOff m.regs.eflags, esp := L.stackTop - 4, ss := L.kernelDs }
        mem := Function.update (stored m.mem (b + 72) (processWords m.regs (from_ + 5) (b + 48)))
          (L.stackTop - 4) L.restart
        kReenter := 0 } := by
  have mem := stored_append m.mem (b + 72) [m.regs.ss, m.regs.esp, m.regs.eflags, m.regs.cs,
    m.regs.eip] (savedWords m.regs (from_ + 5) (b + 48))
  have entered := interrupt_process (b := b + 52) L from_ user sp0
  rw [save_first (b := b) L from_ (by rw [entered]) (by rw [entered]; exact first) apart, entered,
    processWords, ← mem]
  rfl

theorem interrupt_handler (L : Layout) (handler : Nat) (kernel : m.regs.cs % 4 = 0)
    (esp : m.regs.esp = b + 12) :
    m.interrupt L handler =
      { m with
        regs := { m.regs with
          esp := b, cs := L.kernelCs, eip := handler, eflags := ifOff m.regs.eflags }
        mem := stored m.mem (b + 12) [m.regs.eflags, m.regs.cs, m.regs.eip] } := by
  rw [Cpu.interrupt]
  simp only [if_pos kernel]
  rw [pushAll_eq]
  simp only [Cpu.withRegs, Cpu.setIf, esp, List.length_cons, List.length_nil, ifOff]
  rfl

theorem entered_handler (L : Layout) (from_ : Nat) (kernel : m.regs.cs % 4 = 0)
    (esp : m.regs.esp = b + espReg) (nested : m.kReenter + 1 ≠ 0) (room : 4 ≤ b) :
    (m.interrupt L from_).save L from_ =
      { m with
        regs := { m.regs with
          es := m.regs.ss, ds := m.regs.ss, esi := b, eip := from_ + 5, cs := L.kernelCs
          eflags := ifOff m.regs.eflags, esp := b - 4 }
        mem := stored m.mem (b + 64)
          (handlerWords m.regs (from_ + 5) (b + 48) ++ [L.restartReenter])
        kReenter := m.kReenter + 1 } := by
  have mem := stored_append m.mem (b + 64) [m.regs.eflags, m.regs.cs, m.regs.eip]
    (savedWords m.regs (from_ + 5) (b + 48) ++ [L.restartReenter])
  have entered := interrupt_handler (b := b + 52) L from_ kernel esp
  rw [save_again (b := b) L from_ (by rw [entered]) (by rw [entered]; exact nested) room, entered,
    handlerWords, List.append_assoc, ← mem]
  rfl

end Entries

section Frames

variable {mem : Nat → Nat} {b ret kernelEsp : Nat}

theorem handlerRegs_words (r : Regs) (ss : Nat) (ws : List Nat) (room : 4 * ws.length ≤ b) :
    handlerRegs (stored mem (b + 64) (handlerWords r ret kernelEsp ++ ws)) b ss =
      { r with esp := b + espReg, ss := ss } := by
  have word (k : Nat) (bound : k < 16) :
      stored mem (b + 64) (handlerWords r ret kernelEsp ++ ws) (b + 4 * (15 - k)) =
        (handlerWords r ret kernelEsp).get ⟨k, bound⟩ := by
    have length : (handlerWords r ret kernelEsp).length = 16 := rfl
    rw [stored_get (handlerWords r ret kernelEsp ++ ws) (k := k)
      (by rw [List.length_append, length]; omega) (by rw [List.length_append, length]; omega)
      (by omega)]
    exact List.getElem_append_left bound
  simp only [handlerRegs, frameRegs]
  rw [show b + gsReg = b + 4 * (15 - 15) from rfl, word 15 (by decide),
    show b + fsReg = b + 4 * (15 - 14) from rfl, word 14 (by decide),
    show b + esReg = b + 4 * (15 - 13) from rfl, word 13 (by decide),
    show b + dsReg = b + 4 * (15 - 12) from rfl, word 12 (by decide),
    show b + ediReg = b + 4 * (15 - 11) from rfl, word 11 (by decide),
    show b + esiReg = b + 4 * (15 - 10) from rfl, word 10 (by decide),
    show b + ebpReg = b + 4 * (15 - 9) from rfl, word 9 (by decide),
    show b + ebxReg = b + 4 * (15 - 7) from rfl, word 7 (by decide),
    show b + edxReg = b + 4 * (15 - 6) from rfl, word 6 (by decide),
    show b + ecxReg = b + 4 * (15 - 5) from rfl, word 5 (by decide),
    show b + eaxReg = b + 4 * (15 - 4) from rfl, word 4 (by decide),
    show b + eipReg = b + 4 * (15 - 2) from rfl, word 2 (by decide),
    show b + csReg = b + 4 * (15 - 1) from rfl, word 1 (by decide),
    show b + eflagsReg = b + 4 * (15 - 0) from rfl, word 0 (by decide)]
  rfl

theorem frameRegs_words (r : Regs) :
    frameRegs (stored mem (b + 72) (processWords r ret kernelEsp)) b = r := by
  have split : stored mem (b + 72) (processWords r ret kernelEsp) =
      stored (stored mem (b + 72) [r.ss, r.esp]) (b + 64) (handlerWords r ret kernelEsp ++ []) := by
    rw [List.append_nil]
    exact (stored_append mem (b + 72) [r.ss, r.esp] (handlerWords r ret kernelEsp)).symm
  have above (a : Nat) (high : b + 64 ≤ a) :
      stored (stored mem (b + 72) [r.ss, r.esp]) (b + 64) (handlerWords r ret kernelEsp ++ []) a =
        stored mem (b + 72) [r.ss, r.esp] a :=
    stored_outside (by show 4 * 16 ≤ b + 64; omega) (.inr high)
  have words : handlerRegs (stored (stored mem (b + 72) [r.ss, r.esp]) (b + 64)
      (handlerWords r ret kernelEsp ++ [])) b r.ss = { r with esp := b + espReg, ss := r.ss } :=
    handlerRegs_words r r.ss [] (Nat.zero_le _)
  have esp : stored mem (b + 72) [r.ss, r.esp] (b + espReg) = r.esp :=
    stored_get [r.ss, r.esp] (k := 1) (by show 4 * 2 ≤ b + 72; omega) Nat.one_lt_two rfl
  have ss : stored mem (b + 72) [r.ss, r.esp] (b + ssReg) = r.ss :=
    stored_get [r.ss, r.esp] (k := 0) (by show 4 * 2 ≤ b + 72; omega) Nat.two_pos rfl
  rw [← above _ (by show b + 64 ≤ b + 64; exact le_refl _)] at esp
  rw [← above _ (by show b + 64 ≤ b + 68; omega)] at ss
  rw [split]
  generalize stored (stored mem (b + 72) [r.ss, r.esp]) (b + 64)
    (handlerWords r ret kernelEsp ++ []) = mem' at words esp ss
  have frame : frameRegs mem' b =
      { handlerRegs mem' b r.ss with esp := mem' (b + espReg), ss := mem' (b + ssReg) } := rfl
  rw [frame, words, esp, ss]

theorem popped (m : Cpu) : m.popSegs.popad.drop 1 =
    { m with
      regs := { frameRegs m.mem m.regs.esp with
        esp := m.regs.esp + eipReg, eip := m.regs.eip, cs := m.regs.cs, eflags := m.regs.eflags
        ss := m.regs.ss } } :=
  rfl

theorem restartReenter_eq (m : Cpu) : m.restartReenter =
    { m with
      kReenter := m.kReenter - 1
      regs := if m.mem (m.regs.esp + csReg) % 4 = 0 then handlerRegs m.mem m.regs.esp m.regs.ss
        else frameRegs m.mem m.regs.esp } := by
  rw [Cpu.restartReenter, popped, Cpu.iret]
  by_cases kernel : m.mem (m.regs.esp + csReg) % 4 = 0
  next =>
    rw [if_pos kernel]
    exact if_pos kernel
  next =>
    rw [if_neg kernel]
    exact if_neg kernel

end Frames

end Konix.Entry
