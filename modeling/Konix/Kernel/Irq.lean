import Konix.Const
import Konix.Lib.Pic

set_option autoImplicit false

namespace Konix.Irq

open Bits Pics

def intMCtl : Nat := 0x20
def intMCtlmask : Nat := 0x21
def intSCtl : Nat := 0xA0
def intSCtlmask : Nat := 0xA1
def intVectorIrq0 : UInt8 := 0x20
def intVectorIrq8 : UInt8 := 0x28
def intVectorSysCall : Nat := 0x90
def cascadeIrq : Nat := 2
def selectorKernelCs : Nat := 0x08
def da386IGate : Nat := 0x8E
def privilegeKrnl : Nat := 0
def privilegeUser : Nat := 3

-- `out_byte()` and `in_byte()`, for the ports of the two controllers.
def outByte (p : Pair) (port : Nat) (value : UInt8) : Pair :=
  if port = intMCtl then { p with master := p.master.command value }
  else if port = intMCtlmask then { p with master := p.master.data value }
  else if port = intSCtl then { p with slave := p.slave.command value }
  else if port = intSCtlmask then { p with slave := p.slave.data value }
  else p

def inByte (p : Pair) (port : Nat) : UInt8 :=
  if port = intMCtlmask then p.master.imr else if port = intSCtlmask then p.slave.imr else 0

-- `init_8259A()`, the part that speaks to the controllers.
def init8259A (p : Pair) : Pair :=
  let p := outByte p intMCtl 0x11
  let p := outByte p intSCtl 0x11
  let p := outByte p intMCtlmask intVectorIrq0
  let p := outByte p intSCtlmask intVectorIrq8
  let p := outByte p intMCtlmask 0x4
  let p := outByte p intSCtlmask 0x2
  let p := outByte p intMCtlmask 0x1
  let p := outByte p intSCtlmask 0x1
  let p := outByte p intMCtlmask 0xFE
  outByte p intSCtlmask 0xFF

def rol (ah : UInt8) (cl : Nat) : UInt8 :=
  let n := UInt8.ofNat (cl % 8)
  if n = 0 then ah else ah <<< n ||| ah >>> (8 - n)

def maskPort (irq : Nat) : Nat := if 8 ≤ irq % 256 then intSCtlmask else intMCtlmask

def disableIrq (p : Pair) (irq : Nat) : Pair × Bool :=
  let ah := rol 1 irq
  let al := inByte p (maskPort irq)
  if al &&& ah ≠ 0 then (p, false) else (outByte p (maskPort irq) (al ||| ah), true)

def enableIrq (p : Pair) (irq : Nat) : Pair :=
  let ah := rol 0xFE irq
  let al := inByte p (maskPort irq)
  outByte p (maskPort irq) (al &&& ah)

structure Irqs (H : Type) where
  pics : Pair
  irqTable : Nat → H

def putIrqHandler {H : Type} (s : Irqs H) (irq : Nat) (handler : H) : Irqs H :=
  ⟨(disableIrq s.pics irq).1, Function.update s.irqTable irq handler⟩

inductive IrqCall (H : Type)
  | put (irq : Nat) (handler : H)
  | enable (irq : Nat)
  | disable (irq : Nat)

def IrqCall.irq {H : Type} : IrqCall H → Nat
  | .put irq _ => irq
  | .enable irq => irq
  | .disable irq => irq

def Irqs.call {H : Type} (s : Irqs H) : IrqCall H → Irqs H
  | .put irq handler => putIrqHandler s irq handler
  | .enable irq => { s with pics := enableIrq s.pics irq }
  | .disable irq => { s with pics := (disableIrq s.pics irq).1 }

def Irqs.start {H : Type} (spuriousIrq : H) (p : Pair) : Irqs H :=
  ⟨init8259A p, fun _ => spuriousIrq⟩

structure Gate where
  offsetLow : Nat
  selector : Nat
  dcount : Nat
  attr : Nat
  offsetHigh : Nat
deriving DecidableEq, Repr

inductive Routine
  | divideError | singleStepException | nmi | breakpointException | overflow | boundsCheck
  | invalOpcode | coprNotAvailable | doubleFault | coprSegOverrun | invalTss | segmentNotPresent
  | stackException | generalProtection | pageFault | coprError
  | hwint (irq : Nat)
  | sysCall
deriving DecidableEq, Repr

def initIdtDesc (idt : Nat → Gate) (vector descType handler privilege : Nat) : Nat → Gate :=
  Function.update idt vector
    { offsetLow := handler &&& 0xFFFF
      selector := selectorKernelCs
      dcount := 0
      attr := descType ||| privilege <<< 5
      offsetHigh := handler >>> 16 &&& 0xFFFF }

-- The gates that `init_prot()` makes: number, routine and privilege.
def gates : List (Nat × Routine × Nat) :=
  [(0x0, .divideError, privilegeKrnl), (0x1, .singleStepException, privilegeKrnl),
    (0x2, .nmi, privilegeKrnl), (0x3, .breakpointException, privilegeUser),
    (0x4, .overflow, privilegeUser), (0x5, .boundsCheck, privilegeKrnl),
    (0x6, .invalOpcode, privilegeKrnl), (0x7, .coprNotAvailable, privilegeKrnl),
    (0x8, .doubleFault, privilegeKrnl), (0x9, .coprSegOverrun, privilegeKrnl),
    (0xA, .invalTss, privilegeKrnl), (0xB, .segmentNotPresent, privilegeKrnl),
    (0xC, .stackException, privilegeKrnl), (0xD, .generalProtection, privilegeKrnl),
    (0xE, .pageFault, privilegeKrnl), (0x10, .coprError, privilegeKrnl),
    (0x20, .hwint 0, privilegeKrnl), (0x21, .hwint 1, privilegeKrnl),
    (0x22, .hwint 2, privilegeKrnl), (0x23, .hwint 3, privilegeKrnl),
    (0x24, .hwint 4, privilegeKrnl), (0x25, .hwint 5, privilegeKrnl),
    (0x26, .hwint 6, privilegeKrnl), (0x27, .hwint 7, privilegeKrnl),
    (0x28, .hwint 8, privilegeKrnl), (0x29, .hwint 9, privilegeKrnl),
    (0x2A, .hwint 10, privilegeKrnl), (0x2B, .hwint 11, privilegeKrnl),
    (0x2C, .hwint 12, privilegeKrnl), (0x2D, .hwint 13, privilegeKrnl),
    (0x2E, .hwint 14, privilegeKrnl), (0x2F, .hwint 15, privilegeKrnl),
    (intVectorSysCall, .sysCall, privilegeUser)]

def initIdt (addr : Routine → Nat) (idt : Nat → Gate) : Nat → Gate :=
  gates.foldl (fun idt (vector, routine, privilege) =>
    initIdtDesc idt vector da386IGate (addr routine) privilege) idt

-- What the processor finds in a gate of the right type: where it goes, and who may call it.
structure Entrance where
  selector : Nat
  offset : Nat
  privilege : Nat
deriving DecidableEq, Repr

def Gate.entrance (g : Gate) : Option Entrance :=
  if g.attr.testBit 7 ∧ g.attr % 32 = 14 then
    some ⟨g.selector, g.offsetHigh <<< 16 ||| g.offsetLow, g.attr / 32 % 4⟩
  else none

-- What drivers have asked for: a line is open if the last call about it opens it. The clock's line,
-- which no call is about, is open from the start.
def isOpen {H : Type} (calls : List (IrqCall H)) (line : Nat) : Bool :=
  match (calls.filter fun c => c.irq = line).getLast? with
  | none => line = 0
  | some (.enable _) => true
  | some _ => false

def IrqCall.given {H : Type} (line : Nat) : IrqCall H → Option H
  | .put irq handler => if irq = line then some handler else none
  | _ => none

def handlerOf {H : Type} (spuriousIrq : H) (calls : List (IrqCall H)) (line : Nat) : H :=
  ((calls.filterMap (IrqCall.given line)).getLast?).getD spuriousIrq

section Masks

variable {p : Pair} {irq line : Nat}

theorem test_bit (byte : UInt8) {k : Nat} (lower : k < 8) :
    byte &&& UInt8.ofNat (1 <<< k) = 0 ↔ byte.toNat.testBit k = false := by
  have bits (i : Nat) : (byte &&& UInt8.ofNat (1 <<< k)).toNat.testBit i =
      (byte.toNat.testBit i && decide (k = i)) := by
    rw [UInt8.toNat_and, UInt8.toNat_ofNat', Nat.one_shiftLeft, Nat.testBit_and,
      Nat.mod_eq_of_lt (Nat.pow_lt_pow_right (by omega) lower), Nat.testBit_two_pow]
  constructor
  · intro zero
    have bit := bits k
    simpa only [zero, UInt8.toNat_zero, Nat.zero_testBit, decide_true, Bool.and_true] using bit.symm
  · intro clear
    apply byte_ext
    intro i _
    rw [bits]
    by_cases here : k = i
    · rw [← here, clear, Bool.false_and, UInt8.toNat_zero, Nat.zero_testBit]
    · rw [decide_eq_false here, Bool.and_false, UInt8.toNat_zero, Nat.zero_testBit]

theorem rol_one : ∀ irq < 16, rol 1 irq = UInt8.ofNat (1 <<< (irq % 8)) := by decide

theorem rol_others : ∀ irq < 16, rol 0xFE irq = ~~~UInt8.ofNat (1 <<< (irq % 8)) := by decide

def imrOf (p : Pair) (line : Nat) : UInt8 := if line < 8 then p.master.imr else p.slave.imr

def setImr (p : Pair) (line : Nat) (imr : UInt8) : Pair :=
  if line < 8 then { p with master := { p.master with imr := imr } }
  else { p with slave := { p.slave with imr := imr } }

theorem masked_eq (p : Pair) (isLine : line < 16) :
    p.masked line = (imrOf p line).toNat.testBit (line % 8) := by
  rw [Pair.masked, imrOf]
  by_cases low : line < 8
  · rw [if_pos low, if_pos low, Nat.mod_eq_of_lt low]
  · rw [if_neg low, if_neg low, show line % 8 = line - 8 by omega]

theorem ready_setImr (ready : p.Ready intVectorIrq0 intVectorIrq8 cascadeIrq) (line : Nat)
    (imr : UInt8) : (setImr p line imr).Ready intVectorIrq0 intVectorIrq8 cascadeIrq := by
  rw [setImr]
  split
  · exact { ready with }
  · exact { ready with }

theorem in_maskPort (p : Pair) (isLine : irq < 16) : inByte p (maskPort irq) = imrOf p irq := by
  rw [maskPort, imrOf, Nat.mod_eq_of_lt (by omega)]
  by_cases low : irq < 8
  · rw [if_neg (by omega), if_pos low]
    rfl
  · rw [if_pos (by omega), if_neg low]
    rfl

theorem out_maskPort (ready : p.Ready intVectorIrq0 intVectorIrq8 cascadeIrq) (isLine : irq < 16)
    (value : UInt8) : outByte p (maskPort irq) value = setImr p irq value := by
  rw [maskPort, setImr, Nat.mod_eq_of_lt (by omega), ← Pic.data_ocw ready.master value,
    ← Pic.data_ocw ready.slave value]
  by_cases low : irq < 8
  · rw [if_neg (by omega), if_pos low]
    rfl
  · rw [if_pos (by omega), if_neg low]
    rfl

theorem masked_setImr {imr : UInt8} {value : Bool} (isIrq : irq < 16) (isLine : line < 16)
    (bits : ∀ i, i < 8 → imr.toNat.testBit i =
      if i = irq % 8 then value else (imrOf p irq).toNat.testBit i) :
    (setImr p irq imr).masked line = if line = irq then value else p.masked line := by
  rw [masked_eq _ isLine, masked_eq _ isLine]
  by_cases side : line < 8 ↔ irq < 8
  next =>
    have mask : imrOf (setImr p irq imr) line = imr := by
      rw [imrOf, setImr]
      by_cases low : irq < 8
      · rw [if_pos (side.mpr low), if_pos low]
      · rw [if_neg fun small => low (side.mp small), if_neg low]
    have same : imrOf p line = imrOf p irq := by
      rw [imrOf, imrOf]
      exact if_congr side rfl rfl
    have place : line % 8 = irq % 8 ↔ line = irq := by omega
    rw [mask, bits _ (Nat.mod_lt _ (by omega)), same]
    exact if_congr place rfl rfl
  next =>
    have mask : imrOf (setImr p irq imr) line = imrOf p line := by
      rw [imrOf, imrOf, setImr]
      by_cases low : irq < 8
      · have other : ¬ line < 8 := by omega
        rw [if_pos low, if_neg other, if_neg other]
      · have other : line < 8 := by omega
        rw [if_neg low, if_pos other, if_pos other]
    rw [mask, if_neg fun equal : line = irq => side (by rw [equal])]

end Masks

section Calls

variable {p : Pair} {irq line : Nat}

structure Disabled (p p' : Pair) (irq : Nat) : Prop where
  ready : p'.Ready intVectorIrq0 intVectorIrq8 cascadeIrq
  masked : ∀ line, line < 16 → p'.masked line = if line = irq then true else p.masked line

theorem disableIrq_spec (ready : p.Ready intVectorIrq0 intVectorIrq8 cascadeIrq)
    (isIrq : irq < 16) :
    Disabled p (disableIrq p irq).1 irq ∧ (disableIrq p irq).2 = !p.masked irq := by
  have lower : irq % 8 < 8 := Nat.mod_lt _ (by omega)
  have set : imrOf p irq ||| rol 1 irq = setBit (imrOf p irq) (irq % 8) := by
    rw [rol_one irq isIrq, setBit]
  have already : imrOf p irq &&& rol 1 irq = 0 ↔ p.masked irq = false := by
    rw [rol_one irq isIrq, test_bit _ lower, masked_eq p isIrq]
  simp only [disableIrq, in_maskPort p isIrq, out_maskPort ready isIrq, set]
  cases masked : p.masked irq
  next =>
    rw [if_neg fun bit => bit (already.mpr masked)]
    refine ⟨⟨ready_setImr ready irq _, fun line isLine => ?_⟩, rfl⟩
    apply masked_setImr isIrq isLine
    intro i _
    rw [testBit_setBit _ lower]
    by_cases here : i = irq % 8
    · rw [if_pos here, decide_eq_true here, Bool.or_true]
    · rw [if_neg here, decide_eq_false here, Bool.or_false]
  next =>
    rw [if_pos fun clear => by simp [already.mp clear] at masked]
    refine ⟨⟨ready, fun line _ => ?_⟩, rfl⟩
    by_cases here : line = irq
    · rw [if_pos here, here, masked]
    · rw [if_neg here]

theorem enableIrq_spec (ready : p.Ready intVectorIrq0 intVectorIrq8 cascadeIrq)
    (isIrq : irq < 16) :
    (enableIrq p irq).Ready intVectorIrq0 intVectorIrq8 cascadeIrq ∧
    ∀ line, line < 16 →
      (enableIrq p irq).masked line = if line = irq then false else p.masked line := by
  have lower : irq % 8 < 8 := Nat.mod_lt _ (by omega)
  have clear : imrOf p irq &&& rol 0xFE irq = clearBit (imrOf p irq) (irq % 8) := by
    rw [rol_others irq isIrq, clearBit]
  simp only [enableIrq, in_maskPort p isIrq, out_maskPort ready isIrq, clear]
  refine ⟨ready_setImr ready irq _, fun line isLine => ?_⟩
  apply masked_setImr isIrq isLine
  intro i small
  rw [testBit_clearBit _ lower small]
  by_cases here : i = irq % 8
  · rw [if_pos here, decide_eq_true here, Bool.not_true, Bool.and_false]
  · rw [if_neg here, decide_eq_false here, Bool.not_false, Bool.and_true]

end Calls

section History

variable {H : Type} {spuriousIrq : H} {calls : List (IrqCall H)} {s : Irqs H}

theorem isOpen_append (calls : List (IrqCall H)) (c : IrqCall H) (line : Nat) :
    isOpen (calls ++ [c]) line =
      if line = c.irq then (match c with | .enable _ => true | _ => false)
      else isOpen calls line := by
  rw [isOpen, List.filter_append]
  by_cases here : line = c.irq
  · rw [if_pos here, List.filter_cons_of_pos (by simpa using here.symm), List.filter_nil,
      List.getLast?_concat]
    cases c <;> rfl
  · rw [if_neg here, List.filter_cons_of_neg (by simpa using Ne.symm here), List.filter_nil,
      List.append_nil, isOpen]

theorem handlerOf_append (calls : List (IrqCall H)) (c : IrqCall H) (line : Nat) :
    handlerOf spuriousIrq (calls ++ [c]) line =
      (c.given line).getD (handlerOf spuriousIrq calls line) := by
  rw [handlerOf, List.filterMap_append]
  cases given : c.given line with
  | none =>
    rw [List.filterMap_cons_none given, List.filterMap_nil, List.append_nil]
    rfl
  | some handler =>
    rw [List.filterMap_cons_some given, List.filterMap_nil, List.getLast?_concat]
    rfl

-- The controllers and the table are as the history of calls says.
structure Follows (spuriousIrq : H) (calls : List (IrqCall H)) (s : Irqs H) : Prop where
  ready : s.pics.Ready intVectorIrq0 intVectorIrq8 cascadeIrq
  masks : ∀ line, line < 16 → s.pics.masked line = !isOpen calls line
  handlers : ∀ line, s.irqTable line = handlerOf spuriousIrq calls line

theorem follows_start (spuriousIrq : H) (p : Pair) :
    Follows spuriousIrq [] (Irqs.start spuriousIrq p) where
  ready := by
    constructor
    case place => decide
    all_goals rfl
  masks line isLine := by
    have imrs : (init8259A p).master.imr = 0xFE ∧ (init8259A p).slave.imr = 0xFF := ⟨rfl, rfl⟩
    have bits : ∀ k < 8, (0xFE : UInt8).toNat.testBit k = decide (k ≠ 0) ∧
        (0xFF : UInt8).toNat.testBit k = true := by decide
    have none_ : isOpen ([] : List (IrqCall H)) line = decide (line = 0) := rfl
    rw [none_, Irqs.start, Pair.masked, imrs.1, imrs.2]
    by_cases low : line < 8
    · rw [if_pos low, (bits line low).1, decide_not]
    · rw [if_neg low, (bits _ (by omega)).2, decide_eq_false (by omega), Bool.not_false]
  handlers _ := rfl

theorem Follows.disabled (follows : Follows spuriousIrq calls s) {c : IrqCall H} {p : Pair}
    (closes : ∀ irq, c ≠ .enable irq) (off : Disabled s.pics p c.irq) (line : Nat)
    (isLine : line < 16) : p.masked line = !isOpen (calls ++ [c]) line := by
  rw [isOpen_append, off.masked line isLine, follows.masks line isLine]
  by_cases here : line = c.irq
  · rw [if_pos here, if_pos here]
    cases c with
    | enable irq => exact (closes irq rfl).elim
    | put => rfl
    | disable => rfl
  · rw [if_neg here, if_neg here]

theorem Follows.call (follows : Follows spuriousIrq calls s) (c : IrqCall H)
    (isIrq : c.irq < 16) : Follows spuriousIrq (calls ++ [c]) (s.call c) := by
  have same (table : s.irqTable = (s.call c).irqTable) (silent : ∀ line, c.given line = none)
      (line : Nat) : (s.call c).irqTable line = handlerOf spuriousIrq (calls ++ [c]) line := by
    rw [← table, handlerOf_append, silent, follows.handlers, Option.getD_none]
  cases c with
  | put irq handler =>
    have off := (disableIrq_spec follows.ready isIrq).1
    refine ⟨off.ready, follows.disabled nofun off, fun line => ?_⟩
    rw [handlerOf_append, IrqCall.given, ← follows.handlers]
    by_cases here : irq = line
    · rw [if_pos here, ← here]
      exact Function.update_self ..
    · rw [if_neg here]
      exact Function.update_of_ne (Ne.symm here) ..
  | enable irq =>
    obtain ⟨ready, masks⟩ := enableIrq_spec follows.ready isIrq
    refine ⟨ready, fun line isLine => ?_, same rfl fun _ => rfl⟩
    rw [isOpen_append]
    refine (masks line isLine).trans ?_
    rw [follows.masks line isLine, IrqCall.irq]
    by_cases here : line = irq
    · rw [if_pos here, if_pos here, Bool.not_true]
    · rw [if_neg here, if_neg here]
  | disable irq =>
    have off := (disableIrq_spec follows.ready isIrq).1
    exact ⟨off.ready, follows.disabled nofun off, same rfl fun _ => rfl⟩

theorem follows_calls (spuriousIrq : H) (p : Pair) (calls : List (IrqCall H))
    (lines : ∀ c ∈ calls, c.irq < 16) :
    Follows spuriousIrq calls (calls.foldl Irqs.call (Irqs.start spuriousIrq p)) := by
  induction calls using List.reverseRecOn with
  | nil => exact follows_start spuriousIrq p
  | append_singleton before c ih =>
    rw [List.foldl_append]
    have earlier := ih fun c member => lines c (List.mem_append_left _ member)
    exact earlier.call c (lines c (by simp))

end History

section Gates

variable {addr : Routine → Nat}

theorem entrance_initIdtDesc (idt : Nat → Gate) (vector : Nat) {handler privilege : Nat}
    (fits : handler < 2 ^ 32) (level : privilege = privilegeKrnl ∨ privilege = privilegeUser) :
    (initIdtDesc idt vector da386IGate handler privilege vector).entrance =
      some ⟨selectorKernelCs, handler, privilege⟩ := by
  have low : handler &&& 0xFFFF = handler % 2 ^ 16 := Nat.and_two_pow_sub_one_eq_mod handler 16
  have high : handler >>> 16 &&& 0xFFFF = handler / 2 ^ 16 := by
    rw [show (0xFFFF : Nat) = 2 ^ 16 - 1 by rfl, Nat.and_two_pow_sub_one_eq_mod,
      Nat.shiftRight_eq_div_pow, Nat.mod_eq_of_lt (Nat.div_lt_of_lt_mul (by omega))]
  have offset : (handler / 2 ^ 16) <<< 16 ||| handler % 2 ^ 16 = handler := by
    rw [Nat.shiftLeft_eq, Nat.mul_comm, ← Nat.two_pow_add_eq_or_of_lt (Nat.mod_lt _ (by omega))]
    exact Nat.div_add_mod handler (2 ^ 16)
  have attr : ((da386IGate ||| privilege <<< 5).testBit 7 = true ∧
      (da386IGate ||| privilege <<< 5) % 32 = 14) ∧
      (da386IGate ||| privilege <<< 5) / 32 % 4 = privilege := by
    obtain rfl | rfl := level <;> decide
  rw [initIdtDesc, Function.update_self, Gate.entrance, if_pos attr.1, attr.2]
  simp only [low, high, offset]

theorem idt_of_gates (idt : Nat → Gate) (vector : Nat) (made : List (Nat × Routine × Nat)) :
    made.foldl (fun idt (vector, routine, privilege) =>
      initIdtDesc idt vector da386IGate (addr routine) privilege) idt vector =
    match (made.filter fun g => g.1 = vector).getLast? with
    | none => idt vector
    | some (_, routine, privilege) =>
      initIdtDesc idt vector da386IGate (addr routine) privilege vector := by
  induction made using List.reverseRecOn with
  | nil => rfl
  | append_singleton before g ih =>
    obtain ⟨at_, routine, privilege⟩ := g
    rw [List.foldl_append, List.foldl_cons, List.foldl_nil, List.filter_append]
    by_cases here : at_ = vector
    · rw [List.filter_cons_of_pos (by simpa using here), List.filter_nil, List.getLast?_concat,
        here]
      simp only [initIdtDesc, Function.update_self]
    · rw [List.filter_cons_of_neg (by simpa using here), List.filter_nil, List.append_nil, ← ih]
      exact Function.update_of_ne (Ne.symm here) ..

end Gates

/--
Whatever state the controllers are found in, and whatever the drivers have called: a line's
interrupt gets to the processor if and only if the last call about the line has enabled it, or there
is none and it is the clock's, and with one of the slave's also the last about the cascade has; it
then goes to that line's entry, in ring 0, which calls the handler that the line has been given
last.
-/
theorem interrupts_routed {H : Type} (spuriousIrq : H) (p : Pair) (idt : Nat → Gate)
    (addr : Routine → Nat) (fits : ∀ routine, addr routine < 2 ^ 32) (calls : List (IrqCall H))
    (lines : ∀ c ∈ calls, c.irq < 16) (line : Nat) (isLine : line < 16)
    (other : line ≠ cascadeIrq) :
    let s := calls.foldl Irqs.call (Irqs.start spuriousIrq p)
    s.pics.delivers line =
      (if isOpen calls line = true ∧ (8 ≤ line → isOpen calls cascadeIrq = true) then
        some (0x20 + line)
      else none) ∧
    (initIdt addr idt (0x20 + line)).entrance =
      some ⟨selectorKernelCs, addr (.hwint line), privilegeKrnl⟩ ∧
    s.irqTable line = handlerOf spuriousIrq calls line := by
  intro s
  have follows : Follows spuriousIrq calls s := follows_calls spuriousIrq p calls lines
  refine ⟨?_, ?_, follows.handlers line⟩
  · rw [follows.ready.delivers other, follows.masks line isLine,
      follows.masks cascadeIrq (by decide)]
    simp only [Bool.not_eq_false']
    have vector : (if line < 8 then intVectorIrq0.toNat + line
        else intVectorIrq8.toNat + (line - 8)) = 0x20 + line := by
      have bases : intVectorIrq0.toNat = 0x20 ∧ intVectorIrq8.toNat = 0x28 := by decide
      rw [bases.1, bases.2]
      split <;> omega
    rw [vector]
  · have made : ∀ line < 16, (gates.filter fun g => g.1 = 0x20 + line).getLast? =
        some (0x20 + line, .hwint line, privilegeKrnl) := by decide
    rw [initIdt, idt_of_gates, made line isLine]
    exact entrance_initIdtDesc _ _ (fits _) (.inl rfl)

-- The disk's driver: the line is given its handler, then the cascade and the line are enabled.
theorem interrupts_routed_hd :
    (initIdt (fun _ => 0x30400) (fun _ => ⟨0, 0, 0, 0, 0⟩) 0x2E).entrance =
      some ⟨8, 0x30400, 0⟩ ∧
    ([IrqCall.put 14 1, .enable 2, .enable 14].foldl Irqs.call (Irqs.start 0
      ⟨⟨.ocw, true, true, 8, 0, 0⟩, ⟨.icw3, true, true, 0x70, 0, 0⟩⟩)).pics.delivers 14 =
        some 0x2E := by
  obtain ⟨delivered, gate, -⟩ :=
    interrupts_routed 0 ⟨⟨.ocw, true, true, 8, 0, 0⟩, ⟨.icw3, true, true, 0x70, 0, 0⟩⟩
      (fun _ => ⟨0, 0, 0, 0, 0⟩) (fun _ => 0x30400) (fun _ => by decide)
      [.put 14 1, .enable 2, .enable 14] (by decide) 14 (by decide) (by decide)
  exact ⟨gate, delivered⟩

end Konix.Irq
