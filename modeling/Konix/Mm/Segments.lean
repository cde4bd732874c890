import Konix.Lib.Splice
import Konix.Mm.Queues

set_option autoImplicit false

namespace Konix.Mm

open Kernel Runs

def segLimit (d : Descriptor) : Nat := (d.limitHighAttr2 &&& 0xF) <<< 16 + d.limitLow

def granularity (d : Descriptor) : Nat :=
  if d.limitHighAttr2 &&& daLimit4K >>> 8 ≠ 0 then 4096 else 1

def segBytes (d : Descriptor) : Nat := (segLimit d + 1) * granularity d

def slotBase (pid : Int) : Int :=
  procsBase + (pid - (nrTasks + nrNativeProcs)) * procImageSizeDefault

def memcpy (memory : Nat → UInt8) (dst src : Nat) : Nat → Nat → UInt8
  | 0 => memory
  | size + 1 => memcpy (Function.update memory dst (memory src)) ((dst + 1) % 4294967296)
      ((src + 1) % 4294967296) size

def callerTBase (k : Kernel.State) (pid : Int) : Int := segBase (k.procTable pid).ldtC

def callerTSize (k : Kernel.State) (pid : Int) : Int :=
  segSize (k.procTable pid).ldtC (reassembly 0 0 ((k.procTable pid).ldtC.limitHighAttr2 &&& 0xF) 16
    (k.procTable pid).ldtC.limitLow)

-- `do_fork()` up to the segments of the child, with the bytes that `phys_copy()` writes.
def forkCopies (memorySize : Int) (k : Kernel.State) (memory : Nat → UInt8) (pid childPid : Int) :
    Except Halted (Kernel.State × (Nat → UInt8)) := do
  let k' ← duplicate memorySize k pid childPid
  let childBase ← allocMem memorySize k childPid (callerTSize k pid)
  return (k', memcpy memory (u32 childBase) (u32 (callerTBase k pid)) (u32 (callerTSize k pid)))

/--
If `do_fork()` finds a slot and does not stop, then it has computed the size of the caller's
segment, and the memory of the child equals that of the caller.
-/
def Duplicated (memorySize : Int) (k : Kernel.State) (memory : Nat → UInt8) (pid : Int) : Prop :=
  ∀ childPid k' memory', freeSlot k = some childPid →
    forkCopies memorySize k memory pid childPid = .ok (k', memory') →
    callerTSize k pid = segBytes (k.procTable pid).ldtC ∧
      ∀ offset, offset < segBytes (k.procTable pid).ldtC →
        memory' (ldtSegLinear (k'.procTable childPid).ldtRw + offset) =
          memory' (ldtSegLinear (k.procTable pid).ldtRw + offset)

/--
The caller's segment has less than 2 GB, or `do_fork()` stops: there is no slot, or the sum of the
slot's base and the size, less 4 GB, reaches the end of memory.
-/
def Whole (memorySize : Int) (k : Kernel.State) (pid : Int) : Prop :=
  segBytes (k.procTable pid).ldtC < 2147483648 ∨
    ∀ childPid, freeSlot k = some childPid → childPid < nrTasks + nrNativeProcs ∨
      memorySize ≤ slotBase childPid + segBytes (k.procTable pid).ldtC - 4294967296

structure Segmented (kBase kLimit : Nat) (k : Kernel.State) : Prop where
  native : ∀ p : Int, p < nrTasks + nrNativeProcs →
    (k.procTable p).ldtC = (nativeProc kBase kLimit p).ldtC ∧
      (k.procTable p).ldtRw = (nativeProc kBase kLimit p).ldtRw
  forked : ∀ p : Int, InTable p → nrTasks + nrNativeProcs ≤ p →
    (k.procTable p).pFlags.freeSlot = false →
    (k.procTable p).ldtC = childSegment (slotBase p) daC ∧
      (k.procTable p).ldtRw = childSegment (slotBase p) daDRW

section Memory

variable {memory : Nat → UInt8}

theorem memcpy_splice {dst src size : Nat} (dstFits : dst + size ≤ 4294967296)
    (srcFits : src + size ≤ 4294967296) (apart : src + size ≤ dst ∨ dst + size ≤ src) :
    memcpy memory dst src size = Splice.splice memory dst size (Splice.window memory src) := by
  induction size generalizing memory dst src with
  | zero =>
    rw [Splice.splice_empty]
    rfl
  | succ size ih =>
    by_cases last : size = 0
    next =>
      subst last
      funext b
      by_cases same : b = dst
      next =>
        subst same
        rw [Splice.splice_inside _ _ (Nat.le_refl b) (by omega), Nat.sub_self]
        exact Function.update_self ..
      next =>
        rw [Splice.splice_outside _ _ (by omega)]
        exact Function.update_of_ne same _ _
    next =>
      have dstNext : (dst + 1) % 4294967296 = dst + 1 := Nat.mod_eq_of_lt (by omega)
      have srcNext : (src + 1) % 4294967296 = src + 1 := Nat.mod_eq_of_lt (by omega)
      rw [memcpy, dstNext, srcNext, ih (by omega) (by omega) (by omega)]
      funext b
      by_cases inside : dst + 1 ≤ b ∧ b < dst + 1 + size
      next =>
        have other : src + 1 + (b - (dst + 1)) ≠ dst := by omega
        have place : src + 1 + (b - (dst + 1)) = src + (b - dst) := by omega
        rw [Splice.splice_inside _ _ inside.1 inside.2,
          Splice.splice_inside _ _ (by omega) (by omega), Splice.window_apply,
          Function.update_of_ne other, place, Splice.window_apply]
      next =>
        rw [Splice.splice_outside _ _ (by omega)]
        by_cases same : b = dst
        next =>
          subst same
          rw [Function.update_self, Splice.splice_inside _ _ (Nat.le_refl b) (by omega),
            Nat.sub_self]
          rfl
        next => rw [Function.update_of_ne same, Splice.splice_outside _ _ (by omega)]

theorem memcpy_equal {dst src size offset : Nat} (dstFits : dst + size ≤ 4294967296)
    (srcFits : src + size ≤ 4294967296) (apart : src + size ≤ dst ∨ dst + size ≤ src)
    (inside : offset < size) :
    memcpy memory dst src size (dst + offset) = memcpy memory dst src size (src + offset) := by
  have here : dst + offset - dst = offset := by omega
  rw [memcpy_splice dstFits srcFits apart, Splice.splice_inside _ _ (by omega) (by omega), here,
    Splice.splice_outside _ _ (by omega), Splice.window_apply]

end Memory

section Descriptors

variable {d : Descriptor}

theorem reassembled_limit (low : d.limitLow < 65536) :
    reassembly 0 0 (d.limitHighAttr2 &&& 0xF) 16 d.limitLow = segLimit d ∧
      segLimit d < 1048576 := by
  have high : d.limitHighAttr2 &&& 0xF < 16 := Nat.lt_of_le_of_lt Nat.and_le_right (by decide)
  have shifted : (d.limitHighAttr2 &&& 0xF) <<< 16 = (d.limitHighAttr2 &&& 0xF) * 65536 :=
    Nat.shiftLeft_eq _ _
  have bound : segLimit d < 1048576 := by
    rw [segLimit, shifted]
    omega
  refine ⟨?_, bound⟩
  have sum : 0 <<< 0 + (d.limitHighAttr2 &&& 0xF) <<< 16 + d.limitLow = segLimit d := by
    rw [segLimit]
    simp
  rw [reassembly, sum]
  exact i32_of_bounds (by omega)

theorem segSize_bytes : segSize d (segLimit d) = i32 (segBytes d) := by
  have sum : ((segLimit d : Int) + 1) *
      (if d.limitHighAttr2 &&& daLimit4K >>> 8 ≠ 0 then 4096 else 1) = (segBytes d : Nat) := by
    rw [segBytes, granularity]
    split <;> push_cast <;> rfl
  rw [segSize, sum, i32_u32]

theorem segBytes_le (low : d.limitLow < 65536) : segBytes d ≤ 4294967296 := by
  have bound := (reassembled_limit low).2
  rw [segBytes, granularity]
  split <;> omega

-- The size as an `int`: from 2 GB on, 4 GB are missing.
theorem size_of_bytes (low : d.limitLow < 65536) :
    i32 (segBytes d) = if segBytes d < 2147483648 then (segBytes d : Int)
      else (segBytes d : Int) - 4294967296 := by
  have bound := segBytes_le low
  unfold i32
  split <;> split <;> omega

end Descriptors

section Forks

variable {k k' : Kernel.State} {memorySize pid childPid size base : Int}

theorem allocMem_ok : allocMem memorySize k pid size = .ok base ↔
    nrTasks + nrNativeProcs ≤ pid ∧ size ≤ procImageSizeDefault ∧
      slotBase pid + size < memorySize ∧ base = slotBase pid := by
  unfold allocMem slotBase
  by_cases isForked : nrTasks + nrNativeProcs ≤ pid
  next =>
    rw [State.assertThat_of isForked]
    show (if _ then _ else _) = _ ↔ _
    split
    next large =>
      constructor
      · nofun
      · rintro ⟨-, fits, -⟩
        omega
    next fits =>
      split
      next full =>
        constructor
        · nofun
        · rintro ⟨-, -, inside, -⟩
          omega
      next inside =>
        constructor
        · intro done
          cases done
          exact ⟨isForked, by omega, by omega, rfl⟩
        · rintro ⟨-, -, -, rfl⟩
          rfl
  next =>
    have refused : k.assertThat (decide (pid ≥ nrTasks + nrNativeProcs)) =
        .error ⟨.assertion, k⟩ := by
      simp only [ge_iff_le, isForked, decide_false]
      rfl
    rw [refused]
    constructor
    · nofun
    · exact fun ⟨forked, _⟩ => absurd forked isForked

-- The code and the data segment of a process are one.
def OneSegment (p : Proc) : Prop :=
  p.ldtC.limitLow = p.ldtRw.limitLow ∧ p.ldtC.limitHighAttr2 = p.ldtRw.limitHighAttr2 ∧
    segBase p.ldtC = segBase p.ldtRw ∧ p.ldtC.limitLow < 65536

theorem caller_segments (k : Kernel.State) (pid childPid : Int) :
    ((k.modify childPid fun _ => Proc.child pid (k.procTable pid)).procTable pid).ldtC =
        (k.procTable pid).ldtC ∧
      ((k.modify childPid fun _ => Proc.child pid (k.procTable pid)).procTable pid).ldtRw =
        (k.procTable pid).ldtRw := by
  by_cases same : pid = childPid
  · subst same
    rw [State.modify_self]
    exact ⟨rfl, rfl⟩
  · rw [State.modify_other _ _ same]
    exact ⟨rfl, rfl⟩

theorem duplicate_eq (one : OneSegment (k.procTable pid)) :
    duplicate memorySize k pid childPid = (do
      let copied := k.modify childPid fun _ => Proc.child pid (k.procTable pid)
      let base ← allocMem memorySize copied childPid (callerTSize k pid)
      return (copySegment copied base (callerTBase k pid) (callerTSize k pid)).modify childPid
        (Proc.inMemory base)) := by
  obtain ⟨low, high, base, bound⟩ := one
  obtain ⟨sameC, sameRw⟩ := caller_segments k pid childPid
  have limits : reassembly ((k.procTable pid).ldtRw.limitHighAttr2 &&& 0xF) 16 0 0
      (k.procTable pid).ldtRw.limitLow =
      reassembly 0 0 ((k.procTable pid).ldtC.limitHighAttr2 &&& 0xF) 16
        (k.procTable pid).ldtC.limitLow := by
    rw [low, high]
    simp [reassembly]
  have sizes (limit : Int) :
      segSize (k.procTable pid).ldtRw limit = segSize (k.procTable pid).ldtC limit := by
    rw [segSize, segSize, high]
  unfold duplicate
  simp only [sameC, sameRw, limits, sizes, ← base, and_self, decide_true, State.assertThat_true]
  rfl

theorem duplicate_ok (one : OneSegment (k.procTable pid)) :
    duplicate memorySize k pid childPid = .ok k' ↔
      (nrTasks + nrNativeProcs ≤ childPid ∧ callerTSize k pid ≤ procImageSizeDefault ∧
        slotBase childPid + callerTSize k pid < memorySize) ∧
      k' = (copySegment (k.modify childPid fun _ => Proc.child pid (k.procTable pid))
        (slotBase childPid) (callerTBase k pid) (callerTSize k pid)).modify childPid
          (Proc.inMemory (slotBase childPid)) := by
  rw [duplicate_eq one]
  constructor
  · intro done
    obtain ⟨base, allocates, done⟩ := bind_ok done
    cases done
    obtain ⟨forked, fits, inside, rfl⟩ := allocMem_ok.mp allocates
    exact ⟨⟨forked, fits, inside⟩, rfl⟩
  · rintro ⟨⟨forked, fits, inside⟩, rfl⟩
    have allocates := allocMem_ok (k := k.modify childPid fun _ =>
      Proc.child pid (k.procTable pid)).mpr ⟨forked, fits, inside, rfl⟩
    simp only [allocates]
    rfl

theorem duplicates_of (one : OneSegment (k.procTable pid))
    (isForked : nrTasks + nrNativeProcs ≤ childPid)
    (fits : callerTSize k pid ≤ procImageSizeDefault)
    (room : slotBase childPid + callerTSize k pid < memorySize) :
    ∃ k', duplicate memorySize k pid childPid = .ok k' :=
  ⟨_, (duplicate_ok one).mpr ⟨⟨isForked, fits, room⟩, rfl⟩⟩

end Forks

section Tables

variable {k k' : Kernel.State} {kBase kLimit : Nat} {p : Int}

-- The descriptors that `do_fork()` makes grant one megabyte, whatever the caller has.
theorem childSegment_facts (inTable : InTable p) (isForked : nrTasks + nrNativeProcs ≤ p) :
    ∀ attr ∈ [daC, daDRW], segBase (childSegment (slotBase p) attr) = slotBase p ∧
      ldtSegLinear (childSegment (slotBase p) attr) = slotBase p ∧
      segBytes (childSegment (slotBase p) attr) = 0x100000 ∧
      (childSegment (slotBase p) attr).limitLow = 0xFF ∧
      (childSegment (slotBase p) attr).limitHighAttr2 = 0xC0 := by
  have facts : ∀ n < 28, ∀ attr ∈ [daC, daDRW],
      segBase (childSegment (slotBase (9 + (n : Nat))) attr) = slotBase (9 + (n : Nat)) ∧
      ldtSegLinear (childSegment (slotBase (9 + (n : Nat))) attr) = slotBase (9 + (n : Nat)) ∧
      segBytes (childSegment (slotBase (9 + (n : Nat))) attr) = 0x100000 ∧
      (childSegment (slotBase (9 + (n : Nat))) attr).limitLow = 0xFF ∧
      (childSegment (slotBase (9 + (n : Nat))) attr).limitHighAttr2 = 0xC0 := by
    decide +kernel
  have upper := inTable.2
  simp only [nrTasks, nrNativeProcs, nrProcs] at isForked upper
  have slot : p = 9 + ((p - 9).toNat : Int) := by omega
  rw [slot]
  exact facts (p - 9).toNat (by omega)

theorem initDescriptor_base (limit attr : Nat) : segBase (initDescriptor 0 limit attr) = 0 := by
  simp [segBase, initDescriptor, reassembly, i32]

theorem initDescriptor_low (base limit attr : Nat) :
    (initDescriptor base limit attr).limitLow < 65536 :=
  Nat.lt_of_le_of_lt Nat.and_le_right (by decide)

theorem initDescriptor_high (limit : Nat) {attr attr' : Nat}
    (same : attr >>> 8 &&& 0xF0 = attr' >>> 8 &&& 0xF0) :
    (initDescriptor 0 limit attr).limitHighAttr2 =
    (initDescriptor 0 limit attr').limitHighAttr2 := by
  rw [initDescriptor, initDescriptor, same]

theorem nativeProc_one (kBase kLimit : Nat) (p : Int) :
    OneSegment (nativeProc kBase kLimit p) ∧ segBase (nativeProc kBase kLimit p).ldtC = 0 := by
  unfold nativeProc
  by_cases isInit : p = initPid
  · subst isInit
    simp only [ne_eq, not_true_eq_false, if_false]
    have isUser : ¬ initPid < (nrTasks : Int) := by decide
    simp only [isUser, if_false]
    have high : (da32 ||| daLimit4K ||| daC ||| privilegeUser <<< 5) >>> 8 &&& 0xF0 =
        (da32 ||| daLimit4K ||| daDRW ||| privilegeUser <<< 5) >>> 8 &&& 0xF0 := by decide
    refine ⟨⟨rfl, initDescriptor_high _ high, ?_, initDescriptor_low _ _ _⟩,
      initDescriptor_base _ _⟩
    rw [initDescriptor_base, initDescriptor_base]
  · simp only [isInit, ne_eq, not_false_eq_true, if_true]
    have low : kernelCs.limitLow < 65536 := initDescriptor_low _ _ _
    have base : segBase kernelCs = 0 := initDescriptor_base _ _
    exact ⟨⟨rfl, rfl, rfl, low⟩, base⟩

theorem Segmented.one (h : Segmented kBase kLimit k) (inTable : InTable p)
    (live : (k.procTable p).pFlags.freeSlot = false) : OneSegment (k.procTable p) := by
  by_cases isForked : nrTasks + nrNativeProcs ≤ p
  next =>
    obtain ⟨code, data⟩ := h.forked p inTable isForked live
    have facts := childSegment_facts inTable isForked
    obtain ⟨codeBase, -, -, codeLow, codeHigh⟩ := facts daC (by decide)
    obtain ⟨dataBase, -, -, dataLow, dataHigh⟩ := facts daDRW (by decide)
    rw [OneSegment, code, data, codeBase, codeLow, codeHigh, dataBase, dataLow, dataHigh]
    exact ⟨rfl, rfl, rfl, by decide⟩
  next =>
    obtain ⟨code, data⟩ := h.native p (by omega)
    rw [OneSegment, code, data]
    exact (nativeProc_one kBase kLimit p).1

theorem Segmented.base (h : Segmented kBase kLimit k) (inTable : InTable p)
    (live : (k.procTable p).pFlags.freeSlot = false) :
    callerTBase k p = ldtSegLinear (k.procTable p).ldtRw ∧
      (callerTBase k p = 0 ∨ nrTasks + nrNativeProcs ≤ p ∧ callerTBase k p = slotBase p) := by
  unfold callerTBase
  by_cases isForked : nrTasks + nrNativeProcs ≤ p
  next =>
    obtain ⟨code, data⟩ := h.forked p inTable isForked live
    have facts := childSegment_facts inTable isForked
    obtain ⟨codeBase, -⟩ := facts daC (by decide)
    obtain ⟨-, dataBase, -⟩ := facts daDRW (by decide)
    rw [code, data, codeBase, dataBase]
    exact ⟨rfl, .inr ⟨isForked, rfl⟩⟩
  next =>
    obtain ⟨code, data⟩ := h.native p (by omega)
    rw [code, data, (nativeProc_one kBase kLimit p).2, nativeProc_segment]
    exact ⟨rfl, .inl rfl⟩

theorem Segmented.size (h : Segmented kBase kLimit k) (inTable : InTable p)
    (live : (k.procTable p).pFlags.freeSlot = false) :
    callerTSize k p = if segBytes (k.procTable p).ldtC < 2147483648
      then (segBytes (k.procTable p).ldtC : Int)
      else (segBytes (k.procTable p).ldtC : Int) - 4294967296 := by
  have low := (h.one inTable live).2.2.2
  rw [callerTSize, (reassembled_limit low).1, segSize_bytes, size_of_bytes low]

theorem Segmented.keeps (h : Segmented kBase kLimit k) (keeps : Keeps k k') :
    Segmented kBase kLimit k' := by
  have code (p : Int) : (k'.procTable p).ldtC = (k.procTable p).ldtC :=
    congrArg Owned.ldtC (keeps p)
  have data (p : Int) : (k'.procTable p).ldtRw = (k.procTable p).ldtRw :=
    congrArg Owned.ldtRw (keeps p)
  constructor
  · intro p native
    rw [code, data]
    exact h.native p native
  · intro p inTable isForked live
    rw [keeps.freeSlot] at live
    rw [code, data]
    exact h.forked p inTable isForked live

theorem Segmented.modify (h : Segmented kBase kLimit k) (p : Int) {f : Proc → Proc}
    (same : ∀ proc, (f proc).ldtC = proc.ldtC ∧ (f proc).ldtRw = proc.ldtRw ∧
      ((f proc).pFlags.freeSlot = false → proc.pFlags.freeSlot = false)) :
    Segmented kBase kLimit (k.modify p f) := by
  have code (q : Int) : ((k.modify p f).procTable q).ldtC = (k.procTable q).ldtC :=
    State.modify_field (f := f) (·.ldtC) k p q fun proc => (same proc).1
  have data (q : Int) : ((k.modify p f).procTable q).ldtRw = (k.procTable q).ldtRw :=
    State.modify_field (f := f) (·.ldtRw) k p q fun proc => (same proc).2.1
  constructor
  · intro q native
    rw [code, data]
    exact h.native q native
  · intro q inTable isForked live
    rw [code, data]
    refine h.forked q inTable isForked ?_
    by_cases isP : q = p
    · subst isP
      rw [State.modify_self] at live
      exact (same _).2.2 live
    · rw [State.modify_other _ _ isP] at live
      exact live

theorem Segmented.fork {memorySize pid childPid : Int} (h : Segmented kBase kLimit k)
    (inTable : InTable pid) (live : (k.procTable pid).pFlags.freeSlot = false)
    (done : duplicate memorySize k pid childPid = .ok k') : Segmented kBase kLimit k' := by
  obtain ⟨⟨isForked, -, -⟩, after⟩ := (duplicate_ok (h.one inTable live)).mp done
  obtain ⟨others, -⟩ := duplicate_copies done
  constructor
  · intro p native
    rw [others p (by omega)]
    exact h.native p native
  · intro p inTable' isForked' live'
    by_cases same : p = childPid
    · subst same
      rw [after, State.modify_self]
      exact ⟨rfl, rfl⟩
    · rw [others p same] at live' ⊢
      exact h.forked p inTable' isForked' live'

theorem Segmented.changes (h : Segmented kBase kLimit k) {update : Update}
    (changes : Changes k update k') : Segmented kBase kLimit k' := by
  cases changes with
  | call caller function srcDest m inTable runnable legal done =>
    exact h.keeps (sysSendrec_keeps done)
  | inform taskNr inTable done => exact h.keeps (informInt_keeps done)
  | compute mem => exact h.keeps (Keeps.withMem mem)
  | fork memorySize pid childPid inTable live found done => exact h.fork inTable live done
  | mark p f marks => cases marks <;> exact h.modify p fun proc => ⟨rfl, rfl, id⟩
  | release p inTable => exact h.modify p fun proc => ⟨rfl, rfl, nofun⟩

theorem segmented_boots (kBase kLimit : Nat) (mem : Nat → Message) :
    Segmented kBase kLimit (kernelMain kBase kLimit mem) := by
  constructor
  · intro p native
    simp only [kernelMain, native, if_true, and_self]
  · intro p inTable isForked live
    have notNative : ¬ p < nrTasks + nrNativeProcs := by omega
    simp only [kernelMain, notNative, if_false] at live
    cases live

theorem segmented_run (run : Run Boots Changes) {t : Nat} (within : t ≤ run.length) :
    ∃ kBase kLimit, Segmented kBase kLimit (run.state t) := by
  refine run.timed_invariant (P := fun _ k => ∃ kBase kLimit, Segmented kBase kLimit k) ?_ ?_ t
    within
  · rintro k ⟨kBase, kLimit, mem, rfl⟩
    exact ⟨kBase, kLimit, segmented_boots kBase kLimit mem⟩
  · rintro t inside ⟨kBase, kLimit, h⟩
    exact ⟨kBase, kLimit, h.changes (run.steps t inside)⟩

section Copies

variable {memorySize pid childPid : Int} {memory memory' : Nat → UInt8}

theorem slotBase_bounds (inTable : InTable p) (isForked : nrTasks + nrNativeProcs ≤ p) :
    procsBase ≤ slotBase p ∧ slotBase p < 0x3000000 := by
  have upper := inTable.2
  simp only [nrTasks, nrNativeProcs, nrProcs] at isForked upper
  simp only [slotBase, procsBase, procImageSizeDefault, nrTasks, nrNativeProcs]
  omega

theorem slotBase_apart {p q : Int} (distinct : p ≠ q) :
    slotBase p + 0x100000 ≤ slotBase q ∨ slotBase q + 0x100000 ≤ slotBase p := by
  simp only [slotBase, procImageSizeDefault]
  omega

theorem forkCopies_ok (one : OneSegment (k.procTable pid)) :
    forkCopies memorySize k memory pid childPid = .ok (k', memory') ↔
      duplicate memorySize k pid childPid = .ok k' ∧ memory' = memcpy memory
        (u32 (slotBase childPid)) (u32 (callerTBase k pid)) (u32 (callerTSize k pid)) := by
  unfold forkCopies
  constructor
  · intro done
    obtain ⟨k'', duplicates, done⟩ := bind_ok done
    obtain ⟨base, allocates, done⟩ := bind_ok done
    cases done
    obtain ⟨-, -, -, rfl⟩ := allocMem_ok.mp allocates
    exact ⟨duplicates, rfl⟩
  · rintro ⟨duplicates, rfl⟩
    obtain ⟨⟨forked, fits, inside⟩, -⟩ := (duplicate_ok one).mp duplicates
    have allocates := allocMem_ok (k := k).mpr ⟨forked, fits, inside, rfl⟩
    simp only [duplicates, bind, Except.bind, allocates]
    rfl

theorem Segmented.copied (h : Segmented kBase kLimit k) (inTable : InTable pid)
    (live : (k.procTable pid).pFlags.freeSlot = false)
    (small : segBytes (k.procTable pid).ldtC < 2147483648) :
    Duplicated memorySize k memory pid := by
  intro childPid k' memory' found copies
  have one := h.one inTable live
  have size := h.size inTable live
  rw [if_pos small] at size
  refine ⟨size, fun offset inside => ?_⟩
  obtain ⟨duplicates, rfl⟩ := (forkCopies_ok one).mp copies
  obtain ⟨⟨isForked, fits, -⟩, rfl⟩ := (duplicate_ok one).mp duplicates
  obtain ⟨slot, isFree⟩ := freeSlot_found found
  have distinct : pid ≠ childPid := by
    rintro rfl
    rw [isFree] at live
    cases live
  have child := (childSegment_facts slot isForked daDRW (by decide)).2.1
  have data : (((copySegment (k.modify childPid fun _ => Proc.child pid (k.procTable pid))
      (slotBase childPid) (callerTBase k pid) (callerTSize k pid)).modify childPid
        (Proc.inMemory (slotBase childPid))).procTable childPid).ldtRw =
      childSegment (slotBase childPid) daDRW := by
    rw [State.modify_self]
    rfl
  rw [data]
  obtain ⟨base, place⟩ := h.base inTable live
  obtain ⟨childLower, childUpper⟩ := slotBase_bounds slot isForked
  have placed : 0 ≤ callerTBase k pid ∧ callerTBase k pid < 0x3000000 ∧
      (callerTBase k pid + 0x100000 ≤ slotBase childPid ∨
        slotBase childPid + 0x100000 ≤ callerTBase k pid) := by
    simp only [procsBase] at childLower
    rcases place with zero | ⟨isForked', same⟩
    · omega
    · obtain ⟨lower, upper⟩ := slotBase_bounds inTable isForked'
      simp only [procsBase] at lower
      have apart := slotBase_apart distinct
      omega
  obtain ⟨nonneg, below, apart⟩ := placed
  simp only [procImageSizeDefault] at fits
  simp only [procsBase] at childLower
  have dst := u32_of_bounds (x := slotBase childPid) (by omega) (by omega)
  have src := u32_of_bounds (x := callerTBase k pid) nonneg (by omega)
  have count := u32_of_bounds (x := callerTSize k pid) (by omega) (by omega)
  have childPlace : ldtSegLinear (childSegment (slotBase childPid) daDRW) =
      u32 (slotBase childPid) := by omega
  have callerPlace : ldtSegLinear (k.procTable pid).ldtRw = u32 (callerTBase k pid) := by omega
  rw [childPlace, callerPlace]
  exact memcpy_equal (by omega) (by omega) (by omega) (by omega)

/--
In every reachable state a fork of a live process copies its whole memory, or stops, exactly if the
size of its segment fits into an `int` or there is no place for the child.
-/
theorem fork_duplicates_iff (run : Run Boots Changes) {t : Nat} (within : t ≤ run.length)
    {pid : Int} (inTable : InTable pid)
    (live : ((run.state t).procTable pid).pFlags.freeSlot = false) (memorySize : Int)
    (memory : Nat → UInt8) :
    Duplicated memorySize (run.state t) memory pid ↔ Whole memorySize (run.state t) pid := by
  obtain ⟨kBase, kLimit, h⟩ := segmented_run run within
  have one := h.one inTable live
  have size := h.size inTable live
  by_cases small : segBytes ((run.state t).procTable pid).ldtC < 2147483648
  next => exact ⟨fun _ => .inl small, fun _ => h.copied inTable live small⟩
  next =>
    rw [if_neg small] at size
    have bytes := segBytes_le one.2.2.2
    constructor
    · intro duplicated
      refine .inr fun childPid found => ?_
      by_contra goes
      obtain ⟨isForked, inside⟩ := not_or.mp goes
      have fits : callerTSize (run.state t) pid ≤ procImageSizeDefault := by
        simp only [procImageSizeDefault]
        omega
      have room : slotBase childPid + callerTSize (run.state t) pid < memorySize := by omega
      obtain ⟨k', duplicates⟩ := duplicates_of one (by omega) fits room
      have whole := (duplicated childPid _ _ found ((forkCopies_ok one).mpr ⟨duplicates, rfl⟩)).1
      omega
    · rintro (less | refused)
      · exact absurd less small
      · intro childPid k' memory' found copies
        obtain ⟨duplicates, -⟩ := (forkCopies_ok one).mp copies
        obtain ⟨⟨isForked, -, inside⟩, -⟩ := (duplicate_ok one).mp duplicates
        rcases refused childPid found with native | full <;> omega

theorem fork_duplicates_iff_init :
    Duplicated 0x2000000 (calmRun.state 3) (fun b => UInt8.ofNat b) initPid := by
  have within : 3 ≤ calmRun.length := by decide
  have live : ((calmRun.state 3).procTable initPid).pFlags.freeSlot = false := by decide +kernel
  have small : segBytes ((calmRun.state 3).procTable initPid).ldtC < 2147483648 := by
    decide +kernel
  exact (fork_duplicates_iff calmRun within (by decide) live 0x2000000 _).mpr (.inl small)

-- TestA has 4 GB, its child gets none of them.
theorem fork_copies_nothing : ¬ ∀ (run : Run Boots Changes) (t : Nat) (pid memorySize : Int)
    (memory : Nat → UInt8), t ≤ run.length → InTable pid → nrTasks ≤ pid →
    ((run.state t).procTable pid).pFlags.freeSlot = false →
    Duplicated memorySize (run.state t) memory pid := by
  intro claim
  have duplicated := claim calmRun 0 6 0x2000000 (fun _ => 0) (by decide) (by decide) (by decide)
    (by decide)
  have one : OneSegment ((calmRun.state 0).procTable 6) :=
    (segmented_boots 0 0 fun _ => resetMsg).one (by decide) (by decide)
  have empty : callerTSize (calmRun.state 0) 6 = 0 := by decide +kernel
  have forks : ∃ k', duplicate 0x2000000 (calmRun.state 0) 6 9 = .ok k' :=
    duplicates_of one (by decide) (by rw [empty]; decide) (by rw [empty]; decide)
  obtain ⟨k', duplicates⟩ := forks
  have whole := (duplicated 9 _ _ (by decide +kernel) ((forkCopies_ok one).mpr ⟨duplicates, rfl⟩)).1
  rw [empty] at whole
  exact absurd whole (by decide +kernel)

end Copies

end Tables

section Isolation

variable {k k' : Kernel.State} {memorySize : Int} {p : Int}

def ChangesIn (memorySize : Int) (k : Kernel.State) (update : Update) (k' : Kernel.State) : Prop :=
  Changes k update k' ∧
    ∀ pid childPid, update = .fork pid childPid → duplicate memorySize k pid childPid = .ok k'

def LiveFork (k : Kernel.State) (p : Int) : Prop :=
  InTable p ∧ nrTasks + nrNativeProcs ≤ p ∧ (k.procTable p).pFlags.freeSlot = false

def Grants (k : Kernel.State) (p b : Int) : Prop :=
  ∃ d ∈ [(k.procTable p).ldtC, (k.procTable p).ldtRw],
    ldtSegLinear d ≤ b ∧ b < ldtSegLinear d + segBytes d

/-- The segments of forked processes are disjoint and lie between `PROCS_BASE` and the end. -/
def Isolated (memorySize : Int) (k : Kernel.State) : Prop :=
  (∀ p, LiveFork k p → ∀ b, Grants k p b → procsBase ≤ b ∧ b < memorySize) ∧
    ∀ p q, LiveFork k p → LiveFork k q → p ≠ q → ∀ b, Grants k p b → ¬ Grants k q b

/-- The slot of a new child has memory for a whole process image. -/
def Roomy (memorySize : Int) : Update → Prop
  | .fork _ childPid => slotBase childPid + procImageSizeDefault ≤ memorySize
  | _ => True

theorem grants_iff {kBase kLimit : Nat} (h : Segmented kBase kLimit k) (live : LiveFork k p)
    (b : Int) : Grants k p b ↔ slotBase p ≤ b ∧ b < slotBase p + 0x100000 := by
  obtain ⟨inTable, isForked, used⟩ := live
  obtain ⟨code, data⟩ := h.forked p inTable isForked used
  have facts := childSegment_facts inTable isForked
  obtain ⟨-, codeBase, codeBytes, -⟩ := facts daC (by decide)
  obtain ⟨-, dataBase, dataBytes, -⟩ := facts daDRW (by decide)
  unfold Grants
  rw [code, data]
  constructor
  · rintro ⟨d, member, lower, upper⟩
    rcases List.mem_pair.mp member with rfl | rfl <;> omega
  · rintro ⟨lower, upper⟩
    exact ⟨_, List.mem_cons_self .., by omega, by omega⟩

theorem isolated_iff {kBase kLimit : Nat} (h : Segmented kBase kLimit k) :
    Isolated memorySize k ↔ ∀ p, LiveFork k p → slotBase p + procImageSizeDefault ≤ memorySize := by
  simp only [procImageSizeDefault]
  constructor
  · rintro ⟨inside, -⟩ p live
    have last := (grants_iff h live (slotBase p + 0xFFFFF)).mpr ⟨by omega, by omega⟩
    have upper := (inside p live _ last).2
    omega
  · intro room
    constructor
    · intro p live b grants
      obtain ⟨lower, upper⟩ := (grants_iff h live b).mp grants
      have first := (slotBase_bounds live.1 live.2.1).1
      have last := room p live
      omega
    · intro p q live live' distinct b grants grants'
      have first := (grants_iff h live b).mp grants
      have second := (grants_iff h live' b).mp grants'
      have apart := slotBase_apart distinct
      omega

theorem Mark.freeSlot {f : Proc → Proc} (marks : Mark f) (proc : Proc) :
    (f proc).pFlags.freeSlot = proc.pFlags.freeSlot := by
  cases marks <;> rfl

theorem liveFork_changes {update : Update} (changes : Changes k update k')
    (live : LiveFork k' p) : LiveFork k p ∨ ∃ pid, update = .fork pid p := by
  obtain ⟨inTable, isForked, used⟩ := live
  have kept (same : (k.procTable p).pFlags.freeSlot = (k'.procTable p).pFlags.freeSlot) :
      LiveFork k p := ⟨inTable, isForked, same.trans used⟩
  cases changes with
  | call caller function srcDest m inTable runnable legal done =>
    exact .inl (kept ((sysSendrec_keeps done).freeSlot p).symm)
  | inform taskNr inTable done => exact .inl (kept ((informInt_keeps done).freeSlot p).symm)
  | compute mem => exact .inl (kept rfl)
  | fork memorySize pid childPid inTable live found done =>
    by_cases same : p = childPid
    · subst same
      exact .inr ⟨pid, rfl⟩
    · obtain ⟨others, -⟩ := duplicate_copies done
      exact .inl (kept (by rw [others p same]))
  | mark q f marks =>
    exact .inl (kept (State.modify_field (f := f) (·.pFlags.freeSlot) k q p marks.freeSlot).symm)
  | release q inTable =>
    by_cases same : p = q
    · subst same
      rw [State.modify_self] at used
      cases used
    · refine .inl (kept ?_)
      rw [State.modify_other _ _ same]

theorem liveFork_child {kBase kLimit : Nat} (h : Segmented kBase kLimit k) {pid childPid : Int}
    (changes : Changes k (.fork pid childPid) k') : LiveFork k' childPid := by
  cases changes with
  | fork memorySize _ _ inTable live found done =>
    obtain ⟨⟨isForked, -, -⟩, -⟩ := (duplicate_ok (h.one inTable live)).mp done
    obtain ⟨-, base, copied⟩ := duplicate_copies done
    refine ⟨(freeSlot_found found).1, isForked, ?_⟩
    rw [copied]
    exact live

theorem isolated_changes {kBase kLimit : Nat} (h : Segmented kBase kLimit k)
    (isolated : Isolated memorySize k) {update : Update} (changes : Changes k update k') :
    Isolated memorySize k' ↔ Roomy memorySize update := by
  have room := (isolated_iff h).mp isolated
  rw [isolated_iff (h.changes changes)]
  constructor
  · intro room'
    cases update with
    | fork pid childPid => exact room' childPid (liveFork_child h changes)
    | _ => trivial
  · intro roomy p live
    rcases liveFork_changes changes live with before | ⟨pid, rfl⟩
    · exact room p before
    · exact roomy

/--
As long as every child gets a slot with memory for a whole image, the segments of the forked
processes are isolated; and a change of the table leaves them so exactly if it keeps to that.
-/
theorem segments_isolated (run : Run Boots (ChangesIn memorySize))
    (roomy : ∀ t, t < run.length → Roomy memorySize (run.act t)) {t : Nat}
    (within : t ≤ run.length) :
    Isolated memorySize (run.state t) ∧
      ∀ update k', ChangesIn memorySize (run.state t) update k' →
        (Isolated memorySize k' ↔ Roomy memorySize update) := by
  have both : ∃ kBase kLimit, Segmented kBase kLimit (run.state t) ∧
      Isolated memorySize (run.state t) := by
    refine run.timed_invariant (P := fun _ k => ∃ kBase kLimit, Segmented kBase kLimit k ∧
      Isolated memorySize k) ?_ ?_ t within
    · rintro k ⟨kBase, kLimit, mem, rfl⟩
      have h := segmented_boots kBase kLimit mem
      refine ⟨kBase, kLimit, h, (isolated_iff h).mpr fun p ⟨_, isForked, live⟩ => ?_⟩
      have notNative : ¬ p < nrTasks + nrNativeProcs := by omega
      simp only [kernelMain, notNative, if_false] at live
      cases live
    · rintro t inside ⟨kBase, kLimit, h, isolated⟩
      have changes := (run.steps t inside).1
      exact ⟨kBase, kLimit, h.changes changes,
        (isolated_changes h isolated changes).mpr (roomy t inside)⟩
  obtain ⟨kBase, kLimit, h, isolated⟩ := both
  exact ⟨isolated, fun update k' changes => isolated_changes h isolated changes.1⟩

section Sample

-- INIT forks at once.
def tight (memorySize : Int) : Nat → Kernel.State
  | 0 => kernelMain 0 0 fun _ => resetMsg
  | t + 1 => after (duplicate memorySize (tight memorySize t) initPid 9) (tight memorySize t)

theorem tight_forks (memorySize : Int)
    (returns : (duplicate memorySize (tight memorySize 0) initPid 9).isOk = true) :
    ChangesIn memorySize (tight memorySize 0) (.fork initPid 9) (tight memorySize 1) := by
  have done := ok_after (tight memorySize 0) returns
  have found : freeSlot (kernelMain 0 0 fun _ => resetMsg) = some 9 := by decide
  refine ⟨.fork memorySize initPid 9 (by decide) rfl found done, ?_⟩
  intro pid childPid same
  cases same
  exact done

def tightRun (memorySize : Int)
    (returns : (duplicate memorySize (tight memorySize 0) initPid 9).isOk = true) :
    Run Boots (ChangesIn memorySize) where
  length := 1
  state := tight memorySize
  act := fun _ => .fork initPid 9
  start := ⟨0, 0, _, rfl⟩
  steps := by
    intro t inside
    have first : t = 0 := by omega
    subst first
    exact tight_forks memorySize returns

theorem segments_isolated_init :
    Isolated 0x2000000 ((tightRun 0x2000000 (by decide +kernel)).state 1) := by
  refine (segments_isolated (tightRun 0x2000000 (by decide +kernel)) ?_ (Nat.le_refl 1)).1
  intro t inside
  show (0xA00000 : Int) + (9 - (5 + 4)) * 0x100000 + 0x100000 ≤ 0x2000000
  decide

-- Two pages are free: the child gets one of them, and the right to a megabyte.
theorem segments_overlap_end : ¬ ∀ (memorySize : Int) (run : Run Boots (ChangesIn memorySize))
    (t : Nat), t ≤ run.length → Isolated memorySize (run.state t) := by
  intro claim
  have isolated := claim 0xA02000 (tightRun 0xA02000 (by decide +kernel)) 1 (Nat.le_refl 1)
  have live : LiveFork (tight 0xA02000 1) 9 := ⟨by decide, by decide, by decide +kernel⟩
  have grants : Grants (tight 0xA02000 1) 9 0xA02000 := by
    refine ⟨_, List.mem_cons_self .., ?_⟩
    decide +kernel
  exact absurd (isolated.1 9 live _ grants).2 (by decide)

end Sample

end Isolation

end Konix.Mm
