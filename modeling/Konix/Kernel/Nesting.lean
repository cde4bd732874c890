import Konix.Kernel.Entry

set_option autoImplicit false

namespace Konix.Entry

open Contexts Runs

def IsProc (L : Layout) (b : Nat) : Prop :=
  ∃ p, p < nrTasks + nrProcs ∧ b = L.procTable + p * L.procSize

/--
A handler or system call that has begun: memory from `bottom` on is not its own. A handler may use
the stack below that, and the words of its arguments.
-/
structure Active where
  cause : Cause Nat
  bottom : Nat

structure Machine where
  cpu : Cpu
  active : List Active

def argWords : Cause Nat → Nat
  | .line _ => 1
  | .call => 4

def Cpu.finish (m : Cpu) : Cause Nat → Cpu
  | .line i => m.hwintEnd i
  | .call => m.sysCallEnd

def SameFrames (L : Layout) (mem mem' : Nat → Nat) : Prop :=
  ∀ b, IsProc L b → ∀ j, j < pLdtSel + 4 → mem' (b + j) = mem (b + j)

-- A process computes, and drivers set the masks.
structure Computes (L : Layout) (m m' : Cpu) : Prop where
  user : m'.regs.cs % 4 ≠ 0
  frames : SameFrames L m.mem m'.mem
  ready : m'.pProcReady = m.pProcReady
  sp0 : m'.sp0 = m.sp0
  ldt : m'.ldt = m.ldt
  kReenter : m'.kReenter = m.kReenter

-- A process, which is MM, changes the registers of another one.
structure Patches (L : Layout) (b : Nat) (m m' : Cpu) : Prop where
  isProc : IsProc L b
  other : b ≠ m.pProcReady
  frames : ∀ b', IsProc L b' → b' ≠ b → ∀ j, j < pLdtSel + 4 → m'.mem (b' + j) = m.mem (b' + j)
  rest : m' = { m with mem := m'.mem }

-- The code of a handler: it may choose who goes on, among those who can.
structure Handles (L : Layout) (bottom : Nat) (m m' : Cpu) : Prop where
  stack : m'.regs.esp ≤ bottom
  kept : ∀ a, bottom ≤ a → a < L.stackTop → m'.mem a = m.mem a
  frames : SameFrames L m.mem m'.mem
  cs : m'.regs.cs = m.regs.cs
  ss : m'.regs.ss = m.regs.ss
  ldt : m'.ldt = m.ldt
  sp0 : m'.sp0 = m.sp0
  kReenter : m'.kReenter = m.kReenter
  imr : m'.imr = m.imr
  isProc : IsProc L m'.pProcReady
  runs : m'.mem (m'.pProcReady + csReg) % 4 ≠ 0

/--
A line interrupts when interrupts are on and neither it nor the cascade is masked; in a handler the
stack has room for the entry. A handler ends with its arguments on top of the stack.
-/
inductive Step (L : Layout) : Machine → Event Nat Nat → Machine → Prop
  | line {s : Machine} {i : Nat} (isLine : i < 16) (on : s.cpu.regs.eflags.testBit 9 = true)
      (unmasked : s.cpu.imr i = false) (cascade : 8 ≤ i → s.cpu.imr 2 = false)
      (room : s.active ≠ [] → L.stackSpace + 76 ≤ s.cpu.regs.esp) :
      Step L s (.enter (.line i))
        ⟨s.cpu.hwint L i, ⟨.line i, (s.cpu.hwint L i).regs.esp + 8⟩ :: s.active⟩
  | call {s : Machine} (user : s.active = []) :
      Step L s (.enter .call) ⟨s.cpu.sysCall L, [⟨.call, (s.cpu.sysCall L).regs.esp + 20⟩]⟩
  | run {s : Machine} {m : Cpu} (user : s.active = []) (computes : Computes L s.cpu m) :
      Step L s .compute ⟨m, s.active⟩
  | patch {s : Machine} {m : Cpu} {b : Nat} (user : s.active = []) (patches : Patches L b s.cpu m) :
      Step L s (.patch b) ⟨m, s.active⟩
  | handle {s : Machine} {m : Cpu} {act : Active} {rest : List Active}
      (inner : s.active = act :: rest) (handles : Handles L act.bottom s.cpu m) :
      Step L s .compute ⟨m, s.active⟩
  | leave {s : Machine} {act : Active} {rest : List Active} (inner : s.active = act :: rest)
      (returned : s.cpu.regs.esp + 4 * argWords act.cause = act.bottom) :
      Step L s .leave ⟨(s.cpu.finish act.cause).goOn L, rest⟩

def Booted (L : Layout) (s : Machine) : Prop :=
  ∃ m : Cpu, m.kReenter = 0 ∧ IsProc L m.pProcReady ∧ m.mem (m.pProcReady + csReg) % 4 ≠ 0 ∧
    s = ⟨m.restart, []⟩

def withEax (c live : Regs) : Regs := { c with eax := live.eax }

-- The outermost entry has the way back at the top of the stack, a system call its frame below that.
def Outermost (L : Layout) (mem : Nat → Nat) (bottom b : Nat) : Cause Nat → Prop
  | .line _ => bottom = L.stackTop - 4
  | .call => bottom = L.stackTop - 8 ∧ mem (L.stackTop - 8) = b

/--
The kernel's stack, from its end in use on up: each handler has what it came from above it, and the
outermost one leads back to `restart`.
-/
def StackHolds (L : Layout) (mem : Nat → Nat) :
    List Active → List (Suspended Nat Regs Nat) → Prop
  | [act], [.process b cause] =>
    act.cause = cause ∧ IsProc L b ∧ mem (L.stackTop - 4) = L.restart ∧
      Outermost L mem act.bottom b cause
  | act :: outer :: rest, .handler i c :: nest =>
    act.cause = .line i ∧ mem act.bottom = L.restartReenter ∧
      handlerRegs mem (act.bottom + 4) c.ss = c ∧ c.cs = L.kernelCs ∧ c.ss = L.kernelDs ∧
      act.bottom + 4 + espReg ≤ outer.bottom ∧ StackHolds L mem (outer :: rest) nest
  | _, _ => False

/-- The words of memory are the contexts that the processor comes back to. -/
structure Holds (L : Layout) (s : Machine) (a : Contexts.Machine Nat Regs Nat) : Prop where
  live : s.cpu.regs = a.live
  ready : s.cpu.pProcReady = a.ready
  isProc : IsProc L a.ready
  depth : s.cpu.kReenter = (a.nest.length : Int) - 1
  saved : ∀ b, IsProc L b → (a.nest = [] → b ≠ a.ready) → frameRegs s.cpu.mem b = a.saved b
  user : a.nest = [] → s.active = [] ∧ a.live.cs % 4 ≠ 0 ∧ s.cpu.sp0 = a.ready + pStackTop ∧
    s.cpu.ldt = s.cpu.mem (a.ready + pLdtSel) % 65536
  stack : a.nest ≠ [] → StackHolds L s.cpu.mem s.active a.nest
  kernel : a.nest ≠ [] → a.live.cs = L.kernelCs ∧ a.live.ss = L.kernelDs ∧
    (a.saved a.ready).cs % 4 ≠ 0 ∧ ∀ act rest, s.active = act :: rest → a.live.esp ≤ act.bottom

section Places

variable {L : Layout} {mem mem' : Nat → Nat} {b b' : Nat}

theorem IsProc.off_stack (isProc : IsProc L b) :
    b + pLdtSel + 4 ≤ L.stackSpace ∨ L.stackTop ≤ b := by
  obtain ⟨p, bound, rfl⟩ := isProc
  have frame := L.frame
  have size : p * L.procSize + L.procSize ≤ (nrTasks + nrProcs) * L.procSize := by
    rw [← Nat.succ_mul]
    exact Nat.mul_le_mul_right _ bound
  rcases L.apart with below | above
  · exact .inl (by omega)
  · exact .inr (by omega)

theorem IsProc.apart (isProc : IsProc L b) (isProc' : IsProc L b') (other : b ≠ b') :
    b + pLdtSel + 4 ≤ b' ∨ b' + pLdtSel + 4 ≤ b := by
  obtain ⟨p, -, rfl⟩ := isProc
  obtain ⟨q, -, rfl⟩ := isProc'
  have frame := L.frame
  have different : p ≠ q := by
    rintro rfl
    exact other rfl
  rcases Nat.lt_or_gt_of_ne different with before | after
  · have size := Nat.mul_le_mul_right L.procSize before
    rw [Nat.succ_mul] at size
    exact .inl (by omega)
  · have size := Nat.mul_le_mul_right L.procSize after
    rw [Nat.succ_mul] at size
    exact .inr (by omega)

theorem frameRegs_congr (same : ∀ j, j < pLdtSel → mem' (b + j) = mem (b + j)) :
    frameRegs mem' b = frameRegs mem b := by
  simp only [frameRegs]
  rw [same gsReg (by decide), same fsReg (by decide), same esReg (by decide),
    same dsReg (by decide),
    same ediReg (by decide), same esiReg (by decide), same ebpReg (by decide),
    same ebxReg (by decide), same edxReg (by decide), same ecxReg (by decide),
    same eaxReg (by decide), same eipReg (by decide), same csReg (by decide),
    same eflagsReg (by decide), same espReg (by decide), same ssReg (by decide)]

theorem handlerRegs_congr {ss : Nat} (same : ∀ j, j < espReg → mem' (b + j) = mem (b + j)) :
    handlerRegs mem' b ss = handlerRegs mem b ss := by
  simp only [handlerRegs, frameRegs]
  rw [same gsReg (by decide), same fsReg (by decide), same esReg (by decide),
    same dsReg (by decide),
    same ediReg (by decide), same esiReg (by decide), same ebpReg (by decide),
    same ebxReg (by decide), same edxReg (by decide), same ecxReg (by decide),
    same eaxReg (by decide), same eipReg (by decide), same csReg (by decide),
    same eflagsReg (by decide)]

theorem SameFrames.regs (same : SameFrames L mem mem') (isProc : IsProc L b) :
    frameRegs mem' b = frameRegs mem b :=
  frameRegs_congr fun j below => same b isProc j (by omega)

theorem sameFrames_stack (same : ∀ a, a < L.stackSpace ∨ L.stackTop ≤ a → mem' a = mem a) :
    SameFrames L mem mem' := by
  intro b isProc j below
  rcases isProc.off_stack with low | high
  · exact same _ (.inl (by omega))
  · exact same _ (.inr (by omega))

variable {act : Active} {rest : List Active} {nest : List (Suspended Nat Regs Nat)}

theorem StackHolds.nest_ne {active : List Active} (holds : StackHolds L mem active nest) :
    nest ≠ [] := by
  rintro rfl
  match active, holds with
  | [], holds => exact holds
  | [_], holds => exact holds
  | _ :: _ :: _, holds => exact holds

theorem StackHolds.below (holds : StackHolds L mem (act :: rest) nest) :
    act.bottom + 4 ≤ L.stackTop := by
  have size := L.stackSize
  induction rest generalizing act nest with
  | nil =>
    match nest, holds with
    | [.process b (.line i)], ⟨_, _, _, place⟩ =>
      have bottom : act.bottom = L.stackTop - 4 := place
      omega
    | [.process b .call], ⟨_, _, _, place⟩ =>
      have bottom : act.bottom = L.stackTop - 8 := place.1
      omega
  | cons outer rest ih =>
    match nest, holds with
    | .handler i c :: nest, ⟨_, _, _, _, _, above, outerHolds⟩ =>
      have bound := ih outerHolds
      omega

theorem StackHolds.congr (holds : StackHolds L mem (act :: rest) nest)
    (same : ∀ a, act.bottom ≤ a → a < L.stackTop → mem' a = mem a) :
    StackHolds L mem' (act :: rest) nest := by
  have size := L.stackSize
  induction rest generalizing act nest with
  | nil =>
    match nest, holds with
    | [.process b (.line i)], ⟨cause, isProc, back, place⟩ =>
      have bottom : act.bottom = L.stackTop - 4 := place
      exact ⟨cause, isProc, (same _ (by omega) (by omega)).trans back, place⟩
    | [.process b .call], ⟨cause, isProc, back, place⟩ =>
      have bottom : act.bottom = L.stackTop - 8 := place.1
      exact ⟨cause, isProc, (same _ (by omega) (by omega)).trans back, place.1,
        (same _ (by omega) (by omega)).trans place.2⟩
  | cons outer rest ih =>
    match nest, holds with
    | .handler i c :: nest, ⟨cause, back, regs, cs, ss, above, outerHolds⟩ =>
      have bound := outerHolds.below
      refine ⟨cause, (same _ (le_refl _) (by omega)).trans back, ?_, cs, ss, above,
        ih outerHolds fun a from_ below => same a (by omega) below⟩
      rw [handlerRegs_congr fun j below => same _ (by omega) (by omega)]
      exact regs

end Places

section Entries

variable {L : Layout} {s : Machine} {a : Contexts.Machine Nat Regs Nat} {m : Cpu}

def ifOn (eflags : Nat) : Nat := if eflags.testBit 9 = true then eflags else eflags + 512

theorem hwint_eq (L : Layout) (i : Nat) {m₁ : Cpu}
    (saved : (m.interrupt L (L.hwint i)).save L (L.hwint i) = m₁) :
    m.hwint L i =
      { m₁ with
        regs := { m₁.regs with
          eax := m₁.regs.eax / 256 * 256 + eoi, eflags := ifOn m₁.regs.eflags
          esp := m₁.regs.esp - 8, eip := L.irqTable i }
        mem := stored m₁.mem m₁.regs.esp [i, L.hwintBack i]
        imr := Function.update m₁.imr i true } := by
  rw [Cpu.hwint]
  simp only [saved]
  rw [pushAll_eq]
  rfl

theorem sysCall_eq (L : Layout) {m₁ : Cpu}
    (saved : (m.interrupt L L.sysCall).save L L.sysCall = m₁) :
    m.sysCall L =
      { m₁ with
        regs := { m₁.regs with
          eflags := ifOn m₁.regs.eflags, esp := m₁.regs.esp - 24
          eip := L.sysCallTable m₁.regs.eax }
        mem := stored m₁.mem m₁.regs.esp [m₁.regs.esi, m₁.pProcReady, m₁.regs.edx, m₁.regs.ecx,
          m₁.regs.ebx, L.sysCallBack] } := by
  rw [Cpu.sysCall]
  simp only [saved]
  rw [pushAll_eq]
  rfl

theorem Holds.suspended (holds : Holds L s a) (user : a.nest = []) (from_ : Nat) (ws : List Nat)
    {m' : Cpu} {act : Active} {cause : Cause Nat}
    (mem : m'.mem =
      stored ((s.cpu.interrupt L from_).save L from_).mem (L.stackTop - 4) ws)
    (few : ws.length ≤ 6) (cs : m'.regs.cs = L.kernelCs) (ss : m'.regs.ss = L.kernelDs)
    (ready : m'.pProcReady = s.cpu.pProcReady) (kReenter : m'.kReenter = 0)
    (esp : m'.regs.esp ≤ act.bottom) (same : act.cause = cause)
    (place : Outermost L m'.mem act.bottom a.ready cause) :
    Holds L ⟨m', [act]⟩
      ⟨m'.regs, a.ready, Function.update a.saved a.ready a.live, [.process a.ready cause]⟩ := by
  obtain ⟨-, ring, sp0, -⟩ := holds.user user
  have size := L.stackSize
  have off := holds.isProc.off_stack
  simp only [pLdtSel, pStackTop, ssReg, espReg, eflagsReg, csReg, eipReg, retAdr, eaxReg, ecxReg,
    edxReg, ebxReg, kernelEspReg, ebpReg, esiReg, ediReg, dsReg, esReg, fsReg, gsReg] at off
  have first : s.cpu.kReenter = -1 := by rw [holds.depth, user]; rfl
  have way : a.ready + retAdr ≠ L.stackTop - 4 := by
    simp only [retAdr, eaxReg, ecxReg, edxReg, ebxReg, kernelEspReg, ebpReg, esiReg, ediReg, dsReg,
      esReg, fsReg, gsReg]
    omega
  have entered := entered_process L from_ (by rw [holds.live]; exact ring) sp0 first way
  rw [entered] at mem
  -- What is stored: the frame, the way back, and what the entry passes on.
  have top : m'.mem (L.stackTop - 4) = L.restart := by
    rw [mem, stored_outside (by omega) (by omega)]
    exact Function.update_self ..
  have frame (j : Nat) (below : j < 76) : m'.mem (a.ready + j) =
      stored s.cpu.mem (a.ready + 72)
        (processWords s.cpu.regs (from_ + 5) (a.ready + 48)) (a.ready + j) := by
    rw [mem, stored_outside (by omega) (by omega)]
    exact Function.update_of_ne (by omega) ..
  have elsewhere (x : Nat) (low : x < L.stackSpace ∨ L.stackTop ≤ x)
      (out : x < a.ready ∨ a.ready + 72 ≤ x) : m'.mem x = s.cpu.mem x := by
    rw [mem, stored_outside (by omega) (by omega)]
    dsimp only
    rw [Function.update_of_ne (by omega)]
    exact stored_outside (by show 4 * 18 ≤ a.ready + 72; omega)
      (by show x < a.ready + 72 - 4 * 18 ∨ _; omega)
  constructor
  case live => rfl
  case ready => exact ready.trans holds.ready
  case isProc => exact holds.isProc
  case depth => rw [kReenter]; rfl
  case saved =>
    intro b isProc _
    by_cases self : b = a.ready
    next =>
      subst self
      show frameRegs m'.mem a.ready = Function.update a.saved a.ready a.live a.ready
      rw [Function.update_self, ← holds.live, frameRegs_congr fun j below => frame j (by
        have small : j < 72 := below
        omega)]
      exact frameRegs_words s.cpu.regs
    next =>
      show frameRegs m'.mem b = Function.update a.saved a.ready a.live b
      rw [Function.update_of_ne self, ← holds.saved b isProc fun _ => self]
      refine frameRegs_congr fun j below => ?_
      have small : j < 72 := below
      have away := isProc.apart holds.isProc self
      have off' := isProc.off_stack
      simp only [show pLdtSel = 72 from rfl] at away off'
      exact elsewhere _ (by omega) (by omega)
  case user => exact fun none_ => nomatch none_
  case stack => exact fun _ => ⟨same, holds.isProc, top, place⟩
  case kernel =>
    intro _
    refine ⟨cs, ss, ?_, ?_⟩
    · show (Function.update a.saved a.ready a.live a.ready).cs % 4 ≠ 0
      rw [Function.update_self]
      exact ring
    · rintro _ _ ⟨⟩
      exact esp

theorem Holds.active_cons (holds : Holds L s a) (handling : a.nest ≠ []) :
    ∃ act rest, s.active = act :: rest := by
  have stack := holds.stack handling
  cases active : s.active with
  | nil =>
    rw [active] at stack
    cases nest : a.nest with
    | nil => exact absurd nest handling
    | cons top below =>
      rw [nest] at stack
      cases top <;> exact absurd stack id
  | cons act rest => exact ⟨act, rest, rfl⟩

theorem Holds.nested (holds : Holds L s a) (handling : a.nest ≠ []) (i : Nat)
    (room : L.stackSpace + 76 ≤ s.cpu.regs.esp) :
    Holds L ⟨s.cpu.hwint L i, ⟨.line i, (s.cpu.hwint L i).regs.esp + 8⟩ :: s.active⟩
      { a with live := (s.cpu.hwint L i).regs, nest := .handler i a.live :: a.nest } := by
  obtain ⟨act, rest, active⟩ := holds.active_cons handling
  obtain ⟨cs, ss, runs, inUse⟩ := holds.kernel handling
  have stack := holds.stack handling
  rw [active] at stack
  have bound := stack.below
  have used : s.cpu.regs.esp ≤ act.bottom := by
    rw [holds.live]
    exact inUse act rest active
  have deep : s.cpu.kReenter + 1 ≠ 0 := by
    have positive := List.length_pos_iff.mpr handling
    rw [holds.depth]
    omega
  obtain ⟨b, esp⟩ : ∃ b, s.cpu.regs.esp = b + espReg := by
    refine ⟨s.cpu.regs.esp - espReg, ?_⟩
    have small : espReg ≤ s.cpu.regs.esp :=
      le_trans (by decide) (le_trans (Nat.le_add_left 76 _) room)
    omega
  have espSize : espReg = 64 := rfl
  have entered := entered_handler L (L.hwint i)
    (by rw [holds.live, cs]; exact L.ring0) esp deep (by omega)
  have eq := hwint_eq L i entered
  have mem : (s.cpu.hwint L i).mem = stored (stored s.cpu.mem (b + 64)
      (handlerWords s.cpu.regs (L.hwint i + 5) (b + 48) ++ [L.restartReenter])) (b - 4)
        [i, L.hwintBack i] := by
    rw [eq]
  have bottom : (s.cpu.hwint L i).regs.esp + 8 = b - 4 := by
    rw [eq]
    show b - 4 - 8 + 8 = b - 4
    omega
  have length : (handlerWords s.cpu.regs (L.hwint i + 5) (b + 48) ++ [L.restartReenter]).length =
    17 := rfl
  have from_ (x : Nat) (high : b - 4 ≤ x) : (s.cpu.hwint L i).mem x = stored s.cpu.mem (b + 64)
      (handlerWords s.cpu.regs (L.hwint i + 5) (b + 48) ++ [L.restartReenter]) x := by
    rw [mem]
    exact stored_outside (by show 4 * 2 ≤ b - 4; omega) (.inr high)
  have way : (s.cpu.hwint L i).mem (b - 4) = L.restartReenter := by
    rw [from_ _ (le_refl _)]
    exact stored_get _ (k := 16) (by omega) (by rw [length]; omega) (by omega)
  have regs : handlerRegs (s.cpu.hwint L i).mem b a.live.ss = a.live := by
    rw [handlerRegs_congr fun j _ => from_ (b + j) (by omega), handlerRegs_words _ _ _
      (by show 4 * 1 ≤ b; omega), ← esp, ← holds.live]
  have outside (x : Nat) (out : x < b - 12 ∨ b + 64 ≤ x) :
      (s.cpu.hwint L i).mem x = s.cpu.mem x := by
    rw [mem, stored_outside (by show 4 * 2 ≤ b - 4; omega) (by show x < b - 4 - 4 * 2 ∨ _; omega),
      stored_outside (by rw [length]; omega) (by rw [length]; omega)]
  have frames : SameFrames L s.cpu.mem (s.cpu.hwint L i).mem :=
    sameFrames_stack fun x out => outside x (by omega)
  constructor
  case live => rfl
  case ready =>
    rw [← holds.ready]
    show (s.cpu.hwint L i).pProcReady = _
    rw [eq]
  case isProc => exact holds.isProc
  case depth =>
    show (s.cpu.hwint L i).kReenter = ((a.nest.length + 1 : Nat) : Int) - 1
    rw [eq]
    show s.cpu.kReenter + 1 = _
    rw [holds.depth]
    omega
  case saved =>
    intro b' isProc _
    exact (frames.regs isProc).trans (holds.saved b' isProc fun none_ => absurd none_ handling)
  case user => exact fun none_ => nomatch none_
  case stack =>
    intro _
    show StackHolds L _ (_ :: s.active) (.handler i a.live :: a.nest)
    have below : StackHolds L (s.cpu.hwint L i).mem _ _ :=
      stack.congr fun x high _ => outside x (by omega)
    rw [active]
    refine ⟨rfl, ?_, ?_, cs, ss, ?_, below⟩
    · show (s.cpu.hwint L i).mem ((s.cpu.hwint L i).regs.esp + 8) = _
      rw [bottom]
      exact way
    · show handlerRegs (s.cpu.hwint L i).mem ((s.cpu.hwint L i).regs.esp + 8 + 4) _ = _
      rw [bottom, show b - 4 + 4 = b by omega]
      exact regs
    · show (s.cpu.hwint L i).regs.esp + 8 + 4 + espReg ≤ act.bottom
      omega
  case kernel =>
    intro _
    refine ⟨?_, ?_, runs, ?_⟩
    · show (s.cpu.hwint L i).regs.cs = _
      rw [eq]
    · show (s.cpu.hwint L i).regs.ss = _
      rw [eq]
      exact (congrArg Regs.ss holds.live).trans ss
    · rintro _ _ ⟨⟩
      exact Nat.le_add_right ..

end Entries

section Exits

variable {L : Layout} {s : Machine} {a : Contexts.Machine Nat Regs Nat} {m : Cpu}

theorem restart_eq (m : Cpu) : m.restart =
    { m with
      ldt := m.mem (m.pProcReady + pLdtSel) % 65536
      sp0 := m.pProcReady + pStackTop
      kReenter := m.kReenter - 1
      regs := if m.mem (m.pProcReady + csReg) % 4 = 0 then handlerRegs m.mem m.pProcReady m.regs.ss
        else frameRegs m.mem m.pProcReady } := by
  rw [Cpu.restart, restartReenter_eq]
  rfl

theorem holds_restart (isProc : IsProc L m.pProcReady) (kReenter : m.kReenter = 0)
    {saved : Nat → Regs} (frames : ∀ b, IsProc L b → frameRegs m.mem b = saved b)
    (runs : (saved m.pProcReady).cs % 4 ≠ 0) :
    Holds L ⟨m.restart, []⟩ ⟨saved m.pProcReady, m.pProcReady, saved, []⟩ := by
  have frame := frames _ isProc
  have user : m.mem (m.pProcReady + csReg) % 4 ≠ 0 := by
    have cs : (frameRegs m.mem m.pProcReady).cs % 4 ≠ 0 := by
      rw [frame]
      exact runs
    exact cs
  have eq := restart_eq m
  rw [if_neg user, frame] at eq
  rw [eq]
  constructor
  case live => rfl
  case ready => rfl
  case isProc => exact isProc
  case depth =>
    show m.kReenter - 1 = _
    rw [kReenter]
    rfl
  case saved => exact fun b isProc _ => frames b isProc
  case user => exact fun _ => ⟨rfl, runs, rfl, rfl⟩
  case stack => exact fun some_ => absurd rfl some_
  case kernel => exact fun some_ => absurd rfl some_

theorem hwintEnd_eq (m : Cpu) (i : Nat) : ∃ eax eflags, m.hwintEnd i =
    { m with
      regs := { m.regs with
        ecx := m.mem (m.regs.esp + 4 * 0), eax := eax, eflags := eflags
        eip := m.mem (m.regs.esp + 4 * 1), esp := m.regs.esp + 4 * 1 + 4 * 1 }
      imr := Function.update m.imr i false } := by
  rw [Cpu.hwintEnd]
  simp only [Cpu.withRegs, Cpu.drop, Cpu.setIf, Cpu.setMask, Cpu.setAl, Cpu.jump, Cpu.arg]
  exact ⟨_, _, rfl⟩

theorem sysCallEnd_eq (m : Cpu) : ∃ eflags, m.sysCallEnd =
    { m with
      regs := { m.regs with
        esi := m.mem (m.regs.esp + 16), eflags := eflags
        eip := Function.update m.mem (m.mem (m.regs.esp + 16) + eaxReg) m.regs.eax
          (m.regs.esp + 20)
        esp := m.regs.esp + 24 }
      mem := Function.update m.mem (m.mem (m.regs.esp + 16) + eaxReg) m.regs.eax } := by
  rw [Cpu.sysCallEnd]
  simp only [Cpu.withRegs, Cpu.drop, Cpu.setIf, Cpu.jump, Cpu.arg]
  exact ⟨_, rfl⟩

theorem goOn_restart (eip : m.regs.eip = L.restart) : m.goOn L = m.restart := if_pos eip

theorem goOn_reenter (eip : m.regs.eip = L.restartReenter) : m.goOn L = m.restartReenter := by
  have other : ¬ m.regs.eip = L.restart := by
    rw [eip]
    exact L.different.symm
  rw [Cpu.goOn, if_neg other, if_pos eip]

-- The innermost handler ends: what it interrupted goes on.
theorem Holds.unnested (holds : Holds L s a) {i : Nat} {c : Regs}
    {nest : List (Suspended Nat Regs Nat)} (inner : a.nest = .handler i c :: nest) {act : Active}
    {rest : List Active} (active : s.active = act :: rest)
    (returned : s.cpu.regs.esp + 4 * argWords act.cause = act.bottom) :
    Holds L ⟨(s.cpu.finish act.cause).goOn L, rest⟩ { a with live := c, nest := nest } := by
  have handling : a.nest ≠ [] := by simp [inner]
  have stack := holds.stack handling
  rw [active, inner] at stack
  obtain ⟨cs, ss, runs, -⟩ := holds.kernel handling
  cases rest with
  | nil => exact absurd stack id
  | cons outer rest =>
    obtain ⟨cause, back, regs, cCs, cSs, above, below⟩ := stack
    rw [cause] at returned
    have place : s.cpu.regs.esp + 4 * 1 = act.bottom := returned
    obtain ⟨eax, eflags, eq⟩ := hwintEnd_eq s.cpu i
    have finished : s.cpu.finish act.cause = s.cpu.hwintEnd i := by rw [cause]; rfl
    have esp : (s.cpu.hwintEnd i).regs.esp = act.bottom + 4 := by
      rw [eq, ← place]
    have mem : (s.cpu.hwintEnd i).mem = s.cpu.mem := by rw [eq]
    have stays : (s.cpu.hwintEnd i).regs.ss = c.ss := by
      rw [eq, cSs, ← ss, ← holds.live]
    have eip : (s.cpu.hwintEnd i).regs.eip = L.restartReenter := by
      rw [eq, ← back, ← place]
    have ring : s.cpu.mem (act.bottom + 4 + csReg) % 4 = 0 := by
      have ring' : (handlerRegs s.cpu.mem (act.bottom + 4) c.ss).cs % 4 = 0 := by
        rw [regs, cCs]
        exact L.ring0
      exact ring'
    rw [finished, goOn_reenter eip, restartReenter_eq, esp, mem, if_pos ring, stays, regs]
    have some_ : nest ≠ [] := below.nest_ne
    constructor
    case live => rfl
    case ready =>
      rw [← holds.ready]
      show (s.cpu.hwintEnd i).pProcReady = _
      rw [eq]
    case isProc => exact holds.isProc
    case depth =>
      have depth := holds.depth
      rw [inner, List.length_cons] at depth
      show (s.cpu.hwintEnd i).kReenter - 1 = _
      rw [eq]
      show s.cpu.kReenter - 1 = _
      rw [depth]
      push_cast
      ring
    case saved =>
      intro b isProc _
      exact holds.saved b isProc fun none_ => absurd none_ handling
    case user => exact fun none_ => absurd none_ some_
    case stack => exact fun _ => below
    case kernel =>
      intro _
      refine ⟨cCs, cSs, runs, ?_⟩
      rintro _ _ ⟨⟩
      have same : c.esp = act.bottom + 4 + espReg := by rw [← regs]; rfl
      show c.esp ≤ outer.bottom
      rw [same]
      exact above

-- The outermost entry ends: the process that has been chosen goes on.
theorem Holds.resumed (holds : Holds L s a) {b : Nat} {cause : Cause Nat}
    (outer : a.nest = [.process b cause]) {act : Active} {rest : List Active}
    (active : s.active = act :: rest)
    (returned : s.cpu.regs.esp + 4 * argWords act.cause = act.bottom) :
    Holds L ⟨(s.cpu.finish act.cause).goOn L, rest⟩
      ⟨a.finished withEax b cause a.ready, a.ready, a.finished withEax b cause, []⟩ := by
  have handling : a.nest ≠ [] := by simp [outer]
  have stack := holds.stack handling
  rw [active, outer] at stack
  obtain ⟨-, -, runs, -⟩ := holds.kernel handling
  have depth : s.cpu.kReenter = 0 := by rw [holds.depth, outer]; rfl
  have size := L.stackSize
  have frames (b' : Nat) (isProc : IsProc L b') : frameRegs s.cpu.mem b' = a.saved b' :=
    holds.saved b' isProc fun none_ => absurd none_ handling
  cases rest with
  | cons outer rest => exact absurd stack id
  | nil =>
    obtain ⟨same, isProc, back, place⟩ := stack
    have finished : s.cpu.finish act.cause = s.cpu.finish cause := by rw [same]
    rw [same] at returned
    rw [finished]
    cases cause with
    | line i =>
      have bottom : act.bottom = L.stackTop - 4 := place
      have top : s.cpu.regs.esp + 4 * 1 = L.stackTop - 4 := returned.trans bottom
      obtain ⟨eax, eflags, eq⟩ := hwintEnd_eq s.cpu i
      have eip : (s.cpu.hwintEnd i).regs.eip = L.restart := by
        rw [eq, ← back, ← top]
      have ready : (s.cpu.hwintEnd i).pProcReady = a.ready := by
        rw [eq]
        exact holds.ready
      show Holds L ⟨(s.cpu.hwintEnd i).goOn L, []⟩ ⟨a.saved a.ready, a.ready, a.saved, []⟩
      rw [goOn_restart eip, ← ready]
      refine holds_restart (ready ▸ holds.isProc) ?_ ?_ (by rw [ready]; exact runs)
      · rw [eq]
        exact depth
      · intro b' isProc'
        rw [eq]
        exact frames b' isProc'
    | call =>
      obtain ⟨bottom, esi⟩ := place
      have top : s.cpu.regs.esp + 16 = L.stackTop - 8 := returned.trans bottom
      have top' : s.cpu.regs.esp + 20 = L.stackTop - 4 := by omega
      have off := isProc.off_stack
      simp only [show pLdtSel = 72 from rfl] at off
      have eaxPlace : eaxReg = 44 := rfl
      obtain ⟨eflags, eq⟩ := sysCallEnd_eq s.cpu
      rw [top, top', esi] at eq
      have eip : s.cpu.sysCallEnd.regs.eip = L.restart := by
        rw [eq]
        exact (Function.update_of_ne (by omega) ..).trans back
      have ready : s.cpu.sysCallEnd.pProcReady = a.ready := by
        rw [eq]
        exact holds.ready
      have after (b' : Nat) (isProc' : IsProc L b') :
          frameRegs s.cpu.sysCallEnd.mem b' = a.finished withEax b .call b' := by
        rw [eq]
        show frameRegs (Function.update s.cpu.mem (b + eaxReg) s.cpu.regs.eax) b' =
          Function.update a.saved b (withEax (a.saved b) a.live) b'
        by_cases self : b' = b
        next =>
          subst self
          rw [Function.update_self, ← frames b' isProc', ← holds.live, withEax]
          have word (j : Nat) (other : j ≠ eaxReg) :
              Function.update s.cpu.mem (b' + eaxReg) s.cpu.regs.eax (b' + j) =
                s.cpu.mem (b' + j) :=
            Function.update_of_ne (by omega) ..
          simp only [frameRegs]
          rw [word gsReg (by decide), word fsReg (by decide), word esReg (by decide),
            word dsReg (by decide), word ediReg (by decide), word esiReg (by decide),
            word ebpReg (by decide), word ebxReg (by decide), word edxReg (by decide),
            word ecxReg (by decide), word eipReg (by decide), word csReg (by decide),
            word eflagsReg (by decide), word espReg (by decide), word ssReg (by decide),
            Function.update_self]
        next =>
          rw [Function.update_of_ne self, ← frames b' isProc']
          have away := isProc'.apart isProc self
          simp only [show pLdtSel = 72 from rfl] at away
          refine frameRegs_congr fun j below => Function.update_of_ne ?_ ..
          have small : j < 72 := below
          omega
      have runs' : (a.finished withEax b .call a.ready).cs % 4 ≠ 0 := by
        show (Function.update a.saved b (withEax (a.saved b) a.live) a.ready).cs % 4 ≠ 0
        by_cases self : a.ready = b
        next =>
          rw [← self, Function.update_self]
          exact runs
        next =>
          rw [Function.update_of_ne self]
          exact runs
      show Holds L ⟨s.cpu.sysCallEnd.goOn L, []⟩ _
      rw [goOn_restart eip, ← ready]
      refine holds_restart (ready ▸ holds.isProc) ?_ after (by rw [ready]; exact runs')
      rw [eq]
      exact depth

end Exits

end Konix.Entry
