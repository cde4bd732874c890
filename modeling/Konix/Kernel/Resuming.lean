import Konix.Kernel.Nesting

set_option autoImplicit false

namespace Konix.Entry

open Contexts Runs

section Simulation

variable {L : Layout} {s s' : Machine} {a : Contexts.Machine Nat Regs Nat} {e : Event Nat Nat}

theorem Holds.user_of_active (holds : Holds L s a) (user : s.active = []) : a.nest = [] := by
  by_contra handling
  obtain ⟨act, rest, active⟩ := holds.active_cons handling
  rw [user] at active
  cases active

theorem Holds.line_enters (holds : Holds L s a) (user : a.nest = []) (i : Nat) :
    Holds L ⟨s.cpu.hwint L i, ⟨.line i, (s.cpu.hwint L i).regs.esp + 8⟩ :: s.active⟩
      ⟨(s.cpu.hwint L i).regs, a.ready, Function.update a.saved a.ready a.live,
        [.process a.ready (.line i)]⟩ := by
  obtain ⟨active, ring, sp0, -⟩ := holds.user user
  have size := L.stackSize
  have off := holds.isProc.off_stack
  have way : a.ready + retAdr ≠ L.stackTop - 4 := by
    simp only [show retAdr = 48 from rfl, show pLdtSel = 72 from rfl] at off ⊢
    omega
  have first : s.cpu.kReenter = -1 := by rw [holds.depth, user]; rfl
  have entered := entered_process L (L.hwint i) (by rw [holds.live]; exact ring) sp0 first way
  have eq := hwint_eq L i entered
  have esp : (s.cpu.hwint L i).regs.esp + 8 = L.stackTop - 4 := by
    rw [eq]
    show L.stackTop - 4 - 8 + 8 = L.stackTop - 4
    omega
  rw [active]
  refine holds.suspended user (L.hwint i) [i, L.hwintBack i] ?_
    (by show 2 ≤ 6; omega) ?_ ?_ ?_ ?_ (Nat.le_add_right ..) rfl esp
  · rw [eq, entered]
  · rw [eq]
  · rw [eq]
  · rw [eq]
  · rw [eq]

theorem Holds.call_enters (holds : Holds L s a) (user : a.nest = []) :
    Holds L ⟨s.cpu.sysCall L, [⟨.call, (s.cpu.sysCall L).regs.esp + 20⟩]⟩
      ⟨(s.cpu.sysCall L).regs, a.ready, Function.update a.saved a.ready a.live,
        [.process a.ready .call]⟩ := by
  obtain ⟨active, ring, sp0, -⟩ := holds.user user
  have size := L.stackSize
  have off := holds.isProc.off_stack
  have way : a.ready + retAdr ≠ L.stackTop - 4 := by
    simp only [show retAdr = 48 from rfl, show pLdtSel = 72 from rfl] at off ⊢
    omega
  have first : s.cpu.kReenter = -1 := by rw [holds.depth, user]; rfl
  have entered := entered_process L L.sysCall (by rw [holds.live]; exact ring) sp0 first way
  have eq := sysCall_eq L entered
  have esp : (s.cpu.sysCall L).regs.esp + 20 = L.stackTop - 8 := by
    rw [eq]
    show L.stackTop - 4 - 24 + 20 = L.stackTop - 8
    omega
  have frame : (s.cpu.sysCall L).mem (L.stackTop - 8) = a.ready := by
    rw [eq]
    exact stored_get _ (k := 0) (by show 4 * 6 ≤ L.stackTop - 4; omega) (by show 0 < 6; omega) (by
      show L.stackTop - 8 + 4 * (0 + 1) = L.stackTop - 4
      omega)
  refine holds.suspended user L.sysCall
    [a.ready, s.cpu.pProcReady, s.cpu.regs.edx, s.cpu.regs.ecx, s.cpu.regs.ebx, L.sysCallBack]
    ?_ (by show 6 ≤ 6; omega) ?_ ?_ ?_ ?_ (Nat.le_add_right ..) rfl ⟨esp, frame⟩
  · rw [eq, entered]
  · rw [eq]
  · rw [eq]
  · rw [eq]
  · rw [eq]

theorem Holds.computed (holds : Holds L s a) (user : a.nest = []) {m : Cpu}
    (computes : Computes L s.cpu m) : Holds L ⟨m, s.active⟩ { a with live := m.regs } := by
  obtain ⟨active, -, sp0, ldt⟩ := holds.user user
  constructor
  case live => rfl
  case ready => exact computes.ready.trans holds.ready
  case isProc => exact holds.isProc
  case depth => exact computes.kReenter.trans holds.depth
  case saved =>
    exact fun b isProc away => (computes.frames.regs isProc).trans (holds.saved b isProc away)
  case user =>
    refine fun _ => ⟨active, computes.user, computes.sp0.trans sp0, ?_⟩
    show m.ldt = m.mem (a.ready + pLdtSel) % 65536
    rw [computes.ldt, ldt, computes.frames _ holds.isProc pLdtSel (by decide)]
  case stack => exact fun handling => absurd user handling
  case kernel => exact fun handling => absurd user handling

theorem Holds.patched (holds : Holds L s a) (user : a.nest = []) {m : Cpu} {b : Nat}
    (patches : Patches L b s.cpu m) : Holds L ⟨m, s.active⟩
      { a with saved := Function.update a.saved b (frameRegs m.mem b) } := by
  obtain ⟨active, ring, sp0, ldt⟩ := holds.user user
  have rest := patches.rest
  have other : a.ready ≠ b := by
    rw [← holds.ready]
    exact patches.other.symm
  constructor
  case live =>
    show m.regs = a.live
    rw [rest]
    exact holds.live
  case ready =>
    show m.pProcReady = a.ready
    rw [rest]
    exact holds.ready
  case isProc => exact holds.isProc
  case depth =>
    show m.kReenter = _
    rw [rest]
    exact holds.depth
  case saved =>
    intro b' isProc away
    show frameRegs m.mem b' = Function.update a.saved b (frameRegs m.mem b) b'
    by_cases here : b' = b
    next =>
      subst here
      rw [Function.update_self]
    next =>
      rw [Function.update_of_ne here, ← holds.saved b' isProc away]
      exact frameRegs_congr fun j below => patches.frames b' isProc here j (by omega)
  case user =>
    refine fun _ => ⟨active, ring, ?_, ?_⟩
    · show m.sp0 = _
      rw [rest]
      exact sp0
    · have word := patches.frames _ holds.isProc other pLdtSel (by decide)
      show m.ldt = m.mem (a.ready + pLdtSel) % 65536
      rw [word, ← ldt, rest]
  case stack => exact fun handling => absurd user handling
  case kernel => exact fun handling => absurd user handling

theorem Holds.handled (holds : Holds L s a) (handling : a.nest ≠ []) {m : Cpu} {act : Active}
    {rest : List Active} (inner : s.active = act :: rest)
    (handles : Handles L act.bottom s.cpu m) :
    Holds L ⟨m, s.active⟩ { a with live := m.regs, ready := m.pProcReady } := by
  obtain ⟨cs, ss, -, -⟩ := holds.kernel handling
  have stack := holds.stack handling
  have frames (b : Nat) (isProc : IsProc L b) : frameRegs m.mem b = a.saved b :=
    (handles.frames.regs isProc).trans (holds.saved b isProc fun none_ => absurd none_ handling)
  constructor
  case live => rfl
  case ready => rfl
  case isProc => exact handles.isProc
  case depth => exact handles.kReenter.trans holds.depth
  case saved => exact fun b isProc _ => frames b isProc
  case user => exact fun none_ => absurd none_ handling
  case stack =>
    intro _
    show StackHolds L m.mem s.active a.nest
    rw [inner] at stack ⊢
    exact stack.congr handles.kept
  case kernel =>
    intro _
    refine ⟨?_, ?_, ?_, ?_⟩
    · rw [← cs, ← holds.live]
      exact handles.cs
    · rw [← ss, ← holds.live]
      exact handles.ss
    · show (a.saved m.pProcReady).cs % 4 ≠ 0
      rw [← frames _ handles.isProc]
      exact handles.runs
    · intro act' rest' active
      have same : s.active = act' :: rest' := active
      rw [inner] at same
      cases same
      exact handles.stack

/-- Each step of the processor is a step between the contexts that its memory holds. -/
theorem holds_step (holds : Holds L s a) (step : Step L s e s') :
    ∃ a', Contexts.Step withEax a e a' ∧ Holds L s' a' := by
  cases step with
  | @line i isLine on unmasked cascade room =>
    by_cases user : a.nest = []
    next => exact ⟨_, .suspend _ user, holds.line_enters user i⟩
    next =>
      obtain ⟨act, rest, active⟩ := holds.active_cons user
      exact ⟨_, .nest _ user,
        holds.nested user i (room (by rw [active]; exact List.cons_ne_nil _ _))⟩
  | call user =>
    have none_ := holds.user_of_active user
    exact ⟨_, .suspend _ none_, holds.call_enters none_⟩
  | run user computes =>
    have none_ := holds.user_of_active user
    exact ⟨_, .run _ none_, holds.computed none_ computes⟩
  | patch user patches =>
    have none_ := holds.user_of_active user
    refine ⟨_, .patch _ none_ ?_, holds.patched none_ patches⟩
    rw [← holds.ready]
    exact patches.other
  | @handle m act rest inner handles =>
    have handling : a.nest ≠ [] := by
      intro none_
      rw [(holds.user none_).1] at inner
      cases inner
    exact ⟨_, .handle _ _ handling, holds.handled handling inner handles⟩
  | @leave act rest inner returned =>
    have handling : a.nest ≠ [] := by
      intro none_
      rw [(holds.user none_).1] at inner
      cases inner
    have stack := holds.stack handling
    rw [inner] at stack
    cases nest : a.nest with
    | nil => exact absurd nest handling
    | cons top below =>
      cases top with
      | handler i c => exact ⟨_, .unnest nest, holds.unnested nest inner returned⟩
      | process b cause =>
        rw [nest] at stack
        have last : below = [] := by
          cases rest with
          | nil =>
            cases below with
            | nil => rfl
            | cons _ _ => exact absurd stack id
          | cons _ _ => exact absurd stack id
        subst last
        exact ⟨_, .resume nest, holds.resumed nest inner returned⟩

theorem holds_booted (booted : Booted L s) : ∃ a, True ∧ Holds L s a := by
  obtain ⟨m, kReenter, isProc, runs, rfl⟩ := booted
  exact ⟨_, trivial, holds_restart isProc kReenter (fun _ _ => rfl) runs⟩

end Simulation

def linesOf (active : List Active) : List Nat :=
  active.filterMap fun act =>
    match act.cause with
    | .line i => some i
    | .call => none

/--
The controllers mask what the processes have masked, and the lines whose handlers have begun; each
of these was open. A system call can only be the outermost entry.
-/
structure Masked (base : Nat → Bool) (s : Machine) : Prop where
  masks : ∀ i, s.cpu.imr i = true ↔ base i = true ∨ i ∈ linesOf s.active
  open_ : ∀ i, i ∈ linesOf s.active → i < 16 ∧ base i = false
  distinct : (linesOf s.active).Nodup
  few : s.active.length ≤ (linesOf s.active).length + 1
  calls : ∀ act ∈ s.active.dropLast, act.cause ≠ .call

section Masks

variable {L : Layout} {s s' : Machine} {e : Event Nat Nat} {m : Cpu} {base : Nat → Bool}

theorem withRegs_imr (m : Cpu) (f : Regs → Regs) : (m.withRegs f).imr = m.imr := rfl

theorem push_imr (m : Cpu) (v : Nat) : (m.push v).imr = m.imr := rfl

theorem pushAll_imr (m : Cpu) (vs : List Nat) : (m.pushAll vs).imr = m.imr := by
  rw [pushAll_eq]

theorem interrupt_imr (L : Layout) (handler : Nat) (m : Cpu) :
    (m.interrupt L handler).imr = m.imr := by
  simp only [Cpu.interrupt, Cpu.setIf, withRegs_imr, pushAll_imr]
  split
  next => rfl
  next => rw [pushAll_imr, withRegs_imr]

theorem switchStack_imr (L : Layout) (m : Cpu) : (m.switchStack L).imr = m.imr := by
  rw [Cpu.switchStack]
  split
  next => rw [push_imr, withRegs_imr]
  next => rw [push_imr]

theorem save_imr (L : Layout) (from_ : Nat) (m : Cpu) : (m.save L from_).imr = m.imr := by
  simp only [Cpu.save, Cpu.jump, Cpu.pushad, withRegs_imr, switchStack_imr, pushAll_imr, push_imr]

theorem hwint_imr (L : Layout) (i : Nat) (m : Cpu) :
    (m.hwint L i).imr = Function.update m.imr i true := by
  rw [hwint_eq L i rfl]
  show Function.update ((m.interrupt L (L.hwint i)).save L (L.hwint i)).imr i true = _
  rw [save_imr, interrupt_imr]

theorem sysCall_imr (L : Layout) (m : Cpu) : (m.sysCall L).imr = m.imr := by
  rw [sysCall_eq L rfl]
  show ((m.interrupt L L.sysCall).save L L.sysCall).imr = _
  rw [save_imr, interrupt_imr]

theorem goOn_imr (L : Layout) (m : Cpu) : (m.goOn L).imr = m.imr := by
  rw [Cpu.goOn]
  split
  next => rw [restart_eq]
  next =>
    split
    next => rw [restartReenter_eq]
    next => rfl

theorem linesOf_line {act : Active} {i : Nat} (cause : act.cause = .line i) (rest : List Active) :
    linesOf (act :: rest) = i :: linesOf rest := by
  simp only [linesOf, List.filterMap_cons, cause]

theorem linesOf_call {act : Active} (cause : act.cause = .call) (rest : List Active) :
    linesOf (act :: rest) = linesOf rest := by
  simp only [linesOf, List.filterMap_cons, cause]

theorem masked_process (user : s.active = []) : Masked s.cpu.imr s := by
  constructor
  case masks => simp [user, linesOf]
  case open_ => simp [user, linesOf]
  case distinct => simp [user, linesOf]
  case few => simp [user]
  case calls => simp [user]

theorem Masked.lined (masked : Masked base s) {i bottom : Nat} (isLine : i < 16)
    (unmasked : s.cpu.imr i = false) :
    Masked base ⟨s.cpu.hwint L i, ⟨.line i, bottom⟩ :: s.active⟩ := by
  have new : ¬ (base i = true ∨ i ∈ linesOf s.active) := by
    rw [← masked.masks, unmasked]
    exact Bool.false_ne_true
  have lines : linesOf (⟨.line i, bottom⟩ :: s.active) = i :: linesOf s.active := linesOf_line rfl _
  constructor
  case masks =>
    intro j
    show (s.cpu.hwint L i).imr j = true ↔ _ ∨ j ∈ linesOf (_ :: s.active)
    rw [hwint_imr, lines, List.mem_cons]
    by_cases here : j = i
    next => simp [here]
    next =>
      rw [Function.update_of_ne here, masked.masks]
      simp [here]
  case open_ =>
    show ∀ j, j ∈ linesOf (_ :: s.active) → _
    rw [lines]
    intro j member
    rcases List.mem_cons.mp member with rfl | member
    · exact ⟨isLine, by simpa using fun on => new (.inl on)⟩
    · exact masked.open_ j member
  case distinct =>
    show (linesOf (_ :: s.active)).Nodup
    rw [lines]
    exact List.nodup_cons.mpr ⟨fun member => new (.inr member), masked.distinct⟩
  case few =>
    show s.active.length + 1 ≤ (linesOf (_ :: s.active)).length + 1
    rw [lines, List.length_cons]
    exact Nat.succ_le_succ masked.few
  case calls =>
    intro act member
    cases active : s.active with
    | nil => simp [active] at member
    | cons outer rest =>
      rw [active, List.dropLast_cons_cons] at member
      rcases List.mem_cons.mp member with rfl | member
      · exact fun call => nomatch call
      · exact masked.calls act (by rwa [active])

theorem Masked.left (masked : Masked base s) {act : Active} {rest : List Active}
    (inner : s.active = act :: rest) :
    Masked base ⟨(s.cpu.finish act.cause).goOn L, rest⟩ := by
  have masks := masked.masks
  have open_ := masked.open_
  have distinct := masked.distinct
  have few := masked.few
  have calls := masked.calls
  rw [inner] at masks open_ distinct few calls
  cases cause : act.cause with
  | call =>
    have last : rest = [] := by
      cases rest with
      | nil => rfl
      | cons outer rest => exact absurd cause (calls act (by simp))
    subst last
    rw [linesOf_call cause] at masks
    constructor
    case masks =>
      intro i
      show ((s.cpu.finish .call).goOn L).imr i = true ↔ _
      rw [goOn_imr]
      exact masks i
    case open_ => simp [linesOf]
    case distinct => simp [linesOf]
    case few => simp
    case calls => simp
  | line i =>
    rw [linesOf_line cause] at masks open_ distinct few
    obtain ⟨eax, eflags, eq⟩ := hwintEnd_eq s.cpu i
    obtain ⟨notLater, later⟩ := List.nodup_cons.mp distinct
    constructor
    case masks =>
      intro j
      show ((s.cpu.hwintEnd i).goOn L).imr j = true ↔ base j = true ∨ j ∈ linesOf rest
      rw [goOn_imr, eq]
      show Function.update s.cpu.imr i false j = true ↔ _
      by_cases here : j = i
      next =>
        subst here
        rw [Function.update_self, (open_ j List.mem_cons_self).2]
        simp [notLater]
      next =>
        rw [Function.update_of_ne here, masks, List.mem_cons]
        simp [here]
    case open_ => exact fun j member => open_ j (List.mem_cons_of_mem _ member)
    case distinct => exact later
    case few =>
      rw [List.length_cons, List.length_cons] at few
      exact Nat.le_of_succ_le_succ few
    case calls =>
      cases rest with
      | nil => simp
      | cons outer rest => exact fun act' member => calls act' (List.mem_cons_of_mem _ member)

theorem Masked.step (masked : Masked base s) (step : Step L s e s')
    (kept : s.active = [] → e ≠ .compute) : Masked base s' := by
  cases step with
  | line isLine on unmasked cascade room => exact masked.lined isLine unmasked
  | call user =>
    have lines (bottom : Nat) : linesOf [⟨.call, bottom⟩] = linesOf s.active := by rw [user]; rfl
    refine ⟨fun i => ?_, by rw [lines]; exact masked.open_, by rw [lines]; exact masked.distinct,
      by show 1 ≤ _; omega, by simp⟩
    show (s.cpu.sysCall L).imr i = true ↔ _
    rw [sysCall_imr, lines]
    exact masked.masks i
  | run user computes => exact absurd rfl (kept user)
  | patch user patches =>
    refine ⟨fun i => ?_, masked.open_, masked.distinct, masked.few, masked.calls⟩
    rw [patches.rest]
    exact masked.masks i
  | handle inner handles =>
    refine ⟨fun i => ?_, masked.open_, masked.distinct, masked.few, masked.calls⟩
    show _ = true ↔ _
    rw [handles.imr]
    exact masked.masks i
  | leave inner returned => exact masked.left inner

/-- In every state some masks of the processes are under those of the handlers. -/
theorem masked_step (masked : Masked base s) (step : Step L s e s') :
    ∃ base', Masked base' s' := by
  by_cases kept : s.active = [] → e ≠ .compute
  next => exact ⟨base, masked.step step kept⟩
  next =>
    push Not at kept
    obtain ⟨user, rfl⟩ := kept
    cases step with
    | run _ computes => exact ⟨_, masked_process user⟩
    | handle inner handles =>
      rw [user] at inner
      cases inner

end Masks

section Runs

variable {L : Layout} {s : Machine} {a : Contexts.Machine Nat Regs Nat}

-- The entry that a suspended context waits for.
def causeOf : Suspended Nat Regs Nat → Cause Nat
  | .process _ cause => cause
  | .handler i _ => .line i

theorem StackHolds.causes {mem : Nat → Nat} {active : List Active}
    {nest : List (Suspended Nat Regs Nat)} (holds : StackHolds L mem active nest) :
    active.map Active.cause = nest.map causeOf := by
  induction active generalizing nest with
  | nil => exact absurd holds id
  | cons act rest ih =>
    match rest, nest, holds with
    | [], [.process b cause], ⟨same, _⟩ => simp [same, causeOf]
    | outer :: rest, .handler i c :: nest, ⟨same, _, _, _, _, _, below⟩ =>
      have outerCauses := ih below
      rw [List.map_cons, List.map_cons (l := nest), outerCauses, same]
      rfl

theorem Holds.causes (holds : Holds L s a) : s.active.map Active.cause = a.nest.map causeOf := by
  by_cases user : a.nest = []
  next => rw [user, (holds.user user).1]; rfl
  next => exact (holds.stack user).causes

theorem Holds.nest_nil (holds : Holds L s a) : a.nest = [] ↔ s.cpu.kReenter = -1 := by
  rw [holds.depth, ← List.length_eq_zero_iff]
  omega

theorem Holds.active_nil (holds : Holds L s a) : s.active = [] ↔ s.cpu.kReenter = -1 := by
  rw [← holds.nest_nil, ← List.map_eq_nil_iff (f := Active.cause), holds.causes,
    List.map_eq_nil_iff]

theorem linesOf_causes (active : List Active) :
    linesOf active = (active.map Active.cause).filterMap fun
      | .line i => some i
      | .call => none := by
  rw [List.filterMap_map]
  rfl

variable (run : Run (Booted L) (Step L))

theorem held : ∃ run' : Run (fun _ => True) (Contexts.Step withEax),
    run'.length = run.length ∧ (∀ t, run'.act t = run.act t) ∧
      ∀ t, t ≤ run.length → Holds L (run.state t) (run'.state t) :=
  run.simulated id (fun _ booted => holds_booted booted)
    fun _ _ _ _ holds step => holds_step holds step

theorem masked_always : ∀ t, t ≤ run.length → ∃ base, Masked base (run.state t) := by
  refine run.invariant (P := fun s => ∃ base, Masked base s) ?_
    fun _ _ _ masked step => masked_step masked.choose_spec step
  rintro _ ⟨m, -, -, -, rfl⟩
  exact ⟨_, masked_process rfl⟩

theorem masked_from {base : Nat → Bool} {t k : Nat} (within : t + k ≤ run.length)
    (masked : Masked base (run.state t))
    (kept : ∀ u, t ≤ u → u < t + k → (run.state u).active = [] → run.act u ≠ .compute) :
    Masked base (run.state (t + k)) := by
  induction k with
  | zero => exact masked
  | succ k ih =>
    have before := ih (by omega) fun u from_ upTo => kept u from_ (by omega)
    exact before.step (run.steps (t + k) (by omega)) (kept (t + k) (by omega) (by omega))

theorem Masked.ext {base : Nat → Bool} {s s' : Machine} (masked : Masked base s)
    (masked' : Masked base s') (lines : linesOf s.active = linesOf s'.active) :
    s'.cpu.imr = s.cpu.imr := by
  funext i
  rw [Bool.eq_iff_iff, masked.masks, masked'.masks, lines]

end Runs

def smallLayout : Layout where
  procTable := 0
  procSize := 100
  stackSpace := 4096
  stackTop := 6144
  kernelCs := 8
  kernelDs := 16
  hwint := fun i => 10000 + 100 * i
  irqTable := fun i => 20000 + 100 * i
  hwintBack := fun i => 10050 + 100 * i
  sysCall := 30000
  sysCallTable := fun i => 40000 + 100 * i
  sysCallBack := 30050
  restart := 50000
  restartReenter := 50050
  stackSize := by decide
  frame := by decide
  apart := by decide
  ring0 := by decide
  different := by decide

def smallCpu : Cpu where
  regs := ⟨0, 0, 0, 0, 0, 0, 0, 0, 0, 0, 0, 0, 0, 0, 0, 0⟩
  ldt := 0
  mem := fun a => if a % 100 = csReg then 5 else if a % 100 = eflagsReg then 0x1202 else a
  kReenter := 0
  pProcReady := 0
  sp0 := 0
  imr := fun i => i == 5

-- A handler that does no more than choose who goes on has returned.
def chosen (s : Machine) (b : Nat) : Machine :=
  ⟨{ s.cpu.drop 1 with pProcReady := b }, s.active⟩

def enterLine (s : Machine) (i : Nat) : Machine :=
  ⟨s.cpu.hwint smallLayout i, ⟨.line i, (s.cpu.hwint smallLayout i).regs.esp + 8⟩ :: s.active⟩

def enterCall (s : Machine) : Machine :=
  ⟨s.cpu.sysCall smallLayout, [⟨.call, (s.cpu.sysCall smallLayout).regs.esp + 20⟩]⟩

def leaveInner (s : Machine) : Machine :=
  match s.active with
  | [] => s
  | act :: rest => ⟨(s.cpu.finish act.cause).goOn smallLayout, rest⟩

-- A process makes a call, which the keyboard interrupts; it waits for another one, which the clock
-- interrupts in its turn.
def callTurn : Nat → Machine → Machine
  | 0, s => enterCall s
  | 1, s => enterLine s 1
  | 2, s => chosen s 0
  | 4, s => chosen s 100
  | 6, s => enterLine s 0
  | 7, s => chosen s 0
  | _, s => leaveInner s

def callState : Nat → Machine
  | 0 => ⟨smallCpu.restart, []⟩
  | t + 1 => callTurn t (callState t)

def callEvent : Nat → Event Nat Nat
  | 0 => .enter .call
  | 1 => .enter (.line 1)
  | 2 => .compute
  | 4 => .compute
  | 6 => .enter (.line 0)
  | 7 => .compute
  | _ => .leave

theorem step_chosen {s : Machine} {act : Active} {rest : List Active} {b : Nat}
    (inner : s.active = act :: rest) (stack : s.cpu.regs.esp + 4 ≤ act.bottom)
    (isProc : IsProc smallLayout b) (runs : s.cpu.mem (b + csReg) % 4 ≠ 0) :
    Step smallLayout s .compute (chosen s b) :=
  .handle inner ⟨stack, fun _ _ _ => rfl, fun _ _ _ _ => rfl, rfl, rfl, rfl, rfl, rfl, rfl, isProc,
    runs⟩

theorem step_leaveInner {s : Machine} {act : Active} {rest : List Active}
    (inner : s.active = act :: rest)
    (returned : s.cpu.regs.esp + 4 * argWords act.cause = act.bottom) :
    Step smallLayout s .leave (leaveInner s) := by
  rw [leaveInner, inner]
  exact .leave inner returned

theorem callStep (t : Nat) (within : t < 9) :
    Step smallLayout (callState t) (callEvent t) (callState (t + 1)) := by
  have first : IsProc smallLayout 0 := ⟨0, by decide, rfl⟩
  have second : IsProc smallLayout 100 := ⟨1, by decide, rfl⟩
  match t with
  | 0 => exact .call rfl
  | 1 =>
    exact .line (by decide) (by decide +kernel) (by decide +kernel) (by decide +kernel)
      fun _ => by decide +kernel
  | 2 => exact step_chosen (by rfl) (by decide +kernel) first (by decide +kernel)
  | 3 => exact step_leaveInner (by rfl) (by decide +kernel)
  | 4 => exact step_chosen (by rfl) (by decide +kernel) second (by decide +kernel)
  | 5 => exact step_leaveInner (by rfl) (by decide +kernel)
  | 6 =>
    exact .line (by decide) (by decide +kernel) (by decide +kernel) (by decide +kernel)
      fun some_ => absurd (by decide +kernel) some_
  | 7 => exact step_chosen (by rfl) (by decide +kernel) first (by decide +kernel)
  | 8 => exact step_leaveInner (by rfl) (by decide +kernel)

def callRun : Run (Booted smallLayout) (Step smallLayout) where
  length := 9
  state := callState
  act := callEvent
  start := ⟨smallCpu, rfl, ⟨0, by decide, rfl⟩, by decide, rfl⟩
  steps := callStep

/--
A process that an interrupt or a system call stops goes on, when it is chosen again, with the
registers it had, and after a call with the result in `eax`: whatever handlers came on top of each
other, and whatever other processes did meanwhile. The processor has its segments and saves its
registers in its entry of `proc_table[]` the next time.
-/
theorem interrupted_process_resumes {L : Layout} (run : Run (Booted L) (Step L)) {t n m : Nat}
    (within : t + 1 + n + m < run.length) {cause : Cause Nat} (enters : run.act t = .enter cause)
    (user : (run.state t).cpu.kReenter = -1)
    (handling : ∀ u, t < u → u ≤ t + 1 + n → (run.state u).cpu.kReenter ≠ -1)
    (returned : (run.state (t + 1 + n + 1)).cpu.kReenter = -1)
    (waiting : ∀ u, t + 1 + n < u → u ≤ t + 1 + n + m → (run.state u).cpu.kReenter = -1 →
      (run.state u).cpu.pProcReady ≠ (run.state t).cpu.pProcReady)
    (unpatched : ∀ u, t + 1 + n < u → u ≤ t + 1 + n + m →
      run.act u ≠ .patch (run.state t).cpu.pProcReady)
    (resumes : (run.state (t + 1 + n + m + 1)).cpu.kReenter = -1)
    (turn : (run.state (t + 1 + n + m + 1)).cpu.pProcReady = (run.state t).cpu.pProcReady) :
    let resumed := (run.state (t + 1 + n + m + 1)).cpu
    resumed.regs =
        cause.leaves withEax (run.state t).cpu.regs (run.state (t + 1 + n)).cpu.regs ∧
      resumed.sp0 = resumed.pProcReady + pStackTop ∧
      resumed.ldt = resumed.mem (resumed.pProcReady + pLdtSel) % 65536 := by
  intro resumed
  obtain ⟨run', length, acts, holds⟩ := held run
  have nest (u : Nat) (upTo : u ≤ run.length) := (holds u upTo).nest_nil
  have ready (u : Nat) (upTo : u ≤ run.length) := (holds u upTo).ready
  have live (u : Nat) (upTo : u ≤ run.length) := (holds u upTo).live
  have goesOn := process_resumes run' (t := t) (n := n) (m := m) (by omega)
    ((acts t).trans enters) ((nest t (by omega)).mpr user)
    (fun u after upTo none_ => handling u after upTo ((nest u (by omega)).mp none_))
    ((nest _ (by omega)).mpr returned)
    (fun u after upTo none_ => by
      rw [← ready u (by omega), ← ready t (by omega)]
      exact waiting u after upTo ((nest u (by omega)).mp none_))
    (fun u after upTo => by
      rw [acts, ← ready t (by omega)]
      exact unpatched u after upTo)
    ((nest _ (by omega)).mpr resumes)
    (by rw [← ready _ (by omega), ← ready t (by omega)]; exact turn)
  have last := holds (t + 1 + n + m + 1) (by omega)
  obtain ⟨-, -, sp0, ldt⟩ := last.user ((nest _ (by omega)).mpr resumes)
  rw [← last.ready] at sp0 ldt
  refine ⟨?_, sp0, ldt⟩
  rw [live _ (by omega), live t (by omega), live (t + 1 + n) (by omega)]
  exact goesOn

theorem interrupted_process_resumes_call :
    (callRun.state 9).cpu.regs =
        withEax (callRun.state 0).cpu.regs (callRun.state 5).cpu.regs ∧
      (callRun.state 9).cpu.sp0 = (callRun.state 9).cpu.pProcReady + pStackTop ∧
      (callRun.state 9).cpu.ldt =
        (callRun.state 9).cpu.mem ((callRun.state 9).cpu.pProcReady + pLdtSel) % 65536 :=
  interrupted_process_resumes callRun (t := 0) (n := 4) (m := 3) (by decide) rfl
    (by decide +kernel)
    (fun u after upTo => by interval_cases u <;> decide +kernel)
    (by decide +kernel)
    (fun u after upTo => by interval_cases u <;> decide +kernel)
    (fun u after upTo => by interval_cases u <;> exact fun same => nomatch same)
    (by decide +kernel) (by decide +kernel)

/--
A handler that is interrupted goes on with its registers and with the masks there were, however
deep the nesting gets meanwhile.
-/
theorem interrupted_handler_resumes {L : Layout} (run : Run (Booted L) (Step L)) {t n : Nat}
    (within : t + 1 + n < run.length) {cause : Cause Nat} (enters : run.act t = .enter cause)
    (handling : (run.state t).cpu.kReenter ≠ -1)
    (deeper : ∀ u, t < u → u ≤ t + 1 + n →
      (run.state t).cpu.kReenter < (run.state u).cpu.kReenter)
    (back : (run.state (t + 1 + n + 1)).cpu.kReenter = (run.state t).cpu.kReenter) :
    (run.state (t + 1 + n + 1)).cpu.regs = (run.state t).cpu.regs ∧
      (run.state (t + 1 + n + 1)).cpu.imr = (run.state t).cpu.imr := by
  obtain ⟨run', length, acts, holds⟩ := held run
  have depth (u : Nat) (upTo : u ≤ run.length) := (holds u upTo).depth
  have goesOn := handler_resumes run' (t := t) (n := n) (by omega) ((acts t).trans enters)
    (fun none_ => handling ((holds t (by omega)).nest_nil.mp none_))
    (fun u after upTo => by
      have more := deeper u after upTo
      rw [depth u (by omega), depth t (by omega)] at more
      omega)
    (by
      rw [depth _ (by omega), depth t (by omega)] at back
      omega)
  refine ⟨?_, ?_⟩
  · rw [(holds _ (by omega)).live, (holds t (by omega)).live]
    exact goesOn.1
  · obtain ⟨base, masked⟩ := masked_always run t (by omega)
    have nested (u : Nat) (from_ : t ≤ u) (upTo : u < t + (1 + n + 1)) :
        (run.state u).active ≠ [] := by
      intro none_
      have user := (holds u (by omega)).active_nil.mp none_
      by_cases first : u = t
      next => exact handling (first ▸ user)
      next =>
        have more := deeper u (by omega) (by omega)
        have least := depth t (by omega)
        omega
    have last : t + (1 + n + 1) = t + 1 + n + 1 := by omega
    have after := masked_from run (by omega) masked fun u from_ upTo none_ =>
      absurd none_ (nested u from_ upTo)
    rw [last] at after
    refine masked.ext after ?_
    rw [linesOf_causes, linesOf_causes, (holds t (by omega)).causes,
      (holds (t + 1 + n + 1) (by omega)).causes, goesOn.2]

theorem interrupted_handler_resumes_call :
    (callRun.state 4).cpu.regs = (callRun.state 1).cpu.regs ∧
      (callRun.state 4).cpu.imr = (callRun.state 1).cpu.imr :=
  interrupted_handler_resumes callRun (t := 1) (n := 1) (by decide) rfl
    (by decide +kernel)
    (fun u after upTo => by
      obtain rfl | rfl : u = 2 ∨ u = 3 := by omega
      · decide +kernel
      · decide +kernel)
    (by decide +kernel)

/--
Sixteen handlers on top of a system call are the most there can be: the line of a handler is masked
until it ends, and no line has two handlers. A process that has been interrupted finds the masks as
they were.
-/
theorem handlers_bounded {L : Layout} (run : Run (Booted L) (Step L)) :
    (∀ t, t ≤ run.length → -1 ≤ (run.state t).cpu.kReenter ∧ (run.state t).cpu.kReenter ≤ 16 ∧
      (linesOf (run.state t).active).Nodup ∧
      ∀ i, i ∈ linesOf (run.state t).active → i < 16 ∧ (run.state t).cpu.imr i = true) ∧
    ∀ t n cause, t + 1 + n < run.length → run.act t = .enter cause →
      (run.state t).cpu.kReenter = -1 →
      (∀ u, t < u → u ≤ t + 1 + n → (run.state u).cpu.kReenter ≠ -1) →
      (run.state (t + 1 + n + 1)).cpu.kReenter = -1 →
      (run.state (t + 1 + n + 1)).cpu.imr = (run.state t).cpu.imr := by
  obtain ⟨run', length, acts, holds⟩ := held run
  refine ⟨fun t within => ?_, fun t n cause within enters user handling returned => ?_⟩
  · obtain ⟨base, masked⟩ := masked_always run t within
    have causes := congrArg List.length (holds t within).causes
    rw [List.length_map, List.length_map] at causes
    have depth := (holds t within).depth
    have lines : (linesOf (run.state t).active).length ≤ (List.range 16).length := by
      refine (masked.distinct.subperm fun i member => ?_).length_le
      exact List.mem_range.mpr (masked.open_ i member).1
    rw [List.length_range] at lines
    have few := masked.few
    exact ⟨by omega, by omega, masked.distinct, fun i member =>
      ⟨(masked.open_ i member).1, (masked.masks i).mpr (.inr member)⟩⟩
  · have none_ := (holds t (by omega)).active_nil.mpr user
    have last : t + (1 + n + 1) = t + 1 + n + 1 := by omega
    have after := masked_from run (k := 1 + n + 1) (by omega) (masked_process none_) (by
      intro u from_ upTo active
      by_cases first : u = t
      next =>
        rw [first, enters]
        exact fun compute => nomatch compute
      next =>
        have inside := handling u (by omega) (by omega)
        exact absurd ((holds u (by omega)).active_nil.mp active) inside)
    rw [last] at after
    refine (masked_process none_).ext after ?_
    rw [none_, (holds (t + 1 + n + 1) (by omega)).active_nil.mpr returned]

theorem handlers_bounded_call : (callRun.state 6).cpu.imr = (callRun.state 0).cpu.imr :=
  (handlers_bounded callRun).2 0 4 .call (by decide) rfl (by decide +kernel)
    (fun u after upTo => by interval_cases u <;> decide +kernel) (by decide +kernel)

end Konix.Entry
