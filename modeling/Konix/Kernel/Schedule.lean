import Konix.Kernel.Frame
import Konix.Lib.Greatest
import Konix.Lib.Run

set_option autoImplicit false

namespace Konix.Kernel

open Runs

-- The fields of the process table that the scheduler uses are kept beside the kernel's state.
structure Scheduled where
  kernel : State
  ticks : Int → Int
  priority : Int → Int
  pProcReady : Int
  clock : Int
  keyPressed : Bool

def procs : List Int := (List.range (nrTasks + nrProcs)).map Int.ofNat

namespace Scheduled

def Runs (s : Scheduled) (p : Int) : Prop := (s.kernel.procTable p).pFlags = .clear

instance (s : Scheduled) : DecidablePred s.Runs := fun p =>
  inferInstanceAs (Decidable ((s.kernel.procTable p).pFlags = .clear))

def setTicks (s : Scheduled) (p n : Int) : Scheduled :=
  { s with ticks := Function.update s.ticks p n }

def choose (s : Scheduled) : Int × Int := Greatest.scan s.Runs s.ticks procs (0, s.pProcReady)

def refill (s : Scheduled) : Scheduled :=
  procs.foldl (fun s p => if s.Runs p then s.setTicks p (s.priority p) else s) s

-- The loop of `schedule()`, one turn for each unit of fuel.
def scheduleFrom : Nat → Scheduled → Option Scheduled
  | 0, _ => none
  | fuel + 1, s =>
    let (greatestTicks, ready) := s.choose
    let s := { s with pProcReady := ready }
    if greatestTicks ≠ 0 then some s else scheduleFrom fuel s.refill

-- A loop that has not ended after two turns never ends, as one refill is like another.
def schedule (s : Scheduled) : Option Scheduled := scheduleFrom 2 s

def onKernel (s : Scheduled) (outcome : Except Halted State) : Except Halted Scheduled := do
  let k ← outcome
  return { s with kernel := k }

def block (s : Scheduled) (p : Int) : Except Halted Scheduled := do
  s.kernel.assertThat ((s.kernel.procTable p).pFlags ≠ .clear)
  match s.schedule with
  | some s => return s
  | none => .error ⟨.hang, s.kernel⟩

def sendLater (s : Scheduled) (sender dest : Int) (m : Nat) : Except Halted Scheduled := do
  let k := s.kernel.modify sender Proc.sends
  k.assertThat ((k.procTable sender).pFlags = .onlySending)
  let k := k.modify sender (Proc.sendsTo dest m)
  let k ← enqueue k sender dest
  let s ← block { s with kernel := k } sender
  assertSending s.kernel sender dest
  return s

def msgSend (s : Scheduled) (sender dest : Int) (m : Nat) : Except Halted Scheduled := do
  let k := s.kernel
  k.assertThat (sender ≠ dest)
  match deadlock k.procTable sender loopFuel dest with
  | none => .error ⟨.hang, k⟩
  | some true => .error ⟨.deadlock, k⟩
  | some false =>
    let pDest := k.procTable dest
    if pDest.pFlags.receiving ∧ (pDest.pRecvfrom = sender ∨ pDest.pRecvfrom = any) then
      s.onKernel (sendNow k sender dest m)
    else s.sendLater sender dest m

def receiveLater (s : Scheduled) (who src : Int) (m : Nat) : Except Halted Scheduled := do
  let s ← block { s with kernel := setReceiving s.kernel who src m } who
  assertReceiving s.kernel who
  return s

def msgReceive (s : Scheduled) (who src : Int) (m : Nat) : Except Halted Scheduled := do
  let k := s.kernel
  k.assertThat (who ≠ src)
  if takesInterrupt k who src then s.onKernel (receiveInterrupt k who m)
  else
    match ← findSender k who src with
    | some (from_, prev) => s.onKernel (takeMessage k who from_ prev m)
    | none => s.receiveLater who src m

-- The caller is the process that runs.
def sysSendrec (s : Scheduled) (function : Function) (srcDest : Int) (m : Nat) :
    Except Halted Scheduled := do
  let k := s.kernel
  let caller := s.pProcReady
  k.assertThat (0 ≤ srcDest ∧ srcDest < nrTasks + nrProcs ∨ srcDest = any ∨ srcDest = interrupt)
  let mla ← va2la k caller m
  let k := { k with mem := Function.update k.mem mla { k.mem mla with source := caller } }
  k.assertThat (caller ≠ srcDest)
  match function with
  | .send => msgSend { s with kernel := k } caller srcDest m
  | .receive => msgReceive { s with kernel := k } caller srcDest m
  | .both => .error ⟨.panic, k⟩

def tick (s : Scheduled) : Scheduled :=
  let s := { s with clock := if s.clock + 1 ≥ maxTicks then 0 else s.clock + 1 }
  if s.ticks s.pProcReady ≠ 0 then s.setTicks s.pProcReady (s.ticks s.pProcReady - 1) else s

-- A key wakes the TTY.
def wakeTty (k : State) (keyPressed : Bool) : Except Halted State :=
  if keyPressed then informInt k taskTty else .ok k

def clockHandler (s : Scheduled) (kReenter : Int) : Except Halted Scheduled := do
  let s := s.tick
  let s ← s.onKernel (wakeTty s.kernel s.keyPressed)
  if kReenter ≠ 0 then return s
  else if s.ticks s.pProcReady > 0 then return s
  else
    match s.schedule with
    | some s => return s
    | none => .error ⟨.hang, s.kernel⟩

end Scheduled

theorem mem_procs {p : Int} : p ∈ procs ↔ InTable p := by
  rw [procs, List.mem_map]
  constructor
  · rintro ⟨n, inside, rfl⟩
    exact ⟨Int.natCast_nonneg n, Int.ofNat_lt.mpr (List.mem_range.mp inside)⟩
  · rintro ⟨nonneg, bound⟩
    exact ⟨p.toNat, List.mem_range.mpr (by omega), Int.toNat_of_nonneg nonneg⟩

def Runnable (s : Scheduled) : Prop :=
  ∃ p, InTable p ∧ s.Runs p ∧ (0 < s.ticks p ∨ 0 < s.priority p)

def refilled (s : Scheduled) (p : Int) : Int :=
  if InTable p ∧ s.Runs p then s.priority p else s.ticks p

-- What `schedule()` leaves: the table keeps its flags, and is refilled at most once.
structure Chosen (s s' : Scheduled) : Prop where
  inTable : InTable s'.pProcReady
  runs : s.Runs s'.pProcReady
  positive : 0 < s'.ticks s'.pProcReady
  greatest : ∀ p, InTable p → s.Runs p → s'.ticks p ≤ s'.ticks s'.pProcReady
  once : s'.ticks = s.ticks ∨ s'.ticks = refilled s
  blocked : ∀ p, ¬ s.Runs p → s'.ticks p = s.ticks p
  others : s' = { s with ticks := s'.ticks, pProcReady := s'.pProcReady }

namespace Scheduled

variable {s s' : Scheduled}

theorem choose_spec (s : Scheduled) :
    (s.choose = (0, s.pProcReady) ∧ ∀ p, InTable p → s.Runs p → s.ticks p ≤ 0) ∨
      (0 < s.choose.1 ∧ InTable s.choose.2 ∧ s.Runs s.choose.2 ∧ s.ticks s.choose.2 = s.choose.1 ∧
        ∀ p, InTable p → s.Runs p → s.ticks p ≤ s.choose.1) := by
  have greatest (p : Int) (inTable : InTable p) (runs : s.Runs p) : s.ticks p ≤ s.choose.1 :=
    Greatest.le_scan (mem_procs.mpr inTable) runs
  obtain same | ⟨more, inside, runs, is_⟩ :=
    @Greatest.scan_found _ s.Runs _ s.ticks procs (0, s.pProcReady)
  · refine .inl ⟨same, fun p inTable runs => ?_⟩
    have bound := greatest p inTable runs
    rwa [choose, same] at bound
  · exact .inr ⟨more, mem_procs.mp inside, runs, is_, greatest⟩

theorem refill_eq (s : Scheduled) : s.refill = { s with ticks := refilled s } := by
  have fold (list : List Int) : ∀ s : Scheduled,
      list.foldl (fun s p => if s.Runs p then s.setTicks p (s.priority p) else s) s =
        { s with ticks := fun p => if p ∈ list ∧ s.Runs p then s.priority p else s.ticks p } := by
    induction list with
    | nil => exact fun s => by simp only [List.foldl_nil, List.not_mem_nil, false_and, if_false]
    | cons q rest ih =>
      intro s
      rw [List.foldl_cons, ih]
      by_cases runs : s.Runs q
      next =>
        rw [if_pos runs]
        show Scheduled.mk _ _ _ _ _ _ = Scheduled.mk _ _ _ _ _ _
        congr 1
        funext p
        show (if p ∈ rest ∧ s.Runs p then s.priority p
          else Function.update s.ticks q (s.priority q) p) = _
        by_cases same : p = q
        next =>
          subst same
          rw [Function.update_self, ite_self, if_pos ⟨List.mem_cons_self, runs⟩]
        next =>
          rw [Function.update_of_ne same]
          simp only [List.mem_cons, same, false_or]
      next =>
        rw [if_neg runs]
        show Scheduled.mk _ _ _ _ _ _ = Scheduled.mk _ _ _ _ _ _
        congr 1
        funext p
        by_cases same : p = q
        next =>
          subst same
          rw [if_neg fun both => runs both.2, if_neg fun both => runs both.2]
        next => simp only [List.mem_cons, same, false_or]
  rw [refill, fold]
  show Scheduled.mk _ _ _ _ _ _ = Scheduled.mk _ _ _ _ _ _
  congr 1
  funext p
  simp only [mem_procs, refilled]

theorem scheduleFrom_ends {fuel : Nat} (found : 0 < s.choose.1) :
    scheduleFrom (fuel + 1) s = some { s with pProcReady := s.choose.2 } := by
  rw [scheduleFrom]
  exact if_pos found.ne'

theorem scheduleFrom_again {fuel : Nat} (none_ : s.choose = (0, s.pProcReady)) :
    scheduleFrom (fuel + 1) s = scheduleFrom fuel s.refill := by
  rw [scheduleFrom, none_]
  exact if_neg (not_not_intro rfl)

theorem refilled_runs {p : Int} (inTable : InTable p) (runs : s.Runs p) :
    refilled s p = s.priority p := if_pos ⟨inTable, runs⟩

theorem schedule_chosen (done : s.schedule = some s') : Chosen s s' := by
  rw [schedule] at done
  obtain ⟨none_, -⟩ | ⟨found, inTable, runs, is_, greatest⟩ := s.choose_spec
  next =>
    rw [scheduleFrom_again none_] at done
    obtain ⟨none_', -⟩ | ⟨found, inTable, runs, is_, greatest⟩ := s.refill.choose_spec
    next =>
      rw [scheduleFrom_again none_'] at done
      cases done
    next =>
      rw [scheduleFrom_ends found] at done
      have filled := s.refill_eq
      generalize s.refill = r at done found inTable runs is_ greatest filled
      subst filled
      cases done
      exact ⟨inTable, runs, is_ ▸ found, fun p inside runs' => is_ ▸ greatest p inside runs',
        .inr rfl, fun p stopped => if_neg fun both => stopped both.2, rfl⟩
  next =>
    rw [scheduleFrom_ends found] at done
    cases done
    exact ⟨inTable, runs, is_ ▸ found, fun p inside runs' => is_ ▸ greatest p inside runs',
      .inl rfl, fun _ _ => rfl, rfl⟩

theorem schedule_returns (runnable : Runnable s) : ∃ s', s.schedule = some s' := by
  rw [schedule]
  obtain ⟨none_, idle⟩ | ⟨found, -⟩ := s.choose_spec
  next =>
    rw [scheduleFrom_again none_]
    obtain ⟨-, idle'⟩ | ⟨found, -⟩ := s.refill.choose_spec
    next =>
      obtain ⟨p, inTable, runs, some_⟩ := runnable
      have empty := idle p inTable runs
      rw [refill_eq] at idle'
      have low : refilled s p ≤ 0 := idle' p inTable runs
      rw [refilled_runs inTable runs] at low
      omega
    next => exact ⟨_, scheduleFrom_ends found⟩
  next => exact ⟨_, scheduleFrom_ends found⟩

theorem refill_refill (s : Scheduled) : s.refill.refill = s.refill := by
  rw [refill_eq s.refill]
  have filled := s.refill_eq
  generalize s.refill = r at filled ⊢
  subst filled
  show Scheduled.mk _ _ _ _ _ _ = Scheduled.mk _ _ _ _ _ _
  congr 1
  funext p
  show (if InTable p ∧ s.Runs p then s.priority p else refilled s p) = refilled s p
  rw [refilled]
  split_ifs <;> rfl

-- If two turns do not end the loop, no number of turns does.
theorem schedule_endless (endless : s.schedule = none) (fuel : Nat) :
    scheduleFrom fuel s = none := by
  have barren {r : Scheduled} (none_ : r.choose = (0, r.pProcReady)) (again : r.refill = r)
      (fuel : Nat) : scheduleFrom fuel r = none := by
    induction fuel with
    | zero => rfl
    | succ fuel ih => rw [scheduleFrom_again none_, again, ih]
  rw [schedule] at endless
  obtain ⟨none_, -⟩ | ⟨found, -⟩ := s.choose_spec
  next =>
    rw [scheduleFrom_again none_] at endless
    obtain ⟨none_', -⟩ | ⟨found, -⟩ := s.refill.choose_spec
    next =>
      cases fuel with
      | zero => rfl
      | succ fuel =>
        rw [scheduleFrom_again none_]
        exact barren none_' s.refill_refill fuel
    next =>
      rw [scheduleFrom_ends found] at endless
      cases endless
  next =>
    rw [scheduleFrom_ends found] at endless
    cases endless

end Scheduled

-- No process is stopped: those that run go on.
def Wakes (k k' : State) : Prop :=
  ∀ p, (k.procTable p).pFlags = .clear → (k'.procTable p).pFlags = .clear

namespace Wakes

variable {k k' k'' : State}

theorem trans (first : Wakes k k') (second : Wakes k' k'') : Wakes k k'' :=
  fun p runs => second p (first p runs)

theorem withMem (mem : Nat → Message) : Wakes k { k with mem := mem } := fun _ runs => runs

theorem modify (p : Int) {f : Proc → Proc}
    (keeps : ∀ proc : Proc, proc.pFlags = .clear → (f proc).pFlags = .clear) :
    Wakes k (k.modify p f) := by
  intro q runs
  rw [State.modify_apply]
  split_ifs with same
  · subst same
    exact keeps _ runs
  · exact runs

theorem dequeue {who from_ : Int} {prev : Option Int}
    (done : Kernel.dequeue k who from_ prev = .ok k') : Wakes k k' := by
  have link (k : State) (p : Int) (link : Option Int) : Wakes k (k.setNext p link) :=
    modify p fun _ runs => runs
  obtain rfl | ⟨p, rfl⟩ := dequeue_ok done
  · have head : Wakes k (k.setHead who (k.next from_)) := modify who fun _ runs => runs
    exact head.trans (link _ from_ none)
  · exact (link k p _).trans (link _ from_ none)

theorem takeMessage {who from_ : Int} {prev : Option Int} {m : Nat}
    (done : Kernel.takeMessage k who from_ prev m = .ok k') : Wakes k k' := by
  obtain ⟨unlinked, dst, src, unlinks, rfl⟩ := takeMessage_ok done
  refine ((dequeue unlinks).trans (withMem _)).trans (modify from_ fun proc runs => ?_)
  rw [Proc.sent, runs]
  rfl

theorem sendNow {sender dest : Int} {m : Nat} (done : Kernel.sendNow k sender dest m = .ok k') :
    Wakes k k' := by
  obtain ⟨dst, src, rfl⟩ := sendNow_ok done
  refine (withMem _).trans (modify dest fun proc runs => ?_)
  rw [Proc.received, runs]
  rfl

theorem receiveInterrupt {who : Int} {m : Nat}
    (done : Kernel.receiveInterrupt k who m = .ok k') : Wakes k k' := by
  obtain ⟨mem, rfl⟩ := receiveInterrupt_ok done
  exact (withMem mem).trans (modify who fun _ runs => runs)

theorem informInt {taskNr : Int} (done : Kernel.informInt k taskNr = .ok k') : Wakes k k' := by
  obtain ⟨-, mem, rfl⟩ | rfl := informInt_ok done
  · refine (withMem mem).trans (modify taskNr fun proc runs => ?_)
    show { proc.pFlags with receiving := false } = _
    rw [runs]
    rfl
  · exact modify taskNr fun _ runs => runs

theorem wakeTty {keyPressed : Bool} (done : Scheduled.wakeTty k keyPressed = .ok k') :
    Wakes k k' := by
  unfold Scheduled.wakeTty at done
  split at done
  · exact informInt done
  · cases done
    exact fun _ runs => runs

end Wakes

-- The scheduler has not been called and no process is stopped, or it has made the last choice.
def After (s s' : Scheduled) : Prop :=
  (s' = { s with kernel := s'.kernel } ∧ Wakes s.kernel s'.kernel) ∨
    Chosen { s with kernel := s'.kernel } s'

/--
The call does to the kernel what it does without a scheduler; and it returns if there is a process
to choose once the kernel's part has been done.
-/
structure Refines (s : Scheduled) (outcome : Except Halted Scheduled)
    (erased : Except Halted State) : Prop where
  returned : ∀ s', outcome = .ok s' → erased = .ok s'.kernel ∧ After s s'
  returns : ∀ k', erased = .ok k' → Runnable { s with kernel := k' } →
    ∃ s', outcome = .ok s' ∧ s'.kernel = k'

namespace Refines

variable {s : Scheduled}

theorem error (halted halted' : Halted) : Refines s (.error halted) (.error halted') := by
  constructor <;> intro _ is_ <;> cases is_

theorem onKernel {erased : Except Halted State}
    (wakes : ∀ k', erased = .ok k' → Wakes s.kernel k') :
    Refines s (s.onKernel erased) erased := by
  cases erased with
  | error halted => exact error halted halted
  | ok k =>
    constructor
    · intro s' is_
      cases is_
      exact ⟨rfl, .inl ⟨rfl, wakes k rfl⟩⟩
    · intro k' is_ _
      cases is_
      exact ⟨_, rfl, rfl⟩

theorem before {α : Type} {step : Except Halted α} {f : α → Except Halted Scheduled}
    {g : α → Except Halted State} (rest : ∀ a, step = .ok a → Refines s (f a) (g a)) :
    Refines s (step >>= f) (step >>= g) := by
  cases step with
  | error halted => exact error halted halted
  | ok a => exact rest a rfl

theorem moved {k : State} {outcome : Except Halted Scheduled} {erased : Except Halted State}
    (refines : Refines { s with kernel := k } outcome erased) (wakes : Wakes s.kernel k) :
    Refines s outcome erased := by
  refine ⟨fun s' done => ?_, refines.returns⟩
  obtain ⟨same, ⟨kept, wakes'⟩ | chosen⟩ := refines.returned s' done
  · exact ⟨same, .inl ⟨kept, wakes.trans wakes'⟩⟩
  · exact ⟨same, .inr chosen⟩

-- Behind `block()` there are only assertions about the kernel.
theorem block {k : State} (p : Int) (check : State → Except Halted Unit) :
    Refines s
      (do let s' ← Scheduled.block { s with kernel := k } p; check s'.kernel; return s')
      (do Kernel.block k p; check k; return k) := by
  unfold Scheduled.block Kernel.block
  cases asserts : k.assertThat ((k.procTable p).pFlags ≠ .clear) with
  | error halted => exact error halted halted
  | ok u =>
    cases found : Scheduled.schedule { s with kernel := k } with
    | none =>
      constructor
      · intro s' is_
        cases is_
      · intro k' is_ runnable
        obtain ⟨_, -, is_⟩ := bind_ok is_
        obtain ⟨_, checks, is_⟩ := bind_ok is_
        cases is_
        obtain ⟨s', returns⟩ := Scheduled.schedule_returns runnable
        cases found.symm.trans returns
    | some s₁ =>
      have chosen := Scheduled.schedule_chosen found
      have same : s₁.kernel = k := by rw [chosen.others]
      subst same
      show Refines s (check s₁.kernel >>= fun _ => .ok s₁)
          (check s₁.kernel >>= fun _ => .ok s₁.kernel)
      refine before fun _ _ => ⟨fun s' is_ => ?_, fun k' is_ _ => ?_⟩
      · cases is_
        exact ⟨rfl, .inr chosen⟩
      · cases is_
        exact ⟨s₁, rfl, rfl⟩

theorem sendLater (s : Scheduled) (sender dest : Int) (m : Nat) :
    Refines s (s.sendLater sender dest m) (Kernel.sendLater s.kernel sender dest m) :=
  before fun _ _ => before fun _ _ => block sender fun k => assertSending k sender dest

theorem receiveLater (s : Scheduled) (who src : Int) (m : Nat) :
    Refines s (s.receiveLater who src m) (Kernel.receiveLater s.kernel who src m) :=
  block who fun k => assertReceiving k who

theorem msgSend (s : Scheduled) (sender dest : Int) (m : Nat) :
    Refines s (s.msgSend sender dest m) (Kernel.msgSend s.kernel sender dest m) := by
  refine before fun _ _ => ?_
  cases deadlock s.kernel.procTable sender loopFuel dest with
  | none => exact error _ _
  | some cycle =>
    cases cycle with
    | true => exact error _ _
    | false =>
      show Refines s (if _ then _ else _) (if _ then _ else _)
      split_ifs
      · exact onKernel fun _ => Wakes.sendNow
      · exact sendLater s sender dest m

theorem msgReceive (s : Scheduled) (who src : Int) (m : Nat) :
    Refines s (s.msgReceive who src m) (Kernel.msgReceive s.kernel who src m) := by
  refine before fun _ _ => ?_
  by_cases takes : takesInterrupt s.kernel who src = true
  next =>
    rw [if_pos takes, if_pos takes]
    exact onKernel fun _ => Wakes.receiveInterrupt
  next =>
    rw [if_neg takes, if_neg takes]
    refine before fun sender _ => ?_
    cases sender with
    | none => exact receiveLater s who src m
    | some found => exact onKernel fun _ => Wakes.takeMessage

theorem sysSendrec (s : Scheduled) (function : Function) (srcDest : Int) (m : Nat) :
    Refines s (s.sysSendrec function srcDest m)
      (Kernel.sysSendrec s.kernel function srcDest m s.pProcReady) := by
  refine before fun _ _ => before fun mla _ => before fun _ _ => ?_
  cases function with
  | send => exact (msgSend { s with kernel := _ } _ srcDest m).moved (Wakes.withMem _)
  | receive => exact (msgReceive { s with kernel := _ } _ srcDest m).moved (Wakes.withMem _)
  | both => exact error _ _

theorem choose (s : Scheduled) :
    Refines s (match s.schedule with
      | some s => Except.ok s
      | none => .error ⟨.hang, s.kernel⟩) (.ok s.kernel) := by
  cases found : s.schedule with
  | none =>
    constructor
    · intro s' is_
      cases is_
    · intro k' is_ runnable
      cases is_
      obtain ⟨s', returns⟩ := Scheduled.schedule_returns runnable
      cases found.symm.trans returns
  | some s₁ =>
    have chosen := Scheduled.schedule_chosen found
    have same : s₁.kernel = s.kernel := by rw [chosen.others]
    refine ⟨fun s' is_ => ?_, fun k' is_ _ => ?_⟩
    · cases is_
      rw [same]
      refine ⟨rfl, .inr ?_⟩
      rw [same]
      exact chosen
    · cases is_
      exact ⟨s₁, rfl, same⟩

theorem clockHandler (s : Scheduled) (kReenter : Int) :
    Refines s.tick (s.clockHandler kReenter)
      (Scheduled.wakeTty s.tick.kernel s.tick.keyPressed) := by
  have rest (s₁ : Scheduled) : Refines s₁
      (if kReenter ≠ 0 then .ok s₁
        else if s₁.ticks s₁.pProcReady > 0 then .ok s₁
        else match s₁.schedule with
          | some s => Except.ok s
          | none => .error ⟨.hang, s₁.kernel⟩)
      (.ok s₁.kernel) := by
    have same : Refines s₁ (.ok s₁) (.ok s₁.kernel) :=
      @onKernel s₁ (.ok s₁.kernel) fun k is_ => by cases is_; exact fun _ runs => runs
    split_ifs
    · exact same
    · exact same
    · exact choose s₁
  unfold Scheduled.clockHandler
  cases wakes : Scheduled.wakeTty s.tick.kernel s.tick.keyPressed with
  | error halted =>
    simp only [wakes]
    exact error halted halted
  | ok k =>
    simp only [wakes]
    exact (rest { s.tick with kernel := k }).moved (Wakes.wakeTty wakes)

end Refines

def ReadyRuns (s : Scheduled) : Prop := InTable s.pProcReady ∧ s.Runs s.pProcReady

theorem After.readyRuns {s s' : Scheduled} (after : After s s') (ready : ReadyRuns s) :
    ReadyRuns s' := by
  obtain ⟨same, wakes⟩ | chosen := after
  · rw [same]
    exact ⟨ready.1, wakes _ ready.2⟩
  · exact ⟨chosen.inTable, chosen.runs⟩

theorem Scheduled.tick_readyRuns {s : Scheduled} (ready : ReadyRuns s) : ReadyRuns s.tick := by
  rw [tick]
  split_ifs <;> exact ready

def booted (kBase kLimit : Nat) (mem : Nat → Message) : Scheduled where
  kernel := kernelMain kBase kLimit mem
  ticks := fun i => if i < nrTasks then 15 else if i < nrTasks + nrNativeProcs then 5 else 0
  priority := fun i => if i < nrTasks then 15 else if i < nrTasks + nrNativeProcs then 5 else 0
  pProcReady := 0
  clock := 0
  keyPressed := false

theorem booted_readyRuns (kBase kLimit : Nat) (mem : Nat → Message) :
    ReadyRuns (booted kBase kLimit mem) :=
  ⟨show InTable 0 by decide, rfl⟩

-- The steps of the machine, the last being what happens outside the kernel: to memory and keys.
inductive Turn
  | sysSendrec (function : Function) (srcDest : Int) (m : Nat)
  | clockHandler (kReenter : Int)
  | outside (mem : Nat → Message) (keyPressed : Bool)

def Turns (s : Scheduled) : Turn → Scheduled → Prop
  | .sysSendrec function srcDest m, s' => s.sysSendrec function srcDest m = .ok s'
  | .clockHandler kReenter, s' => s.clockHandler kReenter = .ok s'
  | .outside mem keyPressed, s' =>
    s' = { s with kernel := { s.kernel with mem := mem }, keyPressed := keyPressed }

theorem Turns.readyRuns {s s' : Scheduled} {turn : Turn} (turns : Turns s turn s')
    (ready : ReadyRuns s) : ReadyRuns s' := by
  cases turn with
  | sysSendrec function srcDest m =>
    obtain ⟨-, after⟩ := (Refines.sysSendrec s function srcDest m).returned s' turns
    exact after.readyRuns ready
  | clockHandler kReenter =>
    obtain ⟨-, after⟩ := (Refines.clockHandler s kReenter).returned s' turns
    exact after.readyRuns (Scheduled.tick_readyRuns ready)
  | outside mem keyPressed =>
    cases turns
    exact ready

theorem run_readyRuns (run : Run ReadyRuns Turns) :
    ∀ t, t ≤ run.length → ReadyRuns (run.state t) :=
  run.invariant (fun _ ready => ready) fun _ _ _ ready turns => turns.readyRuns ready

/--
With a process to choose, `schedule()` ends and chooses one; along every run the process that is
ready runs, and as long as there is one to choose the scheduler never keeps a step from ending.
-/
theorem schedule_chooses :
    (∀ s, Runnable s → ∃ s', s.schedule = some s' ∧ Chosen s s') ∧
      ∀ run : Run ReadyRuns Turns, ∀ t, t ≤ run.length → ReadyRuns (run.state t) ∧
        (∀ function srcDest m k',
          sysSendrec (run.state t).kernel function srcDest m (run.state t).pProcReady = .ok k' →
          Runnable { run.state t with kernel := k' } →
          ∃ s', Turns (run.state t) (.sysSendrec function srcDest m) s' ∧ s'.kernel = k') ∧
        (∀ kReenter k',
          Scheduled.wakeTty (run.state t).tick.kernel (run.state t).tick.keyPressed = .ok k' →
          Runnable { (run.state t).tick with kernel := k' } →
          ∃ s', Turns (run.state t) (.clockHandler kReenter) s' ∧ s'.kernel = k') := by
  constructor
  · intro s runnable
    obtain ⟨s', done⟩ := Scheduled.schedule_returns runnable
    exact ⟨s', done, Scheduled.schedule_chosen done⟩
  · intro run t within
    refine ⟨run_readyRuns run t within, ?_, ?_⟩
    · intro function srcDest m
      exact (Refines.sysSendrec (run.state t) function srcDest m).returns
    · intro kReenter
      exact (Refines.clockHandler (run.state t) kReenter).returns

-- The first choice falls on a task, and the process that is ready runs.
theorem schedule_chooses_booted :
    (∃ s', (booted 0 0 fun _ => resetMsg).schedule = some s' ∧
      Chosen (booted 0 0 fun _ => resetMsg) s') ∧ ReadyRuns (booted 0 0 fun _ => resetMsg) :=
  ⟨schedule_chooses.1 _ ⟨0, by decide, rfl, .inl (by decide)⟩,
    (schedule_chooses.2 (Run.still _ (.clockHandler 0) (booted_readyRuns 0 0 _)) 0
      (Nat.zero_le _)).1⟩

end Konix.Kernel
