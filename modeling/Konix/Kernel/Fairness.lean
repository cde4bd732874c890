import Konix.Kernel.Schedule
import Konix.Lib.Measure

set_option autoImplicit false

namespace Konix.Kernel

open Runs

/--
What happens to the table beside the kernel's own steps: MM changes what it keeps in it, and
`do_fork()` copies the entry of the parent, with its ticks and its priority, into a free one.
-/
inductive Happening
  | turn (turn : Turn)
  | manages (k : State)
  | forks (parent child : Int) (k : State)

-- `*p = proc_table[pid]`, which MM does when it is the one that runs.
structure Forks (s : Scheduled) (parent child : Int) (k : State) (s' : Scheduled) : Prop where
  mm : s.pProcReady = taskMm
  lower : nrTasks + nrNativeProcs ≤ child
  upper : child < nrTasks + nrProcs
  free : (s.kernel.procTable child).pFlags = .onlyFreeSlot
  copied : s' = { s with
    kernel := k
    ticks := Function.update s.ticks child (s.ticks parent)
    priority := Function.update s.priority child (s.priority parent) }

def Happens (s : Scheduled) : Happening → Scheduled → Prop
  | .turn turn, s' => Turns s turn s'
  | .manages k, s' => s' = { s with kernel := k }
  | .forks parent child k, s' => Forks s parent child k s'

-- A clock interrupt that does not come while the kernel is at work.
def ClockTick (happening : Happening) : Prop :=
  match happening with
  | .turn (.clockHandler kReenter) => kReenter = 0
  | _ => False

instance : DecidablePred ClockTick
  | .turn (.sysSendrec _ _ _) => isFalse id
  | .turn (.clockHandler kReenter) => inferInstanceAs (Decidable (kReenter = 0))
  | .turn (.outside _ _) => isFalse id
  | .manages _ => isFalse id
  | .forks _ _ _ => isFalse id

def IsFork (happening : Happening) : Prop :=
  match happening with
  | .forks _ _ _ => True
  | _ => False

instance : DecidablePred IsFork
  | .turn _ => isFalse id
  | .manages _ => isFalse id
  | .forks _ _ _ => isTrue trivial

structure Timed (s : Scheduled) : Prop where
  ready : InTable s.pProcReady
  ticks : ∀ q, 0 ≤ s.ticks q
  capped : ∀ q, s.ticks q ≤ s.priority q

def total (f : Int → Int) : Int := ∑ q ∈ procs.toFinset, f q

/--
How many clock interrupts there may be until `p` runs: each takes a tick from some process, or finds
that the process that ran has none; and before `p` has ticks again, all may have got theirs.
-/
def waitBound (p : Int) (s : Scheduled) : Int :=
  total s.ticks + (if s.ticks s.pProcReady = 0 then 1 else 0) +
    if s.ticks p = 0 then total s.priority else 0

theorem mem_procs_toFinset {q : Int} : q ∈ procs.toFinset ↔ InTable q :=
  List.mem_toFinset.trans mem_procs

theorem total_mono {f g : Int → Int} (le : ∀ q, f q ≤ g q) : total f ≤ total g :=
  Finset.sum_le_sum fun q _ => le q

theorem total_nonneg {f : Int → Int} (nonneg : ∀ q, 0 ≤ f q) : 0 ≤ total f :=
  Finset.sum_nonneg fun q _ => nonneg q

theorem total_add (f g : Int → Int) : total (fun q => f q + g q) = total f + total g :=
  Finset.sum_add_distrib

theorem total_update {f : Int → Int} {q n : Int} (inTable : InTable q) :
    total (Function.update f q n) = total f - f q + n := by
  have member := mem_procs_toFinset.mpr inTable
  unfold total
  generalize procs.toFinset = table at member ⊢
  have before := Finset.add_sum_erase table f member
  have after := Finset.add_sum_erase table (Function.update f q n) member
  have others : ∑ x ∈ table.erase q, Function.update f q n x = ∑ x ∈ table.erase q, f x :=
    Finset.sum_congr rfl fun x inside => Function.update_of_ne (Finset.ne_of_mem_erase inside) ..
  rw [Function.update_self, others] at after
  omega

namespace Scheduled

variable {s s' : Scheduled} {p : Int}

theorem schedule_refills (done : s.schedule = some s') :
    s'.ticks = s.ticks ∨
      s'.ticks = refilled s ∧ ∀ q, InTable q → s.Runs q → s.ticks q ≤ 0 := by
  rw [schedule] at done
  obtain ⟨none_, idle⟩ | ⟨found, -⟩ := s.choose_spec
  next =>
    rw [scheduleFrom_again none_] at done
    obtain ⟨none_', -⟩ | ⟨found, -⟩ := s.refill.choose_spec
    next =>
      rw [scheduleFrom_again none_'] at done
      cases done
    next =>
      rw [scheduleFrom_ends found] at done
      have filled : s.refill.ticks = refilled s := by rw [refill_eq]
      generalize s.refill = r at done filled
      cases done
      exact .inr ⟨filled, idle⟩
  next =>
    rw [scheduleFrom_ends found] at done
    cases done
    exact .inl rfl

/-- The step leaves the choice as it is, or makes it anew when the kernel's part is done. -/
def Calls (s : Scheduled) (outcome : Except Halted Scheduled) : Prop :=
  ∀ s', outcome = .ok s' →
    s' = { s with kernel := s'.kernel } ∨ schedule { s with kernel := s'.kernel } = some s'

namespace Calls

theorem error (halted : Halted) : Calls s (.error halted) := fun _ is_ => by cases is_

theorem onKernel (outcome : Except Halted State) : Calls s (s.onKernel outcome) := by
  intro s' done
  cases outcome with
  | error halted => cases done
  | ok k =>
    cases done
    exact .inl rfl

theorem before {α : Type} {step : Except Halted α} {f : α → Except Halted Scheduled}
    (rest : ∀ a, Calls s (f a)) : Calls s (step >>= f) := by
  cases step with
  | error halted => exact error halted
  | ok a => exact rest a

theorem block (k : State) (q : Int) (check : State → Except Halted Unit) :
    Calls s (do let s' ← Scheduled.block { s with kernel := k } q; check s'.kernel; return s') := by
  intro s' done
  obtain ⟨s₁, blocks, done⟩ := bind_ok done
  obtain ⟨_, -, done⟩ := bind_ok done
  cases done
  obtain ⟨_, -, blocks⟩ := bind_ok blocks
  cases found : Scheduled.schedule { s with kernel := k } with
  | none =>
    simp only [found] at blocks
    cases blocks
  | some s₂ =>
    simp only [found] at blocks
    cases blocks
    have same : s'.kernel = k := by rw [(schedule_chosen found).others]
    rw [same]
    exact .inr found

theorem msgSend (s : Scheduled) (sender dest : Int) (m : Nat) :
    Calls s (s.msgSend sender dest m) := by
  refine before fun _ => ?_
  cases deadlock s.kernel.procTable sender loopFuel dest with
  | none => exact error _
  | some cycle =>
    cases cycle with
    | true => exact error _
    | false =>
      show Calls s (if _ then _ else _)
      split_ifs
      · exact onKernel _
      · exact before fun _ => before fun k => block k sender fun k => assertSending k sender dest

theorem msgReceive (s : Scheduled) (who src : Int) (m : Nat) :
    Calls s (s.msgReceive who src m) := by
  refine before fun _ => ?_
  by_cases takes : takesInterrupt s.kernel who src = true
  next =>
    rw [if_pos takes]
    exact onKernel _
  next =>
    rw [if_neg takes]
    refine before fun sender => ?_
    cases sender with
    | some found => exact onKernel _
    | none => exact block _ who fun k => assertReceiving k who

theorem sysSendrec (s : Scheduled) (function : Function) (srcDest : Int) (m : Nat) :
    Calls s (s.sysSendrec function srcDest m) := by
  refine before fun _ => before fun mla => before fun _ => ?_
  cases function with
  | send => exact msgSend { s with kernel := _ } s.pProcReady srcDest m
  | receive => exact msgReceive { s with kernel := _ } s.pProcReady srcDest m
  | both => exact error _

end Calls

theorem clockHandler_ok {kReenter : Int} (done : s.clockHandler kReenter = .ok s') :
    s' = { s.tick with kernel := s'.kernel } ∧ (kReenter = 0 → 0 < s'.ticks s'.pProcReady) ∨
      schedule { s.tick with kernel := s'.kernel } = some s' := by
  obtain ⟨s₁, wakes, done⟩ := bind_ok done
  obtain ⟨k, -, moved⟩ := bind_ok wakes
  cases moved
  by_cases nested : kReenter ≠ 0
  next =>
    rw [if_pos nested] at done
    cases done
    exact .inl ⟨rfl, fun outer => absurd outer nested⟩
  next =>
    rw [if_neg nested] at done
    by_cases left : s.tick.ticks s.tick.pProcReady > 0
    next =>
      rw [if_pos left] at done
      cases done
      exact .inl ⟨rfl, fun _ => left⟩
    next =>
      rw [if_neg left] at done
      cases found : schedule { s.tick with kernel := k } with
      | none =>
        simp only [found] at done
        cases done
      | some s₂ =>
        simp only [found] at done
        cases done
        have same : s'.kernel = k := by rw [(schedule_chosen found).others]
        rw [same]
        exact .inr found

end Scheduled

variable {s s' : Scheduled} {p : Int}

theorem tick_same : s.tick.pProcReady = s.pProcReady ∧ s.tick.priority = s.priority ∧
    s.tick.kernel = s.kernel ∧ s.tick.keyPressed = s.keyPressed := by
  unfold Scheduled.tick
  dsimp only
  split_ifs <;> exact ⟨rfl, rfl, rfl, rfl⟩

theorem tick_idle (none_ : s.ticks s.pProcReady = 0) : s.tick.ticks = s.ticks := by
  unfold Scheduled.tick
  dsimp only
  rw [if_neg (not_not_intro none_)]

theorem tick_busy (some_ : s.ticks s.pProcReady ≠ 0) :
    s.tick.ticks = Function.update s.ticks s.pProcReady (s.ticks s.pProcReady - 1) := by
  unfold Scheduled.tick
  dsimp only
  rw [if_pos some_]
  rfl

theorem Timed.other (timed : Timed s) (ready : s'.pProcReady = s.pProcReady)
    (ticks : s'.ticks = s.ticks) (priority : s'.priority = s.priority) : Timed s' := by
  constructor
  · rw [ready]
    exact timed.ready
  · rw [ticks]
    exact timed.ticks
  · rw [ticks, priority]
    exact timed.capped

theorem Timed.priority (timed : Timed s) (q : Int) : 0 ≤ s.priority q :=
  le_trans (timed.ticks q) (timed.capped q)

theorem Timed.tick (timed : Timed s) : Timed s.tick := by
  obtain ⟨ready, priority, -, -⟩ := tick_same (s := s)
  by_cases none_ : s.ticks s.pProcReady = 0
  next => exact timed.other ready (tick_idle none_) priority
  next =>
    have here := timed.ticks s.pProcReady
    have each (q : Int) : 0 ≤ s.tick.ticks q ∧ s.tick.ticks q ≤ s.ticks q := by
      have nonneg := timed.ticks q
      rw [tick_busy none_]
      by_cases same : q = s.pProcReady
      next =>
        rw [same, Function.update_self]
        omega
      next =>
        rw [Function.update_of_ne same]
        exact ⟨nonneg, le_refl _⟩
    refine ⟨ready ▸ timed.ready, fun q => (each q).1, fun q => ?_⟩
    rw [priority]
    exact le_trans (each q).2 (timed.capped q)

theorem Timed.scheduled (timed : Timed s) (done : s.schedule = some s') : Timed s' := by
  have chosen := Scheduled.schedule_chosen done
  have priority : s'.priority = s.priority := by rw [chosen.others]
  have each (q : Int) : 0 ≤ s'.ticks q ∧ s'.ticks q ≤ s.priority q := by
    rcases chosen.once with same | filled
    · rw [same]
      exact ⟨timed.ticks q, timed.capped q⟩
    · rw [filled, refilled]
      split_ifs
      · exact ⟨timed.priority q, le_refl _⟩
      · exact ⟨timed.ticks q, timed.capped q⟩
  refine ⟨chosen.inTable, fun q => (each q).1, fun q => ?_⟩
  rw [priority]
  exact (each q).2

theorem Forks.inTable {parent child : Int} {k : State} (forks : Forks s parent child k s') :
    InTable child ∧ child ≠ taskMm := by
  have lower := forks.lower
  have upper := forks.upper
  simp only [nrTasks, nrNativeProcs, taskMm, InTable] at lower upper ⊢
  omega

theorem Forks.ne_child {parent child : Int} {k : State} (forks : Forks s parent child k s')
    (runs : s.Runs p) : p ≠ child := by
  rintro rfl
  have flags := runs.symm.trans forks.free
  exact absurd flags (by decide)

theorem Timed.forked {parent child : Int} {k : State} (timed : Timed s)
    (forks : Forks s parent child k s') : Timed s' := by
  have copied := forks.copied
  subst copied
  refine ⟨timed.ready, fun q => ?_, fun q => ?_⟩
  · show 0 ≤ Function.update s.ticks child (s.ticks parent) q
    by_cases here : q = child
    next =>
      rw [here, Function.update_self]
      exact timed.ticks parent
    next =>
      rw [Function.update_of_ne here]
      exact timed.ticks q
  · show Function.update s.ticks child (s.ticks parent) q ≤
      Function.update s.priority child (s.priority parent) q
    by_cases here : q = child
    next =>
      rw [here, Function.update_self, Function.update_self]
      exact timed.capped parent
    next =>
      rw [Function.update_of_ne here, Function.update_of_ne here]
      exact timed.capped q

theorem Timed.happens {happening : Happening} (timed : Timed s) (happens : Happens s happening s') :
    Timed s' := by
  cases happening with
  | manages k =>
    cases happens
    exact timed.other rfl rfl rfl
  | forks parent child k => exact timed.forked happens
  | turn turn =>
    cases turn with
    | sysSendrec function srcDest m =>
      rcases Scheduled.Calls.sysSendrec s function srcDest m s' happens with same | again
      · rw [same]
        exact timed.other rfl rfl rfl
      · have before : Timed { s with kernel := s'.kernel } := timed.other rfl rfl rfl
        exact before.scheduled again
    | clockHandler kReenter =>
      rcases Scheduled.clockHandler_ok happens with ⟨same, -⟩ | again
      · rw [same]
        exact timed.tick.other rfl rfl rfl
      · have before : Timed { s.tick with kernel := s'.kernel } := timed.tick.other rfl rfl rfl
        exact before.scheduled again
    | outside mem keyPressed =>
      cases happens
      exact timed.other rfl rfl rfl

-- A choice is made: the process chosen has ticks, and if they were dealt out anew, `p` has them
-- too.
theorem Timed.waitBound_scheduled (timed : Timed s) (inTable : InTable p) (runs : s.Runs p)
    (prior : 0 < s.priority p) (done : s.schedule = some s') :
    waitBound p s' ≤ total s.ticks + if s.ticks p = 0 then total s.priority else 0 := by
  have chosen := Scheduled.schedule_chosen done
  have priority : s'.priority = s.priority := by rw [chosen.others]
  have positive := chosen.positive
  rw [waitBound, if_neg positive.ne', priority, add_zero]
  rcases Scheduled.schedule_refills done with same | ⟨filled, idle⟩
  · rw [same]
  · have nonneg := timed.ticks p
    have empty := idle p inTable runs
    have gets : s'.ticks p = s.priority p := by
      rw [filled]
      exact Scheduled.refilled_runs inTable runs
    have each (q : Int) : s'.ticks q ≤ s.ticks q + s.priority q := by
      have ticks := timed.ticks q
      have cap := timed.priority q
      rw [filled, refilled]
      split_ifs <;> omega
    have all := total_mono each
    rw [total_add] at all
    rw [if_neg (by omega), if_pos (by omega)]
    omega

-- A clock interrupt uses up a tick, or the right to find that there is none.
theorem Timed.waitBound_tick (timed : Timed s) (waits : s.pProcReady ≠ p) :
    total s.tick.ticks + (if s.tick.ticks p = 0 then total s.tick.priority else 0) + 1 ≤
      waitBound p s := by
  obtain ⟨-, priority, -⟩ := tick_same (s := s)
  rw [waitBound, priority]
  by_cases none_ : s.ticks s.pProcReady = 0
  next =>
    rw [tick_idle none_, if_pos none_]
    omega
  next =>
    have taken := total_update (f := s.ticks) (n := s.ticks s.pProcReady - 1) timed.ready
    rw [tick_busy none_, if_neg none_, Function.update_of_ne waits.symm, taken]
    omega

-- A new process may take as many ticks as its parent has, and get as many as its parent's priority.
theorem Timed.waitBound_forked {parent child : Int} {k : State} (timed : Timed s) {cap : Int}
    (capped : ∀ q, s.priority q ≤ cap) (runs : s.Runs p) (forks : Forks s parent child k s') :
    waitBound p s' ≤ waitBound p s + 2 * cap := by
  have other := forks.ne_child runs
  obtain ⟨inTable, notMm⟩ := forks.inTable
  have ready := forks.mm
  have copied := forks.copied
  subst copied
  have ticks := total_update (f := s.ticks) (n := s.ticks parent) inTable
  have priorities := total_update (f := s.priority) (n := s.priority parent) inTable
  have taken := timed.ticks child
  have capChild := timed.priority child
  have few := timed.capped parent
  have most := capped parent
  have nonneg := timed.priority parent
  simp only [waitBound, ready, ticks, priorities, Function.update_of_ne notMm.symm,
    Function.update_of_ne other]
  split_ifs <;> omega

theorem Timed.waitBound_happens {happening : Happening} (timed : Timed s) (inTable : InTable p)
    {cap : Int} (capped : ∀ q, s.priority q ≤ cap) (prior : 0 < s.priority p)
    (waits : s.pProcReady ≠ p) (happens : Happens s happening s') (before : s.Runs p)
    (runs : s'.Runs p) :
    waitBound p s' + (if ClockTick happening then 1 else 0) ≤
      waitBound p s + if IsFork happening then 2 * cap else 0 := by
  have choice (r : Scheduled) (timed : Timed r) (prior : 0 < r.priority p)
      (done : Scheduled.schedule { r with kernel := s'.kernel } = some s') :
      waitBound p s' ≤ total r.ticks + if r.ticks p = 0 then total r.priority else 0 := by
    have before : Timed { r with kernel := s'.kernel } := timed.other rfl rfl rfl
    exact before.waitBound_scheduled inTable runs prior done
  have still (r : Scheduled) (same : s' = { r with kernel := s'.kernel }) :
      waitBound p s' = waitBound p r := by
    rw [same]
    rfl
  cases happening with
  | manages k =>
    cases happens
    exact le_refl _
  | forks parent child k =>
    have noTick : ¬ ClockTick (.forks parent child k) := id
    rw [if_neg noTick, if_pos (show IsFork (.forks parent child k) from trivial), add_zero]
    exact timed.waitBound_forked capped before happens
  | turn turn =>
    rw [if_neg (show ¬ IsFork (.turn turn) from id), add_zero]
    cases turn with
    | sysSendrec function srcDest m =>
      have noTick : ¬ ClockTick (.turn (.sysSendrec function srcDest m)) := id
      rw [if_neg noTick, add_zero]
      rcases Scheduled.Calls.sysSendrec s function srcDest m s' happens with same | again
      · exact le_of_eq (still s same)
      · refine le_trans (choice s timed prior again) ?_
        rw [waitBound]
        split_ifs <;> omega
    | clockHandler kReenter =>
      have less := timed.waitBound_tick waits
      obtain ⟨-, priority, -⟩ := tick_same (s := s)
      rcases Scheduled.clockHandler_ok happens with ⟨same, goesOn⟩ | again
      · have here : s'.pProcReady = s.tick.pProcReady ∧ s'.ticks = s.tick.ticks := by
          rw [same]
          exact ⟨rfl, rfl⟩
        rw [still s.tick same, waitBound]
        by_cases outer : kReenter = 0
        next =>
          have positive := goesOn outer
          rw [here.1, here.2] at positive
          have isTick : ClockTick (.turn (.clockHandler kReenter)) := outer
          rw [if_pos isTick, if_neg positive.ne']
          omega
        next =>
          have noTick : ¬ ClockTick (.turn (.clockHandler kReenter)) := outer
          rw [if_neg noTick]
          split_ifs at less ⊢ <;> omega
      · have chosen := choice s.tick timed.tick (priority ▸ prior) again
        have most : (if ClockTick (.turn (.clockHandler kReenter)) then (1 : Int) else 0) ≤ 1 := by
          split_ifs <;> omega
        omega
    | outside mem keyPressed =>
      cases happens
      exact le_of_eq (add_zero _)

theorem Turns.priority {turn : Turn} (turns : Turns s turn s') : s'.priority = s.priority := by
  cases turn with
  | sysSendrec function srcDest m =>
    rcases Scheduled.Calls.sysSendrec s function srcDest m s' turns with same | again
    · rw [same]
    · rw [(Scheduled.schedule_chosen again).others]
  | clockHandler kReenter =>
    obtain ⟨-, priority, -⟩ := tick_same (s := s)
    rcases Scheduled.clockHandler_ok turns with ⟨same, -⟩ | again
    · rw [same]
      exact priority
    · rw [(Scheduled.schedule_chosen again).others]
      exact priority
  | outside mem keyPressed =>
    cases turns
    rfl

theorem Happens.priority {happening : Happening} (happens : Happens s happening s') :
    (∀ q, ∃ r, s'.priority q = s.priority r) ∧ (s.Runs p → s'.priority p = s.priority p) := by
  cases happening with
  | manages k =>
    cases happens
    exact ⟨fun q => ⟨q, rfl⟩, fun _ => rfl⟩
  | forks parent child k =>
    have forks : Forks s parent child k s' := happens
    have copied := forks.copied
    refine ⟨fun q => ?_, fun runs => ?_⟩
    · rw [copied]
      by_cases here : q = child
      next => exact ⟨parent, by rw [here]; exact Function.update_self ..⟩
      next => exact ⟨q, Function.update_of_ne here ..⟩
    · rw [copied]
      exact Function.update_of_ne (forks.ne_child runs) ..
  | turn turn =>
    have same : s'.priority = s.priority := Turns.priority happens
    rw [same]
    exact ⟨fun q => ⟨q, rfl⟩, fun _ => rfl⟩

theorem waitBound_le (timed : Timed s) : waitBound p s ≤ 2 * total s.priority + 1 := by
  have ticks := total_mono timed.capped
  have nonneg := total_nonneg timed.priority
  rw [waitBound]
  split_ifs <;> omega

theorem run_timed (run : Run Timed Happens) : ∀ t, t ≤ run.length → Timed (run.state t) :=
  run.invariant (fun _ timed => timed) fun _ _ _ timed happens => timed.happens happens

theorem run_capped (run : Run Timed Happens) {i : Nat} {cap : Int}
    (capped : ∀ q, (run.state i).priority q ≤ cap) :
    ∀ n, i + n ≤ run.length → ∀ q, (run.state (i + n)).priority q ≤ cap := by
  intro n
  induction n with
  | zero => exact fun _ => capped
  | succ n ih =>
    intro within q
    obtain ⟨r, same⟩ := ((run.steps (i + n) (by omega)).priority (p := q)).1 q
    rw [← Nat.add_assoc, same]
    exact ih (by omega) r

theorem run_priority (run : Run Timed Happens) {i : Nat} : ∀ n, i + n ≤ run.length →
    (∀ t, i ≤ t → t ≤ i + n → (run.state t).Runs p) →
    (run.state (i + n)).priority p = (run.state i).priority p := by
  intro n
  induction n with
  | zero => exact fun _ _ => rfl
  | succ n ih =>
    intro within runs
    rw [← Nat.add_assoc,
      (run.steps (i + n) (by omega)).priority.2 (runs (i + n) (by omega) (by omega))]
    exact ih (by omega) fun t from_ upTo => runs t from_ (by omega)

/--
A process of positive priority that nobody stops is run before more than `waitBound` clock
interrupts have come, which is at most twice the sum of all priorities and one more; each fork in
between may put this off by twice the greatest priority.
-/
theorem no_starvation (run : Run Timed Happens) (inTable : InTable p) (i n : Nat)
    (within : i + n ≤ run.length) {cap : Int} (capped : ∀ q, (run.state i).priority q ≤ cap)
    (prior : 0 < (run.state i).priority p)
    (runs : ∀ t, i ≤ t → t ≤ i + n → (run.state t).Runs p) :
    waitBound p (run.state i) ≤ 2 * total (run.state i).priority + 1 ∧
      (waitBound p (run.state i) + 2 * cap * run.count IsFork i n < run.count ClockTick i n →
        ∃ t, i ≤ t ∧ t < i + n ∧ (run.state t).pProcReady = p) := by
  have timed := run_timed run
  refine ⟨waitBound_le (timed i (by omega)), fun long => ?_⟩
  by_contra never
  have counted := run.count_le_measure ClockTick IsFork (waitBound p) (c := 2 * cap) (i := i)
    (n := n) (by
    intro t from_ below
    have small := run_capped run capped (t - i) (by omega)
    have same := run_priority run (p := p) (i := i) (t - i) (by omega)
      fun u after upTo => runs u after (by omega)
    rw [Nat.add_sub_cancel' from_] at small same
    refine (timed t (by omega)).waitBound_happens inTable small ?_ ?_ (run.steps t (by omega))
      (runs t from_ (by omega)) (runs (t + 1) (by omega) (by omega))
    · rw [same]
      exact prior
    · exact fun here => never ⟨t, from_, below, here⟩)
  have nonneg : 0 ≤ waitBound p (run.state (i + n)) := by
    have last := timed (i + n) within
    have ticks := total_nonneg last.ticks
    have priorities := total_nonneg last.priority
    rw [waitBound]
    split_ifs <;> omega
  omega

theorem clockHandler_goesOn (quiet : s.keyPressed = false)
    (runnable : ∃ q, InTable q ∧ s.Runs q ∧ 0 < s.priority q) :
    ∃ s', s.clockHandler 0 = .ok s' ∧ s'.kernel = s.kernel ∧ s'.keyPressed = false := by
  obtain ⟨-, priority, kernel, keyPressed⟩ := tick_same (s := s)
  have wakes : Scheduled.wakeTty s.tick.kernel s.tick.keyPressed = .ok s.tick.kernel := by
    rw [keyPressed, quiet]
    rfl
  obtain ⟨q, inTable, runs, prior⟩ := runnable
  have some_ : Runnable { s.tick with kernel := s.tick.kernel } := by
    refine ⟨q, inTable, ?_, .inr ?_⟩
    · show (s.tick.kernel.procTable q).pFlags = .clear
      rw [kernel]
      exact runs
    · rw [priority]
      exact prior
  obtain ⟨s', done, same⟩ := (Refines.clockHandler s 0).returns s.tick.kernel wakes some_
  refine ⟨s', done, same.trans kernel, ?_⟩
  rcases Scheduled.clockHandler_ok done with ⟨unchanged, -⟩ | again
  · rw [unchanged]
    exact keyPressed.trans quiet
  · rw [(Scheduled.schedule_chosen again).others]
    exact keyPressed.trans quiet

structure TicksOn (run : Run Timed Happens) (n : Nat) (run' : Run Timed Happens) : Prop where
  length : run'.length = run.length + n
  before : ∀ t, t ≤ run.length → run'.state t = run.state t
  acts : ∀ t, t < run.length → run'.act t = run.act t
  kept : ∀ t, run.length ≤ t → t ≤ run.length + n →
    (run'.state t).kernel = (run.state run.length).kernel ∧
      (run'.state t).priority = (run.state run.length).priority ∧
      (run'.state t).keyPressed = false
  ticks : ∀ t, run.length ≤ t → t < run.length + n → run'.act t = .turn (.clockHandler 0)

theorem ticks_on (run : Run Timed Happens) (quiet : (run.state run.length).keyPressed = false)
    (runnable : ∃ q, InTable q ∧ (run.state run.length).Runs q ∧
      0 < (run.state run.length).priority q) (n : Nat) : ∃ run', TicksOn run n run' := by
  induction n with
  | zero =>
    refine ⟨run, rfl, fun _ _ => rfl, fun _ _ => rfl, fun t from_ upTo => ?_,
      fun t from_ below => ?_⟩
    · have last : t = run.length := by omega
      rw [last]
      exact ⟨rfl, rfl, quiet⟩
    · omega
  | succ n ih =>
    obtain ⟨run', ⟨length, before, acts, kept, ticks⟩⟩ := ih
    obtain ⟨kernel', priority', quiet'⟩ := kept run'.length (by omega) (by omega)
    obtain ⟨s', done, kernel, quiet''⟩ := clockHandler_goesOn quiet' (by
      obtain ⟨q, inTable, runs, prior⟩ := runnable
      refine ⟨q, inTable, ?_, by rw [priority']; exact prior⟩
      show ((run'.state run'.length).kernel.procTable q).pFlags = .clear
      rw [kernel']
      exact runs)
    have next_ : Turns (run'.state run'.length) (.clockHandler 0) s' := done
    have state (t : Nat) (inside : t ≤ run'.length) :
        (run'.snoc (.turn (.clockHandler 0)) s' next_).state t = run'.state t := if_pos inside
    refine ⟨run'.snoc (.turn (.clockHandler 0)) s' next_, ?_, fun t upTo => ?_, fun t below => ?_,
      fun t from_ upTo => ?_, fun t from_ below => ?_⟩
    · show run'.length + 1 = run.length + (n + 1)
      omega
    · rw [state t (by omega)]
      exact before t upTo
    · have inside : (run'.snoc (.turn (.clockHandler 0)) s' next_).act t = run'.act t :=
        if_pos (show t < run'.length by omega)
      rw [inside]
      exact acts t below
    · by_cases inside : t ≤ run'.length
      next =>
        rw [state t inside]
        exact kept t from_ (by omega)
      next =>
        have last : (run'.snoc (.turn (.clockHandler 0)) s' next_).state t = s' := if_neg inside
        rw [last]
        exact ⟨kernel.trans kernel', next_.priority.trans priority', quiet''⟩
    · by_cases inside : t < run'.length
      next =>
        have same : (run'.snoc (.turn (.clockHandler 0)) s' next_).act t = run'.act t :=
          if_pos inside
        rw [same]
        exact ticks t from_ (by omega)
      next => exact if_neg inside

theorem booted_timed (kBase kLimit : Nat) (mem : Nat → Message) :
    Timed (booted kBase kLimit mem) := by
  refine ⟨show InTable 0 by decide, fun q => ?_, fun q => le_refl _⟩
  show 0 ≤ if q < nrTasks then (15 : Int) else if q < nrTasks + nrNativeProcs then 5 else 0
  split_ifs <;> decide

-- The machine that was booted, in which MM has its turn.
def mmTurn : Scheduled := { booted 0 0 (fun _ => resetMsg) with pProcReady := taskMm }

-- The first free entry becomes a child of INIT, and waits for MM as INIT does.
def forkedKernel : State :=
  let waits (proc : Proc) := { proc with pFlags := .onlyReceiving, pRecvfrom := taskMm }
  (mmTurn.kernel.modify initPid waits).modify 9 fun _ =>
    { waits (mmTurn.kernel.procTable initPid) with pParent := initPid }

def forked : Scheduled :=
  { mmTurn with
    kernel := forkedKernel
    ticks := Function.update mmTurn.ticks 9 (mmTurn.ticks initPid)
    priority := Function.update mmTurn.priority 9 (mmTurn.priority initPid) }

theorem fork_run : ∃ run : Run Timed Happens, run.length = 1 ∧ run.state 0 = mmTurn ∧
    run.state 1 = forked ∧ run.act 0 = .forks initPid 9 forkedKernel := by
  have booted_ := booted_timed 0 0 fun _ => resetMsg
  have timed : Timed mmTurn := ⟨show InTable taskMm by decide, booted_.ticks, booted_.capped⟩
  have free : (mmTurn.kernel.procTable 9).pFlags = .onlyFreeSlot := rfl
  have forks : Happens mmTurn (.forks initPid 9 forkedKernel) forked :=
    ⟨rfl, by decide, by decide, free, rfl⟩
  exact ⟨(Run.still mmTurn (.manages mmTurn.kernel) timed).snoc _ forked forks, rfl, rfl, rfl, rfl⟩

-- MM forks INIT, and then nothing but the clock moves the machine: TestC runs all the same.
theorem no_starvation_forked : ∃ run : Run Timed Happens, run.length = 127 ∧
    run.state 0 = mmTurn ∧ run.act 0 = .forks initPid 9 forkedKernel ∧
    ∃ t, t < 127 ∧ (run.state t).pProcReady = 8 := by
  obtain ⟨first, one, start, after, forks⟩ := fork_run
  have last : first.state first.length = forked := by rw [one, after]
  have ready : InTable 8 ∧ forked.Runs 8 ∧ 0 < forked.priority 8 := ⟨by decide, rfl, by decide⟩
  obtain ⟨run, length, before, acts, kept, ticks⟩ := ticks_on first (by rw [last]; rfl)
    ⟨8, by rw [last]; exact ready⟩ 126
  rw [one] at length before acts ticks kept
  have zero : run.state 0 = mmTurn := (before 0 (by omega)).trans start
  have fork : run.act 0 = .forks initPid 9 forkedKernel := (acts 0 (by omega)).trans forks
  have runs (t : Nat) (upTo : t ≤ 1 + 126) : (run.state t).Runs 8 := by
    by_cases begins : t = 0
    next =>
      rw [begins, zero]
      rfl
    next =>
      show ((run.state t).kernel.procTable 8).pFlags = .clear
      rw [(kept t (by omega) upTo).1, after]
      rfl
  have forkOnce : run.count IsFork 0 (1 + 126) = 1 := by
    rw [run.count_add, run.count_none IsFork (i := 0 + 1), run.count_all IsFork]
    · intro t _ below
      obtain rfl : t = 0 := by omega
      rw [fork]
      exact trivial
    · intro t from_ below
      rw [ticks t (by omega) (by omega)]
      exact id
  have ticked : run.count ClockTick 0 (1 + 126) = 126 := by
    rw [run.count_add, run.count_all ClockTick (i := 0 + 1), run.count_none ClockTick]
    · intro t _ below
      obtain rfl : t = 0 := by omega
      rw [fork]
      exact id
    · intro t from_ below
      rw [ticks t (by omega) (by omega)]
      rfl
  have capped (q : Int) : mmTurn.priority q ≤ 15 := by
    show (if q < nrTasks then (15 : Int) else if q < nrTasks + nrNativeProcs then 5 else 0) ≤ 15
    split_ifs <;> decide
  obtain ⟨t, -, within, here⟩ := (no_starvation run (p := 8) (by decide) 0 (1 + 126) (by omega)
    (by rw [zero]; exact capped) (by rw [zero]; decide) (fun t _ upTo => runs t (by omega))).2
    (by rw [zero, forkOnce, ticked]; decide)
  exact ⟨run, length, zero, fork, t, by omega, here⟩

end Konix.Kernel
