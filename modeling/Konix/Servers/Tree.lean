import Konix.Servers.Thinking

set_option autoImplicit false

namespace Konix.Servers

open Kernel Runs

-- A process that can collect its children.
def Lives (k : State) (p : Int) : Prop :=
  InTable p ∧ (k.procTable p).pFlags.freeSlot = false ∧ (k.procTable p).pFlags.hanging = false

-- MM is making INIT the parent of the children of the first, in the slots of the second.
def Mm.orphans : Mm → Option (Int × List Int)
  | .collect _ _ _ pid rest => some (pid, rest)
  | .release _ pid rest => some (pid, rest)
  | .adopt pid rest => some (pid, rest)
  | _ => none

-- The process whose EXIT MM is serving.
def Mm.exiting : Mm → Option Int
  | .serve m => if m.type = .exit then some m.source else none
  | .exitTell pid _ _ => some pid
  | .exitWait pid _ _ => some pid
  | .leave pid _ _ => some pid
  | _ => none

def Orphan (s : System) (c : Int) : Prop :=
  ∃ pid rest, s.mm.orphans = some (pid, rest) ∧ c ∈ rest ∧
    (s.kernel.procTable c).pParent = pid

-- MM collects or releases `proc` on its way through the children of `pid`.
def Mm.Buries (mm : Mm) (proc pid : Int) (rest : List Int) : Prop :=
  (∃ d m, mm = .collect d m proc pid rest) ∨ mm = .release proc pid rest

/--
Waiting parents have no zombies, and parents live, but for the children of a process that exits.
-/
structure Tree (s : System) : Prop where
  quiet : ∀ p c, InTable c → (s.kernel.procTable p).pFlags.waiting = true →
    (s.kernel.procTable c).pParent = p → (s.kernel.procTable c).pFlags.hanging = false
  parented : ∀ c, InTable c → nrTasks + nrNativeProcs ≤ c →
    (s.kernel.procTable c).pFlags.freeSlot = false →
    Lives s.kernel (s.kernel.procTable c).pParent ∨ Orphan s c
  buried : ∀ c, (s.kernel.procTable c).pFlags.freeSlot = true →
    (s.kernel.procTable c).pFlags.hanging = false
  init : Lives s.kernel initPid
  tabled : ∀ p, ¬ InTable p → s.user p = .absent ∨ p < 0 ∧ s.user p = .run
  forked : ∀ pid, s.mm.exiting = some pid → nrTasks + nrNativeProcs ≤ pid
  corpse : ∀ proc pid rest, s.mm.Buries proc pid rest →
    proc ≠ initPid ∧ ((s.kernel.procTable proc).pFlags.hanging = true ∨
      proc = pid ∧ rest = Mm.slots)

/-- INIT and the other native processes do not call `exit()`. -/
def NativesStay (s : System) : Prop :=
  ∀ p r, s.user p = .request r → r.m.type = .exit → nrTasks + nrNativeProcs ≤ p

section Steps

variable {s t : System} {k' : State} {p d src : Int} {m : Message}

theorem Lives.keeps (h : Lives s.kernel p) (keeps : Keeps s.kernel k') : Lives k' p :=
  ⟨h.1, (keeps.freeSlot p).trans h.2.1, (keeps.hanging p).trans h.2.2⟩

theorem Tree.keeps (h : Tree s) (keeps : Keeps s.kernel t.kernel)
    (orphans : t.mm.orphans = s.mm.orphans)
    (tabled : ∀ p, ¬ InTable p → t.user p = .absent ∨ p < 0 ∧ t.user p = .run)
    (forked : ∀ pid, t.mm.exiting = some pid → nrTasks + nrNativeProcs ≤ pid)
    (corpse : ∀ proc pid rest, t.mm.Buries proc pid rest → s.mm.Buries proc pid rest) :
    Tree t := by
  constructor
  case quiet =>
    intro p c inTable waiting parent
    rw [keeps.waiting] at waiting
    rw [keeps.pParent] at parent
    rw [keeps.hanging]
    exact h.quiet p c inTable waiting parent
  case parented =>
    intro c inTable isForked live
    rw [keeps.freeSlot] at live
    rw [keeps.pParent]
    refine (h.parented c inTable isForked live).imp (fun lives => lives.keeps keeps) ?_
    rintro ⟨pid, rest, going, member, parent⟩
    exact ⟨pid, rest, orphans.trans going, member, (keeps.pParent c).trans parent⟩
  case buried =>
    intro c free
    rw [keeps.freeSlot] at free
    rw [keeps.hanging]
    exact h.buried c free
  case init => exact h.init.keeps keeps
  case tabled => exact tabled
  case forked => exact forked
  case corpse =>
    intro proc pid rest buries
    rw [keeps.hanging]
    exact h.corpse proc pid rest (corpse proc pid rest buries)

theorem Tree.elsewhere (h : Tree s) (keeps : Keeps s.kernel t.kernel) (mm : t.mm = s.mm)
    (tabled : ∀ p, ¬ InTable p → t.user p = .absent ∨ p < 0 ∧ t.user p = .run) : Tree t := by
  refine h.keeps keeps (by rw [mm]) tabled ?_ ?_
  · rw [mm]
    exact h.forked
  · rw [mm]
    exact fun _ _ _ buries => buries

theorem sent_user_cases (q : Int) :
    (s.sent p).user q = s.user q ∨ q = p ∧ IsUser p ∧ (s.sent p).user q = (s.user q).sent := by
  rcases party p with rfl | rfl | rfl | rfl | rfl | isUser
  case inr.inr.inr.inr.inr =>
    rw [sent_user s isUser]
    by_cases same : q = p
    · subst same
      exact .inr ⟨rfl, isUser, Function.update_self ..⟩
    · exact .inl (Function.update_of_ne same _ _)
  all_goals exact .inl rfl

theorem got_user_cases (q : Int) :
    (s.got p m).user q = s.user q ∨ q = p ∧ IsUser p ∧ (s.got p m).user q = (s.user q).got := by
  rcases party p with rfl | rfl | rfl | rfl | rfl | isUser
  case inr.inr.inr.inr.inr =>
    rw [got_user s m isUser]
    by_cases same : q = p
    · subst same
      exact .inr ⟨rfl, isUser, Function.update_self ..⟩
    · exact .inl (Function.update_of_ne same _ _)
  all_goals exact .inl rfl

theorem tabled_got (h : ∀ p, ¬ InTable p → s.user p = .absent ∨ p < 0 ∧ s.user p = .run) (q : Int)
    (out : ¬ InTable q) :
    (s.got d m).user q = .absent ∨ q < 0 ∧ (s.got d m).user q = .run := by
  obtain same | ⟨-, -, got⟩ := got_user_cases (s := s) (p := d) (m := m) q
  · rw [same]
    exact h q out
  · rw [got]
    rcases h q out with absent | ⟨negative, runs⟩
    · rw [absent]
      exact .inl rfl
    · rw [runs]
      exact .inr ⟨negative, rfl⟩

theorem tabled_sent (h : ∀ p, ¬ InTable p → s.user p = .absent ∨ p < 0 ∧ s.user p = .run) (q : Int)
    (out : ¬ InTable q) :
    (s.sent p).user q = .absent ∨ q < 0 ∧ (s.sent p).user q = .run := by
  obtain same | ⟨-, -, sent⟩ := sent_user_cases (s := s) (p := p) q
  · rw [same]
    exact h q out
  · rw [sent]
    rcases h q out with absent | ⟨negative, runs⟩
    · rw [absent]
      exact .inl rfl
    · rw [runs]
      exact .inr ⟨negative, rfl⟩

theorem Mm.sent_orphans {mm : Mm} : mm.sent.orphans = mm.orphans := by
  cases mm <;> rfl

theorem Mm.sent_exiting {mm : Mm} {pid : Int} (exits : mm.sent.exiting = some pid) :
    mm.exiting = some pid := by
  cases mm <;> exact exits

theorem Mm.sent_buries {mm : Mm} {proc pid : Int} {rest : List Int}
    (buries : mm.sent.Buries proc pid rest) : mm.Buries proc pid rest := by
  cases mm with
  | collect parent m proc' pid' rest' =>
    obtain ⟨d, m', same⟩ | same := buries
    · cases same
    · cases same
      exact .inl ⟨parent, m, rfl⟩
  | release proc' pid' rest' => exact buries
  | _ => obtain ⟨d, m', same⟩ | same := buries <;> cases same

theorem Mm.got_orphans {mm : Mm} (waits : mm.call = some (.receive src)) :
    (mm.got m).orphans = mm.orphans := by
  cases mm with
  | main => cases type : m.type <;> simp [Mm.got, type, Mm.orphans]
  | forkWait request child => rfl
  | exitWait pid parentPid status => rfl
  | _ => cases waits

theorem Mm.got_exiting {mm : Mm} {pid : Int} (exits : (mm.got m).exiting = some pid) :
    mm.exiting = some pid ∨ mm = .main ∧ m.type = .exit ∧ pid = m.source := by
  cases mm with
  | main =>
    refine .inr ?_
    cases type : m.type <;> simp [Mm.got, type, Mm.exiting] at exits
    exact ⟨rfl, rfl, exits.symm⟩
  | _ => exact .inl exits

theorem Mm.got_buries {mm : Mm} {proc pid : Int} {rest : List Int}
    (buries : (mm.got m).Buries proc pid rest) : mm.Buries proc pid rest := by
  cases mm with
  | main =>
    cases type : m.type <;> simp [Mm.got, type, Mm.Buries] at buries
  | forkWait request child => obtain ⟨d, m', same⟩ | same := buries <;> cases same
  | exitWait pid' parentPid status => obtain ⟨d, m', same⟩ | same := buries <;> cases same
  | _ => exact buries

theorem NativesStay.exit_request (stay : NativesStay s) (custody : Custody s)
    (sends : s.call p = some (.send taskMm m)) (main : s.mm = .main) (isExit : m.type = .exit) :
    nrTasks + nrNativeProcs ≤ p := by
  have isUser := custody.mm_request sends main
  rw [call_user s isUser] at sends
  cases user : s.user p with
  | request r =>
    rw [user] at sends
    simp only [User.call, Option.some.injEq, Call.send.injEq] at sends
    rw [← sends.2] at isExit
    exact stay p r user isExit
  | _ =>
    rw [user] at sends
    cases sends

theorem Tree.message (h : Tree s) (custody : Custody s) (stay : NativesStay s)
    (keeps : Keeps s.kernel k') (sends : s.call p = some (.send d m))
    (waits : s.call d = some (.receive src)) :
    Tree (({ s with kernel := k' } : System).transfer p d m) := by
  have distinct := distinct_of_calls sends waits
  have kernel : (({ s with kernel := k' } : System).transfer p d m).kernel = k' := by
    unfold System.transfer
    rw [got_kernel, sent_kernel]
  have tabled := tabled_got (d := d) (m := { m with source := p })
    (tabled_sent (s := { s with kernel := k' }) (p := p) h.tabled)
  obtain ⟨rfl, mm⟩ | ⟨rfl, mm⟩ | ⟨-, -, mm⟩ :=
    transfer_mm (s := { s with kernel := k' }) (m := m) distinct
  · refine h.keeps (by rw [kernel]; exact keeps) ?_ tabled ?_ ?_
    · rw [mm]
      rw [call_mm] at waits
      exact Mm.got_orphans waits
    · intro pid exits
      rw [mm] at exits
      obtain before | ⟨main, type, rfl⟩ := Mm.got_exiting exits
      · exact h.forked pid before
      · exact stay.exit_request custody sends main type
    · intro proc pid rest buries
      rw [mm] at buries
      exact Mm.got_buries buries
  · refine h.keeps (by rw [kernel]; exact keeps) ?_ tabled ?_ ?_
    · rw [mm]
      exact Mm.sent_orphans
    · intro pid exits
      rw [mm] at exits
      exact h.forked pid (Mm.sent_exiting exits)
    · intro proc pid rest buries
      rw [mm] at buries
      exact Mm.sent_buries buries
  · exact h.elsewhere (by rw [kernel]; exact keeps) mm tabled

theorem Tree.interrupt (h : Tree s) (keeps : Keeps s.kernel k')
    (waits : s.call d = some (.receive src)) :
    Tree (({ s with kernel := k' } : System).got d interruptMsg) := by
  have kernel : (({ s with kernel := k' } : System).got d interruptMsg).kernel = k' := by
    rw [got_kernel]
  have tabled := tabled_got (d := d) (m := interruptMsg) (s := { s with kernel := k' }) h.tabled
  by_cases isMm : d = taskMm
  next =>
    subst isMm
    have mm : (({ s with kernel := k' } : System).got taskMm interruptMsg).mm =
        s.mm.got interruptMsg := rfl
    refine h.keeps (by rw [kernel]; exact keeps) ?_ tabled ?_ ?_
    · rw [mm]
      rw [call_mm] at waits
      exact Mm.got_orphans waits
    · intro pid exits
      rw [mm] at exits
      obtain before | ⟨-, type, -⟩ := Mm.got_exiting exits
      · exact h.forked pid before
      · cases type
    · intro proc pid rest buries
      rw [mm] at buries
      exact Mm.got_buries buries
  next =>
    have mm := got_mm_other { s with kernel := k' } interruptMsg isMm
    exact h.elsewhere (by rw [kernel]; exact keeps) mm tabled

theorem Tree.awaits_inTable (h : Tree s) (waits : s.call p = some (.receive taskMm)) :
    InTable p := by
  have isUser := user_of_awaits_mm waits
  by_contra out
  rw [call_user s isUser] at waits
  rcases h.tabled p out with absent | ⟨-, runs⟩
  · rw [absent] at waits
    cases waits
  · rw [runs] at waits
    cases waits

/--
MM has changed flags and parents, and it has gone on. The other fields of `Tree` follow from those
before.
-/
theorem Tree.mmTurns (h : Tree s) {mm : Mm} (quiet : ∀ p c, InTable c →
      (k'.procTable p).pFlags.waiting = true → (k'.procTable c).pParent = p →
      (k'.procTable c).pFlags.hanging = false)
    (parented : ∀ c, InTable c → nrTasks + nrNativeProcs ≤ c →
      (k'.procTable c).pFlags.freeSlot = false → Lives k' (k'.procTable c).pParent ∨
        ∃ pid rest, mm.orphans = some (pid, rest) ∧ c ∈ rest ∧ (k'.procTable c).pParent = pid)
    (free : ∀ c, (k'.procTable c).pFlags.freeSlot = (s.kernel.procTable c).pFlags.freeSlot)
    (hanging : ∀ c, (k'.procTable c).pFlags.hanging = true →
      (s.kernel.procTable c).pFlags.hanging = true ∨
        c ≠ initPid ∧ (s.kernel.procTable c).pFlags.freeSlot = false)
    (forked : ∀ pid, mm.exiting = some pid → s.mm.exiting = some pid)
    (corpse : ∀ proc pid rest, mm.Buries proc pid rest → proc ≠ initPid ∧
      ((k'.procTable proc).pFlags.hanging = true ∨ proc = pid ∧ rest = Mm.slots)) :
    Tree { s with kernel := k', mm := mm } := by
  refine ⟨quiet, parented, ?_, ⟨h.init.1, ?_, ?_⟩, h.tabled, ?_, corpse⟩
  · intro c isFree
    rw [free] at isFree
    refine Bool.eq_false_iff.mpr fun flag => ?_
    rcases hanging c flag with before | ⟨-, live⟩
    · rw [h.buried c isFree] at before
      cases before
    · rw [isFree] at live
      cases live
  · rw [free]
    exact h.init.2.1
  · refine Bool.eq_false_iff.mpr fun flag => ?_
    rcases hanging initPid flag with before | ⟨other, -⟩
    · rw [h.init.2.2] at before
      cases before
    · exact other rfl
  · exact fun pid exits => h.forked pid (forked pid exits)

-- Outside `cleanup()` and the loop of `do_exit()` every parent lives.
theorem Tree.settled (h : Tree s) (none_ : s.mm.orphans = none) (c : Int) (inTable : InTable c)
    (isForked : nrTasks + nrNativeProcs ≤ c)
    (live : (s.kernel.procTable c).pFlags.freeSlot = false) :
    Lives s.kernel (s.kernel.procTable c).pParent := by
  rcases h.parented c inTable isForked live with lives | ⟨pid, rest, going, -⟩
  · exact lives
  · rw [none_] at going
    cases going

theorem Tree.mmGoes (h : Tree s) {mm : Mm} (none_ : s.mm.orphans = none)
    (forked : ∀ pid, mm.exiting = some pid → s.mm.exiting = some pid)
    (corpse : ∀ proc pid rest, mm.Buries proc pid rest → proc ≠ initPid ∧
      ((s.kernel.procTable proc).pFlags.hanging = true ∨ proc = pid ∧ rest = Mm.slots)) :
    Tree { s with mm := mm } :=
  h.mmTurns h.quiet (fun c inTable isForked live =>
    .inl (h.settled none_ c inTable isForked live)) (fun _ => rfl) (fun _ flag => .inl flag) forked
    corpse

theorem not_buries_of {mm : Mm} (none_ : mm.dying = []) (proc pid : Int) (rest : List Int) :
    ¬ mm.Buries proc pid rest := by
  rintro (⟨d, m, rfl⟩ | rfl) <;> cases none_

theorem Tree.fork (h : Tree s) (safe : Safe s) {memorySize child : Int} (mm : s.mm = .serve m)
    (found : Mm.freeSlot s.kernel = some child) (above : child ≥ nrTasks + nrNativeProcs)
    (done : Mm.duplicate memorySize s.kernel m.source child = .ok k') :
    Tree { s with
      kernel := k'
      user := Function.update s.user child (s.user m.source)
      mm := .forkTell m child } := by
  obtain ⟨waits, alive⟩ := safe.server_of_serve mm
  obtain ⟨inTable, slot⟩ := Mm.freeSlot_found found
  obtain ⟨others, base, copied⟩ := Mm.duplicate_copies done
  have isFree : (s.kernel.procTable child).pFlags.freeSlot = true := by
    rw [slot]
    rfl
  have flags : (k'.procTable child).pFlags = (s.kernel.procTable m.source).pFlags := by
    rw [copied]
    rfl
  have parent : (k'.procTable child).pParent = m.source := by
    rw [copied]
    rfl
  have lives {p : Int} (before : Lives s.kernel p) : Lives k' p := by
    have other : p ≠ child := by
      rintro rfl
      rw [before.2.1] at isFree
      cases isFree
    rw [Lives, others p other]
    exact before
  have caller : Lives k' m.source :=
    lives ⟨h.awaits_inTable waits, alive.2.2, alive.2.1⟩
  have notOrphans : s.mm.orphans = none := by
    rw [mm]
    rfl
  refine ⟨?_, ?_, ?_, lives h.init, ?_, nofun, fun proc pid rest buries =>
    absurd buries (not_buries_of rfl _ _ _)⟩
  · intro p c inTable' waiting isChild
    by_cases same : c = child
    · rw [same, flags]
      exact alive.2.1
    · rw [others c same] at isChild ⊢
      by_cases same' : p = child
      · rw [same', flags, alive.1] at waiting
        cases waiting
      · rw [others p same'] at waiting
        exact h.quiet p c inTable' waiting isChild
  · intro c inTable' isForked live
    by_cases same : c = child
    · rw [same, parent]
      exact .inl caller
    · rw [others c same] at live ⊢
      exact .inl (lives (h.settled notOrphans c inTable' isForked live))
  · intro c isFree'
    by_cases same : c = child
    · rw [same, flags]
      exact alive.2.1
    · rw [others c same] at isFree' ⊢
      exact h.buried c isFree'
  · intro p out
    have other : p ≠ child := by
      rintro rfl
      exact out inTable
    simp only [Function.update_of_ne other]
    exact h.tabled p out

theorem Tree.wait (h : Tree s) (mm : s.mm = .serve m) {count : Nat}
    (found : Mm.scan s.kernel m.source 0 Mm.slots = .children count) :
    Tree { s with kernel := s.kernel.modify m.source Mm.Proc.waits, mm := .main } := by
  have fields (c : Int) :
      ((s.kernel.modify m.source Mm.Proc.waits).procTable c).pFlags.hanging =
          (s.kernel.procTable c).pFlags.hanging ∧
        ((s.kernel.modify m.source Mm.Proc.waits).procTable c).pFlags.freeSlot =
          (s.kernel.procTable c).pFlags.freeSlot ∧
        ((s.kernel.modify m.source Mm.Proc.waits).procTable c).pParent =
          (s.kernel.procTable c).pParent := by
    by_cases same : c = m.source
    · subst same
      rw [State.modify_self]
      exact ⟨rfl, rfl, rfl⟩
    · rw [State.modify_other _ _ same]
      exact ⟨rfl, rfl, rfl⟩
  have notOrphans : s.mm.orphans = none := by
    rw [mm]
    rfl
  refine h.mmTurns ?_ ?_ (fun c => (fields c).2.1) ?_ nofun fun proc pid rest buries =>
    absurd buries (not_buries_of rfl _ _ _)
  · intro p c inTable waiting parent
    rw [(fields c).2.2] at parent
    rw [(fields c).1]
    by_cases same : p = m.source
    · subst same
      exact Mm.scan_alive found c ((Mm.mem_slots c).mpr inTable) parent
    · rw [State.modify_other _ _ same] at waiting
      exact h.quiet p c inTable waiting parent
  · intro c inTable isForked live
    rw [(fields c).2.1] at live
    rw [(fields c).2.2]
    refine .inl ?_
    rw [Lives, (fields _).1, (fields _).2.1]
    exact h.settled notOrphans c inTable isForked live
  · intro c flag
    rw [(fields c).1] at flag
    exact .inl flag

section Exit

variable {pid parentPid status i : Int} {rest : List Int}

theorem exits_parent (k : State) (pid status c : Int) :
    ((k.modify pid (Mm.Proc.exits status)).procTable c).pParent = (k.procTable c).pParent :=
  Mm.modify_pParent _ _ _ _ fun _ => rfl

theorem report_fields {k : State}
    (after : k' = (k.modify pid (Mm.Proc.exits status)).modify parentPid Mm.Proc.stopsWaiting)
    (c : Int) :
    ((k'.procTable c).pFlags.hanging = (k.procTable c).pFlags.hanging ∧
        (k'.procTable c).pFlags.freeSlot = (k.procTable c).pFlags.freeSlot ∧
        (k'.procTable c).pParent = (k.procTable c).pParent) ∧
      ((k'.procTable c).pFlags.waiting = true → (k.procTable c).pFlags.waiting = true) := by
  subst after
  by_cases same : c = parentPid
  · subst same
    simp [Mm.Proc.stopsWaiting, exits_flags, exits_parent]
  · simp [same, exits_flags, exits_parent]

theorem hang_fields {k : State}
    (after : k' = (k.modify pid (Mm.Proc.exits status)).modify pid Mm.Proc.hangs) (c : Int) :
    ((k'.procTable c).pFlags.waiting = (k.procTable c).pFlags.waiting ∧
        (k'.procTable c).pFlags.freeSlot = (k.procTable c).pFlags.freeSlot ∧
        (k'.procTable c).pParent = (k.procTable c).pParent) ∧
      (c ≠ pid → (k'.procTable c).pFlags.hanging = (k.procTable c).pFlags.hanging) := by
  subst after
  by_cases same : c = pid
  · subst same
    simp [Mm.Proc.hangs, Mm.Proc.exits]
  · simp [same]

theorem Tree.report (h : Tree s) (mm : s.mm = .leave pid parentPid status) :
    Tree { s with
      kernel := (s.kernel.modify pid (Mm.Proc.exits status)).modify parentPid Mm.Proc.stopsWaiting
      mm := mmThink.collecting
        ((s.kernel.modify pid (Mm.Proc.exits status)).modify parentPid Mm.Proc.stopsWaiting)
        pid pid Mm.slots } := by
  have after : (s.kernel.modify pid (Mm.Proc.exits status)).modify parentPid Mm.Proc.stopsWaiting =
      (s.kernel.modify pid (Mm.Proc.exits status)).modify parentPid Mm.Proc.stopsWaiting := rfl
  have fields := report_fields after
  have notOrphans : s.mm.orphans = none := by
    rw [mm]
    rfl
  have isForked := h.forked pid (by rw [mm]; rfl)
  refine h.mmTurns ?_ ?_ (fun c => (fields c).1.2.1) ?_ nofun ?_
  · intro p c inTable waiting parent
    rw [(fields c).1.2.2] at parent
    rw [(fields c).1.1]
    exact h.quiet p c inTable ((fields p).2 waiting) parent
  · intro c inTable isForked live
    rw [(fields c).1.2.1] at live
    rw [(fields c).1.2.2]
    refine .inl ?_
    rw [Lives, (fields _).1.1, (fields _).1.2.1]
    exact h.settled notOrphans c inTable isForked live
  · intro c flag
    rw [(fields c).1.1] at flag
    exact .inl flag
  · intro proc pid' rest buries
    obtain ⟨d, m, same⟩ | same := buries <;> cases same
    refine ⟨?_, .inr ⟨rfl, rfl⟩⟩
    rintro rfl
    exact absurd isForked (by decide)

theorem Tree.hang (h : Tree s) (safe : Safe s) (mm : s.mm = .leave pid parentPid status)
    (busy : (s.kernel.procTable parentPid).pFlags.waiting = false) :
    Tree { s with
      kernel := (s.kernel.modify pid (Mm.Proc.exits status)).modify pid Mm.Proc.hangs
      mm := .adopt pid Mm.slots } := by
  obtain ⟨waits, alive⟩ := safe.server_of_leave mm
  have isParent := safe.parent pid parentPid status (.inr (.inr mm))
  have after : (s.kernel.modify pid (Mm.Proc.exits status)).modify pid Mm.Proc.hangs =
      (s.kernel.modify pid (Mm.Proc.exits status)).modify pid Mm.Proc.hangs := rfl
  have fields := hang_fields after
  have notOrphans : s.mm.orphans = none := by
    rw [mm]
    rfl
  have isForked := h.forked pid (by rw [mm]; rfl)
  refine h.mmTurns ?_ ?_ (fun c => (fields c).1.2.1) ?_ nofun fun proc pid rest buries =>
    absurd buries (not_buries_of rfl _ _ _)
  · intro p c inTable waiting parent
    rw [(fields c).1.2.2] at parent
    rw [(fields p).1.1] at waiting
    have other : c ≠ pid := by
      rintro rfl
      rw [← parent, isParent, busy] at waiting
      cases waiting
    rw [(fields c).2 other]
    exact h.quiet p c inTable waiting parent
  · intro c inTable isForked live
    rw [(fields c).1.2.1] at live
    rw [(fields c).1.2.2]
    have before := h.settled notOrphans c inTable isForked live
    by_cases same : (s.kernel.procTable c).pParent = pid
    · exact .inr ⟨pid, Mm.slots, rfl, (Mm.mem_slots c).mpr inTable, same⟩
    · refine .inl ?_
      rw [Lives, (fields _).2 same, (fields _).1.2.1]
      exact before
  · intro c flag
    by_cases same : c = pid
    · subst same
      refine .inr ⟨?_, alive.2.2⟩
      rintro rfl
      exact absurd isForked (by decide)
    · rw [(fields c).2 same] at flag
      exact .inl flag

end Exit

section Adopt

variable {pid i : Int} {rest : List Int}

theorem adopted_parent (k : State) (i c : Int) :
    ((k.modify i Mm.Proc.adopted).procTable c).pParent =
      if c = i then initPid else (k.procTable c).pParent := by
  rw [State.modify_apply]
  split
  next => rfl
  next => rfl

theorem Tree.rest_parented (h : Tree s) (going : s.mm.orphans = some (pid, i :: rest)) {c : Int}
    (inTable : InTable c) (isForked : nrTasks + nrNativeProcs ≤ c)
    (live : (s.kernel.procTable c).pFlags.freeSlot = false)
    (other : c = i → (s.kernel.procTable i).pParent ≠ pid) :
    Lives s.kernel (s.kernel.procTable c).pParent ∨
      c ∈ rest ∧ (s.kernel.procTable c).pParent = pid := by
  rcases h.parented c inTable isForked live with lives | ⟨pid', rest', going', member, parent⟩
  · exact .inl lives
  · rw [going] at going'
    cases going'
    rcases List.mem_cons.mp member with same | inRest
    · subst same
      exact absurd parent (other rfl)
    · exact .inr ⟨inRest, parent⟩

theorem Tree.skip (h : Tree s) (mm : s.mm = .adopt pid (i :: rest))
    (other : (s.kernel.procTable i).pParent ≠ pid) : Tree { s with mm := .adopt pid rest } := by
  have going : s.mm.orphans = some (pid, i :: rest) := by
    rw [mm]
    rfl
  refine h.mmTurns h.quiet ?_ (fun _ => rfl) (fun _ flag => .inl flag) nofun
    fun proc pid rest buries => absurd buries (not_buries_of rfl _ _ _)
  intro c inTable isForked live
  exact (h.rest_parented going inTable isForked live fun _ => other).imp_right
    fun ⟨member, parent⟩ => ⟨pid, rest, rfl, member, parent⟩

theorem Tree.done (h : Tree s) (mm : s.mm = .adopt pid []) : Tree { s with mm := .main } := by
  refine h.mmTurns h.quiet ?_ (fun _ => rfl) (fun _ flag => .inl flag) nofun
    fun proc pid rest buries => absurd buries (not_buries_of rfl _ _ _)
  intro c inTable isForked live
  rcases h.parented c inTable isForked live with lives | ⟨pid', rest', going, member, -⟩
  · exact .inl lives
  · rw [mm] at going
    cases going
    cases member

theorem Tree.taken (h : Tree s) (mm : s.mm = .adopt pid (i :: rest)) {mm' : Mm}
    (kept : ∀ c, (k'.procTable c).pFlags.hanging = (s.kernel.procTable c).pFlags.hanging ∧
      (k'.procTable c).pFlags.freeSlot = (s.kernel.procTable c).pFlags.freeSlot ∧
      ((k'.procTable c).pFlags.waiting = true → (s.kernel.procTable c).pFlags.waiting = true) ∧
      (k'.procTable c).pParent = if c = i then initPid else (s.kernel.procTable c).pParent)
    (quiet : ¬ ((k'.procTable initPid).pFlags.waiting = true ∧
      (s.kernel.procTable i).pFlags.hanging = true))
    (orphans : mm'.orphans = some (pid, rest)) (exits : mm'.exiting = none)
    (corpse : ∀ proc pid rest, mm'.Buries proc pid rest →
      proc = i ∧ (s.kernel.procTable i).pFlags.hanging = true) :
    Tree { s with kernel := k', mm := mm' } := by
  have going : s.mm.orphans = some (pid, i :: rest) := by
    rw [mm]
    rfl
  have lives {p : Int} (before : Lives s.kernel p) : Lives k' p := by
    rw [Lives, (kept p).1, (kept p).2.1]
    exact before
  refine h.mmTurns ?_ ?_ (fun c => (kept c).2.1) ?_ ?_ ?_
  · intro p c inTable waiting parent
    rw [(kept c).2.2.2] at parent
    rw [(kept c).1]
    by_cases same : c = i
    · subst same
      rw [if_pos rfl] at parent
      subst parent
      exact Bool.eq_false_iff.mpr fun hanging => quiet ⟨waiting, hanging⟩
    · rw [if_neg same] at parent
      exact h.quiet p c inTable ((kept p).2.2.1 waiting) parent
  · intro c inTable isForked live
    rw [(kept c).2.1] at live
    rw [(kept c).2.2.2]
    by_cases same : c = i
    · rw [if_pos same]
      exact .inl (lives h.init)
    · rw [if_neg same]
      refine (h.rest_parented going inTable isForked live fun isI => absurd isI same).imp lives ?_
      rintro ⟨member, parent⟩
      exact ⟨pid, rest, orphans, member, parent⟩
  · intro c flag
    rw [(kept c).1] at flag
    exact .inl flag
  · intro pid' exits'
    rw [exits] at exits'
    cases exits'
  · intro proc pid' rest' buries
    obtain ⟨rfl, hanging⟩ := corpse proc pid' rest' buries
    refine ⟨?_, .inl ?_⟩
    · rintro rfl
      rw [h.init.2.2] at hanging
      cases hanging
    · rw [(kept proc).1]
      exact hanging

theorem Tree.adopt (h : Tree s) (mm : s.mm = .adopt pid (i :: rest))
    (quiet : ¬ ((s.kernel.procTable initPid).pFlags.waiting = true ∧
      (s.kernel.procTable i).pFlags.hanging = true)) :
    Tree { s with kernel := s.kernel.modify i Mm.Proc.adopted, mm := .adopt pid rest } := by
  refine h.taken mm ?_ ?_ rfl rfl fun proc pid rest buries =>
    absurd buries (not_buries_of rfl _ _ _)
  · intro c
    rw [adopted_flags, adopted_parent]
    exact ⟨rfl, rfl, id, rfl⟩
  · rw [adopted_flags]
    exact quiet

theorem Tree.relay (h : Tree s) (mm : s.mm = .adopt pid (i :: rest))
    (hanging : (s.kernel.procTable i).pFlags.hanging = true) :
    Tree { s with
      kernel := (s.kernel.modify i Mm.Proc.adopted).modify initPid Mm.Proc.stopsWaiting
      mm := mmThink.collecting
        ((s.kernel.modify i Mm.Proc.adopted).modify initPid Mm.Proc.stopsWaiting) i pid rest } := by
  refine h.taken mm ?_ ?_ rfl rfl ?_
  · intro c
    rw [Mm.modify_pParent _ _ _ Mm.Proc.stopsWaiting fun _ => rfl, adopted_parent]
    by_cases same : c = initPid
    · subst same
      rw [State.modify_self, Mm.Proc.stopsWaiting, adopted_flags]
      exact ⟨rfl, rfl, fun waits => absurd waits Bool.false_ne_true, rfl⟩
    · rw [State.modify_other _ _ same, adopted_flags]
      exact ⟨rfl, rfl, id, rfl⟩
  · rw [State.modify_self]
    exact fun waits => absurd waits.1 Bool.false_ne_true
  · intro proc pid' rest' buries
    obtain ⟨d, m, same⟩ | same := buries <;> cases same
    exact ⟨rfl, hanging⟩

end Adopt

theorem Tree.release (h : Tree s) {proc pid : Int} {rest : List Int}
    (mm : s.mm = .release proc pid rest) :
    Tree { s with
      kernel := s.kernel.modify proc Mm.Proc.released
      user := Function.update s.user proc .absent
      mm := .adopt pid rest } := by
  obtain ⟨notInit, corpse⟩ := h.corpse proc pid rest (.inr mm)
  have going : s.mm.orphans = some (pid, rest) := by
    rw [mm]
    rfl
  have parents (c : Int) : ((s.kernel.modify proc Mm.Proc.released).procTable c).pParent =
      (s.kernel.procTable c).pParent := Mm.modify_pParent _ _ _ _ fun _ => rfl
  have other {c : Int} (notProc : c ≠ proc) :
      (s.kernel.modify proc Mm.Proc.released).procTable c = s.kernel.procTable c :=
    State.modify_other _ _ notProc
  have gone : ((s.kernel.modify proc Mm.Proc.released).procTable proc).pFlags =
      .onlyFreeSlot := by
    rw [State.modify_self]
    rfl
  refine ⟨?_, ?_, ?_, ?_, ?_, nofun, fun _ _ _ buries => absurd buries (not_buries_of rfl _ _ _)⟩
  · intro p c inTable waiting parent
    rw [parents] at parent
    have notP : p ≠ proc := by
      rintro rfl
      rw [gone] at waiting
      cases waiting
    rw [other notP] at waiting
    by_cases same : c = proc
    · rw [same, gone]
      rfl
    · rw [other same]
      exact h.quiet p c inTable waiting parent
  · intro c inTable isForked live
    have notC : c ≠ proc := by
      rintro rfl
      rw [gone] at live
      cases live
    rw [other notC] at live ⊢
    rcases h.parented c inTable isForked live with lives | ⟨pid', rest', going', member, parent⟩
    · by_cases same : (s.kernel.procTable c).pParent = proc
      · rcases corpse with hanging | ⟨isPid, isSlots⟩
        · rw [same] at lives
          rw [lives.2.2] at hanging
          cases hanging
        · subst isSlots
          refine .inr ⟨pid, Mm.slots, rfl, (Mm.mem_slots c).mpr inTable, ?_⟩
          rw [other notC, same]
          exact isPid
      · refine .inl ?_
        rw [Lives, other same]
        exact lives
    · rw [going] at going'
      cases going'
      refine .inr ⟨pid, rest, rfl, member, ?_⟩
      rw [other notC]
      exact parent
  · intro c isFree
    by_cases same : c = proc
    · rw [same, gone]
      rfl
    · rw [other same] at isFree ⊢
      exact h.buried c isFree
  · rw [Lives, other notInit.symm]
    exact h.init
  · intro p out
    by_cases same : p = proc
    · subst same
      exact .inl (Function.update_self ..)
    · simp only [Function.update_of_ne same]
      exact h.tabled p out

theorem Tree.mmThinks (h : Tree s) (safe : Safe s) (thinks : MmThinks s t) : Tree t := by
  cases thinks with
  | answer m answer mm nothing =>
    exact h.mmGoes (by rw [mm]; rfl) nofun fun _ _ _ buries =>
      absurd buries (not_buries_of rfl _ _ _)
  | fork memorySize m child k' mm isFork found above done => exact h.fork safe mm found above done
  | exit m mm isExit =>
    refine h.mmGoes (by rw [mm]; rfl) ?_ fun _ _ _ buries =>
      absurd buries (not_buries_of rfl _ _ _)
    intro pid exits
    rw [mm]
    simp only [Mm.exiting, isExit, if_true]
    exact exits
  | collect m child mm isWait found =>
    refine h.mmGoes (by rw [mm]; rfl) nofun ?_
    intro proc pid rest buries
    obtain ⟨-, -, hanging⟩ := Mm.scan_hanging found
    obtain ⟨d, m', same⟩ | same := buries <;> cases same
    refine ⟨?_, .inl hanging⟩
    rintro rfl
    rw [h.init.2.2] at hanging
    cases hanging
  | wait m count mm isWait found => exact h.wait mm found
  | report pid parentPid status mm waiting => exact h.report mm
  | hang pid parentPid status mm busy => exact h.hang safe mm busy
  | done pid mm => exact h.done mm
  | skip pid i rest mm other => exact h.skip mm other
  | adopt pid i rest mm child quiet => exact h.adopt mm quiet
  | relay pid i rest mm child waiting hanging => exact h.relay mm hanging
  | release proc pid rest mm => exact h.release mm

theorem Tree.thinks (h : Tree s) (safe : Safe s) (thinks : Thinks s p t) : Tree t := by
  have same (kernel : t.kernel = s.kernel) (user : t.user = s.user) (mm : t.mm = s.mm) :
      Tree t :=
    h.elsewhere (by rw [kernel]) mm (by rw [user]; exact h.tabled)
  cases thinks with
  | user p r above runs =>
    refine h.elsewhere (Keeps.refl _) rfl ?_
    intro q out
    have other : q ≠ p := by
      rintro rfl
      rcases h.tabled q out with absent | ⟨negative, -⟩
      · rw [absent] at runs
        cases runs
      · simp only [taskMm] at above
        omega
    simp only [Function.update_of_ne other]
    exact h.tabled q out
  | mm memorySize thinks => exact h.mmThinks safe (mmThinks_of thinks)
  | _ => exact same rfl rfl rfl

theorem Tree.starts (starts : Starts s) : Tree s := by
  obtain ⟨boots, user, -, mm, -⟩ := starts
  have flags := boot_flags boots
  have native (c : Int) (above : ¬ c < nrTasks + nrNativeProcs) :
      (s.kernel.procTable c).pFlags.freeSlot = true := by
    rw [flags c, if_neg above]
    rfl
  have idle (c : Int) : (s.kernel.procTable c).pFlags.waiting = false ∧
      (s.kernel.procTable c).pFlags.hanging = false := by
    rw [flags c]
    split <;> exact ⟨rfl, rfl⟩
  refine ⟨?_, ?_, fun c _ => (idle c).2, ⟨by decide, ?_, (idle _).2⟩, ?_, ?_, ?_⟩
  · intro p c _ _ _
    exact (idle c).2
  · intro c _ isForked live
    rw [native c (by omega)] at live
    cases live
  · rw [flags]
    rfl
  · intro p out
    rw [user p]
    split
    next small =>
      refine .inr ⟨?_, rfl⟩
      by_contra negative
      refine out ⟨by omega, ?_⟩
      simp only [nrTasks, nrNativeProcs, nrProcs] at small ⊢
      omega
    next => exact .inl rfl
  · rw [mm]
    intro pid exits
    cases exits
  · rw [mm]
    rintro proc pid rest (⟨d, m, same⟩ | same) <;> cases same

theorem Tree.moves (h : Tree s) (safe : Safe s) (stay : NativesStay s) (moves : Moves s t) :
    Tree t := by
  cases moves with
  | message k' keeps p d src m sends waits admits after =>
    subst after
    exact h.message safe.toCustody stay keeps sends waits
  | interrupt k' keeps d src waits admits after =>
    subst after
    exact h.interrupt keeps waits
  | think p runs thinks => exact h.thinks safe thinks
  | quiet k' keeps ticks after =>
    subst after
    exact h.keeps keeps rfl h.tabled h.forked fun _ _ _ buries => buries

end Steps

theorem tree_run (run : Run Starts Step)
    (stay : ∀ t, t < run.length → NativesStay (run.state t)) {t : Nat} (within : t ≤ run.length) :
    Tree (run.state t) := by
  refine run.timed_invariant (P := fun _ => Tree) (fun _ => Tree.starts) ?_ t within
  intro t inside tree
  have safe := safe_run run inside.le
  exact tree.moves safe (stay t inside) (safe.moves (run.steps t inside))

/--
While INIT and the native processes do not exit: whenever MM is between two messages, nobody waits
who has a zombie, and every forked process has a parent that can collect it.
-/
theorem process_tree (run : Run Starts Step)
    (stay : ∀ t, t < run.length → NativesStay (run.state t)) {t : Nat} (within : t ≤ run.length)
    (between : (run.state t).mm = .main) :
    (∀ p c, InTable p → InTable c →
      ((run.state t).kernel.procTable p).pFlags.waiting = true →
      ((run.state t).kernel.procTable c).pParent = p →
      ((run.state t).kernel.procTable c).pFlags.hanging = false) ∧
    ∀ c, InTable c → nrTasks + nrNativeProcs ≤ c →
      ((run.state t).kernel.procTable c).pFlags.freeSlot = false →
      Lives (run.state t).kernel ((run.state t).kernel.procTable c).pParent := by
  have tree := tree_run run stay within
  constructor
  · exact fun p c _ inTable => tree.quiet p c inTable
  · exact tree.settled (by rw [between]; rfl)

section Samples

variable {s t : System} {p d : Int} {m : Message} {memorySize : Int}

theorem stays_blocks (stay : NativesStay s) {function : Function} {peer : Int} {buf : Nat} :
    NativesStay (blocks s function peer buf p) := stay

theorem stays_fs (stay : NativesStay s) {fs : Fs} : NativesStay { s with fs := fs } :=
  stay

theorem stays_delivers (stay : NativesStay s) {buf : Nat} :
    NativesStay (delivers s p d m buf) := by
  intro q r asks isExit
  have after : ((blocks s .send d buf p).sent p).user q = .request r := by
    obtain same | ⟨-, -, got⟩ := got_user_cases (s := (blocks s .send d buf p).sent p) (p := d)
      (m := { m with source := p }) q
    · exact same.symm.trans asks
    · have asks' := got.symm.trans asks
      cases user : ((blocks s .send d buf p).sent p).user q <;> rw [user] at asks' <;> cases asks'
      rfl
  obtain same | ⟨-, -, sent⟩ := sent_user_cases (s := blocks s .send d buf p) (p := p) q
  · exact stay q r (same.symm.trans after) isExit
  · have asks' := sent.symm.trans after
    cases user : (blocks s .send d buf p).user q <;> rw [user] at asks' <;> cases asks'

theorem stays_mmThinks (stay : NativesStay s) (thinks : MmThinks s t) : NativesStay t := by
  cases thinks with
  | fork memorySize m child k' mm isFork found above done =>
    intro p r asks isExit
    by_cases same : p = child
    · subst same
      exact above
    · simp only [Function.update_of_ne same] at asks
      exact stay p r asks isExit
  | release proc pid rest mm =>
    intro p r asks isExit
    by_cases same : p = proc
    · subst same
      simp only [Function.update_self] at asks
      cases asks
    · simp only [Function.update_of_ne same] at asks
      exact stay p r asks isExit
  | _ => exact stay

def asks (s : System) (p : Int) (r : Request) : System :=
  { s with user := Function.update s.user p (.request r) }

theorem stays_asks (stay : NativesStay s) {r : Request}
    (isForked : r.m.type = .exit → nrTasks + nrNativeProcs ≤ p) :
    NativesStay (asks s p r) := by
  intro q r' asks isExit
  by_cases same : q = p
  · subst same
    simp only [Servers.asks, Function.update_self, User.request.injEq] at asks
    rw [← asks] at isExit
    exact isForked isExit
  · simp only [Servers.asks, Function.update_of_ne same] at asks
    exact stay q r' asks isExit

def mmGoes (memorySize : Int) (s : System) : System := (mmThink memorySize s).getD s

theorem mmGoes_some (goes : (mmThink memorySize s).isSome = true) :
    mmThink memorySize s = some (mmGoes memorySize s) := by
  obtain ⟨t, thinks⟩ := Option.isSome_iff_exists.mp goes
  rw [mmGoes, thinks, Option.getD_some]

theorem stays_mmGoes (stay : NativesStay s) : NativesStay (mmGoes memorySize s) := by
  cases thinks : mmThink memorySize s with
  | none => simpa [mmGoes, thinks] using stay
  | some t =>
    simp only [mmGoes, thinks, Option.getD_some]
    exact stays_mmThinks stay (mmThinks_of thinks)

theorem mm_goes (runs : (s.kernel.procTable taskMm).pFlags = .clear)
    (goes : (mmThink memorySize s).isSome = true) :
    Step s (.think taskMm) (mmGoes memorySize s) :=
  .think taskMm runs (.mm memorySize (mmGoes_some goes))

def askFork : Request := ask taskMm .fork fork_isRequest
def askWait : Request := ask taskMm .wait (.inr (.inl ⟨rfl, by decide⟩))
def askExit : Request :=
  ⟨taskMm, { resetMsg with type := .exit, m3i1 := 7 }, .inr (.inl ⟨rfl, by decide⟩)⟩

def answered : Message := { resetMsg with type := .syscallRet }
def forkTold : Message := { resetMsg with type := .fork, m3i2 := 9 }
def exitTold : Message := { resetMsg with type := .exit, m3i2 := 9 }
def born : Message := { answered with source := initPid, m3i2 := 9 }
def report : Message := { answered with m3i1 := 7, m3i2 := 9 }

-- INIT forks and waits, and its child exits with status 7.
def life : Nat → System
  | 0 => boots
  | 1 => blocks (life 0) .receive any 4096 taskMm
  | 2 => { life 1 with fs := .main }
  | 3 => blocks (life 2) .receive any 8192 taskFs
  | 4 => asks (life 3) initPid askFork
  | 5 => delivers (life 4) initPid taskMm askFork.m 12288
  | 6 => blocks (life 5) .receive taskMm 12288 initPid
  | 7 => mmGoes 0x2000000 (life 6)
  | 8 => delivers (life 7) taskMm taskFs forkTold 4096
  | 9 => blocks (life 8) .receive taskFs 4096 taskMm
  | 10 => { life 9 with fs := .reply taskMm answered }
  | 11 => delivers (life 10) taskFs taskMm answered 8192
  | 12 => delivers (life 11) taskMm 9 answered 4096
  | 13 => delivers (life 12) taskMm initPid born 4096
  | 14 => blocks (life 13) .receive any 4096 taskMm
  | 15 => asks (life 14) initPid askWait
  | 16 => delivers (life 15) initPid taskMm askWait.m 12288
  | 17 => blocks (life 16) .receive taskMm 12288 initPid
  | 18 => mmGoes 0x2000000 (life 17)
  | 19 => blocks (life 18) .receive any 4096 taskMm
  | 20 => asks (life 19) 9 askExit
  | 21 => delivers (life 20) 9 taskMm askExit.m 12288
  | 22 => blocks (life 21) .receive taskMm 12288 9
  | 23 => mmGoes 0x2000000 (life 22)
  | 24 => blocks (life 23) .receive any 8192 taskFs
  | 25 => delivers (life 24) taskMm taskFs exitTold 4096
  | 26 => blocks (life 25) .receive taskFs 4096 taskMm
  | 27 => { life 26 with fs := .reply taskMm answered }
  | 28 => delivers (life 27) taskFs taskMm answered 8192
  | 29 => mmGoes 0x2000000 (life 28)
  | 30 => delivers (life 29) taskMm initPid report 4096
  | t + 1 => mmGoes 0x2000000 (life t)

def lifeEvents : Nat → Event
  | 0 | 8 | 13 | 18 | 25 => .receive taskMm
  | 1 | 9 | 26 => .think taskFs
  | 2 | 23 => .receive taskFs
  | 3 | 14 => .think initPid
  | 4 | 15 => .send initPid
  | 5 | 16 => .receive initPid
  | 6 | 17 | 22 | 28 | 30 => .think taskMm
  | 7 | 11 | 12 | 24 | 29 => .send taskMm
  | 10 | 27 => .send taskFs
  | 19 => .think 9
  | 20 => .send 9
  | 21 => .receive 9
  | _ => .clock

set_option maxRecDepth 4096 in
def lifeRun : Run Starts Step where
  length := 31
  state := life
  act := lifeEvents
  start := boots_starts
  steps := by
    intro t inside
    match t, inside with
    | 0, _ => exact receive_blocks (by decide +kernel) rfl (by decide +kernel)
    | 1, _ => exact .think _ (by decide +kernel) (.fsInitDone rfl)
    | 2, _ => exact receive_blocks (by decide +kernel) rfl (by decide +kernel)
    | 3, _ => exact .think _ (by decide +kernel) (.user _ askFork (by decide) rfl)
    | 4, _ => exact send_delivers (by decide +kernel) rfl (by decide +kernel)
    | 5, _ => exact receive_blocks (by decide +kernel) rfl (by decide +kernel)
    | 6, _ => exact mm_goes (by decide +kernel) (by decide +kernel)
    | 7, _ => exact send_delivers (by decide +kernel) (by decide +kernel) (by decide +kernel)
    | 8, _ => exact receive_blocks (by decide +kernel) (by decide +kernel) (by decide +kernel)
    | 9, _ => exact .think _ (by decide +kernel) (.fsReply taskMm .fork resetMsg rfl)
    | 10, _ => exact send_delivers (by decide +kernel) (by decide +kernel) (by decide +kernel)
    | 11, _ => exact send_delivers (by decide +kernel) (by decide +kernel) (by decide +kernel)
    | 12, _ => exact send_delivers (by decide +kernel) (by decide +kernel) (by decide +kernel)
    | 13, _ => exact receive_blocks (by decide +kernel) (by decide +kernel) (by decide +kernel)
    | 14, _ => exact .think _ (by decide +kernel) (.user _ askWait (by decide) rfl)
    | 15, _ => exact send_delivers (by decide +kernel) (by decide +kernel) (by decide +kernel)
    | 16, _ => exact receive_blocks (by decide +kernel) (by decide +kernel) (by decide +kernel)
    | 17, _ => exact mm_goes (by decide +kernel) (by decide +kernel)
    | 18, _ => exact receive_blocks (by decide +kernel) (by decide +kernel) (by decide +kernel)
    | 19, _ => exact .think _ (by decide +kernel) (.user _ askExit (by decide) rfl)
    | 20, _ => exact send_delivers (by decide +kernel) (by decide +kernel) (by decide +kernel)
    | 21, _ => exact receive_blocks (by decide +kernel) (by decide +kernel) (by decide +kernel)
    | 22, _ => exact mm_goes (by decide +kernel) (by decide +kernel)
    | 23, _ => exact receive_blocks (by decide +kernel) (by decide +kernel) (by decide +kernel)
    | 24, _ => exact send_delivers (by decide +kernel) (by decide +kernel) (by decide +kernel)
    | 25, _ => exact receive_blocks (by decide +kernel) (by decide +kernel) (by decide +kernel)
    | 26, _ => exact .think _ (by decide +kernel) (.fsReply taskMm .exit resetMsg rfl)
    | 27, _ => exact send_delivers (by decide +kernel) (by decide +kernel) (by decide +kernel)
    | 28, _ => exact mm_goes (by decide +kernel) (by decide +kernel)
    | 29, _ => exact send_delivers (by decide +kernel) (by decide +kernel) (by decide +kernel)
    | 30, _ => exact mm_goes (by decide +kernel) (by decide +kernel)
    | t + 31, inside => exact absurd inside (by omega)

theorem life_stays (t : Nat) : NativesStay (life t) := by
  fun_induction life t with
  | case1 =>
    intro p r asks
    simp only [boots] at asks
    split at asks <;> cases asks
  | case2 stays | case4 stays | case7 stays | case10 stays | case15 stays | case18 stays
  | case20 stays | case23 stays | case25 stays | case27 stays =>
    exact stays_blocks stays
  | case6 stays | case9 stays | case12 stays | case13 stays | case14 stays | case17 stays
  | case22 stays | case26 stays | case29 stays | case31 stays =>
    exact stays_delivers stays
  | case5 stays | case16 stays =>
    exact stays_asks stays nofun
  | case21 stays => exact stays_asks stays fun _ => by decide
  | case3 source stays | case11 source stays | case28 source stays =>
    exact stays_fs stays
  | case8 stays | case19 stays | case24 stays | case30 stays =>
    exact stays_mmGoes stays
  | case32 => exact stays_mmGoes ‹_›

-- INIT waits for its child, which is alive.
theorem process_tree_life :
    (lifeRun.state 19).mm = .main ∧
    ((lifeRun.state 19).kernel.procTable initPid).pFlags.waiting = true ∧
    ((lifeRun.state 19).kernel.procTable 9).pParent = initPid ∧
    ((lifeRun.state 19).kernel.procTable 9).pFlags.hanging = false ∧
    Lives (lifeRun.state 19).kernel ((lifeRun.state 19).kernel.procTable 9).pParent := by
  have between : (lifeRun.state 19).mm = .main := rfl
  have waits : ((lifeRun.state 19).kernel.procTable initPid).pFlags.waiting = true := by
    decide +kernel
  have child : ((lifeRun.state 19).kernel.procTable 9).pParent = initPid := by decide +kernel
  have live : ((lifeRun.state 19).kernel.procTable 9).pFlags.freeSlot = false := by
    decide +kernel
  have within : 19 ≤ lifeRun.length := by decide
  have tree := process_tree lifeRun (fun t _ => life_stays t) within between
  exact ⟨between, waits, child, tree.1 initPid 9 (by decide) (by decide) waits child,
    tree.2 9 (by decide) (by decide) live⟩

end Samples

end Konix.Servers
