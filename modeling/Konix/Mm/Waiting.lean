import Konix.Mm.ForkExit
import Konix.Kernel.Calls

set_option autoImplicit false

namespace Konix.Mm

open Kernel Runs

def ChildOf (k : Kernel.State) (p c : Int) : Prop := InTable c ∧ (k.procTable c).pParent = p

def LiveChild (k : Kernel.State) (p : Int) : Prop :=
  ∃ c, ChildOf k p c ∧ (k.procTable c).pFlags.freeSlot = false

def Waits (k : Kernel.State) (p : Int) : Prop := (k.procTable p).pFlags.waiting = true

-- Every process that waits has a child to wait for.
def Attended (k : Kernel.State) : Prop := ∀ p, InTable p → Waits k p → LiveChild k p

def Alive (k : Kernel.State) (p : Int) : Prop :=
  (k.procTable p).pFlags.waiting = false ∧ (k.procTable p).pFlags.hanging = false ∧
    (k.procTable p).pFlags.freeSlot = false

section Updates

variable {k k' : Kernel.State}

theorem Attended.keeps (h : Attended k) (keeps : Keeps k k') : Attended k' := by
  intro p inTable waits
  have waited : Waits k p := by rwa [Waits, ← keeps.waiting p]
  obtain ⟨c, ⟨slot, parent⟩, live⟩ := h p inTable waited
  exact ⟨c, ⟨slot, (keeps.pParent c).trans parent⟩, (keeps.freeSlot c).trans live⟩

theorem Alive.keeps {p : Int} (h : Alive k p) (keeps : Keeps k k') : Alive k' p :=
  ⟨(keeps.waiting p).trans h.1, (keeps.hanging p).trans h.2.1, (keeps.freeSlot p).trans h.2.2⟩

/--
An update of the entry of `i` leaves everybody attended if `i` does not begin to wait, and if
nobody waits for `i` when it changes its parent or becomes free.
-/
theorem Attended.modify (h : Attended k) {i : Int} {f : Proc → Proc}
    (waits : (f (k.procTable i)).pFlags.waiting = true → Waits k i)
    (child : ((f (k.procTable i)).pParent = (k.procTable i).pParent ∧
        (f (k.procTable i)).pFlags.freeSlot = (k.procTable i).pFlags.freeSlot) ∨
      (k.procTable i).pFlags.freeSlot = true ∨ ¬ Waits k (k.procTable i).pParent) :
    Attended (k.modify i f) := by
  intro p inTable waiting
  have waited : Waits k p := by
    by_cases same : p = i
    · subst same
      rw [Waits, State.modify_self] at waiting
      exact waits waiting
    · rwa [Waits, State.modify_other _ _ same] at waiting
  obtain ⟨c, ⟨slot, parent⟩, live⟩ := h p inTable waited
  refine ⟨c, ?_⟩
  by_cases same : c = i
  · subst same
    rw [ChildOf, State.modify_self]
    rcases child with ⟨sameParent, sameFree⟩ | free | unwatched
    · exact ⟨⟨slot, sameParent.trans parent⟩, sameFree.trans live⟩
    · rw [live] at free
      cases free
    · rw [parent] at unwatched
      exact absurd waited unwatched
  · rw [ChildOf, State.modify_other _ _ same]
    exact ⟨⟨slot, parent⟩, live⟩

theorem Alive.modify_other {p i : Int} (h : Alive k p) (f : Proc → Proc) (other : p ≠ i) :
    Alive (k.modify i f) p := by
  rw [Alive, State.modify_other _ _ other]
  exact h

theorem Waits.modify_other {p i : Int} (f : Proc → Proc) (other : p ≠ i) :
    Waits (k.modify i f) p ↔ Waits k p := by
  rw [Waits, Waits, State.modify_other _ _ other]

theorem stopped_not_waits (k : Kernel.State) (p : Int) :
    ¬ Waits (k.modify p Proc.stopsWaiting) p := by
  rw [Waits, State.modify_self]
  exact fun waits => by cases waits

theorem modify_pParent (k : Kernel.State) (i p : Int) (f : Proc → Proc)
    (same : ∀ proc, (f proc).pParent = proc.pParent) :
    ((k.modify i f).procTable p).pParent = (k.procTable p).pParent := by
  rw [State.modify_apply]
  split
  next isSelf =>
    subst isSelf
    exact same _
  next => rfl

theorem Attended.wait (h : Attended k) {p : Int} (child : LiveChild k p) :
    Attended (k.modify p Proc.waits) := by
  have live (q : Int) (before : LiveChild k q) : LiveChild (k.modify p Proc.waits) q := by
    obtain ⟨c, ⟨slot, parent⟩, alive⟩ := before
    refine ⟨c, ⟨slot, ?_⟩, ?_⟩
    · rw [State.modify_apply]
      by_cases same : c = p
      · subst same
        simpa [Proc.waits] using parent
      · simpa [same] using parent
    · rw [State.modify_apply]
      by_cases same : c = p
      · subst same
        simpa [Proc.waits] using alive
      · simpa [same] using alive
  intro q inTable waits
  by_cases same : q = p
  · subst same
    exact live q child
  · rw [Waits.modify_other _ same] at waits
    exact live q (h q inTable waits)

end Updates

/--
While MM serves a request of `pid`: everybody is attended, `pid` does not wait, and the processes
in `others` can still be in a call.
-/
structure Serving (pid : Int) (others : Int → Prop) (k : Kernel.State) : Prop where
  attended : Attended k
  caller : ¬ Waits k pid
  others : ∀ p, others p → Alive k p

namespace Serving

variable {pid : Int} {others : Int → Prop} {k k' : Kernel.State} {machine : Machine}
  {s s' : State}

theorem keeps (h : Serving pid others k) (keeps : Keeps k k') : Serving pid others k' where
  attended := h.attended.keeps keeps
  caller := by
    rw [Waits, keeps.waiting]
    exact h.caller
  others := fun p other => (h.others p other).keeps keeps

theorem sendRecv (h : Serving pid others s.kernel) {function : Function} {dest : Int}
    {m : Message} (done : s.sendRecv machine function dest m = .ok s') :
    Serving pid others s'.kernel :=
  h.keeps (sendRecv_ok done).1

theorem not_waits_modify (h : Serving pid others k) {i : Int} {f : Proc → Proc}
    (waits : (f (k.procTable i)).pFlags.waiting = true → Waits k i) :
    ¬ Waits (k.modify i f) pid := by
  by_cases same : pid = i
  · subst same
    rw [Waits, State.modify_self]
    exact fun now => h.caller (waits now)
  · rw [Waits.modify_other f same]
    exact h.caller

theorem stopsWaiting (h : Serving pid others k) (i : Int) :
    Serving pid others (k.modify i Proc.stopsWaiting) where
  attended := h.attended.modify (fun waits => by cases waits) (.inl ⟨rfl, rfl⟩)
  caller := h.not_waits_modify fun waits => by cases waits
  others := by
    intro p other
    by_cases same : p = i
    · subst same
      rw [Alive, State.modify_self]
      exact ⟨rfl, (h.others p other).2⟩
    · exact (h.others p other).modify_other _ same

theorem modify (h : Serving pid others k) {i : Int} (f : Proc → Proc)
    (flags : (f (k.procTable i)).pFlags = (k.procTable i).pFlags)
    (parent : (f (k.procTable i)).pParent = (k.procTable i).pParent ∨
      ¬ Waits k (k.procTable i).pParent) :
    Serving pid others (k.modify i f) where
  attended := by
    refine h.attended.modify (fun waits => by rwa [Waits, ← flags]) ?_
    rcases parent with same | unwatched
    · exact .inl ⟨same, by rw [flags]⟩
    · exact .inr (.inr unwatched)
  caller := h.not_waits_modify fun waits => by rwa [Waits, ← flags]
  others := by
    intro p other
    by_cases same : p = i
    · subst same
      rw [Alive, State.modify_self, flags]
      exact h.others p other
    · exact (h.others p other).modify_other _ same

theorem hangs (h : Serving pid others k) {i : Int} (dead : ¬ others i) :
    Serving pid others (k.modify i Proc.hangs) where
  attended := h.attended.modify (fun waits => waits) (.inl ⟨rfl, rfl⟩)
  caller := h.not_waits_modify fun waits => waits
  others := fun p other =>
    (h.others p other).modify_other _ fun same => dead (same ▸ other)

theorem released (h : Serving pid others k) {i : Int} (dead : ¬ others i)
    (unwatched : ¬ Waits k (k.procTable i).pParent) :
    Serving pid others (k.modify i Proc.released) where
  attended := h.attended.modify (fun waits => by cases waits) (.inr (.inr unwatched))
  caller := h.not_waits_modify fun waits => by cases waits
  others := fun p other =>
    (h.others p other).modify_other _ fun same => dead (same ▸ other)

theorem cleanup (h : Serving pid others s.kernel) {i : Int} (dead : ¬ others i)
    (unwatched : ¬ Waits s.kernel (s.kernel.procTable i).pParent)
    (done : cleanup machine s i = .ok s') : Serving pid others s'.kernel := by
  unfold Mm.cleanup at done
  obtain ⟨told, tells, done⟩ := bind_ok done
  cases done
  have keeps := (sendRecv_ok tells).1
  refine (h.keeps keeps).released dead ?_
  rw [Waits, keeps.waiting, keeps.pParent]
  exact unwatched

theorem dead_of_hanging (h : Serving pid others k) {i : Int}
    (hanging : (k.procTable i).pFlags.hanging = true) : ¬ others i := by
  intro other
  rw [(h.others i other).2.1] at hanging
  cases hanging

theorem adopt (h : Serving pid others s.kernel) {i : Int}
    (done : adopt machine pid s i = .ok s') : Serving pid others s'.kernel := by
  unfold Mm.adopt at done
  by_cases child : (s.kernel.procTable i).pParent = pid
  · have unwatched : ¬ Waits s.kernel (s.kernel.procTable i).pParent := by
      rw [child]
      exact h.caller
    have moved : Serving pid others (s.modify i Proc.adopted).kernel :=
      h.modify Proc.adopted rfl (.inr unwatched)
    simp only [child, if_true] at done
    split at done
    next collects =>
      refine Serving.cleanup (moved.stopsWaiting initPid) (moved.dead_of_hanging collects.2) ?_ done
      have parent : (((s.modify i Proc.adopted).modify initPid
          Proc.stopsWaiting).kernel.procTable i).pParent = initPid := by
        refine (modify_pParent _ _ _ Proc.stopsWaiting fun _ => rfl).trans ?_
        simp [State.modify, Proc.adopted]
      rw [parent]
      exact stopped_not_waits _ _
    next stays =>
      cases done
      exact moved
  · simp only [child, if_false] at done
    cases done
    exact h

theorem adoptAll (h : Serving pid others s.kernel) (l : List Int)
    (done : l.foldlM (Mm.adopt machine pid) s = .ok s') : Serving pid others s'.kernel := by
  induction l generalizing s with
  | nil =>
    cases done
    exact h
  | cons i rest ih =>
    rw [List.foldlM_cons] at done
    obtain ⟨next, first, done⟩ := bind_ok done
    exact ih (h.adopt first) done

theorem leave (h : Serving pid others s.kernel) (dead : ¬ others pid)
    (done : leave machine s pid (s.kernel.procTable pid).pParent = .ok s') :
    Serving pid others s'.kernel := by
  unfold Mm.leave at done
  split at done
  next waits =>
    refine Serving.cleanup (h.stopsWaiting _) dead ?_ done
    have parent : ((s.modify (s.kernel.procTable pid).pParent
        Proc.stopsWaiting).kernel.procTable pid).pParent = (s.kernel.procTable pid).pParent :=
      modify_pParent _ _ _ Proc.stopsWaiting fun _ => rfl
    rw [parent]
    exact stopped_not_waits _ _
  next =>
    cases done
    exact h.hangs dead

theorem doExit (h : Serving pid others s.kernel) (dead : ¬ others pid) {mmMsg : Message}
    (source : mmMsg.source = pid) {status : Int}
    (done : doExit machine s mmMsg status = .ok s') : Serving pid others s'.kernel := by
  subst source
  unfold Mm.doExit at done
  obtain ⟨told, tells, done⟩ := bind_ok done
  obtain ⟨left, leaves, done⟩ := bind_ok done
  have marked : Serving mmMsg.source others (told.modify mmMsg.source (Proc.exits status)).kernel :=
    (h.sendRecv tells).modify (Proc.exits status) rfl (.inl rfl)
  have parent : (s.kernel.procTable mmMsg.source).pParent =
      ((told.modify mmMsg.source (Proc.exits status)).kernel.procTable mmMsg.source).pParent := by
    rw [← (sendRecv_ok tells).1.pParent]
    exact (modify_pParent _ _ _ (Proc.exits status) fun _ => rfl).symm
  rw [parent] at leaves
  exact (marked.leave dead leaves).adoptAll slots done

theorem copied (h : Serving pid others k) {i : Int}
    (free : (k.procTable i).pFlags.freeSlot = true) :
    Serving pid others (k.modify i fun _ => Proc.child pid (k.procTable pid)) where
  attended := h.attended.modify (fun waits => absurd waits h.caller) (.inr (.inl free))
  caller := h.not_waits_modify fun waits => absurd waits h.caller
  others := by
    intro p other
    have alive := h.others p other
    refine alive.modify_other _ ?_
    rintro rfl
    rw [alive.2.2] at free
    cases free

theorem duplicate (h : Serving pid others k) {memorySize childPid : Int}
    (free : (k.procTable childPid).pFlags.freeSlot = true)
    (done : duplicate memorySize k pid childPid = .ok k') : Serving pid others k' := by
  unfold Mm.duplicate at done
  obtain ⟨_, -, done⟩ := bind_ok done
  obtain ⟨childBase, -, done⟩ := bind_ok done
  cases done
  refine Serving.modify (Serving.keeps (h.copied free) ?_) (Proc.inMemory childBase) rfl (.inl rfl)
  exact Keeps.withMem _

theorem doFork (h : Serving pid others s.kernel) {mmMsg answer : Message}
    (source : mmMsg.source = pid) {retval : Int}
    (done : doFork machine s mmMsg = .ok (retval, answer, s')) : Serving pid others s'.kernel := by
  subst source
  obtain rfl | ⟨childPid, k', _, told, _, found, duplicates, tells, births⟩ := doFork_ok done
  · exact h
  · have free : (s.kernel.procTable childPid).pFlags.freeSlot = true := by
      rw [(freeSlot_found found).2]
      rfl
    exact Serving.sendRecv (Serving.sendRecv (h.duplicate free duplicates) tells) births

theorem doWait (h : Serving pid others s.kernel) (child : (∃ c, ChildOf s.kernel pid c) →
    LiveChild s.kernel pid) (caller : ¬ others pid) {mmMsg : Message} (source : mmMsg.source = pid)
    (done : doWait machine s mmMsg = .ok s') :
    Attended s'.kernel ∧ ∀ p, others p → Alive s'.kernel p := by
  subst source
  unfold Mm.doWait at done
  simp only at done
  cases found : scan s.kernel mmMsg.source 0 slots with
  | hanging c =>
    obtain ⟨-, parent, hanging⟩ := scan_hanging found
    rw [found] at done
    have unwatched : ¬ Waits s.kernel (s.kernel.procTable c).pParent := by
      rw [parent]
      exact h.caller
    have after := h.cleanup (h.dead_of_hanging hanging) unwatched done
    exact ⟨after.attended, after.others⟩
  | children count =>
    rw [found] at done
    cases count with
    | zero =>
      have after := h.sendRecv done
      exact ⟨after.attended, after.others⟩
    | succ count =>
      cases done
      obtain none_ | ⟨c, member, parent⟩ := scan_children found
      · cases none_
      · have live := child ⟨c, (mem_slots c).mp member, parent⟩
        refine ⟨h.attended.wait live, fun p other => ?_⟩
        exact (h.others p other).modify_other _ fun same => caller (same ▸ other)

end Serving

-- MM and the processes whose requests it has not served yet.
structure System where
  mm : State
  asked : Int → Option Message

inductive Event
  | ask (p : Int) (m : Message)
  | serve (p : Int)
  | others

def IsRequest (m : Message) : Prop := m.type = .fork ∨ m.type = .exit ∨ m.type = .wait

/--
A process that runs sends MM a request and cannot run on before it has an answer; MM serves a
request; or the kernel passes messages and the other programs run.
-/
inductive Step (s : System) : Event → System → Prop
  | ask (p : Int) (m : Message) (inTable : InTable p) (notMm : p ≠ taskMm)
      (runs : (s.mm.kernel.procTable p).pFlags = .clear) (quiet : s.asked p = none)
      (request : IsRequest m) (source : m.source = p) :
      Step s (.ask p m) { s with asked := Function.update s.asked p (some m) }
  | serve (machine : Machine) (p : Int) (m : Message) (asks : s.asked p = some m) {mm' : State}
      (serves : taskMmLoop machine s.mm m = .ok mm') :
      Step s (.serve p) ⟨mm', Function.update s.asked p none⟩
  | others {k' : Kernel.State} (keeps : Keeps s.mm.kernel k') :
      Step s .others { s with mm := { s.mm with kernel := k' } }

theorem Step.sysSendrec (s : System) {function : Function} {srcDest caller : Int} {m : Nat}
    {k' : Kernel.State} (done : Kernel.sysSendrec s.mm.kernel function srcDest m caller = .ok k') :
    Step s .others { s with mm := { s.mm with kernel := k' } } :=
  .others (sysSendrec_keeps done)

theorem Step.informInt (s : System) {taskNr : Int} {k' : Kernel.State}
    (done : Kernel.informInt s.mm.kernel taskNr = .ok k') :
    Step s .others { s with mm := { s.mm with kernel := k' } } :=
  .others (informInt_keeps done)

def BootsMm (s : System) : Prop := Boots s.mm.kernel ∧ s.mm.sent = [] ∧ ∀ p, s.asked p = none

/--
No WAIT is served for a process whose entry is still named as the parent of released slots after
its last child is gone.
-/
def NoStaleChildren (s : System) : Event → Prop
  | .serve p => ∀ m, s.asked p = some m → m.type = .wait →
      (∃ c, ChildOf s.mm.kernel p c) → LiveChild s.mm.kernel p
  | _ => True

-- MM's answer to a WAIT of a process that has no child.
def AnsweredAtOnce (s s' : System) (p : Int) : Prop :=
  ∃ answer : Message, s'.mm.sent = s.mm.sent ++ [(p, answer)] ∧ answer.type = .syscallRet ∧
    answer.pid = noTask

structure Settled (s : System) : Prop where
  attended : Attended s.mm.kernel
  asking : ∀ p m, s.asked p = some m → m.source = p ∧ Alive s.mm.kernel p

theorem Settled.boots {s : System} (boots : BootsMm s) : Settled s := by
  obtain ⟨⟨kBase, kLimit, mem, boot⟩, -, quiet⟩ := boots
  constructor
  case attended =>
    intro p inTable waits
    rw [boot, Waits] at waits
    by_cases native : p < nrTasks + nrNativeProcs
    · simp only [kernelMain, native, if_true] at waits
      cases waits
    · simp only [kernelMain, native, if_false] at waits
      cases waits
  case asking =>
    intro p m asks
    rw [quiet p] at asks
    cases asks

theorem Settled.serve {s : System} (h : Settled s) {machine : Machine} {p : Int} {m : Message}
    (asks : s.asked p = some m) {mm' : State} (serves : taskMmLoop machine s.mm m = .ok mm')
    (fresh : m.type = .wait → (∃ c, ChildOf s.mm.kernel p c) → LiveChild s.mm.kernel p) :
    Settled ⟨mm', Function.update s.asked p none⟩ := by
  obtain ⟨source, alive⟩ := h.asking p m asks
  have before : Serving p (fun q => q ≠ p ∧ s.asked q ≠ none) s.mm.kernel := by
    refine ⟨h.attended, ?_, ?_⟩
    · rw [Waits, alive.1]
      exact Bool.false_ne_true
    · rintro q ⟨-, asked⟩
      obtain ⟨m', asks'⟩ := Option.ne_none_iff_exists'.mp asked
      exact (h.asking q m' asks').2
  have dead : ¬ (p ≠ p ∧ s.asked p ≠ none) := fun both => both.1 rfl
  have after : Attended mm'.kernel ∧ ∀ q, q ≠ p ∧ s.asked q ≠ none → Alive mm'.kernel q := by
    unfold taskMmLoop at serves
    split at serves
    next =>
      obtain ⟨⟨retval, answer, forked⟩, forks, serves⟩ := bind_ok serves
      have served := (before.doFork source forks).sendRecv serves
      exact ⟨served.attended, served.others⟩
    next =>
      have served := before.doExit dead source serves
      exact ⟨served.attended, served.others⟩
    next isWait => exact before.doWait (fresh isWait) dead source serves
    next => cases serves
  refine ⟨after.1, fun q m' asks' => ?_⟩
  by_cases same : q = p
  · subst same
    simp at asks'
  · simp only [Function.update_of_ne same] at asks'
    refine ⟨(h.asking q m' asks').1, after.2 q ⟨same, ?_⟩⟩
    rw [asks']
    exact Option.some_ne_none m'

theorem Settled.step {s s' : System} (h : Settled s) {event : Event} (step : Step s event s')
    (fresh : NoStaleChildren s event) : Settled s' := by
  cases step with
  | ask p m inTable notMm runs quiet request source =>
    refine ⟨h.attended, fun q m' asks => ?_⟩
    by_cases same : q = p
    · subst same
      simp only [Function.update_self, Option.some.injEq] at asks
      subst asks
      refine ⟨source, ?_⟩
      rw [Alive, runs]
      exact ⟨rfl, rfl, rfl⟩
    · simp only [Function.update_of_ne same] at asks
      exact h.asking q m' asks
  | serve machine p m asks serves => exact h.serve asks serves (fresh m asks)
  | others keeps =>
    exact ⟨h.attended.keeps keeps, fun p m asks =>
      ⟨(h.asking p m asks).1, (h.asking p m asks).2.keeps keeps⟩⟩

theorem answered_at_once {s s' : System} (h : Settled s) {p : Int} (step : Step s (.serve p) s')
    {m : Message} (asks : s.asked p = some m) (isWait : m.type = .wait)
    (fresh : NoStaleChildren s (.serve p)) (reaped : ¬ LiveChild s.mm.kernel p) :
    AnsweredAtOnce s s' p := by
  cases step with
  | serve machine p m' asks' serves =>
    rw [asks] at asks'
    cases asks'
    have source := (h.asking p m asks).1
    unfold taskMmLoop at serves
    simp only [isWait] at serves
    have childless : ∀ i ∈ slots, (s.mm.kernel.procTable i).pParent ≠ p := by
      intro i member parent
      exact reaped (fresh m asks isWait ⟨i, (mem_slots i).mp member, parent⟩)
    unfold doWait at serves
    simp only [source, scan_childless slots childless] at serves
    exact ⟨_, (sendRecv_ok serves).2, rfl, rfl⟩

/--
In a run in which no WAIT counts stale children, every process that waits has a child whose slot
is in use, and a WAIT of a process without one is answered at once.
-/
theorem waiters_attended (run : Run BootsMm Step)
    (fresh : ∀ t, t < run.length → NoStaleChildren (run.state t) (run.act t)) :
    (∀ t, t ≤ run.length → Attended (run.state t).mm.kernel) ∧
      ∀ t, t < run.length → ∀ p m, run.act t = .serve p → (run.state t).asked p = some m →
        m.type = .wait → ¬ LiveChild (run.state t).mm.kernel p →
        AnsweredAtOnce (run.state t) (run.state (t + 1)) p := by
  have settled : ∀ t, t ≤ run.length → Settled (run.state t) :=
    run.timed_invariant (P := fun _ => Settled) (fun _ => Settled.boots)
      fun t within h => h.step (run.steps t within) (fresh t within)
  refine ⟨fun t within => (settled t within).attended,
    fun t within p m serves asks isWait reaped => ?_⟩
  have step := run.steps t within
  have harmless := fresh t within
  rw [serves] at step harmless
  exact answered_at_once (settled t (by omega)) step asks isWait harmless reaped

-- The receiver of a message of MM waits for it first, if it does not yet.
def ready (dest : Int) (k : Kernel.State) : Except Halted Kernel.State :=
  if (k.procTable dest).pFlags = .clear then sysSendrec k .receive taskMm 4096 dest else .ok k

def nativeSend (dest : Int) (m : Message) (k : Kernel.State) : Except Halted Kernel.State := do
  let k ← ready dest k
  sysSendrec { k with mem := Function.update k.mem 8192 m } .send dest 8192 taskMm

-- FS answers at once.
def nativeSendRecv : Function → Int → Message → Kernel.State → Except Halted Kernel.State
  | .both, _, _, k => .ok k
  | _, dest, m, k => nativeSend dest m k

theorem nativeSend_keeps {dest : Int} {m : Message} {k k' : Kernel.State}
    (done : nativeSend dest m k = .ok k') : Keeps k k' := by
  obtain ⟨waiting, waits, sends⟩ := bind_ok done
  have first : Keeps k waiting := by
    unfold ready at waits
    split at waits
    next => exact sysSendrec_keeps waits
    next =>
      cases waits
      exact Keeps.refl k
  have written := Keeps.withMem (k := waiting) (Function.update waiting.mem 8192 m)
  exact first.trans (written.trans (sysSendrec_keeps sends))

theorem nativeSendRecv_keeps {function : Function} {dest : Int} {m : Message}
    {k k' : Kernel.State} (done : nativeSendRecv function dest m k = .ok k') : Keeps k k' := by
  cases function with
  | both =>
    cases done
    exact Keeps.refl k
  | send => exact nativeSend_keeps done
  | receive => exact nativeSend_keeps done

def nativeMachine : Machine where
  memorySize := 0x2000000
  stack := resetMsg
  sendRecv := nativeSendRecv
  keeps := nativeSendRecv_keeps

def outcome (s : State) : Except Halted State → State
  | .ok s' => s'
  | .error _ => s

theorem ok_outcome (s : State) {result : Except Halted State} (returns : result.isOk = true) :
    result = .ok (outcome s result) := by
  cases result with
  | error halted => cases returns
  | ok s' => rfl

def perform (s : System) : Event → System
  | .ask p m => { s with asked := Function.update s.asked p (some m) }
  | .serve p =>
    match s.asked p with
    | some m =>
      ⟨outcome s.mm (taskMmLoop nativeMachine s.mm m), Function.update s.asked p none⟩
    | none => s
  | .others => s

def request (p : Int) (type : MsgType) : Message := { resetMsg with source := p, type := type }

def bootSystem : System := ⟨⟨kernelMain 0 0 fun _ => resetMsg, []⟩, fun _ => none⟩

-- INIT forks, the child exits, INIT collects it with WAIT, and then it calls WAIT again.
def events : Nat → Event
  | 0 => .ask initPid (request initPid .fork)
  | 1 => .serve initPid
  | 2 => .ask 9 (request 9 .exit)
  | 3 => .serve 9
  | 4 => .ask initPid (request initPid .wait)
  | 5 => .serve initPid
  | 6 => .ask initPid (request initPid .wait)
  | _ => .serve initPid

def family : Nat → System
  | 0 => bootSystem
  | t + 1 => perform (family t) (events t)

theorem family_serves {t : Nat} (p : Int) (m : Message) (asks : (family t).asked p = some m)
    (event : events t = .serve p)
    (returns : (taskMmLoop nativeMachine (family t).mm m).isOk = true) :
    Step (family t) (events t) (family (t + 1)) := by
  have next : family (t + 1) = ⟨outcome (family t).mm (taskMmLoop nativeMachine (family t).mm m),
      Function.update (family t).asked p none⟩ := by
    show perform (family t) (events t) = _
    rw [event]
    simp only [perform, asks]
  rw [next, event]
  exact .serve nativeMachine p m asks (ok_outcome _ returns)

def familyRun (length : Nat) (within : length ≤ 8) : Run BootsMm Step where
  length := length
  state := family
  act := events
  start := ⟨⟨0, 0, _, rfl⟩, rfl, fun _ => rfl⟩
  steps := by
    intro t inside
    have bound : t < 8 := by omega
    match t, bound with
    | 0, _ => exact .ask _ _ (by decide) (by decide) (by decide) rfl (.inl rfl) rfl
    | 1, _ => exact family_serves initPid _ rfl rfl (by decide)
    | 2, _ => exact .ask _ _ (by decide) (by decide) (by decide) (by decide) (.inr (.inl rfl)) rfl
    | 3, _ => exact family_serves 9 _ rfl rfl (by decide)
    | 4, _ => exact .ask _ _ (by decide) (by decide) (by decide) (by decide) (.inr (.inr rfl)) rfl
    | 5, _ => exact family_serves initPid _ rfl rfl (by decide)
    | 6, _ => exact .ask _ _ (by decide) (by decide) (by decide) (by decide) (.inr (.inr rfl)) rfl
    | 7, _ => exact family_serves initPid _ rfl rfl (by decide)

theorem waiters_attended_family : Attended (family 6).mm.kernel := by
  refine (waiters_attended (familyRun 6 (by decide)) ?_).1 6 (le_refl 6)
  intro t within
  match t, within with
  | 0, _ => trivial
  | 1, _ =>
    intro m asks isWait
    cases asks
    cases isWait
  | 2, _ => trivial
  | 3, _ =>
    intro m asks isWait
    have exits : (family 3).asked 9 = some (request 9 .exit) := by decide
    cases exits.symm.trans asks
    cases isWait
  | 4, _ => trivial
  | 5, _ => exact fun _ _ _ _ => ⟨9, ⟨by decide, by decide⟩, by decide⟩

theorem no_liveChild {k : Kernel.State} {p : Int}
    (free : ∀ c ∈ slots, (k.procTable c).pParent = p → (k.procTable c).pFlags.freeSlot = true) :
    ¬ LiveChild k p := by
  rintro ⟨c, ⟨slot, parent⟩, live⟩
  rw [free c ((mem_slots c).mpr slot) parent] at live
  cases live

-- The slot of the child it has collected still counts as a child: INIT waits for ever.
theorem waiter_unattended :
    ¬ LiveChild ((familyRun 8 (le_refl 8)).state 7).mm.kernel initPid ∧
      ¬ Attended ((familyRun 8 (le_refl 8)).state 8).mm.kernel ∧
      ((familyRun 8 (le_refl 8)).state 8).mm.sent =
        ((familyRun 8 (le_refl 8)).state 7).mm.sent := by
  refine ⟨no_liveChild (k := (family 7).mm.kernel) (by decide), ?_, by decide⟩
  intro attended
  have waits : ((family 8).mm.kernel.procTable initPid).pFlags.waiting = true := by decide
  exact no_liveChild (k := (family 8).mm.kernel) (by decide) (attended initPid (by decide) waits)

end Konix.Mm
