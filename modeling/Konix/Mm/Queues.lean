import Konix.Mm.ForkExit
import Konix.Kernel.Queued

set_option autoImplicit false

namespace Konix.Mm

open Kernel Chain Runs

/--
For every process the chain of its senders is finite and duplicate-free, and it is all of them.
-/
def QueuesOk (k : Kernel.State) : Prop :=
  ∀ d, InTable d → ∃ queue : List Int, Follows k.next (k.head d) queue ∧ queue.Nodup ∧
    ∀ p, p ∈ queue ↔ InTable p ∧ (k.procTable p).pFlags.sending = true ∧
      (k.procTable p).pSendto = d

-- The updates of `do_exit()`, `do_wait()` and `cleanup()` that leave the slot in use.
inductive Mark : (Proc → Proc) → Prop
  | exits (status : Int) : Mark (Proc.exits status)
  | hangs : Mark Proc.hangs
  | waits : Mark Proc.waits
  | stopsWaiting : Mark Proc.stopsWaiting
  | adopted : Mark Proc.adopted

inductive Update
  | call (caller : Int) (function : Function) (srcDest : Int) (m : Nat)
  | inform (taskNr : Int)
  | compute
  | fork (pid childPid : Int)
  | mark (p : Int)
  | release (p : Int)

/--
A call of a process that runs, an interrupt, a program that computes, or MM at work on the table:
the copy in `do_fork()` for a live process, a mark, or the end of `cleanup()`.
-/
inductive Changes (k : Kernel.State) : Update → Kernel.State → Prop
  | call {k' : Kernel.State} (caller : Int) (function : Function) (srcDest : Int) (m : Nat)
      (inTable : InTable caller) (runnable : (k.procTable caller).pFlags = .clear)
      (legal : LegalCall caller function srcDest)
      (done : sysSendrec k function srcDest m caller = .ok k') :
      Changes k (.call caller function srcDest m) k'
  | inform {k' : Kernel.State} (taskNr : Int) (inTable : InTable taskNr)
      (done : informInt k taskNr = .ok k') : Changes k (.inform taskNr) k'
  | compute (mem : Nat → Message) : Changes k .compute { k with mem := mem }
  | fork {k' : Kernel.State} (memorySize pid childPid : Int) (inTable : InTable pid)
      (live : (k.procTable pid).pFlags.freeSlot = false) (found : freeSlot k = some childPid)
      (done : duplicate memorySize k pid childPid = .ok k') : Changes k (.fork pid childPid) k'
  | mark (p : Int) (f : Proc → Proc) (marks : Mark f) : Changes k (.mark p) (k.modify p f)
  | release (p : Int) (inTable : InTable p) : Changes k (.release p) (k.modify p Proc.released)

/--
A process that forks is not sending, and nobody is sending to it or to the slot of its child; a
process that is released is not sending.
-/
def Undisturbed (k : Kernel.State) : Update → Prop
  | .fork pid childPid => (k.procTable pid).pFlags.sending = false ∧
      ∀ q, InTable q → (k.procTable q).pFlags.sending = true →
        (k.procTable q).pSendto ≠ pid ∧ (k.procTable q).pSendto ≠ childPid
  | .release p => (k.procTable p).pFlags.sending = false
  | _ => True

section Updates

variable {k k' : Kernel.State} {queue : Int → List Int} {pid childPid memorySize p : Int}

theorem queued_ok (h : Queued k queue) : QueuesOk k :=
  fun d inTable => ⟨queue d, h.chain d inTable, h.distinct d, h.member d⟩

theorem queued_boots (boots : Boots k) : Queued k fun _ => [] := by
  obtain ⟨kBase, kLimit, mem, rfl⟩ := boots
  have empty (p : Int) : ((kernelMain kBase kLimit mem).procTable p).qSending = none ∧
      ((kernelMain kBase kLimit mem).wire p).sending = false := by
    by_cases native : p < nrTasks + nrNativeProcs
    · simp only [State.wire, kernelMain, native, if_true]
      exact ⟨rfl, rfl⟩
    · simp only [State.wire, kernelMain, native, if_false]
      exact ⟨rfl, rfl⟩
  refine ⟨⟨?_, fun _ => List.nodup_nil, ?_, ?_⟩, ?_, fun _ _ => rfl⟩
  · exact fun d _ => (empty d).1
  · exact fun d p member => absurd member List.not_mem_nil
  · exact fun d d' p member => absurd member List.not_mem_nil
  · intro d p
    rw [(empty p).2]
    simp

theorem Mark.queued (h : Queued k queue) {f : Proc → Proc} (marks : Mark f) :
    Queued (k.modify p f) queue := by
  cases marks <;> exact h.modify (fun _ => ⟨rfl, rfl⟩) ⟨rfl, rfl⟩

theorem queued_release (h : Queued k queue) (idle : (k.procTable p).pFlags.sending = false) :
    Queued (k.modify p Proc.released) queue :=
  h.modify (fun _ => ⟨rfl, rfl⟩) ⟨idle.symm, rfl⟩

-- The slot of a sender is free, but the chain still leads to it.
theorem not_ok_release (h : Queued k queue) (inTable : InTable p)
    (sends : (k.procTable p).pFlags.sending = true) : ¬ QueuesOk (k.modify p Proc.released) := by
  intro ok
  have queued := (h.member (k.procTable p).pSendto p).mpr ⟨inTable, sends, rfl⟩
  have target : InTable (k.procTable p).pSendto := by
    by_contra out
    rw [h.outside _ out] at queued
    cases queued
  obtain ⟨l, chain, -, member⟩ := ok _ target
  have links : (k.modify p Proc.released).next = k.next ∧
      (k.modify p Proc.released).head = k.head := by
    constructor <;> funext q <;> by_cases same : q = p
    · subst same
      simp [State.next, Proc.released]
    · simp [State.next, same]
    · subst same
      simp [State.head, Proc.released]
    · simp [State.head, same]
  rw [links.1, links.2] at chain
  rw [follows_unique (h.chain _ target) chain] at queued
  have flag := ((member p).mp queued).2.1
  rw [State.modify_self] at flag
  cases flag

theorem child_idle (found : freeSlot k = some childPid) : (k.wire childPid).sending = false := by
  rw [State.wire, Proc.wire, (freeSlot_found found).2]
  rfl

section Fork

variable (found : freeSlot k = some childPid)
  (done : duplicate memorySize k pid childPid = .ok k')
include done

theorem duplicate_next : k'.next = Function.update k.next childPid (k.next pid) := by
  obtain ⟨others, base, copied⟩ := duplicate_copies done
  funext q
  by_cases same : q = childPid
  · subst same
    rw [Function.update_self, State.next, copied]
    rfl
  · rw [Function.update_of_ne same, State.next, others q same]
    rfl

theorem duplicate_head (d : Int) :
    k'.head d = if d = childPid then k.head pid else k.head d := by
  obtain ⟨others, base, copied⟩ := duplicate_copies done
  by_cases same : d = childPid
  · subst same
    rw [if_pos rfl, State.head, copied]
    rfl
  · rw [if_neg same, State.head, others d same]
    rfl

theorem duplicate_wire (q : Int) :
    k'.wire q = if q = childPid then k.wire pid else k.wire q := by
  obtain ⟨others, base, copied⟩ := duplicate_copies done
  by_cases same : q = childPid
  · subst same
    rw [if_pos rfl, State.wire, copied]
    rfl
  · rw [if_neg same, State.wire, others q same]
    rfl

include found

-- The child is in no queue, so that every chain is still there.
theorem chain_duplicate (h : Queued k queue) {d : Int} (inTable : InTable d)
    (other : d ≠ childPid) :
    Follows k'.next (k'.head d) (queue d) := by
  rw [duplicate_next done, duplicate_head done d, if_neg other]
  exact follows_update _ (h.not_queued (child_idle found) d) (h.chain d inTable)

theorem queued_fork (h : Queued k queue) (inTable : InTable pid)
    (undisturbed : Undisturbed k (.fork pid childPid)) : Queued k' queue := by
  obtain ⟨idle, nobody⟩ := undisturbed
  have slot := freeSlot_found found
  have empty {d : Int} (isEither : d = pid ∨ d = childPid) : queue d = [] := by
    refine List.eq_nil_iff_forall_not_mem.mpr fun q queued => ?_
    obtain ⟨sender, sends, target⟩ := (h.member d q).mp queued
    obtain ⟨notPid, notChild⟩ := nobody q sender sends
    rcases isEither with rfl | rfl
    · exact notPid target
    · exact notChild target
  refine ⟨⟨?_, h.distinct, h.inTable, h.disjoint⟩, ?_, h.outside⟩
  · intro d inTable'
    by_cases isChild : d = childPid
    · subst isChild
      rw [duplicate_head done d, if_pos rfl, empty (.inr rfl)]
      have chain := h.chain pid inTable
      rw [empty (.inl rfl)] at chain
      exact chain
    · exact chain_duplicate found done h inTable' isChild
  · intro d q
    rw [duplicate_wire done q]
    by_cases isChild : q = childPid
    · subst isChild
      have idle' : (k.wire pid).sending = false := idle
      simp [idle', h.not_queued (child_idle found) d]
    · rw [if_neg isChild]
      exact h.member d q

-- The queue of the caller becomes that of the child as well, and the queue of the slot is lost.
theorem undisturbed_of_fork (h : Queued k queue) (inTable : InTable pid) (distinct : pid ≠ childPid)
    (ok : QueuesOk k') : Undisturbed k (.fork pid childPid) := by
  have slot := freeSlot_found found
  have target {q d : Int} (sender : InTable q) (sends : (k.wire q).sending = true)
      (same : (k.wire q).sendTo = d) : q ∈ queue d ∧ InTable d := by
    have queued := (h.member d q).mpr ⟨sender, sends, same⟩
    refine ⟨queued, ?_⟩
    by_contra out
    rw [h.outside d out] at queued
    cases queued
  have sender_ne {q : Int} (sends : (k.wire q).sending = true) : q ≠ childPid := by
    rintro rfl
    rw [child_idle found] at sends
    cases sends
  obtain ⟨ofChild, chain, -, member⟩ := ok childPid slot.1
  have sameQueue : ofChild = queue pid := by
    refine follows_unique chain ?_
    rw [duplicate_next done, duplicate_head done, if_pos rfl]
    exact follows_update _ (h.not_queued (child_idle found) pid) (h.chain pid inTable)
  subst sameQueue
  have toChild {q : Int} : q ∈ queue pid ↔ InTable q ∧ (k'.wire q).sending = true ∧
      (k'.wire q).sendTo = childPid := member q
  have none_ {q : Int} (queued : q ∈ queue pid) : False := by
    have before := (h.member pid q).mp queued
    have after := toChild.mp queued
    rw [duplicate_wire done q, if_neg (sender_ne before.2.1), before.2.2] at after
    exact distinct after.2.2
  have notToChild {q : Int} (sender : InTable q) (sends : (k.wire q).sending = true) :
      (k.wire q).sendTo ≠ childPid := by
    intro same
    refine none_ (toChild.mpr ⟨sender, ?_⟩)
    rw [duplicate_wire done q, if_neg (sender_ne sends)]
    exact ⟨sends, same⟩
  constructor
  · refine Bool.eq_false_iff.mpr fun sends => ?_
    have sends' : (k.wire pid).sending = true := sends
    obtain ⟨queued, inTable'⟩ := target inTable sends' rfl
    have other := notToChild inTable sends'
    obtain ⟨l, chain', -, member'⟩ := ok (k.wire pid).sendTo inTable'
    have isQueue := follows_unique chain' (chain_duplicate found done h inTable' other)
    subst isQueue
    have copied : (k'.wire childPid).sending = true ∧
        (k'.wire childPid).sendTo = (k.wire pid).sendTo := by
      rw [duplicate_wire done, if_pos rfl]
      exact ⟨sends', rfl⟩
    exact h.not_queued (child_idle found) _ ((member' childPid).mpr ⟨slot.1, copied⟩)
  · intro q sender sends
    refine ⟨fun same => ?_, notToChild sender sends⟩
    exact none_ (target sender sends same).1

end Fork

theorem queued_changes (h : Queued k queue) {update : Update} (changes : Changes k update k')
    (undisturbed : Undisturbed k update) : ∃ queue', Queued k' queue' := by
  cases changes with
  | call caller function srcDest m inTable runnable legal done =>
    exact h.sysSendrec inTable runnable legal done
  | inform taskNr inTable done => exact ⟨queue, h.informInt done⟩
  | compute mem => exact ⟨queue, h.withMem mem⟩
  | fork memorySize pid childPid inTable live found done =>
    exact ⟨queue, queued_fork found done h inTable undisturbed⟩
  | mark p f marks => exact ⟨queue, marks.queued h⟩
  | release p inTable => exact ⟨queue, queued_release h undisturbed⟩

theorem ok_iff_undisturbed (h : Queued k queue) {update : Update} (changes : Changes k update k') :
    QueuesOk k' ↔ Undisturbed k update := by
  constructor
  · intro ok
    cases changes with
    | fork memorySize pid childPid inTable live found done =>
      refine undisturbed_of_fork found done h inTable ?_ ok
      rintro rfl
      rw [(freeSlot_found found).2] at live
      cases live
    | release p inTable =>
      refine Bool.eq_false_iff.mpr fun sends => not_ok_release h inTable sends ok
    | _ => trivial
  · intro undisturbed
    obtain ⟨queue', queued⟩ := queued_changes h changes undisturbed
    exact queued_ok queued

end Updates

/--
As long as no fork and no release disturbs a queue, the queues are in order; and a change of the
table leaves them in order exactly if it disturbs none.
-/
theorem queues_kept (run : Run Boots Changes)
    (undisturbed : ∀ t, t < run.length → Undisturbed (run.state t) (run.act t)) {t : Nat}
    (within : t ≤ run.length) :
    QueuesOk (run.state t) ∧ ∀ update k', Changes (run.state t) update k' →
      (QueuesOk k' ↔ Undisturbed (run.state t) update) := by
  have queued : ∃ queue, Queued (run.state t) queue := by
    refine run.timed_invariant (P := fun _ k => ∃ queue, Queued k queue) ?_ ?_ t within
    · exact fun k boots => ⟨_, queued_boots boots⟩
    · rintro t inside ⟨queue, queued⟩
      exact queued_changes queued (run.steps t inside) (undisturbed t inside)
  obtain ⟨queue, queued⟩ := queued
  exact ⟨queued_ok queued, fun update k' changes => ok_iff_undisturbed queued changes⟩

section Sample

def after (result : Except Halted Kernel.State) (k : Kernel.State) : Kernel.State :=
  match result with
  | .ok k' => k'
  | .error _ => k

theorem ok_after {result : Except Halted Kernel.State} (k : Kernel.State)
    (returns : result.isOk = true) : result = .ok (after result k) := by
  cases result with
  | ok k' => rfl
  | error halted => cases returns

-- MM waits for requests, TestA sends to INIT, INIT asks MM for a child, and MM forks.
def crowd : Nat → Kernel.State
  | 0 => kernelMain 0 0 fun _ => resetMsg
  | 1 => after (sysSendrec (crowd 0) .receive any 4096 taskMm) (crowd 0)
  | 2 => after (sysSendrec (crowd 1) .send initPid 8192 6) (crowd 1)
  | 3 => after (sysSendrec (crowd 2) .send taskMm 12288 initPid) (crowd 2)
  | t + 1 => after (duplicate 0x2000000 (crowd t) initPid 9) (crowd t)

def crowdUpdates : Nat → Update
  | 0 => .call taskMm .receive any 4096
  | 1 => .call 6 .send initPid 8192
  | 2 => .call initPid .send taskMm 12288
  | _ => .fork initPid 9

theorem changes_call (k : Kernel.State) {caller srcDest : Int} {function : Function} {m : Nat}
    (inTable : InTable caller) (runnable : (k.procTable caller).pFlags = .clear)
    (legal : LegalCall caller function srcDest)
    (returns : (sysSendrec k function srcDest m caller).isOk = true) :
    Changes k (.call caller function srcDest m)
      (after (sysSendrec k function srcDest m caller) k) :=
  .call caller function srcDest m inTable runnable legal (ok_after k returns)

theorem crowd_changes (t : Nat) (within : t < 4) :
    Changes (crowd t) (crowdUpdates t) (crowd (t + 1)) := by
  have toInit : LegalCall 6 .send initPid := ⟨by decide, by decide⟩
  have toMm : LegalCall initPid .send taskMm := ⟨by decide, by decide⟩
  match t, within with
  | 0, _ => exact changes_call _ (by decide) (by decide) (.inr (.inl rfl)) (by decide)
  | 1, _ => exact changes_call _ (by decide) (by decide) toInit (by decide)
  | 2, _ => exact changes_call _ (by decide) (by decide) toMm (by decide)
  | 3, _ =>
    exact .fork 0x2000000 initPid 9 (by decide) (by decide) (by decide) (ok_after _ (by decide))

def crowdRun (length : Nat) (within : length ≤ 4) : Run Boots Changes where
  length := length
  state := crowd
  act := crowdUpdates
  start := ⟨0, 0, _, rfl⟩
  steps := fun t inside => crowd_changes t (by omega)

def calmRun : Run Boots Changes := crowdRun 3 (by decide)

theorem queues_kept_crowd : QueuesOk (crowd 3) ∧ ¬ QueuesOk (crowd (3 + 1)) := by
  have quiet (t : Nat) (inside : t < 3) : Undisturbed (crowd t) (crowdUpdates t) := by
    match t, inside with
    | 0, _ => trivial
    | 1, _ => trivial
    | 2, _ => trivial
  have kept := queues_kept calmRun quiet (t := 3) (by decide)
  have states : calmRun.state = crowd := rfl
  rw [states] at kept
  have waits : ((crowd 3).procTable 6).pFlags.sending = true ∧
      ((crowd 3).procTable 6).pSendto = initPid := by decide +kernel
  refine ⟨kept.1, fun ok => ?_⟩
  have undisturbed := (kept.2 _ _ (crowd_changes 3 (by decide))).mp ok
  exact (undisturbed.2 6 (by decide) waits.1).1 waits.2

-- TestA is in the queue of INIT's child, to which it does not send.
theorem queues_broken : ¬ ∀ (run : Run Boots Changes) (t : Nat), t ≤ run.length →
    QueuesOk (run.state t) := by
  intro claim
  obtain ⟨queue, chain, -, member⟩ := claim (crowdRun 4 (le_refl 4)) 4 (le_refl 4) 9 (by decide)
  have head : (crowd 4).head 9 = some 6 := by decide
  have chain' : Follows (crowd 4).next ((crowd 4).head 9) queue := chain
  rw [head] at chain'
  have queued : (6 : Int) ∈ queue := by
    cases queue with
    | nil => cases chain'
    | cons p rest =>
      cases chain'.1
      exact List.mem_cons_self
  have target : ((crowd 4).procTable 6).pSendto = 9 := ((member 6).mp queued).2.2
  exact absurd target (by decide)

end Sample

end Konix.Mm
