import Konix.Kernel.Frame

set_option autoImplicit false

namespace Konix.Kernel

-- The indices into `proc_table[]` of the loop that prints the chain from `p` to `src`.
def printIndices (table : Int → Proc) (src : Int) : Nat → Int → List Int
  | 0, _ => []
  | turns + 1, p =>
    if (table p).pMsg = 0 then []
    else (table p).pSendto :: src ::
      if (table p).pSendto = src then [] else printIndices table src turns (table p).pSendto

def walkIndices (table : Int → Proc) (src dest : Int) (print : Nat) : Nat → Int → List Int
  | 0, _ => []
  | turns + 1, p =>
    if (table p).pFlags.sending then
      if (table p).pSendto = src then dest :: printIndices table src print dest
      else (table p).pSendto :: walkIndices table src dest print turns (table p).pSendto
    else []

def deadlockIndices (table : Int → Proc) (turns : Nat) (src dest : Int) : List Int :=
  dest :: walkIndices table src dest turns turns dest

-- `va2la()` is called for the receiver and for the sender.
def sendNowIndices (k : State) (sender dest : Int) (m : Nat) : List Int :=
  if (k.procTable dest).pMsg ≠ 0 ∧ m ≠ 0 then [dest, sender] else []

def sendIndices (k : State) (turns : Nat) (sender dest : Int) (m : Nat) : List Int :=
  dest ::
    if sender = dest then []
    else deadlockIndices k.procTable turns sender dest ++
      match deadlock k.procTable sender loopFuel dest with
      | some false =>
        let pDest := k.procTable dest
        if pDest.pFlags.receiving ∧ (pDest.pRecvfrom = sender ∨ pDest.pRecvfrom = any) then
          sendNowIndices k sender dest m
        else []
      | _ => []

def takeIndices (k : State) (who from_ : Int) (prev : Option Int) (m : Nat) : List Int :=
  match dequeue k who from_ prev with
  | .error _ => []
  | .ok k => if m ≠ 0 ∧ (k.procTable from_).pMsg ≠ 0 then [who, from_] else []

def receiveIndices (k : State) (who src : Int) (m : Nat) : List Int :=
  if who = src then []
  else if takesInterrupt k who src then if m ≠ 0 then [who] else []
  else (if src ≠ any ∧ 0 ≤ src ∧ src < nrTasks + nrProcs then [src] else []) ++
    match findSender k who src with
    | .ok (some (from_, prev)) => takeIndices k who from_ prev m
    | _ => []

/--
The indices into `proc_table[]` that `sys_sendrec()` and what it calls use, up to the end of the
call or the first assertion that fails, for that many turns of the loops of `deadlock()`.
-/
def indices (k : State) (turns : Nat) (function : Function) (srcDest : Int) (m : Nat)
    (caller : Int) :
    List Int :=
  if 0 ≤ srcDest ∧ srcDest < nrTasks + nrProcs ∨ srcDest = any ∨ srcDest = interrupt then
    caller ::
      match va2la k caller m with
      | .error _ => []
      | .ok mla =>
        let k := { k with mem := Function.update k.mem mla { k.mem mla with source := caller } }
        if caller = srcDest then []
        else match function with
          | .send => sendIndices k turns caller srcDest m
          | .receive => receiveIndices k caller srcDest m
          | .both => []
  else []

/--
The process numbers and links in an entry stay in the table: the receiver of its message while it is
sending, and the ends of its links. The segments of the tasks and the native processes are flat.
-/
structure EntryLinked (p : Int) (proc : Proc) : Prop where
  sendTo : proc.pFlags.sending = true → InTable proc.pSendto
  head : ∀ q, proc.qSending = some q → InTable q
  next : ∀ q, proc.nextSending = some q → InTable q
  flat : p < nrTasks + nrNativeProcs → ldtSegLinear proc.ldtRw = 0

def Linked (k : State) : Prop := ∀ p, InTable p → EntryLinked p (k.procTable p)

section Safe

variable {k k' : State} {caller dest who from_ : Int} {m : Nat}

theorem printIndices_inTable (linked : Linked k) {src q : Int} (srcIn : InTable src)
    (inTable : InTable q) {fuel : Nat} (leads : deadlock k.procTable src fuel q = some true)
    (turns : Nat) : ∀ i ∈ printIndices k.procTable src turns q, InTable i := by
  induction fuel generalizing q turns with
  | zero => cases leads
  | succ fuel ih =>
    rw [deadlock] at leads
    by_cases sending : (k.procTable q).pFlags.sending = true
    next =>
      rw [if_pos sending] at leads
      have next_ := (linked q inTable).sendTo sending
      cases turns with
      | zero => exact List.forall_mem_nil _
      | succ turns =>
        rw [printIndices]
        by_cases empty : (k.procTable q).pMsg = 0
        next =>
          rw [if_pos empty]
          exact List.forall_mem_nil _
        next =>
          rw [if_neg empty]
          by_cases last : (k.procTable q).pSendto = src
          next =>
            rw [if_pos last]
            simp only [List.forall_mem_cons]
            exact ⟨next_, srcIn, List.forall_mem_nil _⟩
          next =>
            rw [if_neg last] at leads ⊢
            simp only [List.forall_mem_cons]
            exact ⟨next_, srcIn, ih next_ leads turns⟩
    next =>
      rw [if_neg sending] at leads
      cases leads

theorem walkIndices_inTable (linked : Linked k) {src dest q : Int} (srcIn : InTable src)
    (destIn : InTable dest) (inTable : InTable q) {print : Nat}
    (begins : ∀ fuel, deadlock k.procTable src fuel q = some true →
      ∃ fuel', deadlock k.procTable src fuel' dest = some true) (turns : Nat) :
    ∀ i ∈ walkIndices k.procTable src dest print turns q, InTable i := by
  induction turns generalizing q with
  | zero => exact List.forall_mem_nil _
  | succ turns ih =>
    rw [walkIndices]
    by_cases sending : (k.procTable q).pFlags.sending = true
    next =>
      rw [if_pos sending]
      have next_ := (linked q inTable).sendTo sending
      by_cases last : (k.procTable q).pSendto = src
      next =>
        rw [if_pos last]
        have here : deadlock k.procTable src 1 q = some true := by
          rw [deadlock, if_pos sending, if_pos last]
        obtain ⟨fuel', leads⟩ := begins 1 here
        simp only [List.forall_mem_cons]
        exact ⟨destIn, printIndices_inTable linked srcIn destIn leads print⟩
      next =>
        rw [if_neg last]
        simp only [List.forall_mem_cons]
        refine ⟨next_, ih next_ fun fuel leads => begins (fuel + 1) ?_⟩
        rw [deadlock, if_pos sending, if_neg last]
        exact leads
    next =>
      rw [if_neg sending]
      exact List.forall_mem_nil _

theorem deadlockIndices_inTable (linked : Linked k) {src dest : Int} (srcIn : InTable src)
    (destIn : InTable dest) (turns : Nat) :
    ∀ i ∈ deadlockIndices k.procTable turns src dest, InTable i := by
  rw [deadlockIndices]
  simp only [List.forall_mem_cons]
  exact ⟨destIn,
    walkIndices_inTable linked srcIn destIn destIn (fun fuel leads => ⟨fuel, leads⟩) turns⟩

theorem sendIndices_inTable (linked : Linked k) (callerIn : InTable caller) (destIn : InTable dest)
    (turns m : Nat) : ∀ i ∈ sendIndices k turns caller dest m, InTable i := by
  have pair : ∀ i ∈ [dest, caller], InTable i := by
    simp only [List.forall_mem_cons]
    exact ⟨destIn, callerIn, List.forall_mem_nil _⟩
  rw [sendIndices, List.forall_mem_cons]
  refine ⟨destIn, ?_⟩
  by_cases same : caller = dest
  next =>
    rw [if_pos same]
    exact List.forall_mem_nil _
  next =>
    rw [if_neg same, List.forall_mem_append]
    refine ⟨deadlockIndices_inTable linked callerIn destIn turns, ?_⟩
    cases deadlock k.procTable caller loopFuel dest with
    | none => exact List.forall_mem_nil _
    | some cycle =>
      cases cycle with
      | true => exact List.forall_mem_nil _
      | false =>
        simp only [sendNowIndices]
        split_ifs
        · exact pair
        · exact List.forall_mem_nil _
        · exact List.forall_mem_nil _

theorem findSender_inTable (linked : Linked k) (whoIn : InTable who) {src : Int}
    {prev : Option Int} (found : findSender k who src = .ok (some (from_, prev))) :
    InTable from_ := by
  obtain ⟨-, ⟨-, head, -⟩ | ⟨-, inTable, -⟩⟩ := findSender_ok found
  · exact (linked who whoIn).head from_ head
  · exact inTable

theorem receiveIndices_inTable (linked : Linked k) (whoIn : InTable who) (src : Int) (m : Nat) :
    ∀ i ∈ receiveIndices k who src m, InTable i := by
  have take (from_ : Int) (prev : Option Int) (fromIn : InTable from_) :
      ∀ i ∈ takeIndices k who from_ prev m, InTable i := by
    rw [takeIndices]
    cases dequeue k who from_ prev with
    | error halted => exact List.forall_mem_nil _
    | ok k' =>
      show ∀ i ∈ (if m ≠ 0 ∧ (k'.procTable from_).pMsg ≠ 0 then [who, from_] else []), InTable i
      split_ifs
      · simp only [List.forall_mem_cons]
        exact ⟨whoIn, fromIn, List.forall_mem_nil _⟩
      · exact List.forall_mem_nil _
  rw [receiveIndices]
  by_cases same : who = src
  next =>
    rw [if_pos same]
    exact List.forall_mem_nil _
  rw [if_neg same]
  by_cases takes : takesInterrupt k who src = true
  next =>
    rw [if_pos takes]
    split_ifs
    · exact List.forall_mem_singleton.mpr whoIn
    · exact List.forall_mem_nil _
  rw [if_neg takes, List.forall_mem_append]
  constructor
  · split_ifs with asked
    · exact List.forall_mem_singleton.mpr asked.2
    · exact List.forall_mem_nil _
  · cases found : findSender k who src with
    | error halted => exact List.forall_mem_nil _
    | ok sender =>
      cases sender with
      | none => exact List.forall_mem_nil _
      | some pair => exact take _ _ (findSender_inTable linked whoIn found)

theorem Linked.withMem (linked : Linked k) (mem : Nat → Message) : Linked { k with mem := mem } :=
  linked

/--
All indices are in the table if and only if the call is no SEND to a process number that only a
RECEIVE may have.
-/
theorem indices_inTable_iff (linked : Linked k) (callerIn : InTable caller) (turns : Nat)
    {function : Function} (known : function = .send ∨ function = .receive) {srcDest : Int}
    (bound : m < 4294967296)
    (accepted : InTable srcDest ∨ srcDest = any ∨ srcDest = interrupt) (other : caller ≠ srcDest) :
    (∀ i ∈ indices k turns function srcDest m caller, InTable i) ↔
      ¬ (function = .send ∧ (srcDest = any ∨ srcDest = interrupt)) := by
  have segment : ∃ mla, va2la k caller m = .ok mla := by
    by_cases native : caller < nrTasks + nrNativeProcs
    next =>
      refine ⟨m, ?_⟩
      rw [va2la, (linked caller callerIn).flat native, Nat.zero_add, Nat.mod_eq_of_lt bound,
        if_pos native, State.assertThat_of rfl]
      rfl
    next =>
      rw [va2la, if_neg native]
      exact ⟨_, rfl⟩
  obtain ⟨mla, passes⟩ := segment
  rw [indices]
  have range : 0 ≤ srcDest ∧ srcDest < nrTasks + nrProcs ∨ srcDest = any ∨ srcDest = interrupt :=
    accepted
  simp only [if_pos range, passes, if_neg other, List.forall_mem_cons]
  constructor
  · rintro ⟨-, inside⟩ ⟨rfl, sentinel⟩
    have destIn := inside srcDest List.mem_cons_self
    rcases sentinel with rfl | rfl
    · exact absurd destIn (by decide)
    · exact absurd destIn (by decide)
  · intro proper
    refine ⟨callerIn, ?_⟩
    rcases known with rfl | rfl
    · refine sendIndices_inTable (linked.withMem _) callerIn ?_ turns m
      exact accepted.resolve_right fun sentinel => proper ⟨rfl, sentinel⟩
    · exact receiveIndices_inTable (linked.withMem _) callerIn srcDest m

end Safe

namespace Linked

variable {k k' : State} {caller dest who from_ : Int} {m : Nat}

theorem modify (linked : Linked k) (p : Int) {f : Proc → Proc}
    (entry : EntryLinked p (k.procTable p) → EntryLinked p (f (k.procTable p))) :
    Linked (k.modify p f) := by
  intro q inTable
  rw [State.modify_apply]
  by_cases same : q = p
  next =>
    subst same
    rw [if_pos rfl]
    exact entry (linked q inTable)
  next =>
    rw [if_neg same]
    exact linked q inTable

theorem setNext (linked : Linked k) (p : Int) {link : Option Int}
    (inside : ∀ q, link = some q → InTable q) : Linked (k.setNext p link) :=
  linked.modify p fun entry => ⟨entry.sendTo, entry.head, inside, entry.flat⟩

theorem setHead (linked : Linked k) (p : Int) {link : Option Int}
    (inside : ∀ q, link = some q → InTable q) : Linked (k.setHead p link) :=
  linked.modify p fun entry => ⟨entry.sendTo, inside, entry.next, entry.flat⟩

theorem enqueue (linked : Linked k) (callerIn : InTable caller)
    (done : Kernel.enqueue k caller dest = .ok k') : Linked k' := by
  have sender : ∀ q, some caller = some q → InTable q := by
    intro q is_
    cases is_
    exact callerIn
  have last : ∀ q : Int, (none : Option Int) = some q → InTable q := fun _ is_ => by cases is_
  obtain rfl | ⟨behind, rfl⟩ := enqueue_ok done
  · exact (linked.setHead dest sender).setNext caller last
  · exact (linked.setNext behind sender).setNext caller last

theorem sendNow (linked : Linked k) (done : Kernel.sendNow k caller dest m = .ok k') :
    Linked k' := by
  obtain ⟨dst, src, rfl⟩ := sendNow_ok done
  exact (linked.withMem _).modify dest fun entry =>
    ⟨entry.sendTo, entry.head, entry.next, entry.flat⟩

theorem sendLater (linked : Linked k) (callerIn : InTable caller) (destIn : InTable dest)
    (done : Kernel.sendLater k caller dest m = .ok k') : Linked k' := by
  have blocked : Linked ((k.modify caller Proc.sends).modify caller (Proc.sendsTo dest m)) := by
    intro q inTable
    have entry := linked q inTable
    rw [State.modify_apply]
    by_cases same : q = caller
    next =>
      subst same
      rw [if_pos rfl, State.modify_self]
      exact ⟨fun _ => destIn, entry.head, entry.next, entry.flat⟩
    next =>
      rw [if_neg same, State.modify_other _ _ same]
      exact entry
  exact blocked.enqueue callerIn (sendLater_ok done)

theorem msgSend (linked : Linked k) (callerIn : InTable caller) (destIn : InTable dest)
    (done : Kernel.msgSend k caller dest m = .ok k') : Linked k' := by
  obtain ⟨-, done⟩ | done := msgSend_ok done
  · exact linked.sendNow done
  · exact linked.sendLater callerIn destIn done

theorem receiveInterrupt (linked : Linked k) (done : Kernel.receiveInterrupt k who m = .ok k') :
    Linked k' := by
  obtain ⟨mem, rfl⟩ := receiveInterrupt_ok done
  exact (linked.withMem mem).modify who fun entry =>
    ⟨entry.sendTo, entry.head, entry.next, entry.flat⟩

theorem dequeue (linked : Linked k) (fromIn : InTable from_) {prev : Option Int}
    (done : Kernel.dequeue k who from_ prev = .ok k') : Linked k' := by
  have link := (linked from_ fromIn).next
  have last : ∀ q : Int, (none : Option Int) = some q → InTable q := fun _ is_ => by cases is_
  obtain rfl | ⟨p, rfl⟩ := dequeue_ok done
  · exact (linked.setHead who link).setNext from_ last
  · exact (linked.setNext p link).setNext from_ last

theorem takeMessage (linked : Linked k) (fromIn : InTable from_) {prev : Option Int}
    (done : Kernel.takeMessage k who from_ prev m = .ok k') : Linked k' := by
  obtain ⟨unlinked, dst, src, unlinks, rfl⟩ := takeMessage_ok done
  refine ((linked.dequeue fromIn unlinks).withMem _).modify from_ fun entry => ?_
  exact ⟨fun sends => absurd sends Bool.false_ne_true, entry.head, entry.next, entry.flat⟩

theorem receiveLater (linked : Linked k) {src : Int}
    (done : Kernel.receiveLater k who src m = .ok k') : Linked k' := by
  rw [receiveLater_ok done]
  exact linked.modify who fun entry => ⟨entry.sendTo, entry.head, entry.next, entry.flat⟩

theorem msgReceive (linked : Linked k) (whoIn : InTable who) {src : Int}
    (done : Kernel.msgReceive k who src m = .ok k') : Linked k' := by
  obtain ⟨-, done⟩ | ⟨-, ⟨from_, prev, finds, done⟩ | done⟩ := msgReceive_ok done
  · exact linked.receiveInterrupt done
  · exact linked.takeMessage (findSender_inTable linked whoIn finds) done
  · exact linked.receiveLater done

theorem sysSendrec (linked : Linked k) (callerIn : InTable caller) {function : Function}
    {srcDest : Int} (destIn : function = .send → InTable srcDest)
    (done : Kernel.sysSendrec k function srcDest m caller = .ok k') : Linked k' := by
  obtain ⟨mem, ⟨sends, done⟩ | ⟨-, done⟩⟩ := sysSendrec_ok done
  · exact (linked.withMem mem).msgSend callerIn (destIn sends) done
  · exact (linked.withMem mem).msgReceive callerIn done

theorem informInt (linked : Linked k) {taskNr : Int}
    (done : Kernel.informInt k taskNr = .ok k') : Linked k' := by
  obtain ⟨-, mem, rfl⟩ | rfl := informInt_ok done
  · refine (linked.withMem mem).modify taskNr fun entry => ?_
    exact ⟨entry.sendTo, entry.head, entry.next, entry.flat⟩
  · exact linked.modify taskNr fun entry => ⟨entry.sendTo, entry.head, entry.next, entry.flat⟩

theorem kernelMain (kBase kLimit : Nat) (mem : Nat → Message) :
    Linked (Kernel.kernelMain kBase kLimit mem) := by
  have unlinked {p : Int} {proc : Proc} (awake : proc.pFlags.sending = false)
      (head : proc.qSending = none) (next_ : proc.nextSending = none)
      (flat : p < nrTasks + nrNativeProcs → ldtSegLinear proc.ldtRw = 0) : EntryLinked p proc := by
    constructor
    · rw [awake]
      exact fun sends => absurd sends Bool.false_ne_true
    · rw [head]
      exact fun _ is_ => by cases is_
    · rw [next_]
      exact fun _ is_ => by cases is_
    · exact flat
  intro p inTable
  by_cases native : p < nrTasks + nrNativeProcs
  next =>
    have here : (Kernel.kernelMain kBase kLimit mem).procTable p = nativeProc kBase kLimit p :=
      if_pos native
    rw [here]
    exact unlinked rfl rfl rfl fun _ => nativeProc_segment kBase kLimit p
  next =>
    have here : (Kernel.kernelMain kBase kLimit mem).procTable p =
        { zeroProc with pFlags := .onlyFreeSlot } := if_neg native
    rw [here]
    exact unlinked rfl rfl rfl fun _ => rfl

end Linked

end Konix.Kernel
