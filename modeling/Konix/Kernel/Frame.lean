import Konix.Kernel.Ipc

set_option autoImplicit false

namespace Konix.Kernel

section Inversion

-- What a call that returns has done, its assertions apart.
variable {k k' : State}

theorem enqueue_ok {sender dest : Int} (done : enqueue k sender dest = .ok k') :
    k' = (k.setHead dest (some sender)).setNext sender none ∨
      ∃ last, k' = (k.setNext last (some sender)).setNext sender none := by
  unfold enqueue at done
  cases head : (k.procTable dest).qSending with
  | none =>
    simp only [head] at done
    cases done
    exact .inl rfl
  | some q =>
    simp only [head] at done
    cases found : Chain.lastFrom k.next loopFuel q with
    | none =>
      simp only [found] at done
      cases done
    | some last =>
      simp only [found] at done
      cases done
      exact .inr ⟨last, rfl⟩

theorem dequeue_ok {who from_ : Int} {prev : Option Int}
    (done : dequeue k who from_ prev = .ok k') :
    k' = (k.setHead who (k.next from_)).setNext from_ none ∨
      ∃ p, k' = (k.setNext p (k.next from_)).setNext from_ none := by
  unfold dequeue at done
  split at done
  · obtain ⟨_, -, done⟩ := bind_ok done
    cases done
    exact .inl rfl
  · cases prev with
    | none => cases done
    | some p =>
      cases done
      exact .inr ⟨p, rfl⟩

theorem sendNow_ok {sender dest : Int} {m : Nat} (done : sendNow k sender dest m = .ok k') :
    ∃ dst src, k' = (physCopy k dst src).modify dest Proc.received := by
  unfold sendNow at done
  obtain ⟨_, -, done⟩ := bind_ok done
  obtain ⟨_, -, done⟩ := bind_ok done
  obtain ⟨dst, -, done⟩ := bind_ok done
  obtain ⟨src, -, done⟩ := bind_ok done
  obtain ⟨_, -, done⟩ := bind_ok done
  obtain ⟨_, -, done⟩ := bind_ok done
  obtain ⟨_, -, done⟩ := bind_ok done
  cases done
  exact ⟨dst, src, rfl⟩

theorem sendLater_ok {sender dest : Int} {m : Nat} (done : sendLater k sender dest m = .ok k') :
    enqueue ((k.modify sender Proc.sends).modify sender (Proc.sendsTo dest m)) sender dest =
      .ok k' := by
  unfold sendLater at done
  obtain ⟨_, -, done⟩ := bind_ok done
  obtain ⟨queued, queues, done⟩ := bind_ok done
  obtain ⟨_, -, done⟩ := bind_ok done
  obtain ⟨_, -, done⟩ := bind_ok done
  cases done
  exact queues

theorem msgSend_ok {sender dest : Int} {m : Nat} (done : msgSend k sender dest m = .ok k') :
    ((k.procTable dest).pFlags.receiving ∧
        ((k.procTable dest).pRecvfrom = sender ∨ (k.procTable dest).pRecvfrom = any)) ∧
        sendNow k sender dest m = .ok k' ∨
      sendLater k sender dest m = .ok k' := by
  unfold msgSend at done
  obtain ⟨_, -, done⟩ := bind_ok done
  cases cycle : deadlock k.procTable sender loopFuel dest with
  | none =>
    simp only [cycle] at done
    cases done
  | some found =>
    cases found with
    | true =>
      simp only [cycle] at done
      cases done
    | false =>
      simp only [cycle] at done
      split at done
      next waits => exact .inl ⟨waits, done⟩
      next => exact .inr done

theorem receiveInterrupt_ok {who : Int} {m : Nat} (done : receiveInterrupt k who m = .ok k') :
    ∃ mem, k' = { k with mem := mem }.modify who fun p => { p with hasIntMsg := false } := by
  unfold receiveInterrupt at done
  obtain ⟨_, -, done⟩ := bind_ok done
  obtain ⟨dst, -, done⟩ := bind_ok done
  obtain ⟨_, -, done⟩ := bind_ok done
  obtain ⟨_, -, done⟩ := bind_ok done
  obtain ⟨_, -, done⟩ := bind_ok done
  obtain ⟨_, -, done⟩ := bind_ok done
  cases done
  exact ⟨_, rfl⟩

theorem findSender_ok {who src from_ : Int} {prev : Option Int}
    (done : findSender k who src = .ok (some (from_, prev))) :
    assertSending k from_ who = .ok () ∧
      (src = any ∧ (k.procTable who).qSending = some from_ ∧ prev = none ∨
        src = from_ ∧ InTable from_ ∧
          Chain.predecessor k.next from_ loopFuel (k.procTable who).qSending none = some prev) := by
  unfold findSender at done
  split at done
  next isAny =>
    cases head : (k.procTable who).qSending with
    | none =>
      rw [head] at done
      cases done
    | some first =>
      rw [head] at done
      obtain ⟨_, -, done⟩ := bind_ok done
      obtain ⟨_, sends, done⟩ := bind_ok done
      cases done
      exact ⟨sends, .inl ⟨isAny, rfl, rfl⟩⟩
  next =>
    split at done
    next inTable =>
      split at done
      next =>
        obtain ⟨_, -, done⟩ := bind_ok done
        cases found : Chain.predecessor k.next src loopFuel (k.procTable who).qSending none with
        | none =>
          simp only [found] at done
          cases done
        | some before =>
          simp only [found] at done
          obtain ⟨_, -, done⟩ := bind_ok done
          obtain ⟨_, sends, done⟩ := bind_ok done
          cases done
          exact ⟨sends, .inr ⟨rfl, inTable, found⟩⟩
      next => cases done
    next => cases done

theorem takeMessage_ok {who from_ : Int} {prev : Option Int} {m : Nat}
    (done : takeMessage k who from_ prev m = .ok k') :
    ∃ unlinked dst src, dequeue k who from_ prev = .ok unlinked ∧
      k' = (physCopy unlinked dst src).modify from_ Proc.sent := by
  unfold takeMessage at done
  obtain ⟨unlinked, unlinks, done⟩ := bind_ok done
  obtain ⟨_, -, done⟩ := bind_ok done
  obtain ⟨_, -, done⟩ := bind_ok done
  obtain ⟨dst, -, done⟩ := bind_ok done
  obtain ⟨src, -, done⟩ := bind_ok done
  obtain ⟨_, -, done⟩ := bind_ok done
  cases done
  exact ⟨unlinked, dst, src, unlinks, rfl⟩

theorem receiveLater_ok {who src : Int} {m : Nat} (done : receiveLater k who src m = .ok k') :
    k' = setReceiving k who src m := by
  unfold receiveLater at done
  obtain ⟨_, -, done⟩ := bind_ok done
  obtain ⟨_, -, done⟩ := bind_ok done
  cases done
  rfl

theorem msgReceive_ok {who src : Int} {m : Nat} (done : msgReceive k who src m = .ok k') :
    takesInterrupt k who src = true ∧ receiveInterrupt k who m = .ok k' ∨
      takesInterrupt k who src = false ∧
        ((∃ from_ prev, findSender k who src = .ok (some (from_, prev)) ∧
            takeMessage k who from_ prev m = .ok k') ∨
          receiveLater k who src m = .ok k') := by
  unfold msgReceive at done
  obtain ⟨_, -, done⟩ := bind_ok done
  split at done
  next takes => exact .inl ⟨takes, done⟩
  next takes =>
    refine .inr ⟨by simpa using takes, ?_⟩
    obtain ⟨sender, finds, done⟩ := bind_ok done
    cases sender with
    | none => exact .inr done
    | some found => exact .inl ⟨found.1, found.2, finds, done⟩

theorem sysSendrec_ok {function : Function} {srcDest caller : Int} {m : Nat}
    (done : sysSendrec k function srcDest m caller = .ok k') :
    ∃ mem, function = .send ∧ msgSend { k with mem := mem } caller srcDest m = .ok k' ∨
      function = .receive ∧ msgReceive { k with mem := mem } caller srcDest m = .ok k' := by
  unfold sysSendrec at done
  obtain ⟨_, -, done⟩ := bind_ok done
  obtain ⟨mla, -, done⟩ := bind_ok done
  obtain ⟨_, -, done⟩ := bind_ok done
  cases function with
  | send => exact ⟨_, .inl ⟨rfl, done⟩⟩
  | receive => exact ⟨_, .inr ⟨rfl, done⟩⟩
  | both => cases done

theorem informInt_ok {taskNr : Int} (done : informInt k taskNr = .ok k') :
    ((k.procTable taskNr).pFlags.receiving ∧ ((k.procTable taskNr).pRecvfrom = interrupt ∨
        (k.procTable taskNr).pRecvfrom = any)) ∧
        (∃ mem, k' = { k with mem := mem }.modify taskNr fun p =>
          { p.received with hasIntMsg := false }) ∨
      k' = k.modify taskNr fun p => { p with hasIntMsg := true } := by
  unfold informInt at done
  simp only at done
  split at done
  next waits =>
    obtain ⟨_, -, done⟩ := bind_ok done
    obtain ⟨_, -, done⟩ := bind_ok done
    cases done
    exact .inl ⟨waits, _, rfl⟩
  next =>
    cases done
    exact .inr rfl

end Inversion

-- The part of a process-table entry that message passing never changes.
structure Owned where
  ldtC : Descriptor
  ldtRw : Descriptor
  waiting : Bool
  hanging : Bool
  freeSlot : Bool
  pParent : Int
  exitStatus : Int
deriving DecidableEq, Repr

def Proc.owned (p : Proc) : Owned :=
  ⟨p.ldtC, p.ldtRw, p.pFlags.waiting, p.pFlags.hanging, p.pFlags.freeSlot, p.pParent,
    p.exitStatus⟩

def Keeps (k k' : State) : Prop := ∀ p, (k'.procTable p).owned = (k.procTable p).owned

namespace Keeps

variable {k k' k'' : State}

@[refl] theorem refl (k : State) : Keeps k k := fun _ => rfl

theorem trans (first : Keeps k k') (second : Keeps k' k'') : Keeps k k'' := by
  intro p
  rw [second p, first p]

theorem modify (p : Int) {f : Proc → Proc} (keeps : ∀ proc : Proc, (f proc).owned = proc.owned) :
    Keeps k (k.modify p f) := by
  intro q
  by_cases same : q = p
  · subst same
    rw [State.modify_self]
    exact keeps _
  · rw [State.modify_other _ _ same]

theorem withMem (mem : Nat → Message) : Keeps k { k with mem := mem } := fun _ => rfl

theorem setHead (p : Int) (link : Option Int) : Keeps k (k.setHead p link) :=
  modify p fun _ => rfl

theorem setNext (p : Int) (link : Option Int) : Keeps k (k.setNext p link) :=
  modify p fun _ => rfl

theorem waiting (h : Keeps k k') (p : Int) :
    (k'.procTable p).pFlags.waiting = (k.procTable p).pFlags.waiting :=
  congrArg Owned.waiting (h p)

theorem hanging (h : Keeps k k') (p : Int) :
    (k'.procTable p).pFlags.hanging = (k.procTable p).pFlags.hanging :=
  congrArg Owned.hanging (h p)

theorem freeSlot (h : Keeps k k') (p : Int) :
    (k'.procTable p).pFlags.freeSlot = (k.procTable p).pFlags.freeSlot :=
  congrArg Owned.freeSlot (h p)

theorem pParent (h : Keeps k k') (p : Int) :
    (k'.procTable p).pParent = (k.procTable p).pParent :=
  congrArg Owned.pParent (h p)

theorem exitStatus (h : Keeps k k') (p : Int) :
    (k'.procTable p).exitStatus = (k.procTable p).exitStatus :=
  congrArg Owned.exitStatus (h p)

end Keeps

variable {k k' : State}

theorem enqueue_keeps {sender dest : Int} (done : enqueue k sender dest = .ok k') :
    Keeps k k' := by
  obtain rfl | ⟨last, rfl⟩ := enqueue_ok done
  · exact (Keeps.setHead dest (some sender)).trans (Keeps.setNext sender none)
  · exact (Keeps.setNext last (some sender)).trans (Keeps.setNext sender none)

theorem sendNow_keeps {sender dest : Int} {m : Nat} (done : sendNow k sender dest m = .ok k') :
    Keeps k k' := by
  obtain ⟨dst, src, rfl⟩ := sendNow_ok done
  exact (Keeps.withMem _).trans (Keeps.modify dest fun _ => rfl)

theorem sendLater_keeps {sender dest : Int} {m : Nat} (done : sendLater k sender dest m = .ok k') :
    Keeps k k' := by
  have flag : Keeps k (k.modify sender Proc.sends) := Keeps.modify sender fun _ => rfl
  have target : Keeps _ ((k.modify sender Proc.sends).modify sender (Proc.sendsTo dest m)) :=
    Keeps.modify sender fun _ => rfl
  exact (flag.trans target).trans (enqueue_keeps (sendLater_ok done))

theorem msgSend_keeps {sender dest : Int} {m : Nat} (done : msgSend k sender dest m = .ok k') :
    Keeps k k' := by
  obtain ⟨-, done⟩ | done := msgSend_ok done
  · exact sendNow_keeps done
  · exact sendLater_keeps done

theorem receiveInterrupt_keeps {who : Int} {m : Nat} (done : receiveInterrupt k who m = .ok k') :
    Keeps k k' := by
  obtain ⟨mem, rfl⟩ := receiveInterrupt_ok done
  exact (Keeps.withMem mem).trans (Keeps.modify who fun _ => rfl)

theorem dequeue_keeps {who from_ : Int} {prev : Option Int}
    (done : dequeue k who from_ prev = .ok k') :
    Keeps k k' := by
  obtain rfl | ⟨p, rfl⟩ := dequeue_ok done
  · exact (Keeps.setHead who _).trans (Keeps.setNext from_ none)
  · exact (Keeps.setNext p _).trans (Keeps.setNext from_ none)

theorem takeMessage_keeps {who from_ : Int} {prev : Option Int} {m : Nat}
    (done : takeMessage k who from_ prev m = .ok k') : Keeps k k' := by
  obtain ⟨unlinked, dst, src, unlinks, rfl⟩ := takeMessage_ok done
  exact ((dequeue_keeps unlinks).trans (Keeps.withMem _)).trans (Keeps.modify from_ fun _ => rfl)

theorem receiveLater_keeps {who src : Int} {m : Nat} (done : receiveLater k who src m = .ok k') :
    Keeps k k' := by
  rw [receiveLater_ok done]
  exact Keeps.modify who fun _ => rfl

theorem msgReceive_keeps {who src : Int} {m : Nat} (done : msgReceive k who src m = .ok k') :
    Keeps k k' := by
  obtain ⟨-, done⟩ | ⟨-, ⟨_, _, -, done⟩ | done⟩ := msgReceive_ok done
  · exact receiveInterrupt_keeps done
  · exact takeMessage_keeps done
  · exact receiveLater_keeps done

theorem sysSendrec_keeps {function : Function} {srcDest : Int} {m : Nat} {caller : Int}
    (done : sysSendrec k function srcDest m caller = .ok k') : Keeps k k' := by
  obtain ⟨mem, ⟨-, done⟩ | ⟨-, done⟩⟩ := sysSendrec_ok done
  · exact (Keeps.withMem mem).trans (msgSend_keeps done)
  · exact (Keeps.withMem mem).trans (msgReceive_keeps done)

theorem informInt_keeps {taskNr : Int} (done : informInt k taskNr = .ok k') : Keeps k k' := by
  obtain ⟨-, mem, rfl⟩ | rfl := informInt_ok done
  · exact (Keeps.withMem mem).trans (Keeps.modify taskNr fun _ => rfl)
  · exact Keeps.modify taskNr fun _ => rfl

end Konix.Kernel
