import Konix.Kernel.Frame

set_option autoImplicit false

namespace Konix.Kernel

-- What a process waits for in the kernel.
structure Wire where
  sending : Bool
  receiving : Bool
  sendTo : Int
  recvFrom : Int
deriving DecidableEq, Repr

def Proc.wire (p : Proc) : Wire := ⟨p.pFlags.sending, p.pFlags.receiving, p.pSendto, p.pRecvfrom⟩

def State.wire (k : State) (p : Int) : Wire := (k.procTable p).wire

-- Only `p` waits for something else than before, namely for `w`.
def Rewires (k k' : State) (p : Int) (w : Wire) : Prop := k'.wire = Function.update k.wire p w

theorem State.modify_wire (k : State) (p : Int) (f : Proc → Proc) :
    (k.modify p f).wire = Function.update k.wire p (f (k.procTable p)).wire := by
  funext q
  by_cases same : q = p
  · subst same
    simp [wire]
  · simp [wire, same]

theorem State.modify_same_wire (k : State) (p : Int) {f : Proc → Proc}
    (keeps : ∀ proc : Proc, (f proc).wire = proc.wire) : (k.modify p f).wire = k.wire := by
  rw [modify_wire, keeps]
  exact Function.update_eq_self p k.wire

variable {k k' : State}

theorem Rewires.self {p : Int} {w : Wire} (rewires : Rewires k k' p w) : k'.wire p = w := by
  rw [rewires, Function.update_self]

theorem Rewires.other {p q : Int} {w : Wire} (rewires : Rewires k k' p w) (other : q ≠ p) :
    k'.wire q = k.wire q := by
  rw [rewires, Function.update_of_ne other]

theorem State.setNext_wire (k : State) (p : Int) (link : Option Int) :
    (k.setNext p link).wire = k.wire :=
  k.modify_same_wire p fun _ => rfl

theorem State.setHead_wire (k : State) (p : Int) (link : Option Int) :
    (k.setHead p link).wire = k.wire :=
  k.modify_same_wire p fun _ => rfl

theorem enqueue_wire {sender dest : Int} (done : enqueue k sender dest = .ok k') :
    k'.wire = k.wire := by
  obtain rfl | ⟨last, rfl⟩ := enqueue_ok done
  · rw [State.setNext_wire, State.setHead_wire]
  · rw [State.setNext_wire, State.setNext_wire]

theorem dequeue_wire {who from_ : Int} {prev : Option Int}
    (done : dequeue k who from_ prev = .ok k') :
    k'.wire = k.wire := by
  obtain rfl | ⟨p, rfl⟩ := dequeue_ok done
  · rw [State.setNext_wire, State.setHead_wire]
  · rw [State.setNext_wire, State.setNext_wire]

theorem sendNow_rewires {sender dest : Int} {m : Nat} (done : sendNow k sender dest m = .ok k') :
    Rewires k k' dest { k.wire dest with receiving := false, recvFrom := noTask } := by
  obtain ⟨dst, src, rfl⟩ := sendNow_ok done
  exact State.modify_wire _ dest Proc.received

theorem sendLater_rewires {sender dest : Int} {m : Nat}
    (done : sendLater k sender dest m = .ok k') :
    Rewires k k' sender { k.wire sender with sending := true, sendTo := dest } := by
  rw [Rewires, enqueue_wire (sendLater_ok done), State.modify_wire, State.modify_wire,
    Function.update_idem, State.modify_self]
  rfl

theorem msgSend_rewires {sender dest : Int} {m : Nat} (done : msgSend k sender dest m = .ok k') :
    (k.wire dest).receiving = true ∧
    ((k.wire dest).recvFrom = sender ∨ (k.wire dest).recvFrom = any) ∧
        Rewires k k' dest { k.wire dest with receiving := false, recvFrom := noTask } ∨
      Rewires k k' sender { k.wire sender with sending := true, sendTo := dest } := by
  obtain ⟨⟨waits, admits⟩, done⟩ | done := msgSend_ok done
  · exact .inl ⟨waits, admits, sendNow_rewires done⟩
  · exact .inr (sendLater_rewires done)

theorem receiveInterrupt_wire {who : Int} {m : Nat} (done : receiveInterrupt k who m = .ok k') :
    k'.wire = k.wire := by
  obtain ⟨mem, rfl⟩ := receiveInterrupt_ok done
  exact State.modify_same_wire _ who fun _ => rfl

theorem takeMessage_rewires {who from_ : Int} {prev : Option Int} {m : Nat}
    (done : takeMessage k who from_ prev m = .ok k') :
    Rewires k k' from_ { k.wire from_ with sending := false, sendTo := noTask } := by
  obtain ⟨unlinked, dst, src, unlinks, rfl⟩ := takeMessage_ok done
  rw [Rewires, ← dequeue_wire unlinks]
  exact State.modify_wire _ from_ Proc.sent

theorem receiveLater_rewires {who src : Int} {m : Nat} (done : receiveLater k who src m = .ok k') :
    Rewires k k' who { k.wire who with receiving := true, recvFrom := src } := by
  rw [receiveLater_ok done]
  exact State.modify_wire k who _

theorem assertThat_ok {holds : Prop} [Decidable holds] {u : Unit}
    (done : k.assertThat (decide holds) = .ok u) : holds := by
  by_cases h : holds
  · exact h
  · simp only [State.assertThat, h, decide_false, Bool.false_eq_true, if_false] at done
    cases done

theorem assertSending_ok {p dest : Int} {u : Unit} (done : assertSending k p dest = .ok u) :
    (k.wire p).sending = true ∧ (k.wire p).sendTo = dest := by
  unfold assertSending at done
  obtain ⟨_, flags, done⟩ := bind_ok done
  obtain ⟨_, -, done⟩ := bind_ok done
  obtain ⟨_, -, done⟩ := bind_ok done
  refine ⟨?_, assertThat_ok done⟩
  have sending := assertThat_ok flags
  simp [State.wire, Proc.wire, sending, PFlags.onlySending]

theorem findSender_admits {who src from_ : Int} {prev : Option Int}
    (done : findSender k who src = .ok (some (from_, prev))) :
    (src = from_ ∨ src = any) ∧ (k.wire from_).sending = true ∧ (k.wire from_).sendTo = who := by
  obtain ⟨sends, ⟨isAny, -⟩ | ⟨named, -⟩⟩ := findSender_ok done
  · exact ⟨.inr isAny, assertSending_ok sends⟩
  · exact ⟨.inl named, assertSending_ok sends⟩

theorem msgReceive_rewires {who src : Int} {m : Nat} (done : msgReceive k who src m = .ok k') :
    takesInterrupt k who src = true ∧ k'.wire = k.wire ∨
      takesInterrupt k who src = false ∧
        ((∃ from_, (src = from_ ∨ src = any) ∧ (k.wire from_).sending = true ∧
            (k.wire from_).sendTo = who ∧
            Rewires k k' from_ { k.wire from_ with sending := false, sendTo := noTask }) ∨
          Rewires k k' who { k.wire who with receiving := true, recvFrom := src }) := by
  obtain ⟨takes, done⟩ | ⟨refuses, ⟨from_, prev, finds, done⟩ | done⟩ := msgReceive_ok done
  · exact .inl ⟨takes, receiveInterrupt_wire done⟩
  · obtain ⟨admits, sending, target⟩ := findSender_admits finds
    exact .inr ⟨refuses, .inl ⟨from_, admits, sending, target, takeMessage_rewires done⟩⟩
  · exact .inr ⟨refuses, .inr (receiveLater_rewires done)⟩

theorem informInt_rewires {taskNr : Int} (done : informInt k taskNr = .ok k') :
    (k.wire taskNr).receiving = true ∧
        ((k.wire taskNr).recvFrom = interrupt ∨ (k.wire taskNr).recvFrom = any) ∧
        Rewires k k' taskNr { k.wire taskNr with receiving := false, recvFrom := noTask } ∨
      k'.wire = k.wire := by
  obtain ⟨⟨waits, admits⟩, mem, rfl⟩ | rfl := informInt_ok done
  · exact .inl ⟨waits, admits, State.modify_wire _ taskNr _⟩
  · exact .inr (k.modify_same_wire taskNr fun _ => rfl)

theorem sysSendrec_send {dest caller : Int} {m : Nat}
    (done : sysSendrec k .send dest m caller = .ok k') :
    (k.wire dest).receiving = true ∧
    ((k.wire dest).recvFrom = caller ∨ (k.wire dest).recvFrom = any) ∧
        Rewires k k' dest { k.wire dest with receiving := false, recvFrom := noTask } ∨
      Rewires k k' caller { k.wire caller with sending := true, sendTo := dest } := by
  obtain ⟨mem, ⟨-, done⟩ | ⟨is_, -⟩⟩ := sysSendrec_ok done
  · have sent := msgSend_rewires done
    exact sent
  · cases is_

theorem sysSendrec_receive {src caller : Int} {m : Nat}
    (done : sysSendrec k .receive src m caller = .ok k') :
    takesInterrupt k caller src = true ∧ k'.wire = k.wire ∨
      takesInterrupt k caller src = false ∧
        ((∃ from_, (src = from_ ∨ src = any) ∧ (k.wire from_).sending = true ∧
            (k.wire from_).sendTo = caller ∧
            Rewires k k' from_ { k.wire from_ with sending := false, sendTo := noTask }) ∨
          Rewires k k' caller { k.wire caller with receiving := true, recvFrom := src }) := by
  obtain ⟨mem, ⟨is_, -⟩ | ⟨-, done⟩⟩ := sysSendrec_ok done
  · cases is_
  · have received := msgReceive_rewires done
    exact received

theorem sysSendrec_takes {src caller q : Int} {m : Nat}
    (done : sysSendrec k .receive src m caller = .ok k') (other : q ≠ caller)
    (waited : (k.wire q).sending = true) (over_ : (k'.wire q).sending = false) :
    (src = q ∨ src = any) ∧
      Rewires k k' q { k.wire q with sending := false, sendTo := noTask } := by
  obtain ⟨-, wires⟩ | ⟨-, ⟨from_, admits, -, -, rewires⟩ | rewires⟩ := sysSendrec_receive done
  · rw [wires, waited] at over_
    cases over_
  · have same : q = from_ := by
      by_contra distinct
      rw [rewires.other distinct, waited] at over_
      cases over_
    subst same
    exact ⟨admits, rewires⟩
  · rw [rewires.other other, waited] at over_
    cases over_

end Konix.Kernel
