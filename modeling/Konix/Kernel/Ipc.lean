import Konix.Kernel.Proc

set_option autoImplicit false

namespace Konix.Kernel

open Chain

-- More iterations than the table has slots: a loop over the table that is still running then
-- never ends.
def loopFuel : Nat := nrTasks + nrProcs + 1

-- `deadlock()`: whether the processes blocked on `p` lead back to `src`; `none` is an endless loop.
def deadlock (table : Int → Proc) (src : Int) : Nat → Int → Option Bool
  | 0, _ => none
  | fuel + 1, p =>
    if (table p).pFlags.sending then
      if (table p).pSendto = src then some true
      else deadlock table src fuel (table p).pSendto
    else some false

def physCopy (k : State) (dst src : Nat) : State :=
  { k with mem := Function.update k.mem dst (k.mem src) }

-- `block()`; which process runs next is left to the run.
def block (k : State) (p : Int) : Except Halted Unit :=
  k.assertThat ((k.procTable p).pFlags ≠ .clear)

def unblock (k : State) (p : Int) : Except Halted Unit :=
  k.assertThat ((k.procTable p).pFlags = .clear)

def assertIdle (k : State) (p : Int) : Except Halted Unit := do
  k.assertThat ((k.procTable p).pFlags = .clear)
  k.assertThat ((k.procTable p).pMsg = 0)
  k.assertThat ((k.procTable p).pRecvfrom = noTask)
  k.assertThat ((k.procTable p).pSendto = noTask)

def assertSending (k : State) (p dest : Int) : Except Halted Unit := do
  k.assertThat ((k.procTable p).pFlags = .onlySending)
  k.assertThat ((k.procTable p).pMsg ≠ 0)
  k.assertThat ((k.procTable p).pRecvfrom = noTask)
  k.assertThat ((k.procTable p).pSendto = dest)

def Proc.received (p : Proc) : Proc :=
  { p with pMsg := 0, pFlags := { p.pFlags with receiving := false }, pRecvfrom := noTask }

-- The receiver is waiting: hand the message over and wake it up.
def sendNow (k : State) (sender dest : Int) (m : Nat) : Except Halted State := do
  k.assertThat ((k.procTable dest).pMsg ≠ 0)
  k.assertThat (m ≠ 0)
  let dst ← va2la k dest (k.procTable dest).pMsg
  let src ← va2la k sender m
  let k := (physCopy k dst src).modify dest Proc.received
  unblock k dest
  assertIdle k dest
  assertIdle k sender
  return k

-- Append to the sending queue of `dest`.
def enqueue (k : State) (sender dest : Int) : Except Halted State := do
  let k ← match (k.procTable dest).qSending with
    | none => .ok (k.setHead dest (some sender))
    | some q =>
      match lastFrom k.next loopFuel q with
      | none => .error ⟨.hang, k⟩
      | some last => .ok (k.setNext last (some sender))
  return k.setNext sender none

def Proc.sends (p : Proc) : Proc := { p with pFlags := { p.pFlags with sending := true } }

def Proc.sendsTo (dest : Int) (m : Nat) (p : Proc) : Proc := { p with pSendto := dest, pMsg := m }

def sendLater (k : State) (sender dest : Int) (m : Nat) : Except Halted State := do
  let k := k.modify sender Proc.sends
  k.assertThat ((k.procTable sender).pFlags = .onlySending)
  let k := k.modify sender (Proc.sendsTo dest m)
  let k ← enqueue k sender dest
  block k sender
  assertSending k sender dest
  return k

def msgSend (k : State) (sender dest : Int) (m : Nat) : Except Halted State := do
  k.assertThat (sender ≠ dest)
  match deadlock k.procTable sender loopFuel dest with
  | none => .error ⟨.hang, k⟩
  | some true => .error ⟨.deadlock, k⟩
  | some false =>
    let pDest := k.procTable dest
    if pDest.pFlags.receiving ∧ (pDest.pRecvfrom = sender ∨ pDest.pRecvfrom = any) then
      sendNow k sender dest m
    else sendLater k sender dest m

-- First test of `msg_receive()`: an interrupt is pending and the receiver takes it.
def takesInterrupt (k : State) (who src : Int) : Bool :=
  (k.procTable who).hasIntMsg ∧ (src = any ∨ src = interrupt)

def interruptMsg : Message := { resetMsg with source := interrupt, type := .hardInt }

def receiveInterrupt (k : State) (who : Int) (m : Nat) : Except Halted State := do
  k.assertThat (m ≠ 0)
  let dst ← va2la k who m
  let k := { k with mem := Function.update k.mem dst interruptMsg }
  let k := k.modify who fun p => { p with hasIntMsg := false }
  k.assertThat ((k.procTable who).pFlags = .clear)
  k.assertThat ((k.procTable who).pMsg = 0)
  k.assertThat ((k.procTable who).pSendto = noTask)
  k.assertThat (!(k.procTable who).hasIntMsg)
  return k

-- Second test: the sender to take the message from, and its predecessor in the queue.
def findSender (k : State) (who src : Int) : Except Halted (Option (Int × Option Int)) :=
  if src = any then
    match (k.procTable who).qSending with
    | none => .ok none
    | some from_ => do
      assertIdle k who
      assertSending k from_ who
      return some (from_, none)
  else if 0 ≤ src ∧ src < nrTasks + nrProcs then
    if (k.procTable src).pFlags.sending ∧ (k.procTable src).pSendto = who then do
      k.assertThat ((k.procTable who).qSending ≠ none)
      match predecessor k.next src loopFuel (k.procTable who).qSending none with
      | none => .error ⟨.hang, k⟩
      | some prev => do
        assertIdle k who
        assertSending k src who
        return some (src, prev)
    else .ok none
  else .ok none

def dequeue (k : State) (who from_ : Int) (prev : Option Int) : Except Halted State := do
  let link := k.next from_
  if some from_ = (k.procTable who).qSending then
    k.assertThat (prev = none)
    return (k.setHead who link).setNext from_ none
  else
    match prev with
    | none => .error ⟨.assertion, k⟩
    | some prev => return (k.setNext prev link).setNext from_ none

def Proc.sent (p : Proc) : Proc :=
  { p with pMsg := 0, pSendto := noTask, pFlags := { p.pFlags with sending := false } }

def takeMessage (k : State) (who from_ : Int) (prev : Option Int) (m : Nat) :
    Except Halted State := do
  let k ← dequeue k who from_ prev
  k.assertThat (m ≠ 0)
  k.assertThat ((k.procTable from_).pMsg ≠ 0)
  let dst ← va2la k who m
  let src ← va2la k from_ (k.procTable from_).pMsg
  let k := (physCopy k dst src).modify from_ Proc.sent
  unblock k from_
  return k

def setReceiving (k : State) (who src : Int) (m : Nat) : State :=
  k.modify who fun p =>
    { p with pFlags := { p.pFlags with receiving := true }, pMsg := m, pRecvfrom := src }

def assertReceiving (k : State) (who : Int) : Except Halted Unit := do
  k.assertThat ((k.procTable who).pFlags = .onlyReceiving)
  k.assertThat ((k.procTable who).pMsg ≠ 0)
  k.assertThat ((k.procTable who).pRecvfrom ≠ noTask)
  k.assertThat ((k.procTable who).pSendto = noTask)
  k.assertThat (!(k.procTable who).hasIntMsg)

def receiveLater (k : State) (who src : Int) (m : Nat) : Except Halted State := do
  let k := setReceiving k who src m
  block k who
  assertReceiving k who
  return k

def msgReceive (k : State) (who src : Int) (m : Nat) : Except Halted State := do
  k.assertThat (who ≠ src)
  if takesInterrupt k who src then receiveInterrupt k who m
  else
    match ← findSender k who src with
    | some (from_, prev) => takeMessage k who from_ prev m
    | none => receiveLater k who src m

inductive Function
  | send
  | receive
  | both
deriving DecidableEq, Repr

def sysSendrec (k : State) (function : Function) (srcDest : Int) (m : Nat) (caller : Int) :
    Except Halted State := do
  k.assertThat (0 ≤ srcDest ∧ srcDest < nrTasks + nrProcs ∨ srcDest = any ∨ srcDest = interrupt)
  let mla ← va2la k caller m
  let k := { k with mem := Function.update k.mem mla { k.mem mla with source := caller } }
  k.assertThat (caller ≠ srcDest)
  match function with
  | .send => msgSend k caller srcDest m
  | .receive => msgReceive k caller srcDest m
  | .both => .error ⟨.panic, k⟩

def informInt (k : State) (taskNr : Int) : Except Halted State := do
  let p := k.procTable taskNr
  if p.pFlags.receiving ∧ (p.pRecvfrom = interrupt ∨ p.pRecvfrom = any) then do
    -- `p_msg` is used as a linear address here
    let informed := { k.mem p.pMsg with source := interrupt, type := .hardInt }
    let k := { k with mem := Function.update k.mem p.pMsg informed }
    let k := k.modify taskNr fun p => { p.received with hasIntMsg := false }
    unblock k taskNr
    assertIdle k taskNr
    return k
  else return k.modify taskNr fun p => { p with hasIntMsg := true }

end Konix.Kernel
