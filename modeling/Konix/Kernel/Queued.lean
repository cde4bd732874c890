import Konix.Kernel.Calls
import Konix.Kernel.Outcome

set_option autoImplicit false

namespace Konix.Kernel

open Chain

/-- The queues of the table hold those who are sending, whatever else the flags say. -/
structure Queued (k : State) (queue : Int → List Int) : Prop extends Queues k queue where
  member : ∀ d p, p ∈ queue d ↔ InTable p ∧ (k.wire p).sending = true ∧ (k.wire p).sendTo = d
  outside : ∀ d, ¬ InTable d → queue d = []

namespace Queued

variable {k k' : State} {queue : Int → List Int} {who src dest from_ : Int} {m : Nat}

theorem not_queued (h : Queued k queue) {p : Int} (idle : (k.wire p).sending = false) (d : Int) :
    p ∉ queue d := by
  intro queued
  have sending := ((h.member d p).mp queued).2.1
  rw [idle] at sending
  cases sending

theorem withMem (h : Queued k queue) (mem : Nat → Message) : Queued { k with mem := mem } queue :=
  ⟨⟨h.chain, h.distinct, h.inTable, h.disjoint⟩, h.member, h.outside⟩

theorem modify (h : Queued k queue) {p : Int} {f : Proc → Proc}
    (links : ∀ proc, (f proc).nextSending = proc.nextSending ∧ (f proc).qSending = proc.qSending)
    (wire : ((f (k.procTable p)).wire).sending = (k.wire p).sending ∧
      ((f (k.procTable p)).wire).sendTo = (k.wire p).sendTo) : Queued (k.modify p f) queue := by
  refine ⟨h.toQueues.modify (links _), ?_, h.outside⟩
  intro d q
  have same : ((k.modify p f).wire q).sending = (k.wire q).sending ∧
      ((k.modify p f).wire q).sendTo = (k.wire q).sendTo := by
    rw [State.modify_wire]
    by_cases isP : q = p
    · subst isP
      rw [Function.update_self]
      exact wire
    · rw [Function.update_of_ne isP]
      exact ⟨rfl, rfl⟩
  rw [same.1, same.2]
  exact h.member d q

theorem sendNow (h : Queued k queue) (done : sendNow k who dest m = .ok k') : Queued k' queue := by
  obtain ⟨dst, from_, rfl⟩ := sendNow_ok done
  exact (h.withMem _).modify (fun _ => ⟨rfl, rfl⟩) ⟨rfl, rfl⟩

theorem sendLater (h : Queued k queue) (inTable : InTable who) (target : InTable dest)
    (idle : (k.wire who).sending = false) (done : sendLater k who dest m = .ok k') :
    ∃ queue', Queued k' queue' := by
  have rewires := sendLater_rewires done
  have marked : Queues ((k.modify who Proc.sends).modify who (Proc.sendsTo dest m)) queue :=
    (h.toQueues.modify ⟨rfl, rfl⟩).modify ⟨rfl, rfl⟩
  obtain ⟨k₂, queues', -, -, after⟩ := marked.enqueue target inTable (h.not_queued idle)
  cases (sendLater_ok done).symm.trans queues'
  refine ⟨_, after, ?_, ?_⟩
  · intro d p
    by_cases isWho : p = who
    · subst isWho
      rw [rewires.self]
      by_cases isDest : d = dest
      · subst isDest
        simp [inTable]
      · have other : dest ≠ d := fun same => isDest same.symm
        simp [isDest, other, h.not_queued idle d]
    · rw [rewires.other isWho]
      by_cases isDest : d = dest
      · subst isDest
        simpa [isWho] using h.member d p
      · simpa [isDest] using h.member d p
  · intro d out
    have other : d ≠ dest := by
      rintro rfl
      exact out target
    rw [Function.update_of_ne other]
    exact h.outside d out

theorem findSender (h : Queued k queue) (receiver : InTable who) {prev : Option Int}
    (done : findSender k who src = .ok (some (from_, prev))) :
    ∃ front rest, queue who = front ++ from_ :: rest ∧ prev = front.getLast? := by
  have chain := h.chain who receiver
  obtain ⟨sends, ⟨-, head, rfl⟩ | ⟨-, inTable, found⟩⟩ := findSender_ok done
  · have chain' : Follows k.next (some from_) (queue who) := by
      rw [← head]
      exact chain
    cases shape : queue who with
    | nil =>
      rw [shape] at chain'
      cases chain'
    | cons p rest =>
      rw [shape] at chain'
      cases chain'.1
      exact ⟨[], rest, rfl, rfl⟩
  · have queued := (h.member who from_).mpr ⟨inTable, assertSending_ok sends⟩
    obtain ⟨front, rest, split, walk⟩ := h.toQueues.predecessor receiver queued
    exact ⟨front, rest, split, Option.some.inj (found.symm.trans walk)⟩

theorem takeMessage (h : Queued k queue) (receiver : InTable who) {front rest : List Int}
    (split : queue who = front ++ from_ :: rest)
    (done : takeMessage k who from_ front.getLast? m = .ok k') : ∃ queue', Queued k' queue' := by
  have rewires := takeMessage_rewires done
  obtain ⟨unlinked, dst, src, unlinks, rfl⟩ := takeMessage_ok done
  obtain ⟨k₂, unlinks', -, -, after⟩ := h.toQueues.dequeue receiver split
  cases unlinks.symm.trans unlinks'
  have copied : Queues (physCopy unlinked dst src)
      (Function.update queue who (front ++ rest)) :=
    ⟨after.chain, after.distinct, after.inTable, after.disjoint⟩
  refine ⟨_, copied.modify ⟨rfl, rfl⟩, ?_, ?_⟩
  · intro d p
    have before := h.member d p
    have distinct := h.distinct who
    rw [split] at distinct
    by_cases isFrom : p = from_
    · subst isFrom
      rw [rewires.self]
      have gone : p ∉ Function.update queue who (front ++ rest) d := by
        by_cases isWho : d = who
        · subst isWho
          rw [Function.update_self]
          have apart := List.nodup_middle.mp distinct
          exact (List.nodup_cons.mp apart).1
        · rw [Function.update_of_ne isWho]
          intro queued
          refine isWho (h.disjoint d who p queued ?_)
          rw [split]
          simp
      exact ⟨fun queued => absurd queued gone, fun sends => nomatch sends.2.1⟩
    · rw [rewires.other isFrom, ← before]
      by_cases isWho : d = who
      · subst isWho
        rw [Function.update_self, split]
        simp [isFrom]
      · rw [Function.update_of_ne isWho]
  · intro d out
    have other : d ≠ who := by
      rintro rfl
      exact out receiver
    rw [Function.update_of_ne other]
    exact h.outside d out

theorem msgSend (h : Queued k queue) (inTable : InTable who) (target : InTable dest)
    (idle : (k.wire who).sending = false) (done : msgSend k who dest m = .ok k') :
    ∃ queue', Queued k' queue' := by
  obtain ⟨-, done⟩ | done := msgSend_ok done
  · exact ⟨queue, h.sendNow done⟩
  · exact h.sendLater inTable target idle done

theorem msgReceive (h : Queued k queue) (receiver : InTable who)
    (done : msgReceive k who src m = .ok k') : ∃ queue', Queued k' queue' := by
  obtain ⟨-, done⟩ | ⟨-, ⟨from_, prev, finds, done⟩ | done⟩ := msgReceive_ok done
  · obtain ⟨mem, rfl⟩ := receiveInterrupt_ok done
    exact ⟨queue, (h.withMem mem).modify (fun _ => ⟨rfl, rfl⟩) ⟨rfl, rfl⟩⟩
  · obtain ⟨front, rest, split, rfl⟩ := h.findSender receiver finds
    exact h.takeMessage receiver split done
  · rw [receiveLater_ok done]
    exact ⟨queue, h.modify (fun _ => ⟨rfl, rfl⟩) ⟨rfl, rfl⟩⟩

theorem sysSendrec (h : Queued k queue) {function : Function} {srcDest : Int}
    (inTable : InTable who) (runnable : (k.procTable who).pFlags = .clear)
    (legal : LegalCall who function srcDest)
    (done : sysSendrec k function srcDest m who = .ok k') : ∃ queue', Queued k' queue' := by
  obtain ⟨mem, ⟨rfl, sent⟩ | ⟨rfl, received⟩⟩ := sysSendrec_ok done
  · have idle : (k.wire who).sending = false := by
      rw [State.wire, Proc.wire, runnable]
      rfl
    exact (h.withMem mem).msgSend inTable legal.1 idle sent
  · exact (h.withMem mem).msgReceive inTable received

theorem informInt (h : Queued k queue) (done : informInt k who = .ok k') : Queued k' queue := by
  obtain ⟨-, mem, rfl⟩ | rfl := informInt_ok done
  · exact (h.withMem mem).modify (fun _ => ⟨rfl, rfl⟩) ⟨rfl, rfl⟩
  · exact h.modify (fun _ => ⟨rfl, rfl⟩) ⟨rfl, rfl⟩

end Queued

end Konix.Kernel
