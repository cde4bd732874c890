import Konix.Kernel.Ipc

set_option autoImplicit false

namespace Konix.Kernel

open Chain

structure Queues (k : State) (queue : Int → List Int) : Prop where
  chain : ∀ d, InTable d → Follows k.next (k.head d) (queue d)
  distinct : ∀ d, (queue d).Nodup
  inTable : ∀ d p, p ∈ queue d → InTable p
  disjoint : ∀ d d' p, p ∈ queue d → p ∈ queue d' → d = d'

theorem inTable_length {l : List Int} (distinct : l.Nodup) (inTable : ∀ p ∈ l, InTable p) :
    l.length < loopFuel := by
  have card := List.toFinset_card_of_nodup distinct
  have within : l.toFinset ⊆ Finset.Ico 0 (37 : Int) := by
    intro p member
    have bounds := inTable p (List.mem_toFinset.mp member)
    simp only [InTable, nrTasks, nrProcs] at bounds
    exact Finset.mem_Ico.mpr ⟨bounds.1, by omega⟩
  have bound := Finset.card_le_card within
  rw [card, Int.card_Ico] at bound
  simp only [loopFuel, nrTasks, nrProcs]
  omega

variable {k : State} {queue : Int → List Int} {s d : Int}

theorem Queues.modify (h : Queues k queue) {p : Int} {f : Proc → Proc}
    (links : (f (k.procTable p)).nextSending = (k.procTable p).nextSending ∧
      (f (k.procTable p)).qSending = (k.procTable p).qSending) :
    Queues (k.modify p f) queue := by
  have next : (k.modify p f).next = k.next := by
    funext q
    by_cases same : q = p
    · subst same
      simpa [State.next] using links.1
    · simp [State.next, same]
  have head : (k.modify p f).head = k.head := by
    funext q
    by_cases same : q = p
    · subst same
      simpa [State.head] using links.2
    · simp [State.head, same]
  refine ⟨?_, h.distinct, h.inTable, h.disjoint⟩
  intro d inTable
  rw [next, head]
  exact h.chain d inTable

theorem enqueue_empty (first : k.head d = none) :
    enqueue k s d = .ok ((k.setHead d (some s)).setNext s none) := by
  have first' : (k.procTable d).qSending = none := first
  simp only [enqueue, first']
  rfl

theorem enqueue_behind {q last : Int} (first : k.head d = some q)
    (walk : lastFrom k.next loopFuel q = some last) :
    enqueue k s d = .ok ((k.setNext last (some s)).setNext s none) := by
  have first' : (k.procTable d).qSending = some q := first
  simp only [enqueue, first', walk]
  rfl

theorem Queues.enqueue (h : Queues k queue) (target : InTable d) (sender : InTable s)
    (fresh : ∀ d', s ∉ queue d') :
    ∃ k', enqueue k s d = .ok k' ∧ k'.mem = k.mem ∧
      (∀ p, (k'.procTable p).core = (k.procTable p).core) ∧
      Queues k' (Function.update queue d (queue d ++ [s])) := by
  have lists : ∀ d', (Function.update queue d (queue d ++ [s]) d').Nodup ∧
      (∀ p, p ∈ Function.update queue d (queue d ++ [s]) d' ↔ p ∈ queue d' ∨ d' = d ∧ p = s) := by
    intro d'
    by_cases here : d' = d
    · subst here
      simp only [Function.update_self, List.mem_append, List.mem_singleton, true_and]
      refine ⟨(h.distinct d').append (List.nodup_singleton s) ?_, fun p => trivial⟩
      intro p queued single
      rw [List.mem_singleton.mp single] at queued
      exact fresh d' queued
    · simp [here, h.distinct d']
  have rest (k' : State) (chain : ∀ d', InTable d' → Follows k'.next (k'.head d')
      (Function.update queue d (queue d ++ [s]) d')) :
      Queues k' (Function.update queue d (queue d ++ [s])) := by
    refine ⟨chain, fun d' => (lists d').1, ?_, ?_⟩
    · intro d' p member
      rcases ((lists d').2 p).mp member with old | ⟨-, rfl⟩
      · exact h.inTable d' p old
      · exact sender
    · intro d₁ d₂ p first second
      rcases ((lists d₁).2 p).mp first with old | ⟨here, rfl⟩
      · rcases ((lists d₂).2 p).mp second with old' | ⟨-, rfl⟩
        · exact h.disjoint d₁ d₂ p old old'
        · exact absurd old (fresh d₁)
      · rcases ((lists d₂).2 p).mp second with old' | ⟨here', -⟩
        · exact absurd old' (fresh d₂)
        · rw [here, here']
  cases first : k.head d with
  | none =>
    have empty : queue d = [] := by
      have chain := h.chain d target
      rw [first] at chain
      exact follows_unique chain rfl
    refine ⟨_, enqueue_empty first, rfl, by simp, rest _ ?_⟩
    intro d' inTable
    simp only [State.setNext_next, State.setNext_head, State.setHead_next, State.setHead_head]
    by_cases here : d' = d
    · subst here
      simp only [Function.update_self, empty, List.nil_append]
      exact follows_single s
    · rw [Function.update_of_ne here, Function.update_of_ne here]
      exact follows_update none (fresh d') (h.chain d' inTable)
  | some q =>
    have chain := h.chain d target
    rw [first] at chain
    obtain ⟨rest', shape⟩ : ∃ rest', queue d = q :: rest' := by
      cases shape : queue d with
      | nil =>
        rw [shape] at chain
        cases chain
      | cons a rest' =>
        rw [shape] at chain
        cases chain.1
        exact ⟨rest', rfl⟩
    obtain ⟨front, last, split⟩ : ∃ front last, queue d = front ++ [last] :=
      ⟨_, _, (List.dropLast_append_getLast (l := queue d) (by simp [shape])).symm⟩
    have walk : lastFrom k.next loopFuel q = some last := by
      have short := inTable_length (h.distinct d) (h.inTable d)
      rw [shape] at chain short
      rw [lastFrom_follows chain (by simp only [List.length_cons] at short; omega)]
      simp only [← shape, split, List.getLast_append_singleton]
    have queued : last ∈ queue d := by simp [split]
    refine ⟨_, enqueue_behind first walk, rfl, by simp, rest _ ?_⟩
    intro d' inTable
    simp only [State.setNext_next, State.setNext_head]
    by_cases here : d' = d
    · subst here
      have chain' := h.chain d' inTable
      have distinct' := h.distinct d'
      have fresh' := fresh d'
      rw [Function.update_self, split]
      rw [split] at chain' distinct' fresh'
      exact follows_append distinct' fresh' chain'
    · have elsewhere : last ∉ queue d' := fun other => here (h.disjoint d' d last other queued)
      rw [Function.update_of_ne here]
      exact follows_update none (fresh d') (follows_update (some s) elsewhere (h.chain d' inTable))

theorem Queues.predecessor (h : Queues k queue) (target : InTable d) (queued : s ∈ queue d) :
    ∃ front rest, queue d = front ++ s :: rest ∧
      predecessor k.next s loopFuel (k.procTable d).qSending none = some front.getLast? := by
  obtain ⟨front, rest, split⟩ := List.append_of_mem queued
  refine ⟨front, rest, split, ?_⟩
  have chain := h.chain d target
  have distinct := h.distinct d
  have short := inTable_length distinct (h.inTable d)
  rw [split] at chain distinct short
  have fresh : s ∉ front := by
    intro again
    exact List.disjoint_of_nodup_append distinct again List.mem_cons_self
  have enough : front.length < loopFuel := by
    simp only [List.length_append] at short
    omega
  have walk := @predecessor_follows _ _ _ loopFuel _ none _ _ _ chain fresh enough
  rw [Option.or_none] at walk
  exact walk

theorem dequeue_first (first : k.head d = some s) :
    dequeue k d s none = .ok ((k.setHead d (k.next s)).setNext s none) := by
  have first' : some s = (k.procTable d).qSending := first.symm
  simp only [dequeue, first', if_true, decide_true, State.assertThat_true]
  rfl

theorem dequeue_behind {prev : Int} (notFirst : k.head d ≠ some s) :
    dequeue k d s (some prev) = .ok ((k.setNext prev (k.next s)).setNext s none) := by
  have notFirst' : ¬ some s = (k.procTable d).qSending := fun same => notFirst same.symm
  simp only [dequeue, notFirst', if_false]
  rfl

theorem Queues.dequeue {front rest : List Int} (h : Queues k queue) (target : InTable d)
    (split : queue d = front ++ s :: rest) :
    ∃ k', dequeue k d s front.getLast? = .ok k' ∧ k'.mem = k.mem ∧
      (∀ p, (k'.procTable p).core = (k.procTable p).core) ∧
      Queues k' (Function.update queue d (front ++ rest)) := by
  have shorter : (front ++ rest).Sublist (queue d) := by
    rw [split]
    exact (List.Sublist.refl front).append (List.sublist_cons_self s rest)
  have lists : ∀ d', (Function.update queue d (front ++ rest) d').Sublist (queue d') := by
    intro d'
    by_cases here : d' = d
    · subst here
      rwa [Function.update_self]
    · rw [Function.update_of_ne here]
  have rest' (k' : State) (chain : ∀ d', InTable d' → Follows k'.next (k'.head d')
      (Function.update queue d (front ++ rest) d')) :
      Queues k' (Function.update queue d (front ++ rest)) := by
    refine ⟨chain, fun d' => (h.distinct d').sublist (lists d'), ?_, ?_⟩
    · exact fun d' p member => h.inTable d' p ((lists d').subset member)
    · exact fun d₁ d₂ p first second =>
        h.disjoint d₁ d₂ p ((lists d₁).subset first) ((lists d₂).subset second)
  have queued : s ∈ queue d := by simp [split]
  have chain := h.chain d target
  have distinct := h.distinct d
  rw [split] at chain distinct
  rcases List.eq_nil_or_concat front with rfl | ⟨l, prev, rfl⟩
  · refine ⟨_, dequeue_first chain.1, rfl, by simp, rest' _ ?_⟩
    intro d' inTable
    simp only [State.setNext_next, State.setNext_head, State.setHead_next, State.setHead_head]
    by_cases here : d' = d
    · subst here
      rw [Function.update_self, Function.update_self]
      exact follows_tail distinct chain
    · have elsewhere : s ∉ queue d' := fun other => here (h.disjoint d' d s other queued)
      rw [Function.update_of_ne here, Function.update_of_ne here]
      exact follows_update none elsewhere (h.chain d' inTable)
  · simp only [List.concat_eq_append, List.append_assoc, List.cons_append, List.nil_append] at *
    have notFirst : k.head d ≠ some s := by
      intro first
      rw [first] at chain
      cases l with
      | nil =>
        cases chain.1
        simp at distinct
      | cons a l =>
        cases chain.1
        simp at distinct
    have queued' : prev ∈ queue d := by simp [split]
    have last : (l ++ [prev]).getLast? = some prev := by simp
    rw [last]
    refine ⟨_, dequeue_behind notFirst, rfl, by simp, rest' _ ?_⟩
    intro d' inTable
    simp only [State.setNext_next, State.setNext_head]
    by_cases here : d' = d
    · subst here
      rw [Function.update_self]
      exact follows_remove distinct chain
    · have elsewhere : s ∉ queue d' := fun other => here (h.disjoint d' d s other queued)
      have elsewhere' : prev ∉ queue d' := fun other => here (h.disjoint d' d prev other queued')
      rw [Function.update_of_ne here]
      exact follows_update none elsewhere
        (follows_update (k.next s) elsewhere' (h.chain d' inTable))

end Konix.Kernel
