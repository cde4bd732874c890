import Konix.Lib.Run

set_option autoImplicit false

/-!
Rendezvous message passing between processes: a sender blocks until the receiver takes its
message, a receiver until a message comes, and every process keeps its blocked senders in a queue.
-/

namespace Rendezvous

variable {P A M : Type}

inductive Source (P : Type)
  | from (p : P)
  | any
  | interrupt

inductive Source.Admits : Source P → P → Prop
  | from (p : P) : Admits (.from p) p
  | any (p : P) : Admits .any p

inductive Source.AdmitsInt : Source P → Prop
  | any : AdmitsInt .any
  | interrupt : AdmitsInt .interrupt

inductive Status (P A : Type)
  | idle
  | sending (dest : P) (buf : A)
  | receiving (src : Source P) (buf : A)
  | absent

structure Format (P M : Type) where
  stamp : P → M → M
  notice : M
  mark : M → M

structure Mail (P A M : Type) where
  status : P → Status P A
  pending : P → Bool
  queue : P → List P
  mem : A → M

variable [DecidableEq P] [DecidableEq A]

namespace Mail

def setStatus (a : Mail P A M) (p : P) (status : Status P A) : Mail P A M :=
  { a with status := Function.update a.status p status }

def write (a : Mail P A M) (buf : A) (m : M) : Mail P A M :=
  { a with mem := Function.update a.mem buf m }

def setPending (a : Mail P A M) (p : P) (pending : Bool) : Mail P A M :=
  { a with pending := Function.update a.pending p pending }

def setQueue (a : Mail P A M) (p : P) (queue : List P) : Mail P A M :=
  { a with queue := Function.update a.queue p queue }

variable (a : Mail P A M) (p : P)

omit [DecidableEq P] in
@[simp] theorem write_status (buf : A) (m : M) : (a.write buf m).status = a.status := rfl
omit [DecidableEq P] in
@[simp] theorem write_pending (buf : A) (m : M) : (a.write buf m).pending = a.pending := rfl
omit [DecidableEq P] in
@[simp] theorem write_queue (buf : A) (m : M) : (a.write buf m).queue = a.queue := rfl
omit [DecidableEq P] in
@[simp] theorem write_mem (buf : A) (m : M) : (a.write buf m).mem = Function.update a.mem buf m :=
  rfl

omit [DecidableEq A]
@[simp] theorem setStatus_status (status : Status P A) :
    (a.setStatus p status).status = Function.update a.status p status := rfl
@[simp] theorem setStatus_pending (status : Status P A) :
    (a.setStatus p status).pending = a.pending := rfl
@[simp] theorem setStatus_queue (status : Status P A) : (a.setStatus p status).queue = a.queue :=
  rfl
@[simp] theorem setStatus_mem (status : Status P A) : (a.setStatus p status).mem = a.mem := rfl
@[simp] theorem setPending_status (b : Bool) : (a.setPending p b).status = a.status := rfl
@[simp] theorem setPending_pending (b : Bool) :
    (a.setPending p b).pending = Function.update a.pending p b := rfl
@[simp] theorem setPending_queue (b : Bool) : (a.setPending p b).queue = a.queue := rfl
@[simp] theorem setPending_mem (b : Bool) : (a.setPending p b).mem = a.mem := rfl
@[simp] theorem setPending_self : a.setPending p (a.pending p) = a := by
  simp [setPending]
@[simp] theorem setStatus_self : a.setStatus p (a.status p) = a := by
  simp [setStatus]
@[simp] theorem setQueue_status (l : List P) : (a.setQueue p l).status = a.status := rfl
@[simp] theorem setQueue_pending (l : List P) : (a.setQueue p l).pending = a.pending := rfl
@[simp] theorem setQueue_queue (l : List P) :
    (a.setQueue p l).queue = Function.update a.queue p l := rfl
@[simp] theorem setQueue_mem (l : List P) : (a.setQueue p l).mem = a.mem := rfl

end Mail

inductive Sends (a : Mail P A M) (s d : P) (buf : A) : Mail P A M → Prop
  | deliver (src : Source P) (rbuf : A) (waiting : a.status d = .receiving src rbuf)
      (admits : src.Admits s) : Sends a s d buf ((a.write rbuf (a.mem buf)).setStatus d .idle)
  | enqueue (busy : ∀ src rbuf, a.status d = .receiving src rbuf → ¬ src.Admits s) :
      Sends a s d buf ((a.setQueue d (a.queue d ++ [s])).setStatus s (.sending d buf))

-- The blocked sender a RECEIVE takes: the first one, or the one it asks for.
inductive Picks (queue : List P) : Source P → P → Prop
  | first (s : P) (rest : List P) (head : queue = s :: rest) : Picks queue .any s
  | named (s : P) (queued : s ∈ queue) : Picks queue (.from s) s

inductive Receives (fmt : Format P M) (a : Mail P A M) (r : P) (src : Source P) (buf : A) :
    Mail P A M → Prop
  | interrupt (pending : a.pending r = true) (takes : src.AdmitsInt) :
      Receives fmt a r src buf ((a.write buf fmt.notice).setPending r false)
  | take (s : P) (sbuf : A) (quiet : ¬ (a.pending r = true ∧ src.AdmitsInt))
      (picks : Picks (a.queue r) src s) (blocked : a.status s = .sending r sbuf) :
      Receives fmt a r src buf
        (((a.write buf (a.mem sbuf)).setQueue r ((a.queue r).erase s)).setStatus s .idle)
  | wait (quiet : ¬ (a.pending r = true ∧ src.AdmitsInt))
      (nobody : ∀ s, ¬ Picks (a.queue r) src s) :
      Receives fmt a r src buf (a.setStatus r (.receiving src buf))

inductive Informs (fmt : Format P M) (a : Mail P A M) (t : P) : Mail P A M → Prop
  | wake (src : Source P) (buf : A) (waiting : a.status t = .receiving src buf)
      (takes : src.AdmitsInt) :
      Informs fmt a t (((a.write buf (fmt.mark (a.mem buf))).setPending t false).setStatus t .idle)
  | note (busy : ∀ src buf, a.status t = .receiving src buf → ¬ src.AdmitsInt) :
      Informs fmt a t (a.setPending t true)

inductive Act (P A : Type)
  | send (s d : P) (buf : A)
  | receive (r : P) (src : Source P) (buf : A)
  | inform (t : P)
  | compute

inductive Step (fmt : Format P M) (a : Mail P A M) : Act P A → Mail P A M → Prop
  | send {a' : Mail P A M} (s d : P) (buf : A) (runs : a.status s = .idle) (other : s ≠ d)
      (sends : Sends (a.write buf (fmt.stamp s (a.mem buf))) s d buf a') :
      Step fmt a (.send s d buf) a'
  | receive {a' : Mail P A M} (r : P) (src : Source P) (buf : A) (runs : a.status r = .idle)
      (receives : Receives fmt (a.write buf (fmt.stamp r (a.mem buf))) r src buf a') :
      Step fmt a (.receive r src buf) a'
  | inform {a' : Mail P A M} (t : P) (informs : Informs fmt a t a') : Step fmt a (.inform t) a'
  | compute (mem : A → M) : Step fmt a .compute { a with mem := mem }

structure WellFormed (a : Mail P A M) : Prop where
  distinct : ∀ d, (a.queue d).Nodup
  member : ∀ d p, p ∈ a.queue d ↔ ∃ buf, a.status p = .sending d buf
  -- nobody waits for a message that somebody is already sending
  apart : ∀ d src buf, a.status d = .receiving src buf → ∀ p ∈ a.queue d, ¬ src.Admits p
  quiet : ∀ d src buf, a.status d = .receiving src buf → src.AdmitsInt → a.pending d = false

omit [DecidableEq P] [DecidableEq A] in
theorem WellFormed.withMem {a : Mail P A M} (h : WellFormed a) (mem : A → M) :
    WellFormed { a with mem := mem } :=
  ⟨h.distinct, h.member, h.apart, h.quiet⟩

omit [DecidableEq P] in
theorem WellFormed.write {a : Mail P A M} (h : WellFormed a) (buf : A) (m : M) :
    WellFormed (a.write buf m) :=
  h.withMem _

omit [DecidableEq P] [DecidableEq A] in
theorem WellFormed.not_queued {a : Mail P A M} (h : WellFormed a) {p : P}
    (awake : ∀ d buf, a.status p ≠ .sending d buf) (d : P) : p ∉ a.queue d := by
  intro queued
  obtain ⟨buf, blocked⟩ := (h.member d p).mp queued
  exact awake d buf blocked

omit [DecidableEq A] in
theorem WellFormed.wake {a : Mail P A M} (h : WellFormed a) {d : P} {src : Source P} {buf : A}
    (waiting : a.status d = .receiving src buf) : WellFormed (a.setStatus d .idle) where
  distinct := h.distinct
  member := by
    intro d' p
    have same := h.member d' p
    by_cases woken : p = d
    · subst woken
      simp only [waiting, reduceCtorEq, exists_false] at same
      simp [same]
    · simpa [woken] using same
  apart := by
    intro d' src' buf' waiting'
    by_cases woken : d' = d
    · simp [woken] at waiting'
    · exact h.apart d' src' buf' (by simpa [woken] using waiting')
  quiet := by
    intro d' src' buf' waiting'
    by_cases woken : d' = d
    · simp [woken] at waiting'
    · exact h.quiet d' src' buf' (by simpa [woken] using waiting')

theorem Sends.wellFormed {a a' : Mail P A M} {s d : P} {buf : A} (h : WellFormed a)
    (runs : a.status s = .idle) (other : s ≠ d) (sends : Sends a s d buf a') : WellFormed a' := by
  cases sends with
  | deliver src rbuf waiting admits => exact (h.write _ _).wake waiting
  | enqueue busy =>
    have fresh := h.not_queued (p := s) (by simp [runs])
    constructor
    case distinct =>
      intro d'
      by_cases here : d' = d
      · subst here
        simpa [Mail.setQueue] using
          List.nodup_append.mpr ⟨h.distinct d', List.nodup_singleton s, by
            intro p member q single
            rw [List.mem_singleton.mp single]
            exact fun same => fresh d' (same ▸ member)⟩
      · simpa [here] using h.distinct d'
    case member =>
      intro d' p
      have same := h.member d' p
      by_cases here : d' = d
      · subst here
        by_cases new : p = s
        · subst new
          simp [Mail.setQueue]
        · simpa [new] using same
      · by_cases new : p = s
        · subst new
          simp [here, fresh d', Ne.symm here]
        · simpa [new, here] using same
    case apart =>
      intro d' src' buf' waiting
      have notSender : d' ≠ s := by
        rintro rfl
        simp at waiting
      have before : a.status d' = .receiving src' buf' := by
        simpa [notSender] using waiting
      intro p queued
      by_cases here : d' = d
      · subst here
        simp only [Mail.setStatus_queue, Mail.setQueue_queue, Function.update_self, List.mem_append,
          List.mem_singleton] at queued
        rcases queued with old | rfl
        · exact h.apart d' src' buf' before p old
        · exact busy src' buf' before
      · exact h.apart d' src' buf' before p (by
          simpa [here] using queued)
    case quiet =>
      intro d' src' buf' waiting
      have notSender : d' ≠ s := by
        rintro rfl
        simp at waiting
      exact h.quiet d' src' buf' (by
        simpa [notSender] using waiting)

omit [DecidableEq P] in
theorem Picks.queued {queue : List P} {s : P} {src : Source P} (picks : Picks queue src s) :
    s ∈ queue ∧ src.Admits s := by
  cases picks with
  | first s rest head => exact ⟨by simp [head], .any s⟩
  | named s queued => exact ⟨queued, .from s⟩

omit [DecidableEq P] in
theorem Picks.exists {queue : List P} {p : P} {src : Source P} (queued : p ∈ queue)
    (admits : src.Admits p) : ∃ s, Picks queue src s := by
  cases admits with
  | «from» => exact ⟨p, .named p queued⟩
  | any =>
    cases queue with
    | nil => simp at queued
    | cons s rest => exact ⟨s, .first s rest rfl⟩

omit [DecidableEq A] in
theorem WellFormed.take {a : Mail P A M} (h : WellFormed a) {r s : P} {sbuf : A}
    (runs : a.status r = .idle) (blocked : a.status s = .sending r sbuf) :
    WellFormed ((a.setQueue r ((a.queue r).erase s)).setStatus s .idle) := by
  constructor
  case distinct =>
    intro d'
    by_cases here : d' = r
    · subst here
      simpa using (h.distinct d').erase s
    · simpa [here] using h.distinct d'
  case member =>
    intro d' p
    have same := h.member d' p
    by_cases here : d' = r
    · subst here
      by_cases taken : p = s
      · subst taken
        simp [(h.distinct d').not_mem_erase]
      · simpa [taken, List.mem_erase_of_ne taken] using same
    · by_cases taken : p = s
      · subst taken
        have elsewhere : p ∉ a.queue d' := by
          intro inQueue
          obtain ⟨buf', blocked'⟩ := (h.member d' p).mp inQueue
          rw [blocked] at blocked'
          cases blocked'
          exact here rfl
        simp [here, elsewhere]
      · simpa [here, taken] using same
  case apart =>
    intro d' src' buf' waiting
    have awake : d' ≠ s := by
      rintro rfl
      simp at waiting
    have before : a.status d' = .receiving src' buf' := by
      simpa [awake] using waiting
    have elsewhere : d' ≠ r := by
      rintro rfl
      rw [runs] at before
      cases before
    intro p queued'
    exact h.apart d' src' buf' before p (by
      simpa [elsewhere] using queued')
  case quiet =>
    intro d' src' buf' waiting
    have awake : d' ≠ s := by
      rintro rfl
      simp at waiting
    exact h.quiet d' src' buf' (by
      simpa [awake] using waiting)

theorem Receives.wellFormed {fmt : Format P M} {a a' : Mail P A M} {r : P} {src : Source P}
    {buf : A} (h : WellFormed a) (runs : a.status r = .idle)
    (receives : Receives fmt a r src buf a') : WellFormed a' := by
  cases receives with
  | interrupt pending takes =>
    refine ⟨h.distinct, h.member, h.apart, ?_⟩
    intro d' src' buf' waiting takes'
    have other : d' ≠ r := by
      rintro rfl
      simp [runs] at waiting
    simpa [other] using h.quiet d' src' buf' waiting takes'
  | take s sbuf quiet picks blocked => exact (h.write buf (a.mem sbuf)).take runs blocked
  | wait quiet nobody =>
    constructor
    case distinct => exact h.distinct
    case member =>
      intro d' p
      have same := h.member d' p
      by_cases waits : p = r
      · subst waits
        simpa [runs] using same
      · simpa [waits] using same
    case apart =>
      intro d' src' buf' waiting p queued admits
      by_cases waits : d' = r
      · subst waits
        simp only [Mail.setStatus_status, Function.update_self, Status.receiving.injEq] at waiting
        obtain ⟨s, picks⟩ := Picks.exists queued (waiting.1 ▸ admits)
        exact nobody s picks
      · exact h.apart d' src' buf' (by simpa [waits] using waiting) p queued admits
    case quiet =>
      intro d' src' buf' waiting takes
      by_cases waits : d' = r
      · subst waits
        simp only [Mail.setStatus_status, Function.update_self, Status.receiving.injEq] at waiting
        have silent : ¬ a.pending d' = true := fun pending => quiet ⟨pending, waiting.1 ▸ takes⟩
        simpa using silent
      · exact h.quiet d' src' buf' (by simpa [waits] using waiting) takes

theorem Informs.wellFormed {fmt : Format P M} {a a' : Mail P A M} {t : P} (h : WellFormed a)
    (informs : Informs fmt a t a') : WellFormed a' := by
  cases informs with
  | wake src buf waiting takes =>
    have woken := (h.write buf (fmt.mark (a.mem buf))).wake waiting
    refine ⟨woken.distinct, woken.member, woken.apart, ?_⟩
    intro d' src' buf' waiting' takes'
    have other : d' ≠ t := by
      rintro rfl
      simp at waiting'
    simpa [other] using woken.quiet d' src' buf' waiting' takes'
  | note busy =>
    refine ⟨h.distinct, h.member, h.apart, ?_⟩
    intro d' src' buf' waiting takes
    by_cases here : d' = t
    · subst here
      exact absurd takes (busy src' buf' waiting)
    · simpa [here] using h.quiet d' src' buf' waiting takes

theorem Step.wellFormed {fmt : Format P M} {a a' : Mail P A M} {act : Act P A} (h : WellFormed a)
    (step : Step fmt a act a') : WellFormed a' := by
  cases step with
  | send s d buf runs other sends => exact sends.wellFormed (h.write _ _) runs other
  | receive r src buf runs receives => exact receives.wellFormed (h.write _ _) runs
  | inform t informs => exact informs.wellFormed h
  | compute mem => exact h.withMem mem

end Rendezvous
