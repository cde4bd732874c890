import Konix.Lib.Rendezvous

set_option autoImplicit false

namespace Rendezvous

open Runs

variable {P A M : Type} [DecidableEq P] [DecidableEq A] {fmt : Format P M}

def Fresh (a : Mail P A M) : Prop :=
  ∀ p, (a.status p = .idle ∨ a.status p = .absent) ∧ a.queue p = []

omit [DecidableEq P] [DecidableEq A] in
theorem Fresh.wellFormed {a : Mail P A M} (fresh : Fresh a) : WellFormed a := by
  constructor
  case distinct =>
    intro d
    rw [(fresh d).2]
    exact List.nodup_nil
  case member =>
    intro d p
    rcases (fresh p).1 with idle | absent
    · simp [(fresh d).2, idle]
    · simp [(fresh d).2, absent]
  case apart =>
    intro d src buf _ p queued
    rw [(fresh d).2] at queued
    cases queued
  case quiet =>
    intro d src buf waiting
    rcases (fresh d).1 with idle | absent
    · rw [idle] at waiting
      cases waiting
    · rw [absent] at waiting
      cases waiting

namespace Act

def caller : Act P A → Option P
  | .send s _ _ => some s
  | .receive r _ _ => some r
  | .inform _ => none
  | .compute => none

def buffer : Act P A → Option A
  | .send _ _ buf => some buf
  | .receive _ _ buf => some buf
  | .inform _ => none
  | .compute => none

end Act

theorem Sends.absent_persists {a a' : Mail P A M} {s d p : P} {buf : A}
    (sends : Sends a s d buf a') (runs : a.status s = .idle) (absent : a.status p = .absent) :
    a'.status p = .absent := by
  have notCaller : p ≠ s := by
    rintro rfl
    rw [runs] at absent
    cases absent
  cases sends with
  | deliver src rbuf waiting admits =>
    have notWoken : p ≠ d := by
      rintro rfl
      rw [absent] at waiting
      cases waiting
    simpa [notWoken] using absent
  | enqueue busy => simpa [notCaller] using absent

theorem Receives.absent_persists {a a' : Mail P A M} {r p : P} {src : Source P} {buf : A}
    (receives : Receives fmt a r src buf a') (runs : a.status r = .idle)
    (absent : a.status p = .absent) : a'.status p = .absent := by
  have notCaller : p ≠ r := by
    rintro rfl
    rw [runs] at absent
    cases absent
  cases receives with
  | interrupt pending takes => simpa using absent
  | take s sbuf quiet picks taken =>
    have notTaken : p ≠ s := by
      rintro rfl
      rw [absent] at taken
      cases taken
    simpa [notTaken] using absent
  | wait quiet nobody => simpa [notCaller] using absent

theorem Informs.others {a a' : Mail P A M} {t p : P} (informs : Informs fmt a t a')
    (other : p ≠ t) :
    a'.status p = a.status p ∧ a'.pending p = a.pending p ∧ a'.queue p = a.queue p := by
  cases informs with
  | wake src buf waiting takes => simp [other]
  | note busy => simp [other]

theorem Informs.working {a a' : Mail P A M} {t : P} (informs : Informs fmt a t a')
    (runs : a.status t = .idle) : a'.status t = .idle ∧ a'.queue t = a.queue t := by
  cases informs with
  | wake src buf waiting takes =>
    rw [runs] at waiting
    cases waiting
  | note busy => exact ⟨runs, rfl⟩

theorem Informs.absent_persists {a a' : Mail P A M} {t p : P} (informs : Informs fmt a t a')
    (absent : a.status p = .absent) : a'.status p = .absent := by
  cases informs with
  | wake src buf waiting takes =>
    have notWoken : p ≠ t := by
      rintro rfl
      rw [absent] at waiting
      cases waiting
    simpa [notWoken] using absent
  | note busy => simpa using absent

namespace Step

variable {a a' : Mail P A M} {act : Act P A}

theorem caller_idle (step : Step fmt a act a') {c : P} (calls : act.caller = some c) :
    a.status c = .idle := by
  cases step with
  | send s d buf runs other sends =>
    cases calls
    exact runs
  | receive r src buf runs receives =>
    cases calls
    exact runs
  | inform t informs => cases calls
  | compute mem => cases calls

theorem sending_persists (step : Step fmt a act a') {p d : P} {buf : A}
    (blocked : a.status p = .sending d buf) :
    a'.status p = .sending d buf ∨
      a'.status p = .idle ∧ ∃ src rbuf, act = .receive d src rbuf ∧ Picks (a.queue d) src p := by
  cases step with
  | send s d' buf' runs other sends =>
    have notCaller : p ≠ s := by
      rintro rfl
      rw [runs] at blocked
      cases blocked
    cases sends with
    | deliver src rbuf waiting admits =>
      have notWoken : p ≠ d' := by
        rintro rfl
        rw [Mail.write_status, blocked] at waiting
        cases waiting
      exact .inl (by simpa [notWoken] using blocked)
    | enqueue busy => exact .inl (by simpa [notCaller] using blocked)
  | receive r src buf' runs receives =>
    have notCaller : p ≠ r := by
      rintro rfl
      rw [runs] at blocked
      cases blocked
    cases receives with
    | interrupt pending takes => exact .inl (by simpa using blocked)
    | take s sbuf quiet picks taken =>
      by_cases woken : p = s
      · subst woken
        rw [Mail.write_status, blocked] at taken
        cases taken
        exact .inr ⟨by simp, src, buf', rfl, picks⟩
      · exact .inl (by simpa [woken] using blocked)
    | wait quiet nobody => exact .inl (by simpa [notCaller] using blocked)
  | inform t informs =>
    cases informs with
    | wake src buf' waiting takes =>
      have notWoken : p ≠ t := by
        rintro rfl
        rw [blocked] at waiting
        cases waiting
      exact .inl (by simpa [notWoken] using blocked)
    | note busy => exact .inl (by simpa using blocked)
  | compute mem => exact .inl blocked

theorem sending_origin (step : Step fmt a act a') {p d : P} {buf : A}
    (blocked : a'.status p = .sending d buf) :
    a.status p = .sending d buf ∨ act = .send p d buf := by
  cases step with
  | send s d' buf' runs other sends =>
    cases sends with
    | deliver src rbuf waiting admits =>
      by_cases woken : p = d'
      · simp [woken] at blocked
      · exact .inl (by simpa [woken] using blocked)
    | enqueue busy =>
      by_cases caller : p = s
      · subst caller
        simp only [Mail.setStatus_status, Function.update_self, Status.sending.injEq] at blocked
        exact .inr (by rw [blocked.1, blocked.2])
      · exact .inl (by simpa [caller] using blocked)
  | receive r src buf' runs receives =>
    cases receives with
    | interrupt pending takes => exact .inl (by simpa using blocked)
    | take s sbuf quiet picks taken =>
      by_cases woken : p = s
      · simp [woken] at blocked
      · exact .inl (by simpa [woken] using blocked)
    | wait quiet nobody =>
      by_cases caller : p = r
      · simp [caller] at blocked
      · exact .inl (by simpa [caller] using blocked)
  | inform t informs =>
    cases informs with
    | wake src buf' waiting takes =>
      by_cases woken : p = t
      · simp [woken] at blocked
      · exact .inl (by simpa [woken] using blocked)
    | note busy => exact .inl (by simpa using blocked)
  | compute mem => exact .inl blocked

theorem receiving_origin (step : Step fmt a act a') {p : P} {src : Source P} {buf : A}
    (waits : a'.status p = .receiving src buf) :
    a.status p = .receiving src buf ∨ act = .receive p src buf := by
  cases step with
  | send s d' buf' runs other sends =>
    cases sends with
    | deliver src' rbuf waiting admits =>
      by_cases woken : p = d'
      · simp [woken] at waits
      · exact .inl (by simpa [woken] using waits)
    | enqueue busy =>
      by_cases caller : p = s
      · simp [caller] at waits
      · exact .inl (by simpa [caller] using waits)
  | receive r src' buf' runs receives =>
    cases receives with
    | interrupt pending takes => exact .inl (by simpa using waits)
    | take s sbuf quiet picks taken =>
      by_cases woken : p = s
      · simp [woken] at waits
      · exact .inl (by simpa [woken] using waits)
    | wait quiet nobody =>
      by_cases caller : p = r
      · subst caller
        simp only [Mail.setStatus_status, Function.update_self, Status.receiving.injEq] at waits
        exact .inr (by rw [waits.1, waits.2])
      · exact .inl (by simpa [caller] using waits)
  | inform t informs =>
    cases informs with
    | wake src' buf' waiting takes =>
      by_cases woken : p = t
      · simp [woken] at waits
      · exact .inl (by simpa [woken] using waits)
    | note busy => exact .inl (by simpa using waits)
  | compute mem => exact .inl waits

theorem absent_persists (step : Step fmt a act a') {p : P} (absent : a.status p = .absent) :
    a'.status p = .absent := by
  cases step with
  | send s d buf runs other sends => exact sends.absent_persists runs absent
  | receive r src buf runs receives => exact receives.absent_persists runs absent
  | inform t informs => exact informs.absent_persists absent
  | compute mem => exact absent

theorem queue_origin (step : Step fmt a act a') (d : P) :
    (a'.queue d).Sublist (a.queue d) ∨
      ∃ s buf, act = .send s d buf ∧ a'.queue d = a.queue d ++ [s] := by
  cases step with
  | send s d' buf runs other sends =>
    cases sends with
    | deliver src rbuf waiting admits => exact .inl (by simp)
    | enqueue busy =>
      by_cases here : d = d'
      · subst here
        exact .inr ⟨s, buf, rfl, by simp⟩
      · exact .inl (by simp [here])
  | receive r src buf runs receives =>
    cases receives with
    | interrupt pending takes => exact .inl (by simp)
    | take s sbuf quiet picks taken =>
      by_cases here : d = r
      · subst here
        exact .inl (by simpa using List.erase_sublist)
      · exact .inl (by simp [here])
    | wait quiet nobody => exact .inl (by simp)
  | inform t informs =>
    cases informs with
    | wake src buf waiting takes => exact .inl (by simp)
    | note busy => exact .inl (by simp)
  | compute mem => exact .inl (List.Sublist.refl _)

end Step

section Timeline

variable {run : Run Fresh (Step (P := P) (A := A) fmt)}

theorem run_wellFormed (run : Run Fresh (Step (P := P) (A := A) fmt)) :
    ∀ t, t ≤ run.length → WellFormed (run.state t) :=
  run.invariant (fun _ fresh => fresh.wellFormed) fun _ _ _ h step => step.wellFormed h

-- When each blocked process made the call it is blocked in.
structure Timeline (run : Run Fresh (Step (P := P) (A := A) fmt)) (issue : P → Nat) (t : Nat) :
    Prop where
  sending : ∀ p d buf, (run.state t).status p = .sending d buf →
    issue p < t ∧ run.act (issue p) = .send p d buf ∧
      run.HeldSince (fun a => a.status p = .sending d buf) (issue p) t
  receiving : ∀ p src buf, (run.state t).status p = .receiving src buf →
    issue p < t ∧ run.act (issue p) = .receive p src buf ∧
      run.HeldSince (fun a => a.status p = .receiving src buf) (issue p) t
  ordered : ∀ d, ((run.state t).queue d).Pairwise fun p q => issue p < issue q

def stampTime (issue : P → Nat) (act : Act P A) (t : Nat) : P → Nat :=
  match act.caller with
  | some c => Function.update issue c t
  | none => issue

omit [DecidableEq A] in
theorem stampTime_caller {issue : P → Nat} {act : Act P A} {t : Nat} {c : P}
    (calls : act.caller = some c) : stampTime issue act t c = t := by
  simp [stampTime, calls]

omit [DecidableEq A] in
theorem stampTime_other {issue : P → Nat} {act : Act P A} {t : Nat} {p : P}
    (other : act.caller ≠ some p) : stampTime issue act t p = issue p := by
  unfold stampTime
  cases calls : act.caller with
  | none => rfl
  | some c =>
    have : p ≠ c := by
      rintro rfl
      exact other calls
    simp [this]

theorem Timeline.step {issue : P → Nat} {t : Nat} (h : Timeline run issue t)
    (within : t < run.length) : Timeline run (stampTime issue (run.act t) t) (t + 1) := by
  have step := run.steps t within
  have wf := run_wellFormed run t (by omega)
  constructor
  case sending =>
    intro p d buf blocked
    rcases step.sending_origin blocked with before | call
    · have other : (run.act t).caller ≠ some p := by
        intro calls
        rw [step.caller_idle calls] at before
        cases before
      obtain ⟨earlier, call, held⟩ := h.sending p d buf before
      rw [stampTime_other other]
      exact ⟨by omega, call, Run.heldSince_succ held blocked⟩
    · have calls : (run.act t).caller = some p := by rw [call]; rfl
      rw [stampTime_caller calls]
      exact ⟨by omega, call, run.heldSince_self blocked⟩
  case receiving =>
    intro p src buf waits
    rcases step.receiving_origin waits with before | call
    · have other : (run.act t).caller ≠ some p := by
        intro calls
        rw [step.caller_idle calls] at before
        cases before
      obtain ⟨earlier, call, held⟩ := h.receiving p src buf before
      rw [stampTime_other other]
      exact ⟨by omega, call, Run.heldSince_succ held waits⟩
    · have calls : (run.act t).caller = some p := by rw [call]; rfl
      rw [stampTime_caller calls]
      exact ⟨by omega, call, run.heldSince_self waits⟩
  case ordered =>
    intro d
    have unstamped {p : P} (queued : p ∈ (run.state t).queue d) :
        stampTime issue (run.act t) t p = issue p ∧ issue p < t := by
      obtain ⟨buf, blocked⟩ := (wf.member d p).mp queued
      refine ⟨stampTime_other fun calls => ?_, (h.sending p d buf blocked).1⟩
      rw [step.caller_idle calls] at blocked
      cases blocked
    have old : ((run.state t).queue d).Pairwise fun p q =>
        stampTime issue (run.act t) t p < stampTime issue (run.act t) t q := by
      refine (h.ordered d).imp_of_mem ?_
      intro p q first second before
      rwa [(unstamped first).1, (unstamped second).1]
    rcases step.queue_origin d with shorter | ⟨s, buf, call, longer⟩
    · exact old.sublist shorter
    · have calls : (run.act t).caller = some s := by rw [call]; rfl
      rw [longer, List.pairwise_append]
      refine ⟨old, List.pairwise_singleton _ _, ?_⟩
      intro p queued q single
      rw [List.mem_singleton.mp single, stampTime_caller calls, (unstamped queued).1]
      exact (unstamped queued).2

theorem timeline_exists (run : Run Fresh (Step (P := P) (A := A) fmt)) :
    ∀ t, t ≤ run.length → ∃ issue, Timeline run issue t := by
  intro t
  induction t with
  | zero =>
    intro _
    refine ⟨fun _ => 0, ?_, ?_, ?_⟩
    · intro p d buf blocked
      rcases (run.start p).1 with idle | absent
      · rw [idle] at blocked
        cases blocked
      · rw [absent] at blocked
        cases blocked
    · intro p src buf waits
      rcases (run.start p).1 with idle | absent
      · rw [idle] at waits
        cases waits
      · rw [absent] at waits
        cases waits
    · intro d
      rw [(run.start d).2]
      exact List.Pairwise.nil
  | succ t ih =>
    intro within
    obtain ⟨issue, h⟩ := ih (by omega)
    exact ⟨_, h.step within⟩

end Timeline

-- Nobody but the kernel, for its owner, touches the buffer of a blocked sender.
structure Undisturbed (a : Mail P A M) (act : Act P A) (a' : Mail P A M) : Prop where
  stamped : ∀ p d buf, a.status p = .sending d buf → act.buffer ≠ some buf
  kept : ∀ p d buf, a.status p = .sending d buf → a'.status p = .sending d buf →
    a'.mem buf = a.mem buf

-- One step in which the message of `s` reaches `r`.
inductive Handover (fmt : Format P M) (a : Mail P A M) (act : Act P A) (a' : Mail P A M) (s r : P)
    (src : Source P) (sbuf rbuf : A) : Prop
  | direct (call : act = .send s r sbuf) (waiting : a.status r = .receiving src rbuf)
      (admits : src.Admits s) (content : a'.mem rbuf = fmt.stamp s (a.mem sbuf))
  | fetched (call : act = .receive r src rbuf) (blocked : a.status s = .sending r sbuf)
      (picks : Picks (a.queue r) src s) (content : a'.mem rbuf = a.mem sbuf)

omit [DecidableEq P] in
theorem Picks.unique {queue : List P} {src : Source P} {s s' : P} (first : Picks queue src s)
    (second : Picks queue src s') : s = s' := by
  cases first with
  | first s rest head =>
    cases second with
    | first s' rest' head' =>
      rw [head] at head'
      exact (List.cons.inj head').1
  | named s queued =>
    cases second with
    | named _ queued' => rfl

omit [DecidableEq P] [DecidableEq A] in
theorem Handover.admits {a a' : Mail P A M} {act : Act P A} {s r : P} {src : Source P}
    {sbuf rbuf : A} (handover : Handover fmt a act a' s r src sbuf rbuf) : src.Admits s := by
  cases handover with
  | direct call waiting admits content => exact admits
  | fetched call blocked picks content => exact picks.queued.2

omit [DecidableEq P] [DecidableEq A] in
theorem Handover.unique {a a' : Mail P A M} {act : Act P A} {s r s₂ r₂ : P} {src src₂ : Source P}
    {sbuf rbuf sbuf₂ rbuf₂ : A} (first : Handover fmt a act a' s r src sbuf rbuf)
    (second : Handover fmt a act a' s₂ r₂ src₂ sbuf₂ rbuf₂) :
    s = s₂ ∧ r = r₂ ∧ src = src₂ ∧ sbuf = sbuf₂ ∧ rbuf = rbuf₂ := by
  cases first with
  | direct call waiting admits content =>
    cases second with
    | direct call₂ waiting₂ admits₂ content₂ =>
      cases call.symm.trans call₂
      cases waiting.symm.trans waiting₂
      exact ⟨rfl, rfl, rfl, rfl, rfl⟩
    | fetched call₂ blocked₂ picks₂ content₂ => cases call.symm.trans call₂
  | fetched call blocked picks content =>
    cases second with
    | direct call₂ waiting₂ admits₂ content₂ => cases call.symm.trans call₂
    | fetched call₂ blocked₂ picks₂ content₂ =>
      cases call.symm.trans call₂
      cases picks.unique picks₂
      cases blocked.symm.trans blocked₂
      exact ⟨rfl, rfl, rfl, rfl, rfl⟩

namespace Step

variable {a a' : Mail P A M} {act : Act P A}

theorem send_done (step : Step fmt a act a') (calm : Undisturbed a act a') {s d : P} {sbuf : A}
    (active : a.status s = .sending d sbuf ∨ act = .send s d sbuf) (done : a'.status s = .idle) :
    ∃ src rbuf, Handover fmt a act a' s d src sbuf rbuf ∧ a'.status d = .idle := by
  rcases active with blocked | call
  · cases step with
    | send s' d' buf runs other sends =>
      have notCaller : s ≠ s' := by
        rintro rfl
        rw [runs] at blocked
        cases blocked
      cases sends with
      | deliver src rbuf waiting admits =>
        have notWoken : s ≠ d' := by
          rintro rfl
          rw [Mail.write_status, blocked] at waiting
          cases waiting
        simp [notWoken, blocked] at done
      | enqueue busy => simp [notCaller, blocked] at done
    | receive r src buf runs receives =>
      have notCaller : s ≠ r := by
        rintro rfl
        rw [runs] at blocked
        cases blocked
      cases receives with
      | interrupt pending takes => simp [blocked] at done
      | take s' sbuf' quiet picks taken =>
        by_cases woken : s = s'
        · subst woken
          rw [Mail.write_status, blocked] at taken
          cases taken
          have apart : sbuf ≠ buf := by
            rintro rfl
            exact calm.stamped s _ sbuf blocked rfl
          refine ⟨src, buf, .fetched rfl blocked picks (by simp [apart]), ?_⟩
          simpa [Ne.symm notCaller] using runs
        · simp [woken, blocked] at done
      | wait quiet nobody => simp [notCaller, blocked] at done
    | inform t informs =>
      cases informs with
      | wake src buf waiting takes =>
        have notWoken : s ≠ t := by
          rintro rfl
          rw [blocked] at waiting
          cases waiting
        simp [notWoken, blocked] at done
      | note busy => simp [blocked] at done
    | compute mem => simp [blocked] at done
  · subst call
    cases step with
    | send _ _ _ runs other sends =>
      cases sends with
      | deliver src rbuf waiting admits =>
        exact ⟨src, rbuf, .direct rfl waiting admits (by simp), by simp⟩
      | enqueue busy => simp at done

theorem receive_done (step : Step fmt a act a') (calm : Undisturbed a act a') {r : P}
    {src : Source P} {rbuf : A}
    (active : a.status r = .receiving src rbuf ∨ act = .receive r src rbuf)
    (done : a'.status r = .idle) :
    (∃ s sbuf, Handover fmt a act a' s r src sbuf rbuf ∧ a'.status s = .idle) ∨
      src.AdmitsInt ∧ (a'.mem rbuf = fmt.notice ∨ ∃ m, a'.mem rbuf = fmt.mark m) := by
  rcases active with waits | call
  · cases step with
    | send s d buf runs other sends =>
      have notCaller : r ≠ s := by
        rintro rfl
        rw [runs] at waits
        cases waits
      cases sends with
      | deliver src' rbuf' waiting admits =>
        by_cases woken : r = d
        · subst woken
          rw [Mail.write_status, waits] at waiting
          cases waiting
          refine .inl ⟨s, buf, .direct rfl waits admits (by simp), ?_⟩
          simpa [other] using runs
        · simp [woken, waits] at done
      | enqueue busy => simp [notCaller, waits] at done
    | receive r' src' buf runs receives =>
      have notCaller : r ≠ r' := by
        rintro rfl
        rw [runs] at waits
        cases waits
      cases receives with
      | interrupt pending takes => simp [waits] at done
      | take s sbuf quiet picks taken =>
        have notTaken : r ≠ s := by
          rintro rfl
          rw [Mail.write_status, waits] at taken
          cases taken
        simp [notTaken, waits] at done
      | wait quiet nobody => simp [notCaller, waits] at done
    | inform t informs =>
      cases informs with
      | wake src' buf waiting takes =>
        by_cases woken : r = t
        · subst woken
          rw [waits] at waiting
          cases waiting
          exact .inr ⟨takes, .inr ⟨a.mem rbuf, by simp⟩⟩
        · simp [woken, waits] at done
      | note busy => simp [waits] at done
    | compute mem => simp [waits] at done
  · subst call
    cases step with
    | receive _ _ _ runs receives =>
      cases receives with
      | interrupt pending takes => exact .inr ⟨takes, .inl (by simp)⟩
      | take s sbuf quiet picks taken =>
        have apart : sbuf ≠ rbuf := by
          rintro rfl
          exact calm.stamped s r sbuf taken rfl
        exact .inl ⟨s, sbuf, .fetched rfl taken picks (by simp [apart]), by simp⟩
      | wait quiet nobody => simp at done

theorem send_blocks (step : Step fmt a act a') {s d : P} {sbuf : A} (call : act = .send s d sbuf)
    (blocked : a'.status s = .sending d sbuf) : a'.mem sbuf = fmt.stamp s (a.mem sbuf) := by
  subst call
  cases step with
  | send _ _ _ runs other sends =>
    cases sends with
    | deliver src rbuf waiting admits => simp [runs, other] at blocked
    | enqueue busy => simp

theorem call_status (step : Step fmt a act a') {p : P} (calls : act.caller = some p) :
    a'.status p = .idle ∨ (∃ d buf, act = .send p d buf ∧ a'.status p = .sending d buf) ∨
      ∃ src buf, act = .receive p src buf ∧ a'.status p = .receiving src buf := by
  cases step with
  | send s d buf runs other sends =>
    cases calls
    cases sends with
    | deliver src rbuf waiting admits => exact .inl (by simp [runs, other])
    | enqueue busy => exact .inr (.inl ⟨d, buf, rfl, by simp⟩)
  | receive r src buf runs receives =>
    cases calls
    cases receives with
    | interrupt pending takes => exact .inl (by simp [runs])
    | take s sbuf quiet picks taken =>
      have other : p ≠ s := by
        rintro rfl
        rw [Mail.write_status, runs] at taken
        cases taken
      exact .inl (by simp [runs, other])
    | wait quiet nobody => exact .inr (.inr ⟨src, buf, rfl, by simp⟩)
  | inform t informs => cases calls
  | compute mem => cases calls

theorem receiving_persists (step : Step fmt a act a') {p : P} {src : Source P} {buf : A}
    (waits : a.status p = .receiving src buf) :
    a'.status p = .receiving src buf ∨ a'.status p = .idle := by
  cases step with
  | send s d buf' runs other sends =>
    have notCaller : p ≠ s := by
      rintro rfl
      rw [runs] at waits
      cases waits
    cases sends with
    | deliver src' rbuf waiting admits =>
      by_cases woken : p = d
      · exact .inr (by simp [woken])
      · exact .inl (by simpa [woken] using waits)
    | enqueue busy => exact .inl (by simpa [notCaller] using waits)
  | receive r src' buf' runs receives =>
    have notCaller : p ≠ r := by
      rintro rfl
      rw [runs] at waits
      cases waits
    cases receives with
    | interrupt pending takes => exact .inl (by simpa using waits)
    | take s sbuf quiet picks taken =>
      have notTaken : p ≠ s := by
        rintro rfl
        rw [Mail.write_status, waits] at taken
        cases taken
      exact .inl (by simpa [notTaken] using waits)
    | wait quiet nobody => exact .inl (by simpa [notCaller] using waits)
  | inform t informs =>
    cases informs with
    | wake src' buf' waiting takes =>
      by_cases woken : p = t
      · exact .inr (by simp [woken])
      · exact .inl (by simpa [woken] using waits)
    | note busy => exact .inl (by simpa using waits)
  | compute mem => exact .inl waits

end Step

section Completion

variable (run : Run Fresh (Step (P := P) (A := A) fmt))

-- The call that `p` makes in step `i` returns in step `j`.
structure Completes (p : P) (i j : Nat) : Prop where
  ordered : i ≤ j
  within : j < run.length
  blocked : run.HeldSince (fun a => a.status p ≠ .idle) i j
  done : (run.state (j + 1)).status p = .idle

variable {run}

theorem blocked_sending {s d : P} {sbuf : A} {i t : Nat} (call : run.act i = .send s d sbuf)
    (later : i < t) (within : t ≤ run.length)
    (blocked : run.HeldSince (fun a => a.status s ≠ .idle) i t) :
    (run.state t).status s = .sending d sbuf := by
  induction t with
  | zero => omega
  | succ t ih =>
    have now := blocked (t + 1) later (le_refl _)
    have step := run.steps t (by omega)
    by_cases first : i = t
    · subst first
      rcases step.call_status (by rw [call]; rfl) with idle | ⟨d', buf', call', status⟩ |
        ⟨src, buf', call', status⟩
      · exact absurd idle now
      · cases call.symm.trans call'
        exact status
      · cases call.symm.trans call'
    · have before := ih (by omega) (by omega) fun u after upTo => blocked u after (by omega)
      rcases step.sending_persists before with still | ⟨idle, -⟩
      · exact still
      · exact absurd idle now

theorem blocked_receiving {r : P} {src : Source P} {rbuf : A} {i t : Nat}
    (call : run.act i = .receive r src rbuf) (later : i < t) (within : t ≤ run.length)
    (blocked : run.HeldSince (fun a => a.status r ≠ .idle) i t) :
    (run.state t).status r = .receiving src rbuf := by
  induction t with
  | zero => omega
  | succ t ih =>
    have now := blocked (t + 1) later (le_refl _)
    have step := run.steps t (by omega)
    by_cases first : i = t
    · subst first
      rcases step.call_status (by rw [call]; rfl) with idle | ⟨d, buf', call', status⟩ |
        ⟨src', buf', call', status⟩
      · exact absurd idle now
      · cases call.symm.trans call'
      · cases call.symm.trans call'
        exact status
    · have before := ih (by omega) (by omega) fun u after upTo => blocked u after (by omega)
      rcases step.receiving_persists before with still | idle
      · exact still
      · exact absurd idle now

theorem blocked_content {s d : P} {sbuf : A} {i t : Nat} (call : run.act i = .send s d sbuf)
    (later : i < t) (within : t ≤ run.length)
    (blocked : run.HeldSince (fun a => a.status s = .sending d sbuf) i t)
    (calm : ∀ u, u < run.length → Undisturbed (run.state u) (run.act u) (run.state (u + 1))) :
    (run.state t).mem sbuf = fmt.stamp s ((run.state i).mem sbuf) := by
  induction t with
  | zero => omega
  | succ t ih =>
    have now := blocked (t + 1) later (le_refl _)
    by_cases first : i = t
    · subst first
      exact (run.steps i (by omega)).send_blocks call now
    · have before := blocked t (by omega) (by omega)
      rw [(calm t (by omega)).kept s d sbuf before now]
      exact ih (by omega) (by omega) fun u after upTo => blocked u after (by omega)

-- Every handover ends one SEND and one RECEIVE.
theorem Handover.send_completes {s r : P} {src : Source P} {sbuf rbuf : A} {j : Nat}
    (within : j < run.length)
    (handover : Handover fmt (run.state j) (run.act j) (run.state (j + 1)) s r src sbuf rbuf)
    (done : (run.state (j + 1)).status s = .idle)
    (calm : ∀ u, u < run.length → Undisturbed (run.state u) (run.act u) (run.state (u + 1))) :
    ∃ i, run.act i = .send s r sbuf ∧ Completes run s i j ∧
      (run.state (j + 1)).mem rbuf = fmt.stamp s ((run.state i).mem sbuf) := by
  cases handover with
  | direct call waiting admits content =>
    refine ⟨j, call, ⟨le_refl j, within, fun u after before => ?_, done⟩, content⟩
    omega
  | fetched call blocked picks content =>
    obtain ⟨issue, timeline⟩ := timeline_exists run j (by omega)
    obtain ⟨earlier, made, held⟩ := timeline.sending s r sbuf blocked
    refine ⟨issue s, made, ⟨by omega, within, fun u after before => ?_, done⟩, ?_⟩
    · have still : (run.state u).status s = .sending r sbuf := held u after before
      simp [still]
    · rw [content]
      exact blocked_content made earlier (by omega) held calm

theorem Handover.receive_completes {s r : P} {src : Source P} {sbuf rbuf : A} {j : Nat}
    (within : j < run.length)
    (handover : Handover fmt (run.state j) (run.act j) (run.state (j + 1)) s r src sbuf rbuf)
    (done : (run.state (j + 1)).status r = .idle) :
    ∃ i, run.act i = .receive r src rbuf ∧ Completes run r i j := by
  cases handover with
  | direct call waiting admits content =>
    obtain ⟨issue, timeline⟩ := timeline_exists run j (by omega)
    obtain ⟨earlier, made, held⟩ := timeline.receiving r src rbuf waiting
    refine ⟨issue r, made, ⟨by omega, within, fun u after before => ?_, done⟩⟩
    have still : (run.state u).status r = .receiving src rbuf := held u after before
    simp [still]
  | fetched call blocked picks content =>
    refine ⟨j, call, ⟨le_refl j, within, fun u after before => ?_, done⟩⟩
    omega

theorem Completes.send_handover {s d : P} {sbuf : A} {i j : Nat}
    (call : run.act i = .send s d sbuf) (h : Completes run s i j)
    (calm : Undisturbed (run.state j) (run.act j) (run.state (j + 1))) :
    ∃ src rbuf,
      Handover fmt (run.state j) (run.act j) (run.state (j + 1)) s d src sbuf rbuf ∧
        (run.state (j + 1)).status d = .idle := by
  apply (run.steps j h.within).send_done calm _ h.done
  by_cases atOnce : i = j
  · exact .inr (atOnce ▸ call)
  · have := h.ordered
    have := h.within
    exact .inl (blocked_sending call (by omega) (by omega) h.blocked)

theorem Completes.receive_handover {r : P} {src : Source P} {rbuf : A} {i j : Nat}
    (call : run.act i = .receive r src rbuf) (h : Completes run r i j)
    (calm : Undisturbed (run.state j) (run.act j) (run.state (j + 1))) :
    (∃ s sbuf, Handover fmt (run.state j) (run.act j) (run.state (j + 1)) s r src sbuf rbuf ∧
        (run.state (j + 1)).status s = .idle) ∨
      src.AdmitsInt ∧ ((run.state (j + 1)).mem rbuf = fmt.notice ∨
        ∃ m, (run.state (j + 1)).mem rbuf = fmt.mark m) := by
  apply (run.steps j h.within).receive_done calm _ h.done
  by_cases atOnce : i = j
  · exact .inr (atOnce ▸ call)
  · have := h.ordered
    have := h.within
    exact .inl (blocked_receiving call (by omega) (by omega) h.blocked)

theorem call_unique {p : P} {i i' t : Nat} (first : (run.act i).caller = some p)
    (second : (run.act i').caller = some p) (bound : i ≤ t) (bound' : i' ≤ t)
    (within : t < run.length) (held : run.HeldSince (fun a => a.status p ≠ .idle) i t)
    (held' : run.HeldSince (fun a => a.status p ≠ .idle) i' t) : i = i' := by
  rcases Nat.lt_trichotomy i i' with before | same | after
  · exact absurd ((run.steps i' (by omega)).caller_idle second) (held i' before bound')
  · exact same
  · exact absurd ((run.steps i (by omega)).caller_idle first) (held' i after bound)

theorem Completes.unique {p : P} {i i' j : Nat} (first : (run.act i).caller = some p)
    (second : (run.act i').caller = some p) (h : Completes run p i j)
    (h' : Completes run p i' j) : i = i' :=
  call_unique first second h.ordered h'.ordered h.within h.blocked h'.blocked

theorem completes_before {p : P} {i t : Nat} (later : i < t) (within : t ≤ run.length)
    (blocks : (run.state (i + 1)).status p ≠ .idle)
    (returned : ¬ run.HeldSince (fun a => a.status p ≠ .idle) i t) :
    ∃ j, i < j ∧ j < t ∧ Completes run p i j := by
  induction t with
  | zero => omega
  | succ t ih =>
    by_cases held : run.HeldSince (fun a => a.status p ≠ .idle) i t
    · have done : (run.state (t + 1)).status p = .idle := by
        by_contra still
        exact returned (Run.heldSince_succ held still)
      have notFirst : i ≠ t := by
        rintro rfl
        exact blocks done
      exact ⟨t, by omega, by omega, by omega, within, held, done⟩
    · have notFirst : i ≠ t := by
        rintro rfl
        exact held fun u after before => by omega
      obtain ⟨j, after, before, completes⟩ := ih (by omega) (by omega) held
      exact ⟨j, after, by omega, completes⟩

/--
A RECEIVE from anybody takes the sender that has been blocked for the longest time: every SEND to
the same receiver that blocked before has already completed.
-/
theorem fetched_first {s r p : P} {sbuf pbuf : A} {i i' j : Nat} (within : j < run.length)
    (fetched : (run.state j).status s = .sending r sbuf)
    (picks : Picks ((run.state j).queue r) .any s) (sent : run.act i = .send s r sbuf)
    (waited : i < j) (held : run.HeldSince (fun a => a.status s ≠ .idle) i j)
    (sent' : run.act i' = .send p r pbuf) (before : i' < i)
    (blocks : (run.state (i' + 1)).status p ≠ .idle) :
    ∃ j', i' < j' ∧ j' < j ∧ Completes run p i' j' := by
  apply completes_before (by omega) (by omega) blocks
  intro held'
  have blocked' := blocked_sending sent' (by omega) (by omega) held'
  obtain ⟨issue, timeline⟩ := timeline_exists run j (by omega)
  have wf := run_wellFormed run j (by omega)
  have issued {q : P} {qbuf : A} {k : Nat} (call : run.act k = .send q r qbuf) (early : k ≤ j)
      (status : (run.state j).status q = .sending r qbuf)
      (waits : run.HeldSince (fun a => a.status q ≠ .idle) k j) : issue q = k := by
    obtain ⟨earlier, made, still⟩ := timeline.sending q r qbuf status
    refine call_unique (by rw [made]; rfl) (by rw [call]; rfl) (by omega) early within ?_ waits
    intro u after upTo
    have now : (run.state u).status q = .sending r qbuf := still u after upTo
    simp [now]
  have order := timeline.ordered r
  cases picks with
  | first s rest head =>
    have queued : p ∈ s :: rest := by
      rw [← head]
      exact (wf.member r p).mpr ⟨pbuf, blocked'⟩
    rw [head, List.pairwise_cons] at order
    have first := issued sent (by omega) fetched held
    have second := issued sent' (by omega) blocked' held'
    rcases List.mem_cons.mp queued with rfl | behind
    · omega
    · have := order.1 p behind
      omega

end Completion

end Rendezvous
