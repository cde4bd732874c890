import Konix.Servers.Safety

set_option autoImplicit false

namespace Konix.Servers

open Kernel

section Thinking

variable {s t : System} {p : Int}

-- A process that computes makes no debts and pays none; it changes its next call only.
theorem debts_think (debts : ∀ e c, Owes s e c → s.call c = some (.receive e))
    (idle : s.call p = none) (others : ∀ q, q ≠ p → t.call q = s.call q)
    (owes : ∀ e c, Owes t e c → Owes s e c) (e c : Int) (after : Owes t e c) :
    t.call c = some (.receive e) := by
  have before := debts e c (owes e c after)
  have other : c ≠ p := by
    rintro rfl
    rw [idle] at before
    cases before
  rw [others c other]
  exact before

theorem Family.think (h : Family s) (idle : s.call p = none)
    (present : IsUser p → (s.kernel.procTable p).pFlags.freeSlot = false)
    (others : ∀ q, q ≠ p → t.call q = s.call q) (kernel : t.kernel = s.kernel) (mm : t.mm = s.mm) :
    Family t := by
  constructor
  case alive =>
    rw [mm, kernel]
    exact h.alive
  case dying =>
    rw [mm, kernel]
    exact h.dying
  case parked =>
    intro c flag
    rw [kernel] at flag
    have waiting := h.parked c flag
    have other : c ≠ p := by
      rintro rfl
      rw [idle] at waiting
      cases waiting
    rw [others c other]
    exact waiting
  case either =>
    rw [kernel]
    exact h.either
  case free =>
    intro c isUser flag
    rw [kernel] at flag
    have other : c ≠ p := by
      rintro rfl
      rw [present isUser] at flag
      cases flag
    rw [others c other]
    exact h.free c isUser flag
  case parent =>
    rw [mm, kernel]
    exact h.parent

theorem Wired.think (h : Wired s) (idle : s.call p = none)
    (others : ∀ q, q ≠ p → t.call q = s.call q) (kernel : t.kernel = s.kernel) : Wired t := by
  constructor
  case sending =>
    intro q flag
    rw [kernel] at flag ⊢
    obtain ⟨m, sends⟩ := h.sending q flag
    have other : q ≠ p := by
      rintro rfl
      rw [idle] at sends
      cases sends
    exact ⟨m, (others q other).trans sends⟩
  case receiving =>
    intro q flag
    rw [kernel] at flag ⊢
    have waits := h.receiving q flag
    have other : q ≠ p := by
      rintro rfl
      rw [idle] at waits
      cases waits
    exact (others q other).trans waits

theorem Safe.thinkUser (safe : Safe s) (isUser : IsUser p) (runs : s.user p = .run)
    (flags : (s.kernel.procTable p).pFlags = .clear) (user : User) :
    Safe { s with user := Function.update s.user p user } := by
  have idle : s.call p = none := by
    rw [call_user _ isUser, runs]
    rfl
  have others (q : Int) (other : q ≠ p) :
      ({ s with user := Function.update s.user p user } : System).call q = s.call q :=
    call_congr (s := s) (t := { s with user := Function.update s.user p user }) p
      (fun q' other' => Function.update_of_ne other' _ _) (fun _ => rfl) (fun _ => rfl)
      (fun _ => rfl) (fun _ => ⟨rfl, rfl⟩) (fun _ => rfl) other
  have owes (e c : Int) (after : Owes { s with user := Function.update s.user p user } e c) :
      Owes s e c :=
    after.before id (fun _ reads => ⟨reads, rfl⟩) (fun _ => id) id id id
  constructor
  case toCustody =>
    exact ⟨debts_think safe.debts idle others owes, safe.readers, safe.apart, safe.reading,
      safe.asked, safe.once⟩
  case toFamily =>
    refine safe.toFamily.think idle (fun _ => ?_) others rfl rfl
    rw [flags]
    rfl
  case toWired => exact safe.toWired.think idle others rfl

theorem Safe.thinkFs (safe : Safe s) {fs : Fs} (idle : s.call taskFs = none)
    (client : ∀ c, fs.client = some c → s.fs.client = some c)
    (noWait : ∀ src type, fs ≠ .ttyWait src type) : Safe { s with fs := fs } := by
  have others (q : Int) (other : q ≠ taskFs) : ({ s with fs := fs } : System).call q = s.call q :=
    call_congr (s := s) (t := { s with fs := fs }) taskFs (fun _ _ => rfl)
      (fun same => absurd rfl same) (fun _ => rfl)
      (fun _ => rfl) (fun _ => ⟨rfl, rfl⟩) (fun _ => rfl) other
  have owes (e c : Int) (after : Owes { s with fs := fs } e c) : Owes s e c :=
    after.before (client c) (fun _ reads => ⟨reads, rfl⟩) (fun _ => id) id id id
  constructor
  case toCustody =>
    refine ⟨debts_think safe.debts idle others owes, safe.readers, safe.apart, ?_, ?_, safe.once⟩
    · intro i reads isClient
      obtain ⟨⟨src, waiting⟩, -⟩ := safe.reading i reads (client _ isClient)
      rw [call_fs, waiting] at idle
      cases idle
    · intro src type waiting
      exact absurd waiting (noWait src type)
  case toFamily =>
    exact safe.toFamily.think idle (fun isUser => absurd rfl isUser.2.2.2.1) others rfl rfl
  case toWired => exact safe.toWired.think idle others rfl

theorem Safe.thinkHd (safe : Safe s) {hd : Hd} (idle : s.call taskHd = none)
    (client : ∀ c, hd.client = some c → s.hd.client = some c) : Safe { s with hd := hd } := by
  have others (q : Int) (other : q ≠ taskHd) : ({ s with hd := hd } : System).call q = s.call q :=
    call_congr (s := s) (t := { s with hd := hd }) taskHd (fun _ _ => rfl) (fun _ => rfl)
      (fun _ => rfl)
      (fun same => absurd rfl same) (fun _ => ⟨rfl, rfl⟩) (fun _ => rfl) other
  have owes (e c : Int) (after : Owes { s with hd := hd } e c) : Owes s e c :=
    after.before id (fun _ reads => ⟨reads, rfl⟩) (fun _ => id) (client c) id id
  constructor
  case toCustody =>
    exact ⟨debts_think safe.debts idle others owes, safe.readers, safe.apart, safe.reading,
      safe.asked, safe.once⟩
  case toFamily =>
    exact safe.toFamily.think idle (fun isUser => absurd rfl isUser.2.2.1) others rfl rfl
  case toWired => exact safe.toWired.think idle others rfl

theorem Safe.thinkTty (safe : Safe s) (polls : s.tty = .poll)
    (reads : ∀ i, t.Reads i → s.Reads i)
    (lines : ∀ i, (t.lines i).caller = (s.lines i).caller ∧ (t.lines i).procnr = (s.lines i).procnr)
    (client : t.tty.client = none)
    (rest : t = { s with tty := t.tty, lines := t.lines }) : Safe t := by
  have idle : s.call taskTty = none := by
    rw [call_tty, polls]
    rfl
  have fs : t.fs = s.fs := by rw [rest]
  have mm : t.mm = s.mm := by rw [rest]
  have others (q : Int) (other : q ≠ taskTty) : t.call q = s.call q := by
    rw [rest]
    exact call_congr (s := s) (t := { s with tty := t.tty, lines := t.lines }) taskTty
      (fun _ _ => rfl) (fun _ => rfl) (fun _ => rfl) (fun _ => rfl)
      (fun same => absurd rfl same) (fun _ => rfl) other
  have owes (e c : Int) (after : Owes t e c) : Owes s e c := by
    refine after.before ?_ (fun i reads' => ⟨reads i reads', (lines i).2⟩) ?_ ?_ ?_ ?_
    · rw [fs]
      exact id
    · rw [mm]
      exact fun _ => id
    · rw [rest]
      exact id
    · rw [client]
      exact nofun
    · rw [rest]
      exact id
  constructor
  case toCustody =>
    refine ⟨debts_think safe.debts idle others owes, ?_, ?_, ?_, ?_, ?_⟩
    · intro i after
      rw [(lines i).1]
      exact safe.readers i (reads i after)
    · intro i j first second same
      rw [(lines i).2, (lines j).2] at same
      exact safe.apart i j (reads i first) (reads j second) same
    · intro i after isClient
      rw [fs, (lines i).2] at isClient
      obtain ⟨-, dest, m, answers, -⟩ := safe.reading i (reads i after) isClient
      rw [polls] at answers
      cases answers
    · intro src type waiting
      rw [fs] at waiting
      obtain ⟨m, answers⟩ := safe.asked src type waiting
      rw [polls] at answers
      cases answers
    · rw [mm]
      exact safe.once
  case toFamily =>
    exact safe.toFamily.think idle (fun isUser => absurd rfl isUser.1) others (by rw [rest]) mm
  case toWired => exact safe.toWired.think idle others (by rw [rest])

theorem Line.put_caller (line : Line) (key : Key) :
    (line.put key).caller = line.caller ∧ (line.put key).procnr = line.procnr := by
  unfold Line.put
  split
  · exact ⟨rfl, rfl⟩
  · cases key with
    | backspace =>
      simp only
      split <;> exact ⟨rfl, rfl⟩
    | _ => exact ⟨rfl, rfl⟩

theorem Line.put_leftCnt {line : Line} {key : Key} (left : (line.put key).leftCnt ≠ 0) :
    line.leftCnt ≠ 0 := by
  intro none_
  simp [Line.put, none_] at left

theorem Safe.ttyKey (safe : Safe s) (polls : s.tty = .poll) (device : Int) (key : Key) :
    Safe { s with
      lines := Function.update s.lines device ((s.lines device).put key)
      tty := if (s.lines device).ends key then .resume device else .poll } := by
  refine safe.thinkTty polls ?_ ?_ ?_ rfl
  · intro i reads
    refine .inl ?_
    by_cases same : i = device
    · subst same
      rcases reads with left | resumes
      · simp only [Function.update_self] at left
        exact Line.put_leftCnt left
      · by_cases ends : (s.lines i).ends key = true
        · simp only [Line.ends, decide_eq_true_eq] at ends
          exact ends.1
        · simp only [ends] at resumes
          cases resumes
    · rcases reads with left | resumes
      · simpa only [Function.update_of_ne same, ne_eq] using left
      · by_cases ends : (s.lines device).ends key = true
        · simp only [ends, if_true, Tty.resume.injEq] at resumes
          exact absurd resumes.symm same
        · simp only [ends] at resumes
          cases resumes
  · intro i
    by_cases same : i = device
    · subst same
      simp only [Function.update_self]
      exact Line.put_caller _ key
    · simp only [Function.update_of_ne same, and_self]
  · simp only
    split <;> rfl

theorem call_mm_other (mm : Mm) (k' : State) {q : Int} (other : q ≠ taskMm) :
    ({ s with kernel := k', mm := mm } : System).call q = s.call q :=
  call_congr (s := s) (t := { s with kernel := k', mm := mm }) taskMm (fun _ _ => rfl)
    (fun _ => rfl) (fun same => absurd rfl same) (fun _ => rfl) (fun _ => ⟨rfl, rfl⟩) (fun _ => rfl)
    other

/--
MM has done something with flags and parents: whoever waits or hangs now did so before or is a
client of MM, and its callers are alive.
-/
theorem Safe.thinkMm (safe : Safe s) (idle : s.call taskMm = none) {k' : State} {mm : Mm}
    (wires : k'.wire = s.kernel.wire)
    (clients : ∀ c ∈ mm.clients, s.call c = some (.receive taskMm)) (once : mm.clients.Nodup)
    (waiting : ∀ p, (k'.procTable p).pFlags.waiting = true →
      (s.kernel.procTable p).pFlags.waiting = true ∨
        s.call p = some (.receive taskMm) ∧ (k'.procTable p).pFlags.hanging = false)
    (hanging : ∀ p, (k'.procTable p).pFlags.hanging = true →
      (s.kernel.procTable p).pFlags.hanging = true ∨
        s.call p = some (.receive taskMm) ∧ (k'.procTable p).pFlags.waiting = false)
    (free : ∀ p, (k'.procTable p).pFlags.freeSlot = (s.kernel.procTable p).pFlags.freeSlot)
    (alive : ∀ p ∈ mm.callers, Mm.Alive k' p)
    (dying : ∀ p ∈ mm.dying, (k'.procTable p).pFlags.waiting = false)
    (parent : ∀ pid parentPid status, mm = .exitTell pid parentPid status ∨
      mm = .exitWait pid parentPid status ∨ mm = .leave pid parentPid status →
      (k'.procTable pid).pParent = parentPid) :
    Safe { s with kernel := k', mm := mm } := by
  have notMm {q : Int} {call : Call} (calls : s.call q = some call) : q ≠ taskMm := by
    rintro rfl
    rw [idle] at calls
    cases calls
  constructor
  case toCustody =>
    refine ⟨?_, safe.readers, safe.apart, safe.reading, safe.asked, once⟩
    intro e c owes
    have before : s.call c = some (.receive e) := by
      by_cases isMm : e = taskMm
      · subst isMm
        exact clients c (owes_mm owes)
      · exact safe.debts e c (owes.before id (fun _ reads => ⟨reads, rfl⟩)
          (fun same => absurd same isMm) id id id)
    rw [call_mm_other _ _ (notMm before)]
    exact before
  case toFamily =>
    have parked {p : Int} (flag : (k'.procTable p).pFlags.waiting = true ∨
        (k'.procTable p).pFlags.hanging = true) : s.call p = some (.receive taskMm) := by
      rcases flag with flag | flag
      · obtain before | ⟨calls, -⟩ := waiting p flag
        · exact safe.parked p (.inl before)
        · exact calls
      · obtain before | ⟨calls, -⟩ := hanging p flag
        · exact safe.parked p (.inr before)
        · exact calls
    refine ⟨alive, dying, ?_, ?_, ?_, parent⟩
    · intro p flag
      rw [call_mm_other _ _ (notMm (parked flag))]
      exact parked flag
    · intro p flag
      refine Bool.eq_false_iff.mpr fun both => ?_
      obtain waited | ⟨-, noHang⟩ := waiting p flag
      · obtain hung | ⟨-, noWait⟩ := hanging p both
        · rw [safe.either p waited] at hung
          cases hung
        · rw [flag] at noWait
          cases noWait
      · rw [both] at noHang
        cases noHang
    · intro p isUser flag
      rw [free] at flag
      rw [call_mm_other _ _ isUser.2.2.2.2]
      exact safe.free p isUser flag
  case toWired =>
    constructor
    · intro q flag
      have flag' : (k'.wire q).sending = true := flag
      rw [wires] at flag'
      obtain ⟨m, sends⟩ := safe.sending q flag'
      refine ⟨m, ?_⟩
      rw [call_mm_other _ _ (notMm sends), wires]
      exact sends
    · intro q flag
      have flag' : (k'.wire q).receiving = true := flag
      rw [wires] at flag'
      have waits := safe.receiving q flag'
      rw [call_mm_other _ _ (notMm waits), wires]
      exact waits

theorem user_of_awaits_mm (waits : s.call p = some (.receive taskMm)) : IsUser p := by
  rcases party p with rfl | rfl | rfl | rfl | rfl | isUser
  · exact absurd (tty_awaits waits) (by decide)
  · exact absurd (sys_awaits waits) (by decide)
  · rcases hd_awaits waits with same | same | same <;> exact absurd same (by decide)
  · exact absurd waits not_fs_awaits_mm
  · rcases mm_awaits waits with same | same <;> exact absurd same (by decide)
  · exact isUser

theorem Safe.present (safe : Safe s) (waits : s.call p = some (.receive taskMm)) :
    (s.kernel.procTable p).pFlags.freeSlot = false := by
  refine Bool.eq_false_iff.mpr fun free => ?_
  rw [safe.free p (user_of_awaits_mm waits) free] at waits
  cases waits

theorem Safe.mm_client (safe : Safe s) (client : p ∈ s.mm.clients) :
    s.call p = some (.receive taskMm) := safe.debts _ _ (.mm client)

theorem Safe.mmTurns (safe : Safe s) (idle : s.call taskMm = none) {mm : Mm}
    (callers : ∀ c ∈ mm.callers, c ∈ s.mm.callers) (dying : mm.dying = [])
    (once : mm.callers.Nodup)
    (parent : ∀ pid parentPid status, mm = .exitTell pid parentPid status ∨
      mm = .exitWait pid parentPid status ∨ mm = .leave pid parentPid status →
      (s.kernel.procTable pid).pParent = parentPid) : Safe { s with mm := mm } := by
  refine safe.thinkMm idle rfl ?_ ?_ (fun p flag => .inl flag)
    (fun p flag => .inl flag) (fun _ => rfl) ?_ ?_ parent
  · intro c client
    rw [Mm.clients, dying, List.append_nil] at client
    exact safe.mm_client (List.mem_append_left _ (callers c client))
  · rwa [Mm.clients, dying, List.append_nil]
  · exact fun p caller => safe.alive p (callers p caller)
  · rw [dying]
    exact List.forall_mem_nil _

/--
`cleanup()` of `proc` for `parent`: somebody who waited for its children, and a child that has made
its last call.
-/
theorem Safe.collects (safe : Safe s) (idle : s.call taskMm = none) {parent proc pid : Int}
    {k' : State} {m : Message} {rest : List Int}
    (wires : k'.wire = s.kernel.wire)
    (flags : ∀ p, (k'.procTable p).pFlags.freeSlot = (s.kernel.procTable p).pFlags.freeSlot ∧
      ((k'.procTable p).pFlags.hanging = (s.kernel.procTable p).pFlags.hanging) ∧
      ((k'.procTable p).pFlags.waiting = true → (s.kernel.procTable p).pFlags.waiting = true))
    (waits : s.call parent = some (.receive taskMm))
    (parentAlive : Mm.Alive k' parent) (distinct : parent ≠ proc)
    (dead : s.call proc = some (.receive taskMm))
    (asleep : (k'.procTable proc).pFlags.waiting = false) :
    Safe { s with kernel := k', mm := .collect parent m proc pid rest } := by
  refine safe.thinkMm idle wires ?_ ?_ ?_ ?_ (fun p => (flags p).1) ?_ ?_ ?_
  · intro c client
    simp only [Mm.clients, Mm.callers, Mm.dying, List.cons_append, List.nil_append,
      List.mem_cons, List.not_mem_nil, or_false] at client
    rcases client with rfl | rfl
    · exact waits
    · exact dead
  · simpa [Mm.clients, Mm.callers, Mm.dying] using distinct
  · exact fun p flag => .inl ((flags p).2.2 flag)
  · intro p flag
    rw [(flags p).2.1] at flag
    exact .inl flag
  · intro p caller
    cases List.mem_singleton.mp caller
    exact parentAlive
  · intro p member
    cases List.mem_singleton.mp member
    exact asleep
  · intro _ _ _ exits
    rcases exits with exits | exits | exits <;> cases exits

variable {memorySize : Int}

theorem Mm.call_serve {s : System} {m : Message} (mm : s.mm = .serve m) :
    s.call taskMm = none := by
  rw [call_mm, mm]
  rfl

theorem Safe.thinkExit (safe : Safe s) {m : Message} (mm : s.mm = .serve m) :
    Safe { s with mm := .exitTell m.source (s.kernel.procTable m.source).pParent m.status } := by
  refine safe.mmTurns (Mm.call_serve mm) ?_ rfl (List.nodup_singleton _) ?_
  · rw [mm]
    exact fun c caller => caller
  · intro pid parentPid status exits
    rcases exits with exits | exits | exits <;> cases exits
    rfl

theorem Safe.thinkAnswer (safe : Safe s) {m answer : Message} (mm : s.mm = .serve m) :
    Safe { s with mm := .reply m.source answer } := by
  refine safe.mmTurns (Mm.call_serve mm) ?_ rfl (List.nodup_singleton _) ?_
  · rw [mm]
    exact fun c caller => caller
  · intro _ _ _ exits
    rcases exits with exits | exits | exits <;> cases exits

theorem Safe.server_of_serve (safe : Safe s) {m : Message} (mm : s.mm = .serve m) :
    s.call m.source = some (.receive taskMm) ∧ Mm.Alive s.kernel m.source := by
  have caller : m.source ∈ s.mm.callers := by
    rw [mm]
    exact List.mem_singleton_self _
  exact ⟨safe.mm_client (List.mem_append_left _ caller), safe.alive _ caller⟩

theorem Safe.thinkCollect (safe : Safe s) {m : Message} {child : Int} (mm : s.mm = .serve m)
    (found : Mm.scan s.kernel m.source 0 Mm.slots = .hanging child) :
    Safe { s with mm := mmThink.collecting s.kernel child m.source [] } := by
  obtain ⟨-, parent, hanging⟩ := Mm.scan_hanging found
  obtain ⟨waits, alive⟩ := safe.server_of_serve mm
  unfold mmThink.collecting
  rw [parent]
  refine safe.collects (Mm.call_serve mm) rfl (fun _ => ⟨rfl, rfl, id⟩) waits
    alive ?_ (safe.parked child (.inr hanging)) ?_
  · intro same
    rw [← same, alive.2.1] at hanging
    cases hanging
  · refine Bool.eq_false_iff.mpr fun waiting => ?_
    rw [safe.either child waiting] at hanging
    cases hanging

theorem Safe.thinkWait (safe : Safe s) {m : Message} (mm : s.mm = .serve m) :
    Safe { s with kernel := s.kernel.modify m.source Mm.Proc.waits, mm := .main } := by
  obtain ⟨waits, alive⟩ := safe.server_of_serve mm
  refine safe.thinkMm (Mm.call_serve mm) (s.kernel.modify_same_wire _ fun _ => rfl) ?_
    List.nodup_nil ?_ ?_ ?_ ?_ ?_ ?_
  · exact fun c client => absurd client List.not_mem_nil
  · intro p flag
    by_cases same : p = m.source
    · subst same
      refine .inr ⟨waits, ?_⟩
      rw [State.modify_self]
      exact alive.2.1
    · rw [State.modify_other _ _ same] at flag
      exact .inl flag
  · intro p flag
    refine .inl ?_
    by_cases same : p = m.source
    · subst same
      rw [State.modify_self] at flag
      exact flag
    · rw [State.modify_other _ _ same] at flag
      exact flag
  · intro p
    by_cases same : p = m.source
    · subst same
      rw [State.modify_self]
      rfl
    · rw [State.modify_other _ _ same]
  · exact fun p caller => absurd caller List.not_mem_nil
  · exact List.forall_mem_nil _
  · intro _ _ _ exits
    rcases exits with exits | exits | exits <;> cases exits

section Leave

variable {pid parentPid status : Int}

theorem Safe.server_of_leave (safe : Safe s) (mm : s.mm = .leave pid parentPid status) :
    s.call pid = some (.receive taskMm) ∧ Mm.Alive s.kernel pid := by
  have caller : pid ∈ s.mm.callers := by
    rw [mm]
    exact List.mem_singleton_self _
  exact ⟨safe.mm_client (List.mem_append_left _ caller), safe.alive _ caller⟩

theorem Mm.call_leave (mm : s.mm = .leave pid parentPid status) : s.call taskMm = none := by
  rw [call_mm, mm]
  rfl

theorem exits_flags (k : State) (pid status p : Int) :
    ((k.modify pid (Mm.Proc.exits status)).procTable p).pFlags = (k.procTable p).pFlags := by
  by_cases same : p = pid
  · subst same
    rw [State.modify_self]
    rfl
  · rw [State.modify_other _ _ same]

theorem Safe.thinkReport (safe : Safe s) (mm : s.mm = .leave pid parentPid status)
    (waiting : (s.kernel.procTable parentPid).pFlags.waiting = true) :
    Safe { s with
      kernel := (s.kernel.modify pid (Mm.Proc.exits status)).modify parentPid Mm.Proc.stopsWaiting
      mm := mmThink.collecting
        ((s.kernel.modify pid (Mm.Proc.exits status)).modify parentPid Mm.Proc.stopsWaiting)
        pid pid Mm.slots } := by
  obtain ⟨waits, alive⟩ := safe.server_of_leave mm
  have distinct : parentPid ≠ pid := by
    rintro rfl
    rw [alive.1] at waiting
    cases waiting
  have parent : (((s.kernel.modify pid (Mm.Proc.exits status)).modify parentPid
      Mm.Proc.stopsWaiting).procTable pid).pParent = parentPid := by
    rw [State.modify_other _ _ distinct.symm, State.modify_self]
    exact safe.parent pid parentPid status (.inr (.inr mm))
  have parentWaits := safe.parked parentPid (.inl waiting)
  unfold mmThink.collecting
  rw [parent]
  refine safe.collects (Mm.call_leave mm) ?_ ?_ parentWaits ?_ distinct waits ?_
  · refine (State.modify_same_wire _ _ ?_).trans (State.modify_same_wire _ _ ?_) <;>
      exact fun _ => rfl
  · intro p
    by_cases same : p = parentPid
    · subst same
      rw [State.modify_self, Mm.Proc.stopsWaiting, exits_flags]
      exact ⟨rfl, rfl, nofun⟩
    · rw [State.modify_other _ _ same, exits_flags]
      exact ⟨rfl, rfl, id⟩
  · rw [Mm.Alive, State.modify_self, Mm.Proc.stopsWaiting, exits_flags]
    exact ⟨rfl, safe.either _ waiting, safe.present parentWaits⟩
  · rw [State.modify_other _ _ distinct.symm, exits_flags]
    exact alive.1

theorem Safe.thinkHang (safe : Safe s) (mm : s.mm = .leave pid parentPid status) :
    Safe { s with
      kernel := (s.kernel.modify pid (Mm.Proc.exits status)).modify pid Mm.Proc.hangs
      mm := .adopt pid Mm.slots } := by
  obtain ⟨waits, alive⟩ := safe.server_of_leave mm
  refine safe.thinkMm (Mm.call_leave mm) ?_ ?_ List.nodup_nil ?_ ?_ ?_ ?_ ?_ ?_
  · refine (State.modify_same_wire _ _ ?_).trans (State.modify_same_wire _ _ ?_) <;>
      exact fun _ => rfl
  · exact fun c client => absurd client List.not_mem_nil
  · intro p flag
    refine .inl ?_
    by_cases same : p = pid
    · subst same
      rw [State.modify_self, Mm.Proc.hangs, exits_flags] at flag
      exact flag
    · rw [State.modify_other _ _ same, exits_flags] at flag
      exact flag
  · intro p flag
    by_cases same : p = pid
    · subst same
      refine .inr ⟨waits, ?_⟩
      rw [State.modify_self, Mm.Proc.hangs, exits_flags]
      exact alive.1
    · rw [State.modify_other _ _ same, exits_flags] at flag
      exact .inl flag
  · intro p
    by_cases same : p = pid
    · subst same
      rw [State.modify_self, Mm.Proc.hangs, exits_flags]
    · rw [State.modify_other _ _ same, exits_flags]
  · exact fun p caller => absurd caller List.not_mem_nil
  · exact List.forall_mem_nil _
  · intro _ _ _ exits
    rcases exits with exits | exits | exits <;> cases exits

end Leave

section Adopt

variable {pid i : Int} {rest : List Int}

theorem Mm.call_adopt {left : List Int} (mm : s.mm = .adopt pid left) :
    s.call taskMm = none := by
  rw [call_mm, mm]
  rfl

theorem adopted_flags (k : State) (i p : Int) :
    ((k.modify i Mm.Proc.adopted).procTable p).pFlags = (k.procTable p).pFlags := by
  by_cases same : p = i
  · subst same
    rw [State.modify_self]
    rfl
  · rw [State.modify_other _ _ same]

theorem Safe.thinkNext (safe : Safe s) {left : List Int} (mm : s.mm = .adopt pid left) {mm' : Mm}
    (next : mm' = .main ∨ mm' = .adopt pid rest) : Safe { s with mm := mm' } := by
  refine safe.mmTurns (Mm.call_adopt mm) ?_ ?_ ?_ ?_ <;> rcases next with rfl | rfl
  · exact fun c caller => absurd caller List.not_mem_nil
  · exact fun c caller => absurd caller List.not_mem_nil
  · rfl
  · rfl
  · exact List.nodup_nil
  · exact List.nodup_nil
  all_goals
    intro _ _ _ exits
    rcases exits with exits | exits | exits <;> cases exits

theorem Safe.thinkAdopt (safe : Safe s) {left : List Int} (mm : s.mm = .adopt pid left) :
    Safe { s with kernel := s.kernel.modify i Mm.Proc.adopted, mm := .adopt pid rest } := by
  refine safe.thinkMm (Mm.call_adopt mm) (State.modify_same_wire _ _ fun _ => rfl) ?_
    List.nodup_nil ?_ ?_ ?_ ?_ ?_ ?_
  · exact fun c client => absurd client List.not_mem_nil
  · intro p flag
    rw [adopted_flags] at flag
    exact .inl flag
  · intro p flag
    rw [adopted_flags] at flag
    exact .inl flag
  · intro p
    rw [adopted_flags]
  · exact fun p caller => absurd caller List.not_mem_nil
  · exact List.forall_mem_nil _
  · intro _ _ _ exits
    rcases exits with exits | exits | exits <;> cases exits

theorem Safe.thinkRelay (safe : Safe s) {left : List Int} (mm : s.mm = .adopt pid left)
    (waiting : (s.kernel.procTable initPid).pFlags.waiting = true)
    (hanging : (s.kernel.procTable i).pFlags.hanging = true) :
    Safe { s with
      kernel := (s.kernel.modify i Mm.Proc.adopted).modify initPid Mm.Proc.stopsWaiting
      mm := mmThink.collecting
        ((s.kernel.modify i Mm.Proc.adopted).modify initPid Mm.Proc.stopsWaiting) i pid rest } := by
  have distinct : initPid ≠ i := by
    rintro rfl
    rw [safe.either _ waiting] at hanging
    cases hanging
  have parent : (((s.kernel.modify i Mm.Proc.adopted).modify initPid
      Mm.Proc.stopsWaiting).procTable i).pParent = initPid := by
    rw [State.modify_other _ _ distinct.symm, State.modify_self]
    rfl
  have initWaits := safe.parked initPid (.inl waiting)
  unfold mmThink.collecting
  rw [parent]
  refine safe.collects (Mm.call_adopt mm) ?_ ?_ initWaits ?_ distinct
    (safe.parked i (.inr hanging)) ?_
  · refine (State.modify_same_wire _ _ ?_).trans (State.modify_same_wire _ _ ?_) <;>
      exact fun _ => rfl
  · intro p
    by_cases same : p = initPid
    · subst same
      rw [State.modify_self, Mm.Proc.stopsWaiting, adopted_flags]
      exact ⟨rfl, rfl, nofun⟩
    · rw [State.modify_other _ _ same, adopted_flags]
      exact ⟨rfl, rfl, id⟩
  · rw [Mm.Alive, State.modify_self, Mm.Proc.stopsWaiting, adopted_flags]
    exact ⟨rfl, safe.either _ waiting, safe.present initWaits⟩
  · rw [State.modify_other _ _ distinct.symm, adopted_flags]
    refine Bool.eq_false_iff.mpr fun asleep => ?_
    rw [safe.either i asleep] at hanging
    cases hanging

end Adopt

section Lives

variable {q : Int} {user : User} {k' : State} {mm : Mm}

-- MM is elsewhere in its program, and `q` has another entry in the table and another program.
def System.lives (s : System) (q : Int) (user : User) (k' : State) (mm : Mm) : System :=
  { s with kernel := k', user := Function.update s.user q user, mm := mm }

theorem lives_self (isUser : IsUser q) : (s.lives q user k' mm).call q = user.call := by
  rw [call_user _ isUser]
  show (Function.update s.user q user q).call = user.call
  rw [Function.update_self]

theorem lives_other (notMm : p ≠ taskMm) (other : p ≠ q) :
    (s.lives q user k' mm).call p = s.call p := by
  rcases party p with rfl | rfl | rfl | rfl | rfl | isUser
  case inr.inr.inr.inr.inr =>
    rw [call_user _ isUser, call_user _ isUser]
    show (Function.update s.user q user p).call = (s.user p).call
    rw [Function.update_of_ne other]
  case inr.inr.inr.inr.inl => exact absurd rfl notMm
  all_goals rfl

theorem lives_calls (idle : s.call taskMm = none) {call : Call} (calls : s.call p = some call)
    (other : p ≠ q) : (s.lives q user k' mm).call p = some call := by
  have notMm : p ≠ taskMm := by
    rintro rfl
    rw [idle] at calls
    cases calls
  rw [lives_other notMm other]
  exact calls

theorem debts_lives (debts : ∀ e c, Owes s e c → s.call c = some (.receive e))
    (idle : s.call taskMm = none) (isUser : IsUser q) (unowed : ∀ e, Owes s e q → e = taskMm)
    (clients : ∀ c ∈ mm.clients, c ≠ q → s.call c = some (.receive taskMm))
    (client : q ∈ mm.clients → user.call = some (.receive taskMm)) (e c : Int)
    (owes : Owes (s.lives q user k' mm) e c) :
    (s.lives q user k' mm).call c = some (.receive e) := by
  by_cases isMm : e = taskMm
  · subst isMm
    by_cases same : c = q
    · subst same
      rw [lives_self isUser]
      exact client (owes_mm owes)
    · exact lives_calls idle (clients c (owes_mm owes) same) same
  · have before : Owes s e c :=
      owes.before id (fun _ reads => ⟨reads, rfl⟩) (fun same => absurd same isMm) id id id
    have same : c ≠ q := by
      rintro rfl
      exact isMm (unowed e before)
    exact lives_calls idle (debts e c before) same

theorem Family.lives (h : Family s) (idle : s.call taskMm = none) (isUser : IsUser q)
    (others : ∀ p, p ≠ q → k'.procTable p = s.kernel.procTable p)
    (alive : ∀ p ∈ mm.callers, Mm.Alive k' p)
    (awake : (k'.procTable q).pFlags.waiting = false ∧ (k'.procTable q).pFlags.hanging = false)
    (free : (k'.procTable q).pFlags.freeSlot = true → user.call = none)
    (dying : mm.dying = [])
    (parent : ∀ pid parentPid status, mm ≠ .exitTell pid parentPid status ∧
      mm ≠ .exitWait pid parentPid status ∧ mm ≠ .leave pid parentPid status) :
    Family (s.lives q user k' mm) := by
  refine ⟨alive, ?_, ?_, ?_, ?_, ?_⟩
  case refine_1 =>
    intro p (member : p ∈ mm.dying)
    rw [dying] at member
    cases member
  case refine_2 =>
    intro p (flag : (k'.procTable p).pFlags.waiting = true ∨
      (k'.procTable p).pFlags.hanging = true)
    have same : p ≠ q := by
      rintro rfl
      rw [awake.1, awake.2] at flag
      rcases flag with flag | flag <;> cases flag
    rw [others p same] at flag
    exact lives_calls idle (h.parked p flag) same
  case refine_3 =>
    intro p (flag : (k'.procTable p).pFlags.waiting = true)
    show (k'.procTable p).pFlags.hanging = false
    by_cases same : p = q
    · subst same
      exact awake.2
    · rw [others p same] at flag ⊢
      exact h.either p flag
  case refine_4 =>
    intro p isUser' (flag : (k'.procTable p).pFlags.freeSlot = true)
    by_cases same : p = q
    · subst same
      rw [lives_self isUser]
      exact free flag
    · rw [others p same] at flag
      rw [lives_other isUser'.2.2.2.2 same]
      exact h.free p isUser' flag
  case refine_5 =>
    intro pid parentPid status exits
    obtain ⟨first, second, third⟩ := parent pid parentPid status
    rcases exits with exits | exits | exits
    · exact absurd exits first
    · exact absurd exits second
    · exact absurd exits third

theorem Wired.lives (h : Wired s) (idle : s.call taskMm = none) (isUser : IsUser q)
    (others : ∀ p, p ≠ q → k'.procTable p = s.kernel.procTable p)
    (sending : (k'.wire q).sending = true → ∃ m, user.call = some (.send (k'.wire q).sendTo m))
    (receiving : (k'.wire q).receiving = true →
      user.call = some (.receive (k'.wire q).recvFrom)) :
    Wired (s.lives q user k' mm) := by
  have wires (p : Int) (other : p ≠ q) : k'.wire p = s.kernel.wire p := by
    rw [State.wire, others p other, State.wire]
  constructor
  case sending =>
    intro p (flag : (k'.wire p).sending = true)
    show ∃ m, (s.lives q user k' mm).call p = some (.send (k'.wire p).sendTo m)
    by_cases same : p = q
    · subst same
      rw [lives_self isUser]
      exact sending flag
    · rw [wires p same] at flag ⊢
      obtain ⟨m, sends⟩ := h.sending p flag
      exact ⟨m, lives_calls idle sends same⟩
  case receiving =>
    intro p (flag : (k'.wire p).receiving = true)
    show (s.lives q user k' mm).call p = some (.receive (k'.wire p).recvFrom)
    by_cases same : p = q
    · subst same
      rw [lives_self isUser]
      exact receiving flag
    · rw [wires p same] at flag ⊢
      exact lives_calls idle (h.receiving p flag) same

/--
MM takes a process out of the table or puts a new one into it. Nobody waits for what becomes of `q`
but MM itself.
-/
theorem Safe.thinkLife (safe : Safe s) (idle : s.call taskMm = none) (isUser : IsUser q)
    (others : ∀ p, p ≠ q → k'.procTable p = s.kernel.procTable p)
    (unowed : ∀ e, Owes s e q → e = taskMm)
    (clients : ∀ c ∈ mm.clients, c ≠ q → s.call c = some (.receive taskMm))
    (client : q ∈ mm.clients → user.call = some (.receive taskMm)) (once : mm.clients.Nodup)
    (alive : ∀ p ∈ mm.callers, Mm.Alive k' p)
    (awake : (k'.procTable q).pFlags.waiting = false ∧ (k'.procTable q).pFlags.hanging = false)
    (free : (k'.procTable q).pFlags.freeSlot = true → user.call = none)
    (dying : mm.dying = [])
    (parent : ∀ pid parentPid status, mm ≠ .exitTell pid parentPid status ∧
      mm ≠ .exitWait pid parentPid status ∧ mm ≠ .leave pid parentPid status)
    (sending : (k'.wire q).sending = true → ∃ m, user.call = some (.send (k'.wire q).sendTo m))
    (receiving : (k'.wire q).receiving = true →
      user.call = some (.receive (k'.wire q).recvFrom)) :
    Safe (s.lives q user k' mm) := by
  constructor
  case toCustody =>
    exact ⟨debts_lives safe.debts idle isUser unowed clients client, safe.readers, safe.apart,
      safe.reading, safe.asked, once⟩
  case toFamily =>
    exact safe.toFamily.lives idle isUser others alive awake free dying parent
  case toWired => exact safe.toWired.lives idle isUser others sending receiving

theorem Safe.thinkRelease (safe : Safe s) {proc pid : Int} {rest : List Int}
    (mm : s.mm = .release proc pid rest) :
    Safe { s with
      kernel := s.kernel.modify proc Mm.Proc.released
      user := Function.update s.user proc .absent
      mm := .adopt pid rest } := by
  have dead : s.call proc = some (.receive taskMm) := by
    refine safe.mm_client ?_
    rw [mm]
    exact List.mem_singleton_self _
  have idle : s.call taskMm = none := by
    rw [call_mm, mm]
    rfl
  have flags : ((s.kernel.modify proc Mm.Proc.released).procTable proc).pFlags =
      .onlyFreeSlot := by
    rw [State.modify_self]
    rfl
  refine safe.thinkLife idle (user_of_awaits_mm dead) ?_ ?_ ?_ ?_ List.nodup_nil ?_ ?_
    (fun _ => rfl) rfl (fun _ _ _ => ⟨nofun, nofun, nofun⟩) ?_ ?_
  · exact fun p other => State.modify_other _ _ other
  · intro e owes
    have waits := safe.debts e proc owes
    rw [dead] at waits
    cases waits
    rfl
  · exact fun c client => absurd client List.not_mem_nil
  · exact fun client => absurd client List.not_mem_nil
  · exact fun p caller => absurd caller List.not_mem_nil
  · rw [flags]
    exact ⟨rfl, rfl⟩
  · intro flag
    rw [State.wire, Proc.wire, flags] at flag
    cases flag
  · intro flag
    rw [State.wire, Proc.wire, flags] at flag
    cases flag

end Lives

theorem Safe.thinkFork (safe : Safe s) {m : Message} {child : Int} {k' : State}
    (mm : s.mm = .serve m) (found : Mm.freeSlot s.kernel = some child)
    (above : child ≥ nrTasks + nrNativeProcs)
    (done : Mm.duplicate memorySize s.kernel m.source child = .ok k') :
    Safe { s with
      kernel := k'
      user := Function.update s.user child (s.user m.source)
      mm := .forkTell m child } := by
  obtain ⟨waits, alive⟩ := safe.server_of_serve mm
  obtain ⟨others, base, copied⟩ := Mm.duplicate_copies done
  have flags : (k'.procTable child).pFlags = (s.kernel.procTable m.source).pFlags := by
    rw [copied]
    rfl
  have wire : k'.wire child = s.kernel.wire m.source := by
    rw [State.wire, copied]
    rfl
  have isUser : IsUser child := by
    refine isUser_of_lt ?_
    simp only [nrTasks, nrNativeProcs] at above
    simp only [taskMm]
    omega
  have slot := (Mm.freeSlot_found found).2
  have absent : s.call child = none := by
    refine safe.free child isUser ?_
    rw [slot]
    rfl
  have calls : (s.user m.source).call = s.call m.source :=
    (call_user s (user_of_awaits_mm waits)).symm
  have distinct : m.source ≠ child := by
    intro same
    rw [same, absent] at waits
    cases waits
  have awake : Mm.Alive k' child := by
    rw [Mm.Alive, flags]
    exact alive
  refine safe.thinkLife (Mm.call_serve mm) isUser others ?_ ?_ ?_ ?_ ?_ ⟨awake.1, awake.2.1⟩ ?_ rfl
    ?_ ?_ ?_
  · intro e owes
    have waiting := safe.debts e child owes
    rw [absent] at waiting
    cases waiting
  · intro c client other
    simp only [Mm.clients, Mm.callers, Mm.dying, List.append_nil, List.mem_cons,
      List.not_mem_nil, or_false, other] at client
    rw [client]
    exact waits
  · intro _
    rw [calls]
    exact waits
  · simpa [Mm.clients, Mm.callers, Mm.dying] using distinct
  · intro p caller
    simp only [Mm.callers, List.mem_cons, List.not_mem_nil, or_false] at caller
    rcases caller with rfl | rfl
    · rw [Mm.Alive, others _ distinct]
      exact alive
    · exact awake
  · intro flag
    rw [awake.2.2] at flag
    cases flag
  · intro pid parentPid status
    refine ⟨?_, ?_, ?_⟩ <;> intro same <;> cases same
  · intro flag
    rw [wire] at flag ⊢
    obtain ⟨m', sends⟩ := safe.sending m.source flag
    exact ⟨m', calls.trans sends⟩
  · intro flag
    rw [wire] at flag ⊢
    exact calls.trans (safe.receiving m.source flag)

/-- What MM does between two of its calls, one case for each of its places. -/
inductive MmThinks (s : System) : System → Prop
  | answer (m answer : Message) (mm : s.mm = .serve m)
      (nothing : m.type = .fork ∨ m.type = .wait ∧ answer.pid = noTask) :
      MmThinks s { s with mm := .reply m.source answer }
  | fork (memorySize : Int) (m : Message) (child : Int) (k' : State) (mm : s.mm = .serve m)
      (isFork : m.type = .fork) (found : Mm.freeSlot s.kernel = some child)
      (above : child ≥ nrTasks + nrNativeProcs)
      (done : Mm.duplicate memorySize s.kernel m.source child = .ok k') :
      MmThinks s { s with
        kernel := k'
        user := Function.update s.user child (s.user m.source)
        mm := .forkTell m child }
  | exit (m : Message) (mm : s.mm = .serve m) (isExit : m.type = .exit) :
      MmThinks s { s with
        mm := .exitTell m.source (s.kernel.procTable m.source).pParent m.status }
  | collect (m : Message) (child : Int) (mm : s.mm = .serve m) (isWait : m.type = .wait)
      (found : Mm.scan s.kernel m.source 0 Mm.slots = .hanging child) :
      MmThinks s { s with mm := mmThink.collecting s.kernel child m.source [] }
  | wait (m : Message) (count : Nat) (mm : s.mm = .serve m) (isWait : m.type = .wait)
      (found : Mm.scan s.kernel m.source 0 Mm.slots = .children (count + 1)) :
      MmThinks s { s with kernel := s.kernel.modify m.source Mm.Proc.waits, mm := .main }
  | report (pid parentPid status : Int) (mm : s.mm = .leave pid parentPid status)
      (waiting : (s.kernel.procTable parentPid).pFlags.waiting = true) :
      MmThinks s { s with
        kernel :=
          (s.kernel.modify pid (Mm.Proc.exits status)).modify parentPid Mm.Proc.stopsWaiting
        mm := mmThink.collecting
          ((s.kernel.modify pid (Mm.Proc.exits status)).modify parentPid Mm.Proc.stopsWaiting)
          pid pid Mm.slots }
  | hang (pid parentPid status : Int) (mm : s.mm = .leave pid parentPid status)
      (busy : (s.kernel.procTable parentPid).pFlags.waiting = false) :
      MmThinks s { s with
        kernel := (s.kernel.modify pid (Mm.Proc.exits status)).modify pid Mm.Proc.hangs
        mm := .adopt pid Mm.slots }
  | done (pid : Int) (mm : s.mm = .adopt pid []) : MmThinks s { s with mm := .main }
  | skip (pid i : Int) (rest : List Int) (mm : s.mm = .adopt pid (i :: rest))
      (other : (s.kernel.procTable i).pParent ≠ pid) : MmThinks s { s with mm := .adopt pid rest }
  | adopt (pid i : Int) (rest : List Int) (mm : s.mm = .adopt pid (i :: rest))
      (child : (s.kernel.procTable i).pParent = pid)
      (quiet : ¬ ((s.kernel.procTable initPid).pFlags.waiting = true ∧
        (s.kernel.procTable i).pFlags.hanging = true)) :
      MmThinks s { s with kernel := s.kernel.modify i Mm.Proc.adopted, mm := .adopt pid rest }
  | relay (pid i : Int) (rest : List Int) (mm : s.mm = .adopt pid (i :: rest))
      (child : (s.kernel.procTable i).pParent = pid)
      (waiting : (s.kernel.procTable initPid).pFlags.waiting = true)
      (hanging : (s.kernel.procTable i).pFlags.hanging = true) :
      MmThinks s { s with
        kernel := (s.kernel.modify i Mm.Proc.adopted).modify initPid Mm.Proc.stopsWaiting
        mm := mmThink.collecting
          ((s.kernel.modify i Mm.Proc.adopted).modify initPid Mm.Proc.stopsWaiting) i pid rest }
  | release (proc pid : Int) (rest : List Int) (mm : s.mm = .release proc pid rest) :
      MmThinks s { s with
        kernel := s.kernel.modify proc Mm.Proc.released
        user := Function.update s.user proc .absent
        mm := .adopt pid rest }

theorem mmThinks_of (thinks : mmThink memorySize s = some t) : MmThinks s t := by
  unfold mmThink at thinks
  cases mm : s.mm with
  | serve m =>
    simp only [mm] at thinks
    cases type : m.type
    case fork =>
      simp only [type] at thinks
      cases found : Mm.freeSlot s.kernel with
      | none =>
        simp only [found, Option.some.injEq] at thinks
        subst thinks
        exact .answer m _ mm (.inl type)
      | some child =>
        simp only [found] at thinks
        split at thinks
        next above =>
          cases done : Mm.duplicate memorySize s.kernel m.source child with
          | error _ =>
            simp only [done] at thinks
            cases thinks
          | ok k =>
            simp only [done, Option.some.injEq] at thinks
            subst thinks
            exact .fork memorySize m child k mm type found above done
        next => cases thinks
    case exit =>
      simp only [type, Option.some.injEq] at thinks
      subst thinks
      exact .exit m mm type
    case wait =>
      simp only [type] at thinks
      cases found : Mm.scan s.kernel m.source 0 Mm.slots with
      | hanging child =>
        simp only [found, Option.some.injEq] at thinks
        subst thinks
        exact .collect m child mm type found
      | children count =>
        cases count with
        | zero =>
          simp only [found, Option.some.injEq] at thinks
          subst thinks
          exact .answer m _ mm (.inr ⟨type, rfl⟩)
        | succ count =>
          simp only [found, Option.some.injEq] at thinks
          subst thinks
          exact .wait m count mm type found
    all_goals
      simp only [type] at thinks
      cases thinks
  | leave pid parentPid status =>
    simp only [mm] at thinks
    split at thinks
    next waiting =>
      cases thinks
      rw [exits_flags] at waiting
      exact .report pid parentPid status mm waiting
    next busy =>
      cases thinks
      rw [exits_flags] at busy
      exact .hang pid parentPid status mm (by simpa using busy)
  | adopt pid left =>
    cases left with
    | nil =>
      simp only [mm, Option.some.injEq] at thinks
      subst thinks
      exact .done pid mm
    | cons i rest =>
      simp only [mm] at thinks
      split at thinks
      next child =>
        split at thinks
        next relays =>
          cases thinks
          rw [adopted_flags, adopted_flags] at relays
          exact .relay pid i rest mm child relays.1 relays.2
        next quiet =>
          cases thinks
          rw [adopted_flags, adopted_flags] at quiet
          exact .adopt pid i rest mm child quiet
      next other =>
        cases thinks
        exact .skip pid i rest mm other
  | release proc pid rest =>
    simp only [mm, Option.some.injEq] at thinks
    subst thinks
    exact .release proc pid rest mm
  | _ =>
    simp only [mm] at thinks
    cases thinks

theorem MmThinks.frame (thinks : MmThinks s t) :
    t.fs = s.fs ∧ t.tty = s.tty ∧ t.lines = s.lines := by
  cases thinks <;> exact ⟨rfl, rfl, rfl⟩

theorem Safe.mmThinks (safe : Safe s) (thinks : MmThinks s t) : Safe t := by
  cases thinks with
  | answer m answer mm nothing => exact safe.thinkAnswer mm
  | fork memorySize m child k' mm isFork found above done =>
    exact safe.thinkFork mm found above done
  | exit m mm isExit => exact safe.thinkExit mm
  | collect m child mm isWait found => exact safe.thinkCollect mm found
  | wait m count mm isWait found => exact safe.thinkWait mm
  | report pid parentPid status mm waiting => exact safe.thinkReport mm waiting
  | hang pid parentPid status mm busy => exact safe.thinkHang mm
  | done pid mm => exact @Safe.thinkNext s pid [] safe [] mm .main (.inl rfl)
  | skip pid i rest mm other => exact safe.thinkNext mm (.inr rfl)
  | adopt pid i rest mm child quiet => exact safe.thinkAdopt mm
  | relay pid i rest mm child waiting hanging => exact safe.thinkRelay mm waiting hanging
  | release proc pid rest mm => exact safe.thinkRelease mm

theorem Safe.thinks (safe : Safe s) (runs : (s.kernel.procTable p).pFlags = .clear)
    (thinks : Thinks s p t) : Safe t := by
  cases thinks with
  | user p r above running => exact safe.thinkUser (isUser_of_lt above) running runs _
  | fsInitDisk m isDisk init =>
    refine safe.thinkFs (by rw [call_fs, init]; rfl) ?_ fun _ _ => nofun
    intro c client
    cases client
  | fsInitDone init =>
    refine safe.thinkFs (by rw [call_fs, init]; rfl) ?_ fun _ _ => nofun
    intro c client
    cases client
  | fsDisk src type m isDisk works uses =>
    refine safe.thinkFs (by rw [call_fs, works]; rfl) ?_ fun _ _ => nofun
    rw [works]
    exact fun c client => client
  | fsTty src type device cnt works uses =>
    refine safe.thinkFs (by rw [call_fs, works]; rfl) ?_ fun _ _ => nofun
    rw [works]
    exact fun c client => client
  | fsReply src type m works =>
    refine safe.thinkFs (by rw [call_fs, works]; rfl) ?_ fun _ _ => nofun
    rw [works]
    exact fun c client => client
  | mm memorySize thinks => exact safe.mmThinks (mmThinks_of thinks)
  | hdTick src works =>
    refine safe.thinkHd (by rw [call_hd, works]; rfl) ?_
    rw [works]
    exact fun c client => client
  | hdIntr src works =>
    refine safe.thinkHd (by rw [call_hd, works]; rfl) ?_
    rw [works]
    exact fun c client => client
  | hdReply src m works =>
    refine safe.thinkHd (by rw [call_hd, works]; rfl) ?_
    rw [works]
    exact fun c client => client
  | ttyMain polls =>
    refine safe.thinkTty polls (fun i reads => ?_) (fun i => ⟨rfl, rfl⟩) rfl rfl
    rcases reads with left | resumes
    · exact .inl left
    · cases resumes
  | ttyKey device key polls => exact safe.ttyKey polls device key

end Thinking

section Runs

open Runs

variable {s t : System}

theorem boot_flags {k : State} (boots : Boots k) (p : Int) :
    (k.procTable p).pFlags = if p < nrTasks + nrNativeProcs then .clear else .onlyFreeSlot := by
  obtain ⟨kBase, kLimit, mem, rfl⟩ := boots
  by_cases native : p < nrTasks + nrNativeProcs
  · simp only [kernelMain, native, if_true]
    rfl
  · simp only [kernelMain, native, if_false]

theorem Safe.starts (starts : Starts s) : Safe s := by
  obtain ⟨boots, user, fs, mm, hd, tty, lines, sys⟩ := starts
  have flags := boot_flags boots
  have noReads (i : Int) : ¬ s.Reads i := by
    rintro (left | resumes)
    · exact left (lines i)
    · rw [tty] at resumes
      cases resumes
  have blocked (p : Int) : (s.kernel.procTable p).pFlags.waiting = false ∧
      (s.kernel.procTable p).pFlags.hanging = false ∧ (s.kernel.wire p).sending = false ∧
      (s.kernel.wire p).receiving = false := by
    rw [State.wire, Proc.wire, flags p]
    split <;> exact ⟨rfl, rfl, rfl, rfl⟩
  constructor
  case toCustody =>
    refine ⟨?_, ?_, ?_, ?_, ?_, ?_⟩
    · intro e c owes
      obtain ⟨rfl, client | ⟨i, reads, rfl⟩⟩ | ⟨rfl, client⟩ | ⟨rfl, client⟩ | ⟨rfl, client⟩ |
        ⟨rfl, client⟩ := owes_cases owes
      · rw [fs] at client
        cases client
      · exact absurd reads (noReads i)
      · rw [mm] at client
        cases client
      · rw [hd] at client
        cases client
      · rw [tty] at client
        cases client
      · rw [sys] at client
        cases client
    · exact fun i reads => absurd reads (noReads i)
    · exact fun i _ reads => absurd reads (noReads i)
    · exact fun i reads => absurd reads (noReads i)
    · intro src type waiting
      rw [fs] at waiting
      cases waiting
    · rw [mm]
      exact List.nodup_nil
  case toFamily =>
    refine ⟨?_, ?_, ?_, ?_, ?_, ?_⟩
    · rw [mm]
      exact fun p caller => absurd caller List.not_mem_nil
    · rw [mm]
      exact List.forall_mem_nil _
    · intro p flag
      rw [(blocked p).1, (blocked p).2.1] at flag
      rcases flag with flag | flag <;> cases flag
    · exact fun p _ => (blocked p).2.1
    · intro p isUser flag
      rw [flags p] at flag
      by_cases native : p < nrTasks + nrNativeProcs
      · simp only [native, if_true] at flag
        cases flag
      · rw [call_user _ isUser, user p]
        simp only [native, if_false]
        rfl
    · intro pid parentPid status exits
      rw [mm] at exits
      rcases exits with exits | exits | exits <;> cases exits
  case toWired =>
    refine ⟨fun p flag => ?_, fun p flag => ?_⟩
    · rw [(blocked p).2.2.1] at flag
      cases flag
    · rw [(blocked p).2.2.2] at flag
      cases flag

theorem Safe.step (safe : Safe s) {event : Event} (step : Step s event t) : Safe t := by
  cases step with
  | sendWaits p dest m buf inTable runs calls done waits =>
    exact (safe.send runs calls done).1 waits
  | sendDelivers p dest m buf inTable runs calls done over_ =>
    exact (safe.send runs calls done).2 over_
  | receiveWaits p src buf inTable runs calls done waits =>
    exact (safe.receive runs calls done).1 waits
  | receiveInterrupt p src buf inTable runs calls done takes =>
    exact (safe.receive runs calls done).2.1 takes
  | receiveFrom p src q m buf inTable runs calls done waited over_ sends =>
    exact (safe.receive runs calls done).2.2 q m waited over_ sends
  | informWakes taskNr device done waited over_ => exact (safe.inform done).1 waited over_
  | informPends taskNr device done same => exact (safe.inform done).2 same
  | think p runs thinks => exact safe.thinks runs thinks
  | clock =>
    have custody : Custody { s with
        ticks := if s.ticks + 1 ≥ maxTicks then 0 else s.ticks + 1 } := by
      refine ⟨?_, safe.readers, safe.apart, safe.reading, safe.asked, safe.once⟩
      intro e c owes
      exact safe.debts e c (owes.before id (fun _ reads => ⟨reads, rfl⟩) (fun _ => id) id id id)
    exact ⟨custody, ⟨safe.alive, safe.dying, safe.parked, safe.either, safe.free, safe.parent⟩,
      ⟨safe.sending, safe.receiving⟩⟩

inductive Moves (s t : System) : Prop
  | message (k' : State) (keeps : Keeps s.kernel k') (p d src : Int) (m : Message)
      (sends : s.call p = some (.send d m)) (waits : s.call d = some (.receive src))
      (admits : src = p ∨ src = any)
      (after : t = ({ s with kernel := k' } : System).transfer p d m)
  | interrupt (k' : State) (keeps : Keeps s.kernel k') (d src : Int)
      (waits : s.call d = some (.receive src)) (admits : src = any ∨ src = interrupt)
      (after : t = ({ s with kernel := k' } : System).got d interruptMsg)
  | think (p : Int) (runs : (s.kernel.procTable p).pFlags = .clear) (thinks : Thinks s p t)
  | quiet (k' : State) (keeps : Keeps s.kernel k') (ticks : Int)
      (after : t = { s with kernel := k', ticks := ticks })

theorem Safe.moves (safe : Safe s) {event : Event} (step : Step s event t) : Moves s t := by
  cases step with
  | sendWaits p dest m buf inTable runs calls done waits =>
    exact .quiet _ (sysSendrec_keeps done) s.ticks rfl
  | sendDelivers p dest m buf inTable runs calls done over_ =>
    obtain ⟨receiving, admits, -⟩ | rewires := sysSendrec_send done
    · exact .message _ (sysSendrec_keeps done) p dest _ m calls (safe.receiving dest receiving)
        admits rfl
    · rw [rewires.self] at over_
      cases over_
  | receiveWaits p src buf inTable runs calls done waits =>
    exact .quiet _ (sysSendrec_keeps done) s.ticks rfl
  | receiveInterrupt p src buf inTable runs calls done takes =>
    simp only [takesInterrupt, decide_eq_true_eq] at takes
    exact .interrupt _ (sysSendrec_keeps done) p src calls takes.2 rfl
  | receiveFrom p src q m buf inTable runs calls done waited over_ sends =>
    have distinct := distinct_of_calls sends calls
    obtain ⟨admits, -⟩ := sysSendrec_takes done distinct.symm waited over_
    exact .message _ (sysSendrec_keeps done) q p src m sends calls admits rfl
  | informWakes taskNr device done waited over_ =>
    obtain ⟨-, fromInt, -⟩ | wires := informInt_rewires done
    · exact .interrupt _ (informInt_keeps done) taskNr _ (safe.receiving taskNr waited)
        fromInt.symm rfl
    · rw [wires, waited] at over_
      cases over_
  | informPends taskNr device done same => exact .quiet _ (informInt_keeps done) s.ticks rfl
  | think p runs thinks => exact .think p runs thinks
  | clock => exact .quiet _ (Keeps.refl s.kernel) _ rfl

theorem safe_run (run : Run Starts Step) {t : Nat} (within : t ≤ run.length) :
    Safe (run.state t) :=
  run.invariant (P := Safe) (fun _ => Safe.starts) (fun _ _ _ safe => safe.step) t within

end Runs

section Samples

variable {s : System} {p d : Int} {m : Message}

def afterCall (s : System) (function : Function) (peer : Int) (buf : Nat) (p : Int) : State :=
  match sysSendrec s.kernel function peer buf p with
  | .ok k => k
  | .error _ => s.kernel

def blocks (s : System) (function : Function) (peer : Int) (buf : Nat) (p : Int) : System :=
  { s with kernel := afterCall s function peer buf p }

def delivers (s : System) (p dest : Int) (m : Message) (buf : Nat) : System :=
  (blocks s .send dest buf p).transfer p dest m

theorem afterCall_ok {function : Function} {peer : Int} {buf : Nat}
    (succeeds : (sysSendrec s.kernel function peer buf p).isOk = true) :
    sysSendrec s.kernel function peer buf p = .ok (afterCall s function peer buf p) := by
  unfold afterCall
  cases result : sysSendrec s.kernel function peer buf p with
  | ok k => rfl
  | error halted =>
    rw [result] at succeeds
    cases succeeds

-- What has to be checked for one call of the run.
def Succeeds (s : System) (function : Function) (peer : Int) (buf : Nat) (p : Int) : Prop :=
  InTable p ∧ (s.kernel.procTable p).pFlags = .clear ∧
    (sysSendrec s.kernel function peer buf p).isOk = true

instance (function : Function) (peer : Int) (buf : Nat) (p : Int) :
    Decidable (Succeeds s function peer buf p) := by
  unfold Succeeds
  infer_instance

theorem receive_blocks {src : Int} {buf : Nat} (succeeds : Succeeds s .receive src buf p)
    (calls : s.call p = some (.receive src))
    (waits : ((blocks s .receive src buf p).kernel.wire p).receiving = true) :
    Step s (.receive p) (blocks s .receive src buf p) :=
  .receiveWaits p src buf succeeds.1 succeeds.2.1 calls (afterCall_ok succeeds.2.2) waits

theorem send_delivers {buf : Nat} (succeeds : Succeeds s .send d buf p)
    (calls : s.call p = some (.send d m))
    (over_ : ((blocks s .send d buf p).kernel.wire p).sending = false) :
    Step s (.send p) (delivers s p d m buf) :=
  .sendDelivers p d m buf succeeds.1 succeeds.2.1 calls (afterCall_ok succeeds.2.2) over_

def ask (server : Int) (type : MsgType) (valid : IsRequest server type) : Request :=
  ⟨server, { resetMsg with type := type }, valid⟩

theorem fork_isRequest : IsRequest taskMm .fork := .inr (.inl ⟨rfl, by decide⟩)

def boots : System where
  kernel := kernelMain 0 0 fun _ => resetMsg
  user := fun p => if p < nrTasks + nrNativeProcs then .run else .absent
  fs := .init
  mm := .main
  hd := .main
  tty := .poll
  lines := fun _ => ⟨0, 0, 0, 0⟩
  sys := .main
  ticks := 0

theorem boots_starts : Starts boots :=
  ⟨⟨0, 0, _, rfl⟩, fun _ => rfl, rfl, rfl, rfl, rfl, fun _ => rfl, rfl⟩

end Samples

end Konix.Servers
