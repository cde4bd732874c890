import Konix.Servers.Tree

set_option autoImplicit false

namespace Konix.Servers

open Kernel Runs

-- MM takes a request, and one to exit among them; a message of MM reaches `d`; `cleanup()` of `c`
-- has told the parent `d` of it; the slot of `c` becomes free.
def Asks (d : Int) (type : MsgType) (s t : System) : Prop :=
  s.mm = .main ∧ ∃ m, t.mm = .serve m ∧ m.source = d ∧ m.type = type

def Exits (c status : Int) (s t : System) : Prop :=
  s.mm = .main ∧ ∃ m, t.mm = .serve m ∧ m.source = c ∧ m.type = .exit ∧ m.status = status

def Tells (d : Int) (m : Message) (s t : System) : Prop :=
  s.mm.call = some (.send d m) ∧ t.mm = s.mm.sent

def Reports (c d : Int) (m : Message) (s t : System) : Prop :=
  Tells d m s t ∧ ∃ pid rest, s.mm = .collect d m c pid rest

def Frees (c : Int) (s t : System) : Prop :=
  (s.kernel.procTable c).pFlags.freeSlot = false ∧ (t.kernel.procTable c).pFlags.freeSlot = true

/-- MM has taken a request of `d` and has sent `d` nothing since then. -/
def Outstanding (run : Run Starts Step) (d : Int) (type : MsgType) (t : Nat) : Prop :=
  run.Since (Asks d type) (fun s t => ∃ m, Tells d m s t) t

/-- `c` has called `exit(status)`, and since then it has not been reported (nor called again). -/
def Unreported (run : Run Starts Step) (c status : Int) (t : Nat) : Prop :=
  run.Since (Exits c status)
    (fun s t => (∃ status', Exits c status' s t) ∨ ∃ d m, Reports c d m s t) t

/-- `c` has been reported, and since then it has not called `exit()` and not been freed. -/
def Reported (run : Run Starts Step) (c : Int) (t : Nat) : Prop :=
  run.Since (fun s t => ∃ d m, Reports c d m s t)
    (fun s t => (∃ status, Exits c status s t) ∨ Frees c s t) t

-- MM is about to answer the WAIT of `d`.
def Mm.Answering (mm : Mm) (d : Int) : Prop :=
  (∃ m, mm = .serve m ∧ m.source = d ∧ m.type = .wait) ∨
    (∃ m c pid rest, mm = .collect d m c pid rest) ∨ ∃ m, mm = .reply d m ∧ m.pid = noTask

/-- The requests that MM has taken, the processes that are dead, and those that it has reported. -/
structure Ledger where
  taken : Int → MsgType → Prop
  dead : Int → Int → Prop
  told : Int → Prop

def Ledger.next (ledger : Ledger) (s t : System) : Ledger where
  taken d type := Asks d type s t ∨ ledger.taken d type ∧ ¬ ∃ m, Tells d m s t
  dead c status := Exits c status s t ∨
    ledger.dead c status ∧ ¬ ((∃ status', Exits c status' s t) ∨ ∃ d m, Reports c d m s t)
  told c := (∃ d m, Reports c d m s t) ∨
    ledger.told c ∧ ¬ ((∃ status, Exits c status s t) ∨ Frees c s t)

def ledgerAt (run : Run Starts Step) (t : Nat) : Ledger where
  taken d type := Outstanding run d type t
  dead c status := Unreported run c status t
  told c := Reported run c t

theorem ledgerAt_succ (run : Run Starts Step) (t : Nat) :
    ledgerAt run (t + 1) = (ledgerAt run t).next (run.state t) (run.state (t + 1)) := by
  unfold ledgerAt Ledger.next
  congr 1
  · funext d type
    exact propext Run.since_succ
  · funext c status
    exact propext Run.since_succ
  · funext c
    exact propext Run.since_succ

-- What MM's place in its program says about the ledger.
def Mm.Owed (ledger : Ledger) : Mm → Prop
  | .serve m => ledger.taken m.source m.type ∧ (m.type = .exit → ledger.dead m.source m.status)
  | .forkTell m _ | .forkWait m _ | .birth m _ => ledger.taken m.source .fork
  | .reply d m => ledger.taken d .fork ∨ ledger.taken d .wait ∧ m.pid = noTask
  | .exitTell c _ status | .exitWait c _ status | .leave c _ status => ledger.dead c status
  | .collect d m c _ _ => ledger.taken d .wait ∧ ledger.dead c m.status
  | .release c _ _ => ledger.told c
  | _ => True

/-- The flags of the process table and MM's place agree with the ledger. -/
structure Books (ledger : Ledger) (s : System) : Prop where
  waiting : ∀ d, (s.kernel.procTable d).pFlags.waiting = true → ledger.taken d .wait
  hanging : ∀ c, (s.kernel.procTable c).pFlags.hanging = true →
    ledger.dead c (s.kernel.procTable c).exitStatus ∨ ∃ pid rest, s.mm = .release c pid rest
  placed : ∀ d, ledger.taken d .wait →
    (s.kernel.procTable d).pFlags.waiting = true ∨ s.mm.Answering d
  owed : s.mm.Owed ledger
  collects : ∀ d m c pid rest, s.mm = .collect d m c pid rest →
    m.pid = c ∧ (s.kernel.procTable c).pParent = d

section Steps

variable {s t : System} {ledger : Ledger} {p d src c status : Int} {m : Message} {type : MsgType}
  {k' : State}

theorem Mm.sent_ne {mm : Mm} (sends : mm.call = some (.send d m)) : mm.sent ≠ mm := by
  cases mm with
  | forkTell _ _ => nofun
  | birth _ _ => nofun
  | reply _ _ => nofun
  | exitTell _ _ _ => nofun
  | collect _ _ _ _ _ => nofun
  | _ => cases sends

theorem Mm.sent_ne_collect {mm : Mm} (sends : mm.call = some (.send d m)) {d' proc pid : Int}
    {m' : Message} {rest : List Int} : mm.sent ≠ .collect d' m' proc pid rest := by
  cases mm with
  | forkTell _ _ => nofun
  | birth _ _ => nofun
  | reply _ _ => nofun
  | exitTell _ _ _ => nofun
  | collect _ _ _ _ _ => nofun
  | _ => cases sends

theorem Mm.got_ne_collect {mm : Mm} (waits : mm.call = some (.receive src)) {d' proc pid : Int}
    {m' : Message} {rest : List Int} : mm.got m ≠ .collect d' m' proc pid rest := by
  cases mm with
  | main => cases type : m.type <;> simp [Mm.got, type]
  | forkWait _ _ =>
    intro same
    cases same
  | exitWait _ _ _ =>
    intro same
    cases same
  | _ => cases waits

theorem not_tells_of_still (still : t.mm = s.mm) : ¬ Tells d m s t := by
  rintro ⟨sends, sent⟩
  exact Mm.sent_ne sends (sent.symm.trans still)

theorem not_tells_of_call (calls : ∀ d m, s.mm.call ≠ some (.send d m)) : ¬ Tells d m s t :=
  fun tells => calls d m tells.1

theorem not_exits_of (not_ : ¬ Asks c .exit s t) : ¬ Exits c status s t := by
  rintro ⟨main, m, serve, source, isExit, -⟩
  exact not_ ⟨main, m, serve, source, isExit⟩

theorem not_frees_of_keeps (keeps : Keeps s.kernel t.kernel) : ¬ Frees c s t := by
  rintro ⟨live, free⟩
  rw [keeps.freeSlot, live] at free
  cases free

theorem Ledger.next_same (asks : ∀ d type, ¬ Asks d type s t) (tells : ∀ d m, ¬ Tells d m s t)
    (frees : ∀ c, ¬ Frees c s t) : ledger.next s t = ledger := by
  have exits (c status : Int) : ¬ Exits c status s t := not_exits_of (asks c .exit)
  have reports (c d : Int) (m : Message) : ¬ Reports c d m s t := fun told => tells d m told.1
  cases ledger
  simp [Ledger.next, asks, tells, frees, exits, reports]

theorem Books.still (books : Books ledger s) (keeps : Keeps s.kernel t.kernel)
    (still : t.mm = s.mm) : Books (ledger.next s t) t := by
  have same : ledger.next s t = ledger := by
    refine Ledger.next_same ?_ (fun _ _ => not_tells_of_still still)
      (fun _ => not_frees_of_keeps keeps)
    rintro d type ⟨main, m, serve, -⟩
    rw [still, main] at serve
    cases serve
  rw [same]
  constructor
  case waiting =>
    intro d flag
    rw [keeps.waiting] at flag
    exact books.waiting d flag
  case hanging =>
    intro c flag
    rw [keeps.hanging] at flag
    rw [keeps.exitStatus, still]
    exact books.hanging c flag
  case placed =>
    intro d taken
    rw [keeps.waiting, still]
    exact books.placed d taken
  case owed =>
    rw [still]
    exact books.owed
  case collects =>
    rw [still]
    intro d m c pid rest mm
    rw [keeps.pParent]
    exact books.collects d m c pid rest mm

-- MM goes on. Nobody is waiting or dead who was not before, unless the ledger says so.
theorem Books.turns (books : Books ledger s)
    (waiting : ∀ d, (t.kernel.procTable d).pFlags.waiting = true →
      (s.kernel.procTable d).pFlags.waiting = true ∨ ledger.taken d .wait)
    (hanging : ∀ c, (t.kernel.procTable c).pFlags.hanging = true →
      (s.kernel.procTable c).pFlags.hanging = true ∧
          (t.kernel.procTable c).exitStatus = (s.kernel.procTable c).exitStatus ∧
          (∀ pid rest, s.mm ≠ .release c pid rest) ∨
        ledger.dead c (t.kernel.procTable c).exitStatus)
    (placed : ∀ d, (s.kernel.procTable d).pFlags.waiting = true ∨ s.mm.Answering d →
      (t.kernel.procTable d).pFlags.waiting = true ∨ t.mm.Answering d)
    (owed : t.mm.Owed ledger)
    (collects : ∀ d m c pid rest, t.mm = .collect d m c pid rest →
      m.pid = c ∧ (t.kernel.procTable c).pParent = d) : Books ledger t := by
  refine ⟨?_, ?_, fun d taken => placed d (books.placed d taken), owed, collects⟩
  · intro d flag
    rcases waiting d flag with before | taken
    · exact books.waiting d before
    · exact taken
  · intro c flag
    rcases hanging c flag with ⟨before, status, notReleased⟩ | dead
    · rw [status]
      rcases books.hanging c before with dead | ⟨pid, rest, release⟩
      · exact .inl dead
      · exact absurd release (notReleased pid rest)
    · exact .inl dead

theorem Books.request (books : Books ledger s) (safe' : Safe t) (keeps : Keeps s.kernel t.kernel)
    (main : s.mm = .main) (serve : t.mm = .serve m) : Books (ledger.next s t) t := by
  have tells (d : Int) (m' : Message) : ¬ Tells d m' s t :=
    not_tells_of_call (by rw [main]; exact fun _ _ => nofun)
  have asked : Asks m.source m.type s t := ⟨main, m, serve, rfl, rfl⟩
  constructor
  case waiting =>
    intro d flag
    rw [keeps.waiting] at flag
    exact .inr ⟨books.waiting d flag, fun ⟨m', told⟩ => tells d m' told⟩
  case hanging =>
    intro c flag
    have alive := (safe'.server_of_serve serve).2
    have others (status : Int) : ¬ Exits c status s t := by
      rintro ⟨-, m', serve', rfl, -⟩
      rw [serve] at serve'
      cases serve'
      rw [alive.2.1] at flag
      cases flag
    rw [keeps.hanging] at flag
    rw [keeps.exitStatus]
    obtain dead | ⟨pid, rest, release⟩ := books.hanging c flag
    · refine .inl (.inr ⟨dead, ?_⟩)
      rintro (⟨status', exits⟩ | ⟨d, m', told⟩)
      · exact others status' exits
      · exact tells d m' told.1
    · rw [main] at release
      cases release
  case placed =>
    intro d taken
    obtain ⟨-, m', serve', source, isWait⟩ | ⟨taken, -⟩ := taken
    · exact .inr (.inl ⟨m', serve', source, isWait⟩)
    · rw [keeps.waiting]
      obtain waiting | ⟨m', serve', -⟩ | ⟨m', c, pid, rest, collect⟩ | ⟨m', reply, -⟩ :=
        books.placed d taken
      · exact .inl waiting
      · rw [main] at serve'
        cases serve'
      · rw [main] at collect
        cases collect
      · rw [main] at reply
        cases reply
  case owed =>
    rw [serve]
    exact ⟨.inl asked, fun isExit => .inl ⟨main, m, serve, rfl, isExit, rfl⟩⟩
  case collects =>
    rw [serve]
    exact fun _ _ _ _ _ => nofun

theorem Books.message_got (books : Books ledger s) (safe' : Safe t)
    (keeps : Keeps s.kernel t.kernel)
    (waits : s.mm.call = some (.receive src)) (got : t.mm = s.mm.got m) :
    Books (ledger.next s t) t := by
  by_cases request : s.mm = .main ∧ t.mm = .serve m
  next => exact books.request safe' keeps request.1 request.2
  next =>
    have same : ledger.next s t = ledger := by
      refine Ledger.next_same ?_ (fun d m' => not_tells_of_call ?_)
        (fun _ => not_frees_of_keeps keeps)
      · rintro d type ⟨main, m', serve, -⟩
        rw [main] at got
        rw [got] at serve
        cases isType : m.type <;> simp only [Mm.got, isType] at serve <;> cases serve
        all_goals exact request ⟨main, by rw [got]; simp only [Mm.got, isType]⟩
      · intro d m' sends
        rw [waits] at sends
        cases sends
    rw [same]
    refine books.turns (fun d flag => .inl ?_) (fun c flag => .inl ?_) (fun d before => ?_) ?_ ?_
    · rw [← keeps.waiting]
      exact flag
    · rw [keeps.hanging] at flag
      refine ⟨flag, keeps.exitStatus c, ?_⟩
      intro pid rest release
      rw [release] at waits
      cases waits
    · rw [keeps.waiting]
      obtain waiting | ⟨m', mm, -⟩ | ⟨m', c, pid, rest, mm⟩ | ⟨m', mm, -⟩ := before
      · exact .inl waiting
      all_goals
        rw [mm] at waits
        cases waits
    · have owed := books.owed
      cases mm : s.mm with
      | main =>
        rw [mm] at got
        cases isType : m.type <;> simp only [Mm.got, isType] at got <;> rw [got]
        all_goals first | trivial | exact absurd ⟨mm, got⟩ request
      | forkWait request child =>
        rw [mm] at got owed
        rw [got]
        exact owed
      | exitWait pid parentPid status =>
        rw [mm] at got owed
        rw [got]
        exact owed
      | _ =>
        rw [mm] at waits
        cases waits
    · rw [got]
      exact fun d m' c pid rest collect => absurd collect (Mm.got_ne_collect waits)

-- MM sends only to FS and to its callers, and they are not waiting.
theorem Safe.told_awake (safe : Safe s) (sends : s.mm.call = some (.send d m)) :
    (s.kernel.procTable d).pFlags.waiting = false := by
  have caller (member : d ∈ s.mm.callers) : (s.kernel.procTable d).pFlags.waiting = false :=
    (safe.alive d member).1
  have server (isFs : d = taskFs) : (s.kernel.procTable d).pFlags.waiting = false := by
    refine Bool.eq_false_iff.mpr fun waiting => ?_
    have waits := safe.parked d (.inl waiting)
    rw [isFs] at waits
    exact not_fs_awaits_mm waits
  cases mm : s.mm with
  | forkTell m' child =>
    rw [mm] at sends
    cases sends
    exact server rfl
  | exitTell pid parentPid status =>
    rw [mm] at sends
    cases sends
    exact server rfl
  | birth m' child =>
    rw [mm] at sends caller
    cases sends
    exact caller (List.mem_cons_of_mem _ (List.mem_singleton_self _))
  | reply d' m' =>
    rw [mm] at sends caller
    cases sends
    exact caller (List.mem_singleton_self _)
  | collect d' m' c pid rest =>
    rw [mm] at sends caller
    cases sends
    exact caller (List.mem_singleton_self _)
  | _ =>
    rw [mm] at sends
    cases sends

theorem Books.message_sent (books : Books ledger s) (safe : Safe s)
    (keeps : Keeps s.kernel t.kernel) (sends : s.mm.call = some (.send d m))
    (sent : t.mm = s.mm.sent) : Books (ledger.next s t) t := by
  have asks (d' : Int) (type : MsgType) : ¬ Asks d' type s t := by
    rintro ⟨main, -⟩
    rw [main] at sends
    cases sends
  have exits (c status : Int) : ¬ Exits c status s t := not_exits_of (asks c .exit)
  have frees (c : Int) : ¬ Frees c s t := not_frees_of_keeps keeps
  have only {d' : Int} {m' : Message} (told : Tells d' m' s t) : d' = d := by
    have sends' := told.1
    rw [sends] at sends'
    cases sends'
    rfl
  have taken {d' : Int} {type : MsgType} (before : ledger.taken d' type) (other : d' ≠ d) :
      (ledger.next s t).taken d' type := .inr ⟨before, fun ⟨m', told⟩ => other (only told)⟩
  have dead {c status : Int} (before : ledger.dead c status)
      (alive : ∀ d' m' pid rest, s.mm ≠ .collect d' m' c pid rest) :
      (ledger.next s t).dead c status := by
    refine .inr ⟨before, ?_⟩
    rintro (⟨status', happens⟩ | ⟨d', m', -, pid, rest, mm⟩)
    · exact exits c status' happens
    · exact alive d' m' pid rest mm
  have owed := books.owed
  constructor
  case waiting =>
    intro d' flag
    rw [keeps.waiting] at flag
    refine taken (books.waiting d' flag) ?_
    rintro rfl
    rw [safe.told_awake sends] at flag
    cases flag
  case hanging =>
    intro c flag
    rw [keeps.hanging] at flag
    rw [keeps.exitStatus]
    obtain before | ⟨pid, rest, release⟩ := books.hanging c flag
    · by_cases told : ∃ d' m' pid rest, s.mm = .collect d' m' c pid rest
      · obtain ⟨d', m', pid, rest, mm⟩ := told
        refine .inr ⟨pid, rest, ?_⟩
        rw [sent, mm]
        rfl
      · exact .inl (dead before fun d' m' pid rest mm => told ⟨d', m', pid, rest, mm⟩)
    · rw [release] at sends
      cases sends
  case placed =>
    rintro d' (asked | ⟨before, untold⟩)
    · exact absurd asked (asks d' .wait)
    · rw [keeps.waiting]
      obtain waiting | ⟨m', mm, -⟩ | ⟨m', c, pid, rest, mm⟩ | ⟨m', mm, -⟩ :=
        books.placed d' before
      · exact .inl waiting
      · rw [mm] at sends
        cases sends
      all_goals
        refine absurd ⟨m', ?_, sent⟩ untold
        rw [mm]
        rfl
  case owed =>
    rw [sent]
    cases mm : s.mm with
    | forkTell m' child =>
      rw [mm] at owed sends
      cases sends
      refine taken owed ?_
      have caller : m'.source ∈ s.mm.clients := by
        rw [mm]
        exact List.mem_cons_self ..
      exact (user_of_awaits_mm (safe.mm_client caller)).2.2.2.1
    | exitTell pid parentPid status =>
      rw [mm] at owed
      refine dead owed ?_
      rw [mm]
      exact fun _ _ _ _ => nofun
    | birth m' child =>
      rw [mm] at owed sends
      cases sends
      refine .inl (taken owed ?_)
      have once := safe.once
      rw [mm] at once
      exact fun same => List.nodup_cons.mp once |>.1 (same ▸ List.mem_singleton_self _)
    | reply d' m' => trivial
    | collect d' m' c pid rest =>
      refine .inl ⟨d', m', ⟨?_, sent⟩, pid, rest, mm⟩
      rw [mm]
      rfl
    | _ =>
      rw [mm] at sends
      cases sends
  case collects =>
    rw [sent]
    exact fun d' m' c pid rest collect => absurd collect (Mm.sent_ne_collect sends)

-- What MM does between two calls is no event of the ledger, but that it may free a slot.
theorem MmThinks.next (thinks : MmThinks s t) :
    ledger.next s t = { ledger with told := (ledger.next s t).told } := by
  have silent : s.mm.call = none := by
    cases thinks <;> simp only [*, Mm.call]
  have tells (d : Int) (m : Message) : ¬ Tells d m s t :=
    not_tells_of_call (by rw [silent]; exact fun _ _ => nofun)
  have asks (d : Int) (type : MsgType) : ¬ Asks d type s t := by
    rintro ⟨main, -⟩
    rw [main] at silent
    cases silent
  have exits (c status : Int) : ¬ Exits c status s t := not_exits_of (asks c .exit)
  have reports (c d : Int) (m : Message) : ¬ Reports c d m s t := fun told => tells d m told.1
  cases ledger
  simp [Ledger.next, asks, tells, exits, reports]

theorem MmThinks.not_release (thinks : MmThinks s t) (c pid : Int) (rest : List Int) :
    t.mm ≠ .release c pid rest := by
  cases thinks <;> exact nofun

theorem Mm.Owed.told {mm : Mm} (owed : mm.Owed ledger)
    (notReleased : ∀ c pid rest, mm ≠ .release c pid rest) (told : Int → Prop) :
    mm.Owed { ledger with told := told } := by
  cases mm with
  | release c pid rest => exact absurd rfl (notReleased c pid rest)
  | _ => exact owed

theorem Books.told (books : Books ledger s) (notReleased : ∀ c pid rest, s.mm ≠ .release c pid rest)
    (told : Int → Prop) : Books { ledger with told := told } s :=
  ⟨books.waiting, books.hanging, books.placed, books.owed.told notReleased told, books.collects⟩

theorem Books.serves (books : Books ledger s) (mm : s.mm = .serve m) :
    ledger.taken m.source m.type ∧ (m.type = .exit → ledger.dead m.source m.status) := by
  have owed := books.owed
  rw [mm] at owed
  exact owed

theorem not_answering_of {mm : Mm} (notServe : ∀ m, mm ≠ .serve m)
    (notSends : mm.call = none) : ¬ mm.Answering d := by
  rintro (⟨m, rfl, -⟩ | ⟨m, c, pid, rest, rfl⟩ | ⟨m, rfl, -⟩)
  · exact notServe m rfl
  · cases notSends
  · cases notSends

theorem answering_serve (answering : (Mm.serve m).Answering d) : m.source = d ∧ m.type = .wait := by
  obtain ⟨m', serve, isSource, isWait⟩ | ⟨m', c, pid, rest, collect⟩ | ⟨m', reply, -⟩ := answering
  · cases serve
    exact ⟨isSource, isWait⟩
  · cases collect
  · cases reply

theorem Books.answer (books : Books ledger s) {answer : Message} (mm : s.mm = .serve m)
    (nothing : m.type = .fork ∨ m.type = .wait ∧ answer.pid = noTask) :
    Books ledger { s with mm := .reply m.source answer } := by
  obtain ⟨taken, -⟩ := books.serves mm
  refine books.turns (fun d flag => .inl flag) (fun c flag => .inl ⟨flag, rfl, ?_⟩)
    (fun d before => before.imp_right fun answering => ?_) ?_
    fun _ _ _ _ _ => nofun
  · rw [mm]
    exact fun _ _ => nofun
  · rw [mm] at answering
    obtain ⟨rfl, isWait⟩ := answering_serve answering
    rcases nothing with isFork | ⟨-, isNone⟩
    · rw [isWait] at isFork
      cases isFork
    · exact .inr (.inr ⟨answer, rfl, isNone⟩)
  · rcases nothing with isFork | ⟨isWait, isNone⟩
    · rw [isFork] at taken
      exact .inl taken
    · rw [isWait] at taken
      exact .inr ⟨taken, isNone⟩

theorem Books.elsewhere (books : Books ledger s) (mm : Mm) (before : ∀ d, ¬ s.mm.Answering d)
    (notReleased : ∀ c pid rest, s.mm ≠ .release c pid rest)
    (waiting : ∀ d, (k'.procTable d).pFlags.waiting = (s.kernel.procTable d).pFlags.waiting)
    (hanging : ∀ c, (k'.procTable c).pFlags.hanging = true →
      (s.kernel.procTable c).pFlags.hanging = true ∧
          (k'.procTable c).exitStatus = (s.kernel.procTable c).exitStatus ∨
        ledger.dead c (k'.procTable c).exitStatus)
    (owed : mm.Owed ledger) (collects : ∀ d m c pid rest, mm ≠ .collect d m c pid rest)
    (user : Int → User) :
    Books ledger { s with kernel := k', user := user, mm := mm } := by
  refine books.turns (fun d flag => .inl ?_) (fun c flag => ?_) (fun d placed => ?_) owed
    fun d m c pid rest collect => absurd collect (collects d m c pid rest)
  · rw [← waiting]
    exact flag
  · exact (hanging c flag).imp_left fun ⟨hung, status⟩ => ⟨hung, status, notReleased c⟩
  · rcases placed with flag | answering
    · refine .inl ?_
      rw [← waiting] at flag
      exact flag
    · exact absurd answering (before d)

theorem Books.fork (books : Books ledger s) (safe : Safe s) {memorySize child : Int}
    (mm : s.mm = .serve m) (isFork : m.type = .fork) (found : Mm.freeSlot s.kernel = some child)
    (done : Mm.duplicate memorySize s.kernel m.source child = .ok k') :
    Books ledger { s with
      kernel := k'
      user := Function.update s.user child (s.user m.source)
      mm := .forkTell m child } := by
  obtain ⟨taken, -⟩ := books.serves mm
  obtain ⟨waits, alive⟩ := safe.server_of_serve mm
  obtain ⟨-, slot⟩ := Mm.freeSlot_found found
  obtain ⟨others, base, copied⟩ := Mm.duplicate_copies done
  have flags : (k'.procTable child).pFlags = (s.kernel.procTable m.source).pFlags := by
    rw [copied]
    rfl
  refine books.elsewhere (.forkTell m child) ?_ ?_ ?_ ?_ ?_ (fun _ _ _ _ _ => nofun) _
  · intro d answering
    rw [mm] at answering
    obtain ⟨-, isWait⟩ := answering_serve answering
    rw [isFork] at isWait
    cases isWait
  · rw [mm]
    exact fun _ _ => nofun
  · intro d
    by_cases same : d = child
    · rw [same, flags, alive.1, slot]
      rfl
    · rw [others d same]
  · intro c flag
    by_cases same : c = child
    · rw [same, flags, alive.2.1] at flag
      cases flag
    · rw [others c same] at flag ⊢
      exact .inl ⟨flag, rfl⟩
  · rw [isFork] at taken
    exact taken

theorem Books.exit (books : Books ledger s) (mm : s.mm = .serve m) (isExit : m.type = .exit)
    (parentPid : Int) : Books ledger { s with mm := .exitTell m.source parentPid m.status } := by
  obtain ⟨-, dead⟩ := books.serves mm
  refine books.elsewhere (.exitTell m.source parentPid m.status) ?_ ?_
    (fun d => rfl) (fun c flag => .inl ⟨flag, rfl⟩) (dead isExit) (fun _ _ _ _ _ => nofun) s.user
  · intro d answering
    rw [mm] at answering
    obtain ⟨-, isWait⟩ := answering_serve answering
    rw [isExit] at isWait
    cases isWait
  · rw [mm]
    exact fun _ _ => nofun

theorem Books.collect (books : Books ledger s) {child : Int} (mm : s.mm = .serve m)
    (isWait : m.type = .wait) (parent : (s.kernel.procTable child).pParent = m.source)
    (hanging : (s.kernel.procTable child).pFlags.hanging = true) :
    Books ledger { s with mm := mmThink.collecting s.kernel child m.source [] } := by
  obtain ⟨taken, -⟩ := books.serves mm
  refine books.turns (fun d flag => .inl flag) (fun c flag => .inl ⟨flag, rfl, ?_⟩)
    (fun d before => before.imp_right fun answering => ?_) ⟨?_, ?_⟩ ?_
  · rw [mm]
    exact fun _ _ => nofun
  · rw [mm] at answering
    obtain ⟨rfl, -⟩ := answering_serve answering
    rw [← parent]
    exact .inr (.inl ⟨_, _, _, _, rfl⟩)
  · rw [isWait, ← parent] at taken
    exact taken
  · obtain dead | ⟨pid, rest, release⟩ := books.hanging child hanging
    · exact dead
    · rw [mm] at release
      cases release
  · rintro d m' c pid rest collect
    cases collect
    exact ⟨rfl, rfl⟩

theorem waits_fields (k : State) (pid c : Int) :
    ((k.modify pid Mm.Proc.waits).procTable c).pFlags.hanging = (k.procTable c).pFlags.hanging ∧
      ((k.modify pid Mm.Proc.waits).procTable c).exitStatus = (k.procTable c).exitStatus := by
  constructor
  · exact State.modify_field (f := Mm.Proc.waits) (·.pFlags.hanging) k pid c fun _ => rfl
  · exact State.modify_field (f := Mm.Proc.waits) (·.exitStatus) k pid c fun _ => rfl

theorem Books.wait (books : Books ledger s) (mm : s.mm = .serve m) (isWait : m.type = .wait) :
    Books ledger { s with kernel := s.kernel.modify m.source Mm.Proc.waits, mm := .main } := by
  obtain ⟨taken, -⟩ := books.serves mm
  rw [isWait] at taken
  refine books.turns (fun d flag => ?_) (fun c flag => ?_) (fun d before => ?_) trivial
    fun _ _ _ _ _ => nofun
  · by_cases same : d = m.source
    · subst same
      exact .inr taken
    · rw [State.modify_other _ _ same] at flag
      exact .inl flag
  · obtain ⟨hangs, status⟩ := waits_fields s.kernel m.source c
    refine .inl ⟨hangs.symm.trans flag, status, ?_⟩
    rw [mm]
    exact fun _ _ => nofun
  · refine .inl ?_
    by_cases same : d = m.source
    · subst same
      rw [State.modify_self]
      rfl
    · rw [State.modify_other _ _ same]
      rcases before with flag | answering
      · exact flag
      · rw [mm] at answering
        exact absurd (answering_serve answering).1.symm same

theorem Books.cleanup (books : Books ledger s) {proc pid : Int} {rest : List Int}
    (idle : ∀ d, ¬ s.mm.Answering d) (notReleased : ∀ c pid rest, s.mm ≠ .release c pid rest)
    (waited : (s.kernel.procTable (k'.procTable proc).pParent).pFlags.waiting = true)
    (others : ∀ d, d ≠ (k'.procTable proc).pParent →
      (k'.procTable d).pFlags.waiting = (s.kernel.procTable d).pFlags.waiting)
    (hanging : ∀ c, (k'.procTable c).pFlags.hanging = true →
      (s.kernel.procTable c).pFlags.hanging = true ∧
        (k'.procTable c).exitStatus = (s.kernel.procTable c).exitStatus)
    (dead : ledger.dead proc (k'.procTable proc).exitStatus) :
    Books ledger { s with kernel := k', mm := mmThink.collecting k' proc pid rest } := by
  refine books.turns (fun d flag => .inl ?_) (fun c flag => .inl ?_) (fun d before => ?_)
    ⟨books.waiting _ waited, dead⟩ ?_
  · by_cases same : d = (k'.procTable proc).pParent
    · subst same
      exact waited
    · rw [← others d same]
      exact flag
  · obtain ⟨hung, status⟩ := hanging c flag
    exact ⟨hung, status, notReleased c⟩
  · by_cases same : d = (k'.procTable proc).pParent
    · subst same
      exact .inr (.inr (.inl ⟨_, _, _, _, rfl⟩))
    · refine .inl ?_
      rcases before with flag | answering
      · exact (others d same).trans flag
      · exact absurd answering (idle d)
  · rintro d m c pid rest collect
    cases collect
    exact ⟨rfl, rfl⟩

theorem Books.report (books : Books ledger s) (safe : Safe s) {pid parentPid status : Int}
    (mm : s.mm = .leave pid parentPid status)
    (waiting : (s.kernel.procTable parentPid).pFlags.waiting = true)
    (after : k' = (s.kernel.modify pid (Mm.Proc.exits status)).modify parentPid
      Mm.Proc.stopsWaiting) :
    Books ledger { s with kernel := k', mm := mmThink.collecting k' pid pid Mm.slots } := by
  have isParent := safe.parent pid parentPid status (.inr (.inr mm))
  have alive := (safe.server_of_leave mm).2
  have fields (c : Int) := (report_fields after c).1
  have parent : (k'.procTable pid).pParent = parentPid := (fields pid).2.2.trans isParent
  have statuses (c : Int) : (k'.procTable c).exitStatus =
      ((s.kernel.modify pid (Mm.Proc.exits status)).procTable c).exitStatus := by
    rw [after]
    exact State.modify_field (f := Mm.Proc.stopsWaiting) (·.exitStatus) _ _ _ fun _ => rfl
  have dead := books.owed
  rw [mm] at dead
  refine books.cleanup ?_ ?_ ?_ ?_ ?_ ?_
  · rw [mm]
    exact fun d => not_answering_of (fun _ => nofun) rfl
  · rw [mm]
    exact fun _ _ _ => nofun
  · rw [parent]
    exact waiting
  · intro d other
    rw [parent] at other
    rw [after, State.modify_other _ _ other, exits_flags]
  · intro c flag
    rw [(fields c).1] at flag
    refine ⟨flag, (statuses c).trans ?_⟩
    refine congrArg Proc.exitStatus (State.modify_other _ _ ?_)
    rintro rfl
    rw [alive.2.1] at flag
    cases flag
  · rw [statuses pid, State.modify_self]
    exact dead

theorem Books.hang (books : Books ledger s) {pid parentPid status : Int}
    (mm : s.mm = .leave pid parentPid status)
    (after : k' = (s.kernel.modify pid (Mm.Proc.exits status)).modify pid Mm.Proc.hangs) :
    Books ledger { s with kernel := k', mm := .adopt pid Mm.slots } := by
  have fields (c : Int) := hang_fields after c
  have dead := books.owed
  rw [mm] at dead
  refine books.elsewhere (.adopt pid Mm.slots) ?_ ?_ (fun d => (fields d).1.1) ?_ trivial
    (fun _ _ _ _ _ => nofun) s.user
  · rw [mm]
    exact fun d => not_answering_of (fun _ => nofun) rfl
  · rw [mm]
    exact fun _ _ _ => nofun
  · intro c flag
    by_cases same : c = pid
    · subst same
      refine .inr ?_
      rw [after, State.modify_self, State.modify_self]
      exact dead
    · rw [(fields c).2 same] at flag
      refine .inl ⟨flag, ?_⟩
      rw [after, State.modify_other _ _ same, State.modify_other _ _ same]

section Adopt

variable {pid i : Int} {rest : List Int}

theorem Books.adopts (books : Books ledger s) {left : List Int} (mm : s.mm = .adopt pid left)
    (next_ : Mm) (goes : next_ = .main ∨ ∃ rest, next_ = .adopt pid rest)
    (flags : ∀ c, (k'.procTable c).pFlags = (s.kernel.procTable c).pFlags)
    (status : ∀ c, (k'.procTable c).exitStatus = (s.kernel.procTable c).exitStatus) :
    Books ledger { s with kernel := k', mm := next_ } := by
  refine books.elsewhere next_ ?_ ?_ (fun d => ?_) (fun c flag => .inl ⟨?_, status c⟩) ?_ ?_ s.user
  · rw [mm]
    exact fun d => not_answering_of (fun _ => nofun) rfl
  · rw [mm]
    exact fun _ _ _ => nofun
  · rw [flags]
  · rw [← flags]
    exact flag
  · rcases goes with rfl | ⟨rest, rfl⟩ <;> trivial
  · rcases goes with rfl | ⟨rest, rfl⟩ <;> exact fun _ _ _ _ _ => nofun

theorem Books.relay (books : Books ledger s) (mm : s.mm = .adopt pid (i :: rest))
    (waiting : (s.kernel.procTable initPid).pFlags.waiting = true)
    (hanging : (s.kernel.procTable i).pFlags.hanging = true)
    (after : k' = (s.kernel.modify i Mm.Proc.adopted).modify initPid Mm.Proc.stopsWaiting) :
    Books ledger { s with kernel := k', mm := mmThink.collecting k' i pid rest } := by
  have statuses (c : Int) : (k'.procTable c).exitStatus = (s.kernel.procTable c).exitStatus := by
    rw [after, State.modify_field (f := Mm.Proc.stopsWaiting) (·.exitStatus) _ _ _ fun _ => rfl]
    exact State.modify_field (f := Mm.Proc.adopted) (·.exitStatus) _ _ _ fun _ => rfl
  have parent : (k'.procTable i).pParent = initPid := by
    rw [after, Mm.modify_pParent _ _ _ Mm.Proc.stopsWaiting fun _ => rfl, adopted_parent,
      if_pos rfl]
  refine books.cleanup ?_ ?_ ?_ ?_ ?_ ?_
  · rw [mm]
    exact fun d => not_answering_of (fun _ => nofun) rfl
  · rw [mm]
    exact fun _ _ _ => nofun
  · rw [parent]
    exact waiting
  · intro d other
    rw [parent] at other
    rw [after, State.modify_other _ _ other, adopted_flags]
  · intro c flag
    rw [after, State.modify_field (f := Mm.Proc.stopsWaiting) (·.pFlags.hanging) _ _ _ fun _ => rfl,
      adopted_flags] at flag
    exact ⟨flag, statuses c⟩
  · rw [statuses i]
    obtain dead | ⟨pid', rest', release⟩ := books.hanging i hanging
    · exact dead
    · rw [mm] at release
      cases release

end Adopt

theorem Books.release (books : Books ledger s) {proc pid : Int} {rest : List Int}
    (mm : s.mm = .release proc pid rest) (idle : (s.kernel.procTable proc).pFlags.waiting = false) :
    Books ledger { s with
      kernel := s.kernel.modify proc Mm.Proc.released
      user := Function.update s.user proc .absent
      mm := .adopt pid rest } := by
  refine ⟨?_, ?_, ?_, trivial, fun _ _ _ _ _ => nofun⟩
  · intro d flag
    by_cases same : d = proc
    · subst same
      rw [State.modify_self] at flag
      cases flag
    · rw [State.modify_other _ _ same] at flag
      exact books.waiting d flag
  · intro c flag
    by_cases same : c = proc
    · subst same
      rw [State.modify_self] at flag
      cases flag
    · rw [State.modify_other _ _ same] at flag ⊢
      obtain dead | ⟨pid', rest', release⟩ := books.hanging c flag
      · exact .inl dead
      · rw [mm] at release
        cases release
        exact absurd rfl same
  · intro d taken
    refine .inl ?_
    rcases books.placed d taken with flag | answering
    · have other : d ≠ proc := by
        rintro rfl
        rw [idle] at flag
        cases flag
      rw [State.modify_other _ _ other]
      exact flag
    · rw [mm] at answering
      exact absurd answering (not_answering_of (fun _ => nofun) rfl)

theorem Books.mmThinks (books : Books ledger s) (safe : Safe s) (thinks : MmThinks s t) :
    Books (ledger.next s t) t := by
  rw [thinks.next]
  refine Books.told ?_ thinks.not_release _
  cases thinks with
  | answer m answer mm nothing => exact books.answer mm nothing
  | fork memorySize m child k' mm isFork found above done =>
    exact books.fork safe mm isFork found done
  | exit m mm isExit => exact books.exit mm isExit _
  | collect m child mm isWait found =>
    obtain ⟨-, parent, hanging⟩ := Mm.scan_hanging found
    exact books.collect mm isWait parent hanging
  | wait m count mm isWait found => exact books.wait mm isWait
  | report pid parentPid status mm waiting => exact books.report safe mm waiting rfl
  | hang pid parentPid status mm busy => exact books.hang mm rfl
  | done pid mm => exact books.adopts mm .main (.inl rfl) (fun _ => rfl) fun _ => rfl
  | skip pid i rest mm other =>
    exact books.adopts mm (.adopt pid rest) (.inr ⟨rest, rfl⟩) (fun _ => rfl) fun _ => rfl
  | adopt pid i rest mm child quiet =>
    refine books.adopts mm (.adopt pid rest) (.inr ⟨rest, rfl⟩) (adopted_flags _ i) fun c => ?_
    exact State.modify_field (f := Mm.Proc.adopted) (·.exitStatus) _ _ _ fun _ => rfl
  | relay pid i rest mm child waiting hanging => exact books.relay mm waiting hanging rfl
  | release proc pid rest mm =>
    refine books.release mm (safe.dying proc ?_)
    rw [mm]
    exact List.mem_singleton_self _

theorem Books.thinks (books : Books ledger s) (safe : Safe s) (thinks : Thinks s p t) :
    Books (ledger.next s t) t := by
  cases thinks with
  | mm memorySize thinks => exact books.mmThinks safe (mmThinks_of thinks)
  | _ => exact books.still (Keeps.refl _) rfl

theorem Books.moves (books : Books ledger s) (safe : Safe s) (safe' : Safe t) (moves : Moves s t) :
    Books (ledger.next s t) t := by
  cases moves with
  | message k' keeps p d src m sends waits admits after =>
    have distinct := distinct_of_calls sends waits
    have kernel : t.kernel = k' := by
      rw [after, System.transfer, got_kernel, sent_kernel]
    have keeps' : Keeps s.kernel t.kernel := by
      rw [kernel]
      exact keeps
    have mm := transfer_mm (s := { s with kernel := k' }) (m := m) distinct
    rw [← after] at mm
    obtain ⟨rfl, got⟩ | ⟨rfl, sent⟩ | ⟨-, -, same⟩ := mm
    · rw [call_mm] at waits
      exact books.message_got safe' keeps' waits got
    · rw [call_mm] at sends
      exact books.message_sent safe keeps' sends sent
    · exact books.still keeps' same
  | interrupt k' keeps d src waits admits after =>
    have keeps' : Keeps s.kernel t.kernel := by
      rw [after, got_kernel]
      exact keeps
    by_cases isMm : d = taskMm
    next =>
      subst isMm
      rw [call_mm] at waits
      exact books.message_got (m := interruptMsg) safe' keeps' waits (by rw [after]; rfl)
    next =>
      refine books.still keeps' ?_
      rw [after, got_mm_other _ _ isMm]
  | think p runs thinks => exact books.thinks safe thinks
  | quiet k' keeps ticks after =>
    subst after
    exact books.still keeps rfl

end Steps

theorem books_run (run : Run Starts Step) {t : Nat} (within : t ≤ run.length) :
    Books (ledgerAt run t) (run.state t) := by
  refine run.timed_invariant (P := fun t => Books (ledgerAt run t)) ?_ ?_ t within
  · rintro s ⟨boots, -, -, mm, -⟩
    have flags := boot_flags boots
    have idle (c : Int) : (s.kernel.procTable c).pFlags.waiting = false ∧
        (s.kernel.procTable c).pFlags.hanging = false := by
      rw [flags c]
      split <;> exact ⟨rfl, rfl⟩
    refine ⟨?_, ?_, ?_, ?_, ?_⟩
    · intro d flag
      rw [(idle d).1] at flag
      cases flag
    · intro c flag
      rw [(idle c).2] at flag
      cases flag
    · intro d taken
      have none_ : ¬ Outstanding run d .wait 0 := run.not_since_zero
      exact absurd taken none_
    · rw [mm]
      trivial
    · rw [mm]
      exact fun _ _ _ _ _ => nofun
  · intro t inside books
    have safe := safe_run run inside.le
    rw [ledgerAt_succ]
    exact books.moves safe (safe_run run inside) (safe.moves (run.steps t inside))

section Reports

variable {run : Run Starts Step} {t : Nat}

theorem MmThinks.free {s t : System} {c : Int} (thinks : MmThinks s t) (safe : Safe s)
    (free : (t.kernel.procTable c).pFlags.freeSlot = true) :
    (s.kernel.procTable c).pFlags.freeSlot = true ∨ ∃ pid rest, s.mm = .release c pid rest := by
  cases thinks with
  | fork memorySize m child k' mm isFork found above done =>
    obtain ⟨others, base, copied⟩ := Mm.duplicate_copies done
    by_cases same : c = child
    · subst same
      have alive := (safe.server_of_serve mm).2
      have free' : (s.kernel.procTable m.source).pFlags.freeSlot = true := by
        rw [← free, copied]
        rfl
      rw [alive.2.2] at free'
      cases free'
    · exact .inl (by rw [← others c same]; exact free)
  | wait m count mm isWait found =>
    rw [State.modify_field (f := Mm.Proc.waits) (·.pFlags.freeSlot) _ _ _ fun _ => rfl] at free
    exact .inl free
  | report pid parentPid status mm waiting =>
    have after : (s.kernel.modify pid (Mm.Proc.exits status)).modify parentPid
        Mm.Proc.stopsWaiting = (s.kernel.modify pid (Mm.Proc.exits status)).modify parentPid
        Mm.Proc.stopsWaiting := rfl
    have fields := (report_fields after c).1
    exact .inl (fields.2.1.symm.trans free)
  | hang pid parentPid status mm busy =>
    have after : (s.kernel.modify pid (Mm.Proc.exits status)).modify pid Mm.Proc.hangs =
        (s.kernel.modify pid (Mm.Proc.exits status)).modify pid Mm.Proc.hangs := rfl
    have fields := (hang_fields after c).1
    exact .inl (fields.2.1.symm.trans free)
  | adopt pid i rest mm child quiet =>
    rw [adopted_flags] at free
    exact .inl free
  | relay pid i rest mm child waiting hanging =>
    rw [State.modify_field (f := Mm.Proc.stopsWaiting) (·.pFlags.freeSlot) _ _ _ fun _ => rfl,
      adopted_flags] at free
    exact .inl free
  | release proc pid rest mm =>
    by_cases same : c = proc
    · subst same
      exact .inr ⟨pid, rest, mm⟩
    · rw [State.modify_other _ _ same] at free
      exact .inl free
  | _ => exact .inl free

-- A slot becomes free only when MM releases its process.
theorem Moves.frees {s t : System} {c : Int} (moves : Moves s t) (safe : Safe s)
    (frees : Frees c s t) : ∃ pid rest, s.mm = .release c pid rest := by
  have moved (same : t.kernel = s.kernel ∨ Keeps s.kernel t.kernel) : False := by
    rcases same with same | keeps
    · exact not_frees_of_keeps (by rw [same]) frees
    · exact not_frees_of_keeps keeps frees
  cases moves with
  | message k' keeps p d src m sends waits admits after =>
    refine (moved (.inr ?_)).elim
    rw [after, System.transfer, got_kernel, sent_kernel]
    exact keeps
  | interrupt k' keeps d src waits admits after =>
    refine (moved (.inr ?_)).elim
    rw [after, got_kernel]
    exact keeps
  | quiet k' keeps ticks after =>
    refine (moved (.inr ?_)).elim
    rw [after]
    exact keeps
  | think p runs thinks =>
    cases thinks with
    | mm memorySize thinks =>
      obtain free | releases := (mmThinks_of thinks).free safe frees.2
      · rw [frees.1] at free
        cases free
      · exact releases
    | _ => exact (moved (.inl rfl)).elim

theorem report_stems (within : t ≤ run.length) {s' : System} {c d : Int} {m : Message}
    (reports : Reports c d m (run.state t) s') :
    m.pid = c ∧ ((run.state t).kernel.procTable c).pParent = d ∧ Outstanding run d .wait t ∧
      Unreported run c m.status t := by
  obtain ⟨-, pid, rest, mm⟩ := reports
  have books := books_run run within
  have owed := books.owed
  rw [mm] at owed
  obtain ⟨isPid, parent⟩ := books.collects d m c pid rest mm
  exact ⟨isPid, parent, owed⟩

theorem tells_request (within : t ≤ run.length) {s' : System} {d : Int} {m : Message}
    (tells : Tells d m (run.state t) s') :
    d = taskFs ∨ (∃ request, (run.state t).mm = .birth request d) ∨
      Outstanding run d .fork t ∨ Outstanding run d .wait t := by
  have owed := (books_run run within).owed
  have sends := tells.1
  cases mm : (run.state t).mm with
  | forkTell request child =>
    rw [mm] at sends
    cases sends
    exact .inl rfl
  | exitTell pid parentPid status =>
    rw [mm] at sends
    cases sends
    exact .inl rfl
  | birth request child =>
    rw [mm] at sends
    cases sends
    exact .inr (.inl ⟨request, rfl⟩)
  | reply d' m' =>
    rw [mm] at sends owed
    cases sends
    exact .inr (.inr (owed.imp_right And.left))
  | collect d' m' c pid rest =>
    rw [mm] at sends owed
    cases sends
    exact .inr (.inr (.inr owed.1))
  | _ =>
    rw [mm] at sends
    cases sends

-- What MM answers to a WAIT is the report of a child, or that there is none.
theorem wait_answer (within : t ≤ run.length) {s' : System} {d : Int} {m : Message}
    (tells : Tells d m (run.state t) s') (waits : Outstanding run d .wait t)
    (named : m.pid ≠ noTask) : ∃ c, Reports c d m (run.state t) s' := by
  have sends := tells.1
  have awake := (safe_run run within).told_awake sends
  obtain waiting | ⟨m', mm, -⟩ | ⟨m', c, pid, rest, mm⟩ | ⟨m', mm, nothing⟩ :=
    (books_run run within).placed d waits
  · rw [awake] at waiting
    cases waiting
  · rw [mm] at sends
    cases sends
  · rw [mm] at sends
    cases sends
    exact ⟨c, tells, pid, rest, mm⟩
  · rw [mm] at sends
    cases sends
    exact absurd nothing named

/--
A report of MM stems from an EXIT with its status that has not been reported, and answers a WAIT of
the parent. A process that waits is told of such an EXIT or of nothing, and MM sends a process
nothing but answers. A slot becomes free only after the report of its process.
-/
theorem exit_reported_once (run : Run Starts Step) {t : Nat} (inside : t < run.length) :
    (∀ c d m, Reports c d m (run.state t) (run.state (t + 1)) →
      m.pid = c ∧ ((run.state t).kernel.procTable c).pParent = d ∧ Outstanding run d .wait t ∧
        Unreported run c m.status t) ∧
    (∀ c d d' m m' r, Reports c d m (run.state t) (run.state (t + 1)) → r < t →
      Reports c d' m' (run.state r) (run.state (r + 1)) →
      ∃ e, r ≤ e ∧ e < t ∧ Exits c m.status (run.state e) (run.state (e + 1))) ∧
    (∀ d m, Tells d m (run.state t) (run.state (t + 1)) → Outstanding run d .wait t →
      m.pid ≠ noTask → ∃ c, Reports c d m (run.state t) (run.state (t + 1))) ∧
    (∀ d m m' r, Tells d m (run.state t) (run.state (t + 1)) → r < t →
      Tells d m' (run.state r) (run.state (r + 1)) →
      d = taskFs ∨ (∃ request, (run.state t).mm = .birth request d) ∨
        ∃ e type, r ≤ e ∧ e < t ∧ Asks d type (run.state e) (run.state (e + 1))) ∧
    ∀ c, Frees c (run.state t) (run.state (t + 1)) → Reported run c t := by
  refine ⟨?_, ?_, ?_, ?_, ?_⟩
  · exact fun c d m => report_stems inside.le
  · intro c d d' m m' r reports before earlier
    obtain ⟨-, -, -, unreported⟩ := report_stems inside.le reports
    exact Run.since_between unreported before (.inr ⟨d', m', earlier⟩)
  · exact fun d m => wait_answer inside.le
  · intro d m m' r tells before earlier
    obtain isFs | birth | forks | waits := tells_request inside.le tells
    · exact .inl isFs
    · exact .inr (.inl birth)
    · obtain ⟨e, after, until_, asks⟩ := Run.since_between forks before ⟨m', earlier⟩
      exact .inr (.inr ⟨e, .fork, after, until_, asks⟩)
    · obtain ⟨e, after, until_, asks⟩ := Run.since_between waits before ⟨m', earlier⟩
      exact .inr (.inr ⟨e, .wait, after, until_, asks⟩)
  · intro c frees
    have safe := safe_run run inside.le
    obtain ⟨pid, rest, mm⟩ := (safe.moves (run.steps t inside)).frees safe frees
    have owed := (books_run run inside.le).owed
    rw [mm] at owed
    exact owed

end Reports

section Samples

set_option maxRecDepth 4096 in
theorem exit_reported_once_life :
    Reports 9 initPid report (lifeRun.state 29) (lifeRun.state 30) ∧
    Outstanding lifeRun initPid .wait 29 ∧ Unreported lifeRun 9 7 29 := by
  have reports : Reports 9 initPid report (lifeRun.state 29) (lifeRun.state 30) := by
    have mm : (lifeRun.state 29).mm = .collect initPid report 9 9 Mm.slots := rfl
    refine ⟨⟨?_, rfl⟩, 9, Mm.slots, mm⟩
    rw [mm]
    rfl
  have inside : 29 < lifeRun.length := by decide
  obtain ⟨-, -, waits, unreported⟩ := (exit_reported_once lifeRun inside).1 9 initPid report reports
  exact ⟨reports, waits, unreported⟩

end Samples

end Konix.Servers
