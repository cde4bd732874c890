import Konix.Mm.Waiting
import Konix.Servers.Programs

set_option autoImplicit false

namespace Konix.Servers

open Kernel

-- The process a server is working for.
def Fs.client : Fs → Option Int
  | .work src _ => some src
  | .disk client _ => client.map Prod.fst
  | .diskWait client => client.map Prod.fst
  | .tty src _ _ _ => some src
  | .ttyWait src _ => some src
  | .reply dest _ => some dest
  | _ => none

def Hd.client : Hd → Option Int
  | .work src => some src
  | .tick src => some src
  | .tickWait src => some src
  | .intr src => some src
  | .reply dest _ => some dest
  | _ => none

def Tty.client : Tty → Option Int
  | .answer dest _ => some dest
  | _ => none

def Sys.client : Sys → Option Int
  | .reply dest _ => some dest
  | _ => none

-- Those that MM will answer, and those that it will release.
def Mm.callers : Mm → List Int
  | .serve m => [m.source]
  | .forkTell m child => [m.source, child]
  | .forkWait m child => [m.source, child]
  | .birth m child => [m.source, child]
  | .reply dest _ => [dest]
  | .exitTell pid _ _ => [pid]
  | .exitWait pid _ _ => [pid]
  | .leave pid _ _ => [pid]
  | .collect parent _ _ _ _ => [parent]
  | _ => []

def Mm.dying : Mm → List Int
  | .collect _ _ proc _ _ => [proc]
  | .release proc _ _ => [proc]
  | _ => []

def Mm.clients (mm : Mm) : List Int := mm.callers ++ mm.dying

namespace System

variable (s : System)

-- A process waits for input on a line, or is about to be told that it has it.
def Reads (i : Int) : Prop := (s.lines i).leftCnt ≠ 0 ∨ s.tty = .resume i

end System

/-- The server `d` has a message of `c` that it has not answered. -/
inductive Owes (s : System) : Int → Int → Prop
  | fs {c : Int} (client : s.fs.client = some c) : Owes s taskFs c
  | reader (i : Int) (reads : s.Reads i) : Owes s taskFs (s.lines i).procnr
  | mm {c : Int} (client : c ∈ s.mm.clients) : Owes s taskMm c
  | hd {c : Int} (client : s.hd.client = some c) : Owes s taskHd c
  | tty {c : Int} (client : s.tty.client = some c) : Owes s taskTty c
  | sys {c : Int} (client : s.sys.client = some c) : Owes s taskSys c

/-- Whoever is owed an answer is waiting for it, and is owed one only once. -/
structure Custody (s : System) : Prop where
  debts : ∀ d c, Owes s d c → s.call c = some (.receive d)
  readers : ∀ i, s.Reads i → (s.lines i).caller = taskFs
  apart : ∀ i j, s.Reads i → s.Reads j → (s.lines i).procnr = (s.lines j).procnr → i = j
  reading : ∀ i, s.Reads i → s.fs.client = some (s.lines i).procnr →
    (∃ src, s.fs = .ttyWait src .read) ∧ ∃ dest m, s.tty = .answer dest m ∧ m.type = .suspendProc
  asked : ∀ src type, s.fs = .ttyWait src type → ∃ m, s.tty = .answer taskFs m
  once : s.mm.clients.Nodup

def IsUser (p : Int) : Prop :=
  p ≠ taskTty ∧ p ≠ taskSys ∧ p ≠ taskHd ∧ p ≠ taskFs ∧ p ≠ taskMm

theorem isUser_of_lt {p : Int} (above : taskMm < p) : IsUser p := by
  simp only [IsUser, taskTty, taskSys, taskHd, taskFs, taskMm] at above ⊢
  omega

theorem party (p : Int) : p = taskTty ∨ p = taskSys ∨ p = taskHd ∨ p = taskFs ∨ p = taskMm ∨
    IsUser p := by
  unfold IsUser
  tauto

section Calls

variable (s : System) (m : Message) {p : Int}

theorem call_tty : s.call taskTty = s.tty.call s.lines := rfl
theorem call_sys : s.call taskSys = s.sys.call := rfl
theorem call_hd : s.call taskHd = s.hd.call := rfl
theorem call_fs : s.call taskFs = s.fs.call := rfl
theorem call_mm : s.call taskMm = s.mm.call := rfl

theorem call_user (isUser : IsUser p) : s.call p = (s.user p).call := by
  obtain ⟨notTty, notSys, notHd, notFs, notMm⟩ := isUser
  simp only [System.call, notTty, notSys, notHd, notFs, notMm, if_false]

theorem sent_user (isUser : IsUser p) :
    s.sent p = { s with user := Function.update s.user p (s.user p).sent } := by
  obtain ⟨notTty, notSys, notHd, notFs, notMm⟩ := isUser
  simp only [System.sent, notTty, notSys, notHd, notFs, notMm, if_false]

theorem got_user (isUser : IsUser p) :
    s.got p m = { s with user := Function.update s.user p (s.user p).got } := by
  obtain ⟨notTty, notSys, notHd, notFs, notMm⟩ := isUser
  simp only [System.got, notTty, notSys, notHd, notFs, notMm, if_false]

theorem call_congr {s t : System} (p : Int) (user : ∀ q, q ≠ p → t.user q = s.user q)
    (fs : taskFs ≠ p → t.fs = s.fs) (mm : taskMm ≠ p → t.mm = s.mm) (hd : taskHd ≠ p → t.hd = s.hd)
    (tty : taskTty ≠ p → t.tty = s.tty ∧ t.lines = s.lines) (sys : taskSys ≠ p → t.sys = s.sys)
    {q : Int} (other : q ≠ p) : t.call q = s.call q := by
  rcases party q with rfl | rfl | rfl | rfl | rfl | isUser
  · rw [call_tty, call_tty, (tty other).1, (tty other).2]
  · rw [call_sys, call_sys, sys other]
  · rw [call_hd, call_hd, hd other]
  · rw [call_fs, call_fs, fs other]
  · rw [call_mm, call_mm, mm other]
  · rw [call_user _ isUser, call_user _ isUser, user q other]

theorem call_sent_other {q : Int} (other : q ≠ p) : (s.sent p).call q = s.call q := by
  refine call_congr p ?_ ?_ ?_ ?_ ?_ ?_ other <;>
    rcases party p with rfl | rfl | rfl | rfl | rfl | isUser <;>
    first
    | exact fun _ => rfl
    | exact fun _ _ => rfl
    | exact fun _ => ⟨rfl, rfl⟩
    | exact fun same => absurd rfl same
    | (rw [sent_user s isUser]; exact fun _ => rfl)
    | (rw [sent_user s isUser]; exact fun _ => ⟨rfl, rfl⟩)
    | (rw [sent_user s isUser]; exact fun q' other' => Function.update_of_ne other' _ _)

theorem call_got_other {q : Int} (other : q ≠ p) : (s.got p m).call q = s.call q := by
  refine call_congr p ?_ ?_ ?_ ?_ ?_ ?_ other <;>
    rcases party p with rfl | rfl | rfl | rfl | rfl | isUser <;>
    first
    | exact fun _ => rfl
    | exact fun _ _ => rfl
    | exact fun _ => ⟨rfl, rfl⟩
    | exact fun same => absurd rfl same
    | (rw [got_user s m isUser]; exact fun _ => rfl)
    | (rw [got_user s m isUser]; exact fun _ => ⟨rfl, rfl⟩)
    | (rw [got_user s m isUser]; exact fun q' other' => Function.update_of_ne other' _ _)

theorem sent_fs_other (other : p ≠ taskFs) : (s.sent p).fs = s.fs := by
  rcases party p with rfl | rfl | rfl | rfl | rfl | isUser
  case inr.inr.inr.inr.inr => rw [sent_user s isUser]
  case inr.inr.inr.inl => exact absurd rfl other
  all_goals rfl

theorem got_fs_other (other : p ≠ taskFs) : (s.got p m).fs = s.fs := by
  rcases party p with rfl | rfl | rfl | rfl | rfl | isUser
  case inr.inr.inr.inr.inr => rw [got_user s m isUser]
  case inr.inr.inr.inl => exact absurd rfl other
  all_goals rfl

theorem sent_tty_other (other : p ≠ taskTty) :
    (s.sent p).tty = s.tty ∧ (s.sent p).lines = s.lines := by
  rcases party p with rfl | rfl | rfl | rfl | rfl | isUser
  case inr.inr.inr.inr.inr => rw [sent_user s isUser]; exact ⟨rfl, rfl⟩
  case inl => exact absurd rfl other
  all_goals exact ⟨rfl, rfl⟩

theorem got_tty_other (other : p ≠ taskTty) :
    (s.got p m).tty = s.tty ∧ (s.got p m).lines = s.lines := by
  rcases party p with rfl | rfl | rfl | rfl | rfl | isUser
  case inr.inr.inr.inr.inr => rw [got_user s m isUser]; exact ⟨rfl, rfl⟩
  case inl => exact absurd rfl other
  all_goals exact ⟨rfl, rfl⟩

theorem sent_mm_other (other : p ≠ taskMm) : (s.sent p).mm = s.mm := by
  rcases party p with rfl | rfl | rfl | rfl | rfl | isUser
  case inr.inr.inr.inr.inr => rw [sent_user s isUser]
  case inr.inr.inr.inr.inl => exact absurd rfl other
  all_goals rfl

theorem got_mm_other (other : p ≠ taskMm) : (s.got p m).mm = s.mm := by
  rcases party p with rfl | rfl | rfl | rfl | rfl | isUser
  case inr.inr.inr.inr.inr => rw [got_user s m isUser]
  case inr.inr.inr.inr.inl => exact absurd rfl other
  all_goals rfl

theorem sent_kernel : (s.sent p).kernel = s.kernel := by
  rcases party p with rfl | rfl | rfl | rfl | rfl | isUser
  case inr.inr.inr.inr.inr => rw [sent_user s isUser]
  all_goals rfl

theorem got_kernel : (s.got p m).kernel = s.kernel := by
  rcases party p with rfl | rfl | rfl | rfl | rfl | isUser
  case inr.inr.inr.inr.inr => rw [got_user s m isUser]
  all_goals rfl

end Calls

section Transfer

variable {s t : System} {p d src : Int} {m : Message}

theorem Owes.server_ne_any {e c : Int} (owes : Owes s e c) : e ≠ any := by
  cases owes <;> decide

/--
A message goes from `p` to `d`, which waits for one from `src`. The debts of the others stay; `p`
may now be owed an answer by `d`, and what `p` owed to `d` is paid.
-/
theorem debts_after (debts : ∀ d c, Owes s d c → s.call c = some (.receive d))
    (sends : s.call p = some (.send d m)) (waits : s.call d = some (.receive src))
    (admits : src = p ∨ src = any)
    (others : ∀ q, q ≠ p → q ≠ d → t.call q = s.call q)
    (new : ∀ e c, Owes t e c → Owes s e c ∨ e = d ∧ c = p) (paid : src = p → ¬ Owes t p d)
    (asks : Owes t d p → t.call p = some (.receive d)) :
    ∀ e c, Owes t e c → t.call c = some (.receive e) := by
  have distinct : d ≠ p := by
    rintro rfl
    rw [sends] at waits
    cases waits
  intro e c owes
  by_cases sender : c = p
  · subst sender
    obtain old | ⟨rfl, -⟩ := new e c owes
    · rw [debts e c old] at sends
      cases sends
    · exact asks owes
  obtain old | ⟨-, same⟩ := new e c owes
  · by_cases receiver : c = d
    · subst receiver
      have isSrc : src = e := by
        have waits' := debts e c old
        rw [waits] at waits'
        cases waits'
        rfl
      rcases admits with rfl | rfl
      · subst isSrc
        exact absurd owes (paid rfl)
      · exact absurd isSrc.symm old.server_ne_any
    · rw [others c sender receiver]
      exact debts e c old
  · exact absurd same sender

theorem Fs.client_sent {fs : Fs} {c : Int} (client : fs.sent.client = some c) :
    fs.client = some c := by
  cases fs <;> first | exact client | cases client

theorem Hd.client_sent {hd : Hd} {c : Int} (client : hd.sent.client = some c) :
    hd.client = some c := by
  cases hd <;> first | exact client | cases client

theorem Sys.client_sent {sys : Sys} {c : Int} (client : sys.sent.client = some c) :
    sys.client = some c := by
  cases sys <;> first | exact client | cases client

theorem Mm.clients_sent {mm : Mm} {c : Int} (client : c ∈ mm.sent.clients) : c ∈ mm.clients := by
  cases mm <;> simp [Mm.sent, Mm.clients, Mm.callers, Mm.dying] at client ⊢ <;> tauto

theorem ttySent_reads {i : Int} (reads : s.ttySent.Reads i) :
    s.Reads i ∧ s.ttySent.lines i = s.lines i := by
  unfold System.Reads System.ttySent at reads
  cases tty : s.tty with
  | resume device =>
    by_cases same : i = device
    next =>
      subst same
      simp [tty] at reads
    next =>
      simp [System.Reads, System.ttySent, tty, same] at reads ⊢
      exact .inl reads
  | _ =>
    simp [System.Reads, System.ttySent, tty] at reads ⊢
    exact reads

theorem Owes.extend {Q : Int → Int → Prop}
    (fs : ∀ c, t.fs.client = some c → s.fs.client = some c ∨ Q taskFs c)
    (reader : ∀ i, t.Reads i → Owes s taskFs (t.lines i).procnr ∨ Q taskFs (t.lines i).procnr)
    (mm : ∀ c ∈ t.mm.clients, c ∈ s.mm.clients ∨ Q taskMm c)
    (hd : ∀ c, t.hd.client = some c → s.hd.client = some c ∨ Q taskHd c)
    (tty : ∀ c, t.tty.client = some c → s.tty.client = some c ∨ Q taskTty c)
    (sys : ∀ c, t.sys.client = some c → s.sys.client = some c ∨ Q taskSys c)
    {e c : Int} (owes : Owes t e c) : Owes s e c ∨ Q e c := by
  cases owes with
  | fs client => exact (fs c client).imp_left .fs
  | reader i reads => exact reader i reads
  | mm client => exact (mm c client).imp_left .mm
  | hd client => exact (hd c client).imp_left .hd
  | tty client => exact (tty c client).imp_left .tty
  | sys client => exact (sys c client).imp_left .sys

theorem owes_sent {e c : Int} (owes : Owes (s.sent p) e c) : Owes s e c := by
  have extends_ : Owes s e c ∨ False := by
    rcases party p with rfl | rfl | rfl | rfl | rfl | isUser
    case' inr.inr.inr.inr.inr => rw [sent_user s isUser] at owes
    all_goals
      refine Owes.extend (Q := fun _ _ => False) ?_ ?_ ?_ ?_ ?_ ?_ owes
    case inl.refine_2 =>
      intro i reads
      obtain ⟨before, same⟩ := ttySent_reads reads
      have isLine : ((s.sent taskTty).lines i).procnr = (s.lines i).procnr :=
        congrArg Line.procnr same
      rw [isLine]
      exact .inl (.reader i before)
    case inl.refine_5 => exact fun c client => absurd client (Option.some_ne_none c).symm
    case inr.inl.refine_6 => exact fun _ client => .inl (Sys.client_sent client)
    case inr.inr.inl.refine_4 => exact fun _ client => .inl (Hd.client_sent client)
    case inr.inr.inr.inl.refine_1 => exact fun _ client => .inl (Fs.client_sent client)
    case inr.inr.inr.inr.inl.refine_3 => exact fun _ client => .inl (Mm.clients_sent client)
    all_goals first | exact fun _ => .inl | exact fun i reads => .inl (.reader i reads)
  exact extends_.elim id False.elim

theorem Fs.client_got {fs : Fs} {c : Int} (client : (fs.got m).client = some c) :
    fs.client = some c ∨ fs = .main ∧
      ((m.type ≠ .resumeProc ∧ m.type ≠ .hardInt) ∧ c = m.source ∨
        m.type = .resumeProc ∧ c = m.procNr) := by
  cases fs with
  | main => cases type : m.type <;> simp_all [Fs.got, Fs.client]
  | diskWait client' => cases client' <;> simp_all [Fs.got, Fs.client]
  | ttyWait src type =>
    by_cases suspends : type ≠ .open_ ∧ m.type = .suspendProc
    next =>
      rw [Fs.got, if_pos suspends] at client
      cases client
    next =>
      rw [Fs.got, if_neg suspends] at client
      exact .inl client
  | _ => exact .inl client

theorem Fs.got_ne_ttyWait {fs : Fs} {src reader : Int} {type : MsgType}
    (waits : fs.call = some (.receive src)) : fs.got m ≠ .ttyWait reader type := by
  cases fs with
  | main => cases mtype : m.type <;> simp [Fs.got, mtype]
  | diskWait client => cases client <;> simp [Fs.got]
  | ttyWait src' type' =>
    by_cases suspends : type' ≠ .open_ ∧ m.type = .suspendProc <;> simp [Fs.got, suspends]
  | _ => cases waits

theorem Mm.clients_got {mm : Mm} {c : Int} (client : c ∈ (mm.got m).clients) :
    c ∈ mm.clients ∨ mm = .main ∧ m.type ≠ .hardInt ∧ c = m.source := by
  cases mm with
  | main => cases type : m.type <;> simp_all [Mm.got, Mm.clients, Mm.callers, Mm.dying]
  | _ => exact .inl client

theorem Hd.client_got {hd : Hd} {c : Int} (client : (hd.got m).client = some c) :
    hd.client = some c ∨ hd = .main ∧ m.type ≠ .hardInt ∧ c = m.source := by
  cases hd with
  | main => cases type : m.type <;> simp_all [Hd.got, Hd.client]
  | _ => exact .inl client

theorem Sys.client_got {sys : Sys} {c ticks : Int} (client : (sys.got ticks m).client = some c) :
    sys.client = some c ∨ sys = .main ∧ m.type ≠ .hardInt ∧ c = m.source := by
  cases sys with
  | main => cases type : m.type <;> simp_all [Sys.got, Sys.client]
  | _ => exact .inl client

theorem Tty.client_got {tty : Tty} {c : Int} (client : (tty.got m).client = some c) :
    tty.client = some c ∨ tty = .main ∧ m.type ≠ .hardInt ∧ c = m.source := by
  cases tty with
  | main => cases type : m.type <;> simp_all [Tty.got, Tty.client]
  | _ => exact .inl client

theorem ttyGot_reads {i : Int} (reads : (s.ttyGot m).Reads i) :
    s.Reads i ∧ (s.ttyGot m).lines i = s.lines i ∨
      s.tty = .main ∧ m.type = .devRead ∧ i = m.device ∧
        (s.ttyGot m).lines i = ⟨m.source, m.procNr, m.cnt, 0⟩ := by
  unfold System.Reads System.ttyGot at reads
  unfold System.Reads System.ttyGot
  cases tty : s.tty with
  | main =>
    cases type : m.type with
    | devRead =>
      by_cases same : i = m.device
      next =>
        subst same
        simp
      next => simp_all [Tty.got]
    | _ => simp_all [Tty.got]
  | _ => simp_all [Tty.got]

-- A server that is told about somebody else: a reader that FS answers, or that it leaves to TTY.
def ToldOf (s : System) (d : Int) (m : Message) : Prop :=
  d = taskFs ∧ s.fs = .main ∧ m.type = .resumeProc ∨
    d = taskTty ∧ s.tty = .main ∧ m.type = .devRead

theorem owes_got {e c : Int} (owes : Owes (s.got d m) e c) :
    Owes s e c ∨
      (s.call d = some (.receive any) ∧ m.type ≠ .hardInt ∧ (d = taskFs → m.type ≠ .resumeProc) ∧
        e = d ∧ c = m.source) ∨
      (ToldOf s d m ∧ e = taskFs ∧ c = m.procNr) := by
  rcases party d with rfl | rfl | rfl | rfl | rfl | isUser
  case' inr.inr.inr.inr.inr => rw [got_user s m isUser] at owes
  all_goals
    refine Owes.extend (Q := fun e c => (s.call _ = some (.receive any) ∧
      m.type ≠ .hardInt ∧ (_ = taskFs → m.type ≠ .resumeProc) ∧ e = _ ∧ c = m.source) ∨
      (ToldOf s _ m ∧ e = taskFs ∧ c = m.procNr)) ?_ ?_ ?_ ?_ ?_ ?_ owes
  case inl.refine_2 =>
    intro i reads
    obtain ⟨before, same⟩ | ⟨main, type, -, line⟩ := ttyGot_reads reads
    · have isLine : ((s.got taskTty m).lines i).procnr = (s.lines i).procnr :=
        congrArg Line.procnr same
      rw [isLine]
      exact .inl (.reader i before)
    · have isLine : ((s.got taskTty m).lines i).procnr = m.procNr := congrArg Line.procnr line
      exact .inr (.inr ⟨.inr ⟨rfl, main, type⟩, rfl, isLine⟩)
  case inl.refine_5 =>
    intro c client
    refine (Tty.client_got client).imp_right fun ⟨main, asks, source⟩ =>
      .inl ⟨?_, asks, fun isFs => absurd isFs (by decide), rfl, source⟩
    rw [call_tty, main]
    rfl
  case inr.inl.refine_6 =>
    intro c client
    refine (Sys.client_got client).imp_right fun ⟨main, asks, source⟩ =>
      .inl ⟨?_, asks, fun isFs => absurd isFs (by decide), rfl, source⟩
    rw [call_sys, main]
    rfl
  case inr.inr.inl.refine_4 =>
    intro c client
    refine (Hd.client_got client).imp_right fun ⟨main, asks, source⟩ =>
      .inl ⟨?_, asks, fun isFs => absurd isFs (by decide), rfl, source⟩
    rw [call_hd, main]
    rfl
  case inr.inr.inr.inl.refine_1 =>
    intro c client
    obtain before | ⟨main, ⟨other, source⟩ | ⟨resumes, procNr⟩⟩ := Fs.client_got client
    · exact .inl before
    · refine .inr (.inl ⟨?_, other.2, fun _ => other.1, rfl, source⟩)
      rw [call_fs, main]
      rfl
    · exact .inr (.inr ⟨.inl ⟨rfl, main, resumes⟩, rfl, procNr⟩)
  case inr.inr.inr.inr.inl.refine_3 =>
    intro c client
    refine (Mm.clients_got client).imp_right fun ⟨main, asks, source⟩ =>
      .inl ⟨?_, asks, fun isFs => absurd isFs (by decide), rfl, source⟩
    rw [call_mm, main]
    rfl
  all_goals first | exact fun _ => .inl | exact fun i reads => .inl (.reader i reads)

/-- Every SEND is a request to a server further up, an answer, or TTY's RESUME_PROC. -/
inductive Sends (s : System) : Int → Int → Message → Prop
  | user (p : Int) (r : Request) (isUser : IsUser p) (user : s.user p = .request r) :
      Sends s p r.server r.m
  | disk (client : Option (Int × MsgType)) (m : Message) (fs : s.fs = .disk client m) :
      Sends s taskFs taskHd m
  | tty (src : Int) (type : MsgType) (device cnt : Int) (fs : s.fs = .tty src type device cnt) :
      Sends s taskFs taskTty (ttyMsg src type device cnt)
  | forkTell (request : Message) (child : Int) (mm : s.mm = .forkTell request child) :
      Sends s taskMm taskFs { resetMsg with type := .fork, m3i2 := child }
  | exitTell (pid parentPid status : Int) (mm : s.mm = .exitTell pid parentPid status) :
      Sends s taskMm taskFs { resetMsg with type := .exit, m3i2 := pid }
  | tick (src : Int) (hd : s.hd = .tick src) :
      Sends s taskHd taskSys { resetMsg with type := .getTicks }
  | resume (i : Int) (tty : s.tty = .resume i) :
      Sends s taskTty (s.lines i).caller
        { resetMsg with
          type := .resumeProc, m3i3 := (s.lines i).procnr, m3i2 := (s.lines i).transCnt }
  | answer (p d : Int) (m : Message) (owes : Owes s p d) : Sends s p d m

theorem sends_of_call (sends : s.call p = some (.send d m)) : Sends s p d m := by
  rcases party p with rfl | rfl | rfl | rfl | rfl | isUser
  · rw [call_tty] at sends
    cases tty : s.tty with
    | resume i =>
      rw [tty] at sends
      cases sends
      exact .resume i tty
    | answer dest m' =>
      rw [tty] at sends
      cases sends
      exact .answer _ _ _ (.tty (by rw [tty]; rfl))
    | _ =>
      rw [tty] at sends
      cases sends
  · rw [call_sys] at sends
    cases sys : s.sys with
    | reply dest m' =>
      rw [sys] at sends
      cases sends
      exact .answer _ _ _ (.sys (by rw [sys]; rfl))
    | _ =>
      rw [sys] at sends
      cases sends
  · rw [call_hd] at sends
    cases hd : s.hd with
    | tick src =>
      rw [hd] at sends
      cases sends
      exact .tick src hd
    | reply dest m' =>
      rw [hd] at sends
      cases sends
      exact .answer _ _ _ (.hd (by rw [hd]; rfl))
    | _ =>
      rw [hd] at sends
      cases sends
  · rw [call_fs] at sends
    cases fs : s.fs with
    | disk client m' =>
      rw [fs] at sends
      cases sends
      exact .disk client m fs
    | tty src type device cnt =>
      rw [fs] at sends
      cases sends
      exact .tty src type device cnt fs
    | reply dest m' =>
      rw [fs] at sends
      cases sends
      exact .answer _ _ _ (.fs (by rw [fs]; rfl))
    | _ =>
      rw [fs] at sends
      cases sends
  · rw [call_mm] at sends
    have client {c : Int} (member : c ∈ s.mm.clients) : Owes s taskMm c := .mm member
    cases mm : s.mm with
    | forkTell request child =>
      rw [mm] at sends
      cases sends
      exact .forkTell request child mm
    | exitTell pid parentPid status =>
      rw [mm] at sends
      cases sends
      exact .exitTell pid parentPid status mm
    | birth request child =>
      rw [mm] at sends
      cases sends
      exact .answer _ _ _ (client (by simp [mm, Mm.clients, Mm.callers]))
    | reply dest m' =>
      rw [mm] at sends
      cases sends
      exact .answer _ _ _ (client (by simp [mm, Mm.clients, Mm.callers]))
    | collect parent m' proc pid rest =>
      rw [mm] at sends
      cases sends
      exact .answer _ _ _ (client (by simp [mm, Mm.clients, Mm.callers]))
    | _ =>
      rw [mm] at sends
      cases sends
  · rw [call_user s isUser] at sends
    cases user : s.user p with
    | request r =>
      rw [user] at sends
      cases sends
      exact .user p r isUser user
    | _ =>
      rw [user] at sends
      cases sends

theorem tty_awaits {e : Int} (waits : s.call taskTty = some (.receive e)) : e = any := by
  rw [call_tty] at waits
  cases tty : s.tty <;> rw [tty] at waits <;> cases waits
  rfl

theorem sys_awaits {e : Int} (waits : s.call taskSys = some (.receive e)) : e = any := by
  rw [call_sys] at waits
  cases sys : s.sys <;> rw [sys] at waits <;> cases waits
  rfl

theorem hd_awaits {e : Int} (waits : s.call taskHd = some (.receive e)) :
    e = any ∨ e = taskSys ∨ e = interrupt := by
  rw [call_hd] at waits
  cases hd : s.hd <;> rw [hd] at waits <;> cases waits <;> simp

theorem mm_awaits {e : Int} (waits : s.call taskMm = some (.receive e)) : e = any ∨ e = taskFs := by
  rw [call_mm] at waits
  cases mm : s.mm <;> rw [mm] at waits <;> cases waits <;> simp

theorem fs_awaits {e : Int} (waits : s.call taskFs = some (.receive e)) :
    e = any ∧ s.fs = .main ∨ e = taskHd ∧ (∃ client, s.fs = .diskWait client) ∨
      e = taskTty ∧ ∃ src type, s.fs = .ttyWait src type := by
  rw [call_fs] at waits
  cases fs : s.fs <;> rw [fs] at waits <;> cases waits <;> simp

theorem not_fs_awaits_mm : s.call taskFs ≠ some (.receive taskMm) := by
  intro waits
  obtain ⟨same, -⟩ | ⟨same, -⟩ | ⟨same, -⟩ := fs_awaits waits <;> cases same

theorem owes_cases {e c : Int} (owes : Owes s e c) :
    e = taskFs ∧ (s.fs.client = some c ∨ ∃ i, s.Reads i ∧ (s.lines i).procnr = c) ∨
      e = taskMm ∧ c ∈ s.mm.clients ∨ e = taskHd ∧ s.hd.client = some c ∨
      e = taskTty ∧ s.tty.client = some c ∨ e = taskSys ∧ s.sys.client = some c := by
  cases owes with
  | fs client => exact .inl ⟨rfl, .inl client⟩
  | reader i reads => exact .inl ⟨rfl, .inr ⟨i, reads, rfl⟩⟩
  | mm client => exact .inr (.inl ⟨rfl, client⟩)
  | hd client => exact .inr (.inr (.inl ⟨rfl, client⟩))
  | tty client => exact .inr (.inr (.inr (.inl ⟨rfl, client⟩)))
  | sys client => exact .inr (.inr (.inr (.inr ⟨rfl, client⟩)))

-- Whoever owes an answer after a step owed it before, where the step has made nobody a debtor.
theorem Owes.before {t : System} {e c : Int} (owes : Owes t e c)
    (fs : t.fs.client = some c → s.fs.client = some c)
    (reader : ∀ i, t.Reads i → s.Reads i ∧ (t.lines i).procnr = (s.lines i).procnr)
    (mm : e = taskMm → c ∈ t.mm.clients → c ∈ s.mm.clients)
    (hd : t.hd.client = some c → s.hd.client = some c)
    (tty : t.tty.client = some c → s.tty.client = some c)
    (sys : t.sys.client = some c → s.sys.client = some c) : Owes s e c := by
  cases owes with
  | fs client => exact .fs (fs client)
  | reader i reads =>
    obtain ⟨reads', same⟩ := reader i reads
    rw [same]
    exact .reader i reads'
  | mm client => exact .mm (mm rfl client)
  | hd client => exact .hd (hd client)
  | tty client => exact .tty (tty client)
  | sys client => exact .sys (sys client)

theorem owes_fs {c : Int} (owes : Owes s taskFs c) :
    s.fs.client = some c ∨ ∃ i, s.Reads i ∧ (s.lines i).procnr = c := by
  simpa [taskFs, taskMm, taskHd, taskTty, taskSys] using owes_cases owes

theorem owes_mm {c : Int} (owes : Owes s taskMm c) : c ∈ s.mm.clients := by
  simpa [taskFs, taskMm, taskHd, taskTty, taskSys] using owes_cases owes

theorem owes_hd {c : Int} (owes : Owes s taskHd c) : s.hd.client = some c := by
  simpa [taskFs, taskMm, taskHd, taskTty, taskSys] using owes_cases owes

theorem owes_tty {c : Int} (owes : Owes s taskTty c) : s.tty.client = some c := by
  simpa [taskFs, taskMm, taskHd, taskTty, taskSys] using owes_cases owes

theorem owes_sys {c : Int} (owes : Owes s taskSys c) : s.sys.client = some c := by
  simpa [taskFs, taskMm, taskHd, taskTty, taskSys] using owes_cases owes

theorem owes_server {e c : Int} (owes : Owes s e c) :
    e = taskFs ∨ e = taskMm ∨ e = taskHd ∨ e = taskTty ∨ e = taskSys := by
  have := owes_cases owes
  tauto

theorem Custody.fs_answers (h : Custody s) (sends : s.call taskFs = some (.send d m))
    (owes : Owes s taskFs d) : s.fs = .reply d m := by
  have waits := h.debts _ _ owes
  rw [call_fs] at sends
  cases fs : s.fs with
  | reply dest m' =>
    rw [fs] at sends
    cases sends
    rfl
  | disk client m' =>
    rw [fs] at sends
    cases sends
    obtain same | same | same := hd_awaits waits <;> cases same
  | tty src type device cnt =>
    rw [fs] at sends
    cases sends
    cases tty_awaits waits
  | _ =>
    rw [fs] at sends
    cases sends

-- The answer that is sent pays the debt.
theorem Custody.paid (h : Custody s) (sends : s.call p = some (.send d m)) (owes : Owes s p d) :
    ¬ Owes (s.sent p) p d := by
  have waits := h.debts p d owes
  intro still
  obtain rfl | rfl | rfl | rfl | rfl := owes_server owes
  · have answers := h.fs_answers sends owes
    obtain client | ⟨i, reads, procnr⟩ := owes_fs still
    · have main : (s.sent taskFs).fs = .main := congrArg Fs.sent answers
      rw [main] at client
      cases client
    · have client : s.fs.client = some (s.lines i).procnr := by
        rw [answers]
        exact congrArg some procnr.symm
      obtain ⟨⟨src, reading⟩, -⟩ := h.reading i reads client
      rw [answers] at reading
      cases reading
  · have once := h.once
    have client := owes_mm still
    have isSent : (s.sent taskMm).mm = s.mm.sent := rfl
    rw [isSent] at client
    rw [call_mm] at sends
    cases mm : s.mm with
    | birth request child =>
      rw [mm] at sends client once
      cases sends
      simp [Mm.sent, Mm.clients, Mm.callers, Mm.dying] at client once
      exact once client.symm
    | reply dest m' =>
      rw [mm] at client
      cases client
    | collect parent m' proc pid rest =>
      rw [mm] at sends client once
      cases sends
      simp [Mm.sent, Mm.clients, Mm.callers, Mm.dying] at client once
      exact once client
    | forkTell request child =>
      rw [mm] at sends
      cases sends
      exact not_fs_awaits_mm waits
    | exitTell pid parentPid status =>
      rw [mm] at sends
      cases sends
      exact not_fs_awaits_mm waits
    | _ =>
      rw [mm] at sends
      cases sends
  · have client := owes_hd still
    have isSent : (s.sent taskHd).hd = s.hd.sent := rfl
    rw [isSent] at client
    rw [call_hd] at sends
    cases hd : s.hd with
    | reply dest m' =>
      rw [hd] at client
      cases client
    | tick src =>
      rw [hd] at sends
      cases sends
      cases sys_awaits waits
    | _ =>
      rw [hd] at sends
      cases sends
  · have client := owes_tty still
    have isSent : (s.sent taskTty).tty = .poll := rfl
    rw [isSent] at client
    cases client
  · have client := owes_sys still
    have isSent : (s.sent taskSys).sys = s.sys.sent := rfl
    rw [isSent] at client
    rw [call_sys] at sends
    cases sys : s.sys with
    | reply dest m' =>
      rw [sys] at client
      cases client
    | _ =>
      rw [sys] at sends
      cases sends

theorem sent_reads {i : Int} (reads : (s.sent p).Reads i) :
    s.Reads i ∧ (s.sent p).lines i = s.lines i := by
  by_cases isTty : p = taskTty
  · subst isTty
    exact ttySent_reads reads
  · obtain ⟨tty, lines⟩ := sent_tty_other s isTty
    unfold System.Reads at reads ⊢
    rw [tty, lines] at reads
    exact ⟨reads, by rw [lines]⟩

theorem got_reads {i : Int} (reads : (s.got d m).Reads i) :
    s.Reads i ∧ (s.got d m).lines i = s.lines i ∨
      d = taskTty ∧ s.tty = .main ∧ m.type = .devRead ∧ i = m.device ∧
        (s.got d m).lines i = ⟨m.source, m.procNr, m.cnt, 0⟩ := by
  by_cases isTty : d = taskTty
  · subst isTty
    exact (ttyGot_reads reads).imp_right fun new => ⟨rfl, new⟩
  · obtain ⟨tty, lines⟩ := got_tty_other s m isTty
    unfold System.Reads at reads ⊢
    rw [tty, lines] at reads
    exact .inl ⟨reads, by rw [lines]⟩

theorem Custody.read_request (h : Custody s) (sends : s.call p = some (.send taskTty m))
    (main : s.tty = .main) (type : m.type = .devRead) :
    p = taskFs ∧ ∃ src device cnt, s.fs = .tty src .read device cnt ∧
      m = ttyMsg src .read device cnt := by
  have waits : s.call taskTty = some (.receive any) := by
    rw [call_tty, main]
    rfl
  generalize target : taskTty = d at sends
  cases sends_of_call sends with
  | user p r isUser user =>
    obtain ⟨same, -⟩ | ⟨same, -⟩ | ⟨same, -⟩ := r.valid <;> rw [same] at target <;> cases target
  | disk client m fs => cases target
  | tty src type' device cnt fs =>
    cases type' with
    | read => exact ⟨rfl, src, device, cnt, fs, rfl⟩
    | _ => cases type
  | forkTell request child mm => cases target
  | exitTell pid parentPid status mm => cases target
  | tick src hd => cases target
  | resume i tty =>
    rw [main] at tty
    cases tty
  | answer p d m owes =>
    subst target
    rw [h.debts _ _ owes] at waits
    cases waits
    exact absurd rfl owes.server_ne_any

theorem Custody.resume_request (h : Custody s) (sends : s.call p = some (.send taskFs m))
    (main : s.fs = .main) (type : m.type = .resumeProc) :
    p = taskTty ∧ ∃ i, s.tty = .resume i ∧ m.procNr = (s.lines i).procnr := by
  have waits : s.call taskFs = some (.receive any) := by
    rw [call_fs, main]
    rfl
  generalize target : taskFs = d at sends
  cases sends_of_call sends with
  | user p r isUser user =>
    obtain ⟨-, types⟩ | ⟨same, -⟩ | ⟨same, -⟩ := r.valid
    · rw [type] at types
      simp at types
    · rw [same] at target
      cases target
    · rw [same] at target
      cases target
  | disk client m fs => cases target
  | tty src type' device cnt fs => cases target
  | forkTell request child mm => cases type
  | exitTell pid parentPid status mm => cases type
  | tick src hd => cases target
  | resume i tty => exact ⟨rfl, i, tty, rfl⟩
  | answer p d m owes =>
    subst target
    rw [h.debts _ _ owes] at waits
    cases waits
    exact absurd rfl owes.server_ne_any

theorem call_transfer_other {q : Int} (notSender : q ≠ p) (notReceiver : q ≠ d) :
    (s.transfer p d m).call q = s.call q := by
  unfold System.transfer
  rw [call_got_other _ _ notReceiver, call_sent_other _ notSender]

theorem distinct_of_calls (sends : s.call p = some (.send d m))
    (waits : s.call d = some (.receive src)) : d ≠ p := by
  rintro rfl
  rw [sends] at waits
  cases waits

-- The debts after a message: a new one to its sender, or one there was before.
theorem Custody.new_debt (h : Custody s) (sends : s.call p = some (.send d m))
    (waits : s.call d = some (.receive src)) {e c : Int} (owes : Owes (s.transfer p d m) e c) :
    Owes (s.sent p) e c ∨
      (s.call d = some (.receive any) ∧ (d = taskFs → m.type ≠ .resumeProc) ∧ e = d ∧ c = p) ∨
      (Owes s e c ∧ e = taskFs ∧ (d = taskFs ∨ d = taskTty ∧ p = taskFs)) := by
  have distinct := distinct_of_calls sends waits
  obtain before | ⟨main, -, notResume, rfl, rfl⟩ | ⟨told, rfl, rfl⟩ := owes_got owes
  · exact .inl before
  · rw [call_sent_other _ distinct] at main
    exact .inr (.inl ⟨main, notResume, rfl, rfl⟩)
  · refine .inr (.inr ⟨?_, rfl, ?_⟩)
    · obtain ⟨rfl, main, type⟩ | ⟨rfl, main, type⟩ := told
      · rw [sent_fs_other _ distinct.symm] at main
        obtain ⟨-, i, tty, procNr⟩ := h.resume_request sends main type
        have isLine : { m with source := p }.procNr = (s.lines i).procnr := procNr
        rw [isLine]
        exact .reader i (.inr tty)
      · rw [(sent_tty_other _ distinct.symm).1] at main
        obtain ⟨-, src', device, cnt, fs, rfl⟩ := h.read_request sends main type
        refine .fs ?_
        rw [fs]
        rfl
    · obtain ⟨rfl, -, -⟩ | ⟨rfl, main, type⟩ := told
      · exact .inl rfl
      · rw [(sent_tty_other _ distinct.symm).1] at main
        exact .inr ⟨rfl, (h.read_request sends main type).1⟩

theorem Custody.transfer_debts (h : Custody s) (sends : s.call p = some (.send d m))
    (waits : s.call d = some (.receive src)) (admits : src = p ∨ src = any) (e c : Int)
    (owes : Owes (s.transfer p d m) e c) : (s.transfer p d m).call c = some (.receive e) := by
  have distinct := distinct_of_calls sends waits
  refine debts_after h.debts sends waits admits (fun q => call_transfer_other) ?_ ?_ ?_ e c owes
  · intro e c owes
    obtain before | ⟨-, -, rfl, rfl⟩ | ⟨before, -, -⟩ := h.new_debt sends waits owes
    · exact .inl (owes_sent before)
    · exact .inr ⟨rfl, rfl⟩
    · exact .inl before
  · rintro rfl owes
    obtain before | ⟨-, -, same, -⟩ | ⟨before, isFs, isD⟩ := h.new_debt sends waits owes
    · exact h.paid sends (owes_sent before) before
    · exact distinct same.symm
    · obtain rfl | ⟨rfl, -⟩ := isD
      · exact distinct isFs.symm
      · have same := tty_awaits (h.debts _ _ before)
        rw [isFs] at same
        cases same
  · intro owes
    have notOwed (owes : Owes s d p) : False := by
      have waits' := h.debts _ _ owes
      rw [sends] at waits'
      cases waits'
    obtain before | ⟨main, notResume, -, -⟩ | ⟨before, -, -⟩ := h.new_debt sends waits owes
    · exact absurd (owes_sent before) notOwed
    · have isSent : (s.transfer p d m).call p = (s.sent p).call p := by
        unfold System.transfer
        exact call_got_other _ _ distinct.symm
      rw [isSent]
      cases sends_of_call sends with
      | user p r isUser user =>
        rw [sent_user s isUser, call_user _ isUser]
        simp [user, User.sent, User.call]
      | disk client m fs => exact (congrArg (fun fs => fs.sent.call) fs)
      | tty src type device cnt fs => exact (congrArg (fun fs => fs.sent.call) fs)
      | forkTell request child mm => exact (congrArg (fun mm => mm.sent.call) mm)
      | exitTell pid parentPid status mm => exact (congrArg (fun mm => mm.sent.call) mm)
      | tick src hd => exact (congrArg (fun hd => hd.sent.call) hd)
      | resume i tty => exact absurd rfl (notResume (h.readers i (.inr tty)))
      | answer p d m owes =>
        rw [h.debts _ _ owes] at main
        cases main
        exact absurd rfl owes.server_ne_any
    · exact absurd before notOwed

theorem Custody.transfer_reads (h : Custody s) (sends : s.call p = some (.send d m))
    (waits : s.call d = some (.receive src)) {i : Int} (reads : (s.transfer p d m).Reads i) :
    s.Reads i ∧ (s.transfer p d m).lines i = s.lines i ∧ (s.sent p).Reads i ∨
      d = taskTty ∧ p = taskFs ∧ ∃ reader cnt, s.fs = .tty reader .read i cnt ∧
        m = ttyMsg reader .read i cnt ∧ s.tty = .main ∧
        (s.transfer p d m).lines i = ⟨taskFs, reader, cnt, 0⟩ := by
  have distinct := distinct_of_calls sends waits
  obtain ⟨before, same⟩ | ⟨rfl, main, type, device, line⟩ := got_reads reads
  · obtain ⟨first, same'⟩ := sent_reads before
    exact .inl ⟨first, same.trans same', before⟩
  · rw [(sent_tty_other _ distinct.symm).1] at main
    obtain ⟨rfl, reader, device', cnt, fs, rfl⟩ := h.read_request sends main type
    have isDevice : i = device' := device
    subst isDevice
    exact .inr ⟨rfl, rfl, reader, cnt, fs, rfl, main, line⟩

theorem transfer_fs (distinct : d ≠ p) :
    d = taskFs ∧ (s.transfer p d m).fs = s.fs.got { m with source := p } ∨
      p = taskFs ∧ (s.transfer p d m).fs = s.fs.sent ∨
      d ≠ taskFs ∧ p ≠ taskFs ∧ (s.transfer p d m).fs = s.fs := by
  unfold System.transfer
  by_cases receiver : d = taskFs
  · subst receiver
    refine .inl ⟨rfl, ?_⟩
    exact congrArg (Fs.got _) (sent_fs_other _ distinct.symm)
  · rw [got_fs_other _ _ receiver]
    by_cases sender : p = taskFs
    · subst sender
      exact .inr (.inl ⟨rfl, rfl⟩)
    · exact .inr (.inr ⟨receiver, sender, sent_fs_other _ sender⟩)

theorem transfer_mm (distinct : d ≠ p) :
    d = taskMm ∧ (s.transfer p d m).mm = s.mm.got { m with source := p } ∨
      p = taskMm ∧ (s.transfer p d m).mm = s.mm.sent ∨
      d ≠ taskMm ∧ p ≠ taskMm ∧ (s.transfer p d m).mm = s.mm := by
  unfold System.transfer
  by_cases receiver : d = taskMm
  · subst receiver
    refine .inl ⟨rfl, ?_⟩
    exact congrArg (Mm.got _) (sent_mm_other _ distinct.symm)
  · rw [got_mm_other _ _ receiver]
    by_cases sender : p = taskMm
    · subst sender
      exact .inr (.inl ⟨rfl, rfl⟩)
    · exact .inr (.inr ⟨receiver, sender, sent_mm_other _ sender⟩)

theorem Mm.clients_sent_nodup {mm : Mm} (once : mm.clients.Nodup) : mm.sent.clients.Nodup := by
  cases mm <;> simp_all [Mm.sent, Mm.clients, Mm.callers, Mm.dying]

theorem Mm.clients_got_nodup {mm : Mm} (once : mm.clients.Nodup) : (mm.got m).clients.Nodup := by
  cases mm with
  | main => cases type : m.type <;> simp [Mm.got, type, Mm.clients, Mm.callers, Mm.dying]
  | _ => exact once

theorem transfer_tty_other (notSender : p ≠ taskTty) (notReceiver : d ≠ taskTty) :
    (s.transfer p d m).tty = s.tty := by
  unfold System.transfer
  rw [(got_tty_other _ _ notReceiver).1, (sent_tty_other _ notSender).1]

theorem resumed_not_reads {i : Int} (tty : s.tty = .resume i) : ¬ (s.sent taskTty).Reads i := by
  have isSent : s.sent taskTty = s.ttySent := rfl
  simp [isSent, System.Reads, System.ttySent, tty]

theorem Custody.transfer_reading (h : Custody s) (sends : s.call p = some (.send d m))
    (waits : s.call d = some (.receive src)) (admits : src = p ∨ src = any) {i : Int}
    (before : s.Reads i) (still : (s.sent p).Reads i)
    (client : (s.transfer p d m).fs.client = some (s.lines i).procnr) :
    (s.transfer p d m).fs = s.fs ∧ (s.transfer p d m).tty = s.tty ∧
      s.fs.client = some (s.lines i).procnr := by
  have distinct := distinct_of_calls sends waits
  obtain ⟨rfl, fs⟩ | ⟨rfl, fs⟩ | ⟨notReceiver, notSender, fs⟩ :=
    transfer_fs (m := m) (s := s) distinct
  · rw [fs] at client
    obtain earlier | ⟨main, ⟨-, source⟩ | ⟨type, procNr⟩⟩ := Fs.client_got client
    · obtain ⟨⟨reader, isWaiting⟩, dest, m', answers, suspends⟩ := h.reading i before earlier
      have isTty : src = taskTty := by
        rw [call_fs, isWaiting] at waits
        cases waits
        rfl
      obtain rfl | rfl := admits
      · subst isTty
        rw [call_tty, answers] at sends
        cases sends
        rw [isWaiting] at client
        simp [Fs.got, suspends, Fs.client] at client
      · cases isTty
    · have owes := h.debts _ _ (.reader i before)
      rw [source] at owes
      rw [sends] at owes
      cases owes
    · obtain ⟨rfl, j, tty, isLine⟩ := h.resume_request sends main type
      have same : i = j := h.apart i j before (.inr tty) (procNr.trans isLine)
      subst same
      exact absurd still (resumed_not_reads tty)
  · rw [fs] at client
    obtain ⟨⟨reader, isWaiting⟩, -⟩ := h.reading i before (Fs.client_sent client)
    rw [call_fs, isWaiting] at sends
    cases sends
  · rw [fs] at client
    obtain ⟨⟨reader, isWaiting⟩, dest, m', answers, -⟩ := h.reading i before client
    refine ⟨fs, transfer_tty_other ?_ ?_, client⟩
    · rintro rfl
      obtain ⟨m'', toFs⟩ := h.asked _ _ isWaiting
      rw [call_tty, toFs] at sends
      cases sends
      exact notReceiver rfl
    · rintro rfl
      rw [call_tty, answers] at waits
      cases waits

theorem Custody.transfer (h : Custody s) (sends : s.call p = some (.send d m))
    (waits : s.call d = some (.receive src)) (admits : src = p ∨ src = any) :
    Custody (s.transfer p d m) := by
  have distinct := distinct_of_calls sends waits
  constructor
  case debts => exact h.transfer_debts sends waits admits
  case readers =>
    intro i reads
    obtain ⟨before, same, -⟩ | ⟨-, -, reader, cnt, -, -, -, line⟩ :=
      h.transfer_reads sends waits reads
    · rw [same]
      exact h.readers i before
    · rw [line]
  case apart =>
    intro i j first second same
    obtain ⟨before, line, -⟩ | ⟨-, -, reader, cnt, fs, -, -, line⟩ :=
      h.transfer_reads sends waits first <;>
      obtain ⟨before', line', -⟩ | ⟨-, -, reader', cnt', fs', -, -, line'⟩ :=
        h.transfer_reads sends waits second <;> rw [line, line'] at same
    · exact h.apart i j before before' same
    · have client : s.fs.client = some (s.lines i).procnr := by
        rw [fs', same]
        rfl
      obtain ⟨⟨src', isWaiting⟩, -⟩ := h.reading i before client
      rw [fs'] at isWaiting
      cases isWaiting
    · have client : s.fs.client = some (s.lines j).procnr := by
        rw [fs, ← same]
        rfl
      obtain ⟨⟨src', isWaiting⟩, -⟩ := h.reading j before' client
      rw [fs] at isWaiting
      cases isWaiting
    · rw [fs] at fs'
      cases fs'
      rfl
  case reading =>
    intro i reads client
    obtain ⟨before, line, still⟩ | ⟨rfl, rfl, reader, cnt, fs, rfl, main, line⟩ :=
      h.transfer_reads sends waits reads
    · rw [line] at client
      obtain ⟨fs, tty, earlier⟩ := h.transfer_reading sends waits admits before still client
      rw [fs, tty]
      exact h.reading i before earlier
    · have isFs : (s.transfer taskFs taskTty (ttyMsg reader .read i cnt)).fs = s.fs.sent := rfl
      have isTty : (s.transfer taskFs taskTty (ttyMsg reader .read i cnt)).tty =
          s.tty.got { ttyMsg reader .read i cnt with source := taskFs } := rfl
      rw [isFs, isTty, fs, main]
      exact ⟨⟨reader, rfl⟩, taskFs, _, rfl, rfl⟩
  case asked =>
    intro reader type isWaiting
    obtain ⟨rfl, fs⟩ | ⟨rfl, fs⟩ | ⟨notReceiver, notSender, fs⟩ :=
      transfer_fs (m := m) (s := s) distinct
    · rw [fs] at isWaiting
      exact absurd isWaiting (Fs.got_ne_ttyWait waits)
    · rw [fs] at isWaiting
      rw [call_fs] at sends
      cases before : s.fs with
      | tty src' type' device cnt =>
        rw [before] at sends
        cases sends
        have isTty : (s.transfer taskFs taskTty (ttyMsg src' type' device cnt)).tty =
            s.tty.got { ttyMsg src' type' device cnt with source := taskFs } := rfl
        have main : s.tty = .main := by
          rw [call_tty] at waits
          cases tty : s.tty <;> rw [tty] at waits <;> cases waits
        rw [isTty, main]
        cases type' <;> exact ⟨_, rfl⟩
      | _ =>
        rw [before] at sends isWaiting
        first | (cases isWaiting; done) | cases sends
    · rw [fs] at isWaiting
      obtain ⟨m', answers⟩ := h.asked _ _ isWaiting
      refine ⟨m', (transfer_tty_other ?_ ?_).trans answers⟩
      · rintro rfl
        rw [call_tty, answers] at sends
        cases sends
        exact notReceiver rfl
      · rintro rfl
        rw [call_tty, answers] at waits
        cases waits
  case once =>
    obtain ⟨-, mm⟩ | ⟨-, mm⟩ | ⟨-, -, mm⟩ := transfer_mm (m := m) (s := s) distinct <;> rw [mm]
    · exact Mm.clients_got_nodup h.once
    · exact Mm.clients_sent_nodup h.once
    · exact h.once

theorem owes_interrupted {e c : Int} (owes : Owes (s.got d interruptMsg) e c) : Owes s e c := by
  obtain before | ⟨-, asks, -⟩ | ⟨⟨-, -, type⟩ | ⟨-, -, type⟩, -⟩ := owes_got owes
  · exact before
  · exact absurd rfl asks
  · cases type
  · cases type

theorem Custody.interrupted (h : Custody s) (waits : s.call d = some (.receive src))
    (admits : src = any ∨ src = interrupt) : Custody (s.got d interruptMsg) := by
  have reads {i : Int} (after : (s.got d interruptMsg).Reads i) :
      s.Reads i ∧ (s.got d interruptMsg).lines i = s.lines i := by
    obtain before | ⟨-, -, type, -⟩ := got_reads after
    · exact before
    · cases type
  constructor
  case debts =>
    intro e c owes
    have owes' := owes_interrupted owes
    have before := h.debts e c owes'
    have other : c ≠ d := by
      rintro rfl
      rw [waits] at before
      cases before
      rcases admits with rfl | rfl
      · exact owes'.server_ne_any rfl
      · obtain same | same | same | same | same := owes_server owes' <;> cases same
    rw [call_got_other _ _ other]
    exact before
  case readers =>
    intro i after
    rw [(reads after).2]
    exact h.readers i (reads after).1
  case apart =>
    intro i j first second same
    rw [(reads first).2, (reads second).2] at same
    exact h.apart i j (reads first).1 (reads second).1 same
  case reading =>
    intro i after client
    obtain ⟨before, same⟩ := reads after
    rw [same] at client
    by_cases isFs : d = taskFs
    · subst isFs
      have main : s.fs = .main := by
        obtain ⟨-, main⟩ | ⟨rfl, -⟩ | ⟨rfl, -⟩ := fs_awaits waits
        · exact main
        · rcases admits with same | same <;> cases same
        · rcases admits with same | same <;> cases same
      have stops : (s.got taskFs interruptMsg).fs = .stopped := congrArg (Fs.got interruptMsg) main
      rw [stops] at client
      cases client
    · rw [got_fs_other _ _ isFs] at client ⊢
      have reading := h.reading i before client
      by_cases isTty : d = taskTty
      · subst isTty
        obtain ⟨-, dest, m', answers, -⟩ := reading
        rw [call_tty, answers] at waits
        cases waits
      · rw [(got_tty_other _ _ isTty).1]
        exact reading
  case asked =>
    intro reader type isWaiting
    by_cases isFs : d = taskFs
    · subst isFs
      have isGot : (s.got taskFs interruptMsg).fs = s.fs.got interruptMsg := rfl
      rw [isGot] at isWaiting
      exact absurd isWaiting (Fs.got_ne_ttyWait waits)
    · rw [got_fs_other _ _ isFs] at isWaiting
      obtain ⟨m', answers⟩ := h.asked _ _ isWaiting
      by_cases isTty : d = taskTty
      · subst isTty
        rw [call_tty, answers] at waits
        cases waits
      · rw [(got_tty_other _ _ isTty).1]
        exact ⟨m', answers⟩
  case once =>
    by_cases isMm : d = taskMm
    · subst isMm
      have isGot : (s.got taskMm interruptMsg).mm = s.mm.got interruptMsg := rfl
      rw [isGot]
      exact Mm.clients_got_nodup h.once
    · rw [got_mm_other _ _ isMm]
      exact h.once

end Transfer

end Konix.Servers
