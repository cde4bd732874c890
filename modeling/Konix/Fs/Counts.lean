import Konix.Fs.Serving

set_option autoImplicit false

namespace Konix.Fs

open RefCounts Runs

-- The entries of all `filp[]` that lead to descriptor `d`.
def pairs (s : State) (d : Nat) : Finset (Int × Nat) :=
  (entries processes).filter fun h => s.filp h.1 h.2 = some d

/--
Each descriptor counts the entries that lead to it and is free without one, and each inode counts
the shares of the descriptors that are open on it, and one more if it is the root.
-/
structure CountsRight (s : State) : Prop where
  descs : ∀ d, d < nrFileDesc → (s.fDescTable d).fdCnt = (pairs s d).card ∧
    ((s.fDescTable d).fdInode = none ↔ (pairs s d).card = 0)
  inodes : ∀ p, p < nrInode → (s.inodeTable p).iCnt =
    (∑ d ∈ (Finset.range nrFileDesc).filter fun d => (s.fDescTable d).fdInode = some p,
      (s.fDescTable d).fdCnt) + if p = s.rootInode then 1 else 0

-- Beside the descriptors, only the root directory is held.
def rootOnly : Nat → Int := Function.update (fun _ => 0) 0 1

theorem counted_unopened {s : State} {sb : SuperBlock} {root : Inode}
    (holders : Finset (Int × Nat)) (super : getSuperBlock s rootDev = .ok sb)
    (sects : 0 < sb.nrImapSects) (first_ : s.rootInode = 0)
    (inodes : s.inodeTable = Function.update (fun _ => freeInode) 0 root)
    (dev : root.iDev = rootDev) (one : root.iCnt = 1) (descs : s.fDescTable = fun _ => freeDesc)
    (noFile : ∀ pid fd, s.filp pid fd = none) : Counted s holders rootOnly := by
  have opens (d : Nat) : s.opens d = none := by
    rw [State.opens, descs]
    rfl
  have shares (d : Nat) : s.shares d = 0 := by
    rw [State.shares, descs]
    rfl
  constructor
  case super => exact ⟨sb, super, sects⟩
  case dev =>
    rw [first_, inodes, Function.update_self]
    exact dev
  case share =>
    intro d
    rw [shares, load_idle fun h _ => noFile h.1 h.2]
  case idle =>
    intro d
    simp only [opens, shares]
  case inside =>
    intro d p opened
    rw [opens] at opened
    cases opened
  case pos =>
    intro d
    rw [descs]
    exact le_refl _
  case count =>
    intro p
    rw [load_idle fun d _ => opens d, inodes, rootOnly]
    by_cases here : p = 0
    next =>
      rw [here, Function.update_self, Function.update_self, one]
      rfl
    next =>
      rw [Function.update_of_ne here, Function.update_of_ne here]
      rfl
  case checked =>
    intro d p opened
    rw [opens] at opened
    cases opened
  case nonneg =>
    intro p
    rw [rootOnly, Function.update_apply]
    split <;> decide
  case root =>
    rw [first_, rootOnly, Function.update_self]
    exact Int.one_pos

section Runs

variable {size : Nat} {v : Service}

theorem Begins.served (small : size < 2 ^ 32) (begins : Begins size v) : Served v rootOnly := by
  obtain ⟨s, done, unopened, live, idle⟩ := begins
  obtain ⟨s', done', started⟩ := initFs_spec s small
  rw [done, Except.ok.injEq] at done'
  subst done'
  have noFile (pid : Int) (fd : Nat) : v.fs.filp pid fd = none := by
    rw [started.filp]
    exact unopened pid fd
  constructor
  case counted =>
    exact counted_unopened _ started.super Nat.one_pos started.root started.inodes rfl rfl
      started.descs noFile
  case live => exact live
  case child =>
    intro parent child forking
    rw [idle] at forking
    cases forking
  case rows => exact fun pid _ _ fd _ => noFile pid fd

theorem Served.right (served : Served v rootOnly) (idle : v.forking = none) : CountsRight v.fs := by
  have counted := served.counted
  have entriesOf (d : Nat) : ((pairs v.fs d).card : Int) = v.fs.shares d := by
    have all : load (entries v.live) v.fs.handles (fun _ => 1) d =
        load (entries processes) v.fs.handles (fun _ => 1) d := by
      apply load_subset
      · exact Finset.product_subset_product_left served.live
      · rintro ⟨pid, fd⟩ inside outside
        have bound := (mem_entries.mp inside).2
        have dead : pid ∉ v.live := fun alive => outside (mem_entries.mpr ⟨alive, bound⟩)
        refine served.rows pid dead (fun parent forking => ?_) fd bound
        rw [idle] at forking
        cases forking
    rw [counted.share, all, load_one]
    rfl
  constructor
  case descs =>
    intro d _
    refine ⟨(entriesOf d).symm, (counted.idle d).trans ?_⟩
    have same := entriesOf d
    omega
  case inodes =>
    intro p _
    have root : v.fs.rootInode = 0 := by
      by_contra other
      have positive := counted.root
      rw [rootOnly, Function.update_of_ne other] at positive
      exact absurd positive (by decide)
    have held : rootOnly p = if p = v.fs.rootInode then 1 else 0 := by
      rw [rootOnly, Function.update_apply, root]
    rw [counted.count, held, load, ← Finset.sum_filter]
    rfl

end Runs

theorem references_exact {size : Nat} (small : size < 2 ^ 32) (run : Run (Begins size) Serves)
    (noUnlink : ∀ t, t < run.length → ∀ request, run.act t = .asks request →
      request.msg.type ≠ .unlink)
    (fresh : ∀ t, t < run.length → ∀ request, run.act t = .asks request →
      request.msg.type = .open_ → CreatesFresh ((run.state t).fs.receive request)) :
    ∀ t, t ≤ run.length → (run.state t).forking = none → CountsRight (run.state t).fs := by
  intro t within idle
  have served : ∀ t, t ≤ run.length → Served (run.state t) rootOnly := by
    apply run.timed_invariant (P := fun _ v => Served v rootOnly)
    · exact fun v begins => begins.served small
    · intro t within before
      obtain ⟨base, after, same⟩ := before.step (run.steps t within) (fresh t within)
      rwa [same (noUnlink t within)] at after
  exact (served t within).right idle

def serveAll (driver : Message → Message) : State → List Request → Except Stop State
  | s, [] => .ok s
  | s, request :: rest => do
    let (_, s) ← taskFs driver (s.receive request)
    serveAll driver s rest

theorem serveAll_run {size : Nat} {P : Event → Prop} {driver : Message → Message} {s' : State}
    (requests : List Request) (run : Run (Begins size) Serves)
    (idle : (run.state run.length).forking = none)
    (asks : ∀ r ∈ requests, r.msg.source ∈ (run.state run.length).live ∧
      r.msg.type ∈ [MsgType.open_, .close, .read, .write, .unlink])
    (before : ∀ t, t < run.length → P (run.act t)) (each : ∀ r ∈ requests, P (.asks r))
    (done : serveAll driver (run.state run.length).fs requests = .ok s') :
    ∃ run' : Run (Begins size) Serves,
      run'.state run'.length = { run.state run.length with fs := s' } ∧
        ∀ t, t < run'.length → P (run'.act t) := by
  induction requests generalizing run with
  | nil =>
    cases done
    exact ⟨run, rfl, before⟩
  | cons r rest ih =>
    obtain ⟨⟨answer, s₁⟩, served, later⟩ := bind_ok done
    obtain ⟨live, kind⟩ := asks r List.mem_cons_self
    have runs (child : Int) : (run.state run.length).forking ≠ some (r.msg.source, child) := by
      rw [idle]
      exact fun same => nomatch same
    have next := Serves.asked live runs kind served
    have last := run.snoc_last next
    have now : ∀ t, t < (run.snoc _ _ next).length → P ((run.snoc _ _ next).act t) :=
      run.snoc_acts (P := fun _ e => P e) next before (each r List.mem_cons_self)
    obtain ⟨run', final, acts⟩ := ih (run.snoc _ _ next) (by rw [last]; exact idle)
      (fun r' member => by rw [last]; exact asks r' (List.mem_cons_of_mem _ member)) now
      (fun r' member => each r' (List.mem_cons_of_mem _ member)) (by rw [last]; exact later)
    exact ⟨run', by rw [final, last], acts⟩

-- The requests of INIT; what it hands over is at the start of its memory.
def ask (type : MsgType) (m3i1 m3i2 : Int) (bytes : List UInt8) : Request where
  msg := { resetMsg with source := initPid, type := type, m3i1 := m3i1, m3i2 := m3i2 }
  memory := fun _ j => bytes.getD j 0

def askOpen (flags : Nat) (pathname : List UInt8) : Request :=
  ask .open_ flags pathname.length pathname

/--
Two entries for the root directory, "x" of inode 4100 and a free one, and the record of that inode,
which lies behind them: a regular file that starts at sector `start`.
-/
def forgedBytes (start : UInt8) : List UInt8 :=
  [4, 16, 0, 0, 120, 0, 0, 0, 0, 0, 0, 0, 0, 0, 0, 0] ++ List.replicate 16 0 ++
    [0, 128, 0, 0, 0, 0, 0, 0, start, 0, 0, 0, 0, 8, 0, 0]

-- The directory is read up to its end, extended, and its new file is opened.
def forgery (start : UInt8) : List Request :=
  [askOpen oRdwr [slash], ask .read 0 64 [], ask .write 0 48 (forgedBytes start),
    askOpen oRdwr [120]]

-- The file "x" starts at the inode map, where the bit of the root directory is cleared.
def rootFreed : List Request :=
  forgery 2 ++ [ask .write 1 1 [29], askOpen (oCreat ||| oRdwr) [122]]

def rootFreedCounts : Except Stop (Int × Option Nat × Int × Nat) := do
  let s ← initFs (blankState 10000) 10000
  let s ← serveAll id s rootFreed
  return ((s.inodeTable 0).iCnt, (s.fDescTable 0).fdInode, (s.fDescTable 0).fdCnt, s.rootInode)

theorem begins_blank {size : Nat} {s : State} (made : initFs (blankState size) size = .ok s) :
    Begins size ⟨s, {initPid}, none⟩ := by
  refine ⟨_, made, fun _ _ => rfl, ?_, rfl⟩
  exact Finset.singleton_subset_iff.mpr (by decide)

theorem init_run {size : Nat} {s s' : State} (requests : List Request)
    (made : initFs (blankState size) size = .ok s) (done : serveAll id s requests = .ok s')
    (asks : ∀ r ∈ requests, r.msg.source = initPid ∧
      r.msg.type ∈ [MsgType.open_, .close, .read, .write, .unlink]) :
    ∃ run : Run (Begins size) Serves, run.state run.length = ⟨s', {initPid}, none⟩ ∧
      ∀ t, t < run.length → ∀ request, run.act t = .asks request → request ∈ requests := by
  refine serveAll_run (P := fun e => ∀ request, e = .asks request → request ∈ requests) requests
    (Run.still ⟨s, {initPid}, none⟩ (.copies 0 0) (begins_blank made)) rfl ?_ ?_ ?_ done
  · exact fun r member => ⟨Finset.mem_singleton.mpr (asks r member).1, (asks r member).2⟩
  · exact fun t within => absurd within (Nat.not_lt_zero t)
  · rintro r member _ ⟨⟩
    exact member

theorem references_miscounted :
    ¬ ∀ size, size < 2 ^ 32 → ∀ run : Run (Begins size) Serves,
      (∀ t, t < run.length → ∀ request, run.act t = .asks request → request.msg.type ≠ .unlink) →
      ∀ t, t ≤ run.length → (run.state t).forking = none → CountsRight (run.state t).fs := by
  intro claim
  have counts : rootFreedCounts = .ok (1, some 0, 1, 0) := by decide +kernel
  obtain ⟨s₀, made, rest⟩ := bind_ok counts
  obtain ⟨s, served, rest⟩ := bind_ok rest
  simp only [pure, Except.pure, Except.ok.injEq, Prod.mk.injEq] at rest
  obtain ⟨one, opened, share, root⟩ := rest
  obtain ⟨run, final, acts⟩ := init_run rootFreed made served (by decide)
  have noUnlink : ∀ r ∈ rootFreed, r.msg.type ≠ .unlink := by decide
  have right : CountsRight s := by
    have last := claim 10000 (by decide) run
      (fun t within request act => noUnlink request (acts t within request act))
      run.length (le_refl _) (by rw [final])
    rw [final] at last
    exact last
  have count := right.inodes 0 (by decide)
  have nonneg : ∀ d ∈ (Finset.range nrFileDesc).filter fun d => (s.fDescTable d).fdInode = some 0,
      0 ≤ (s.fDescTable d).fdCnt := by
    intro d member
    rw [(right.descs d (Finset.mem_range.mp (Finset.mem_filter.mp member).1)).1]
    exact Int.natCast_nonneg _
  have part : (s.fDescTable 0).fdCnt ≤
      ∑ d ∈ (Finset.range nrFileDesc).filter fun d => (s.fDescTable d).fdInode = some 0,
        (s.fDescTable d).fdCnt := Finset.single_le_sum nonneg
    (Finset.mem_filter.mpr ⟨Finset.mem_range.mpr (by decide : 0 < nrFileDesc), opened⟩)
  rw [share] at part
  rw [one, root, if_pos rfl] at count
  omega

-- INIT opens the root directory and forks, and the child 9 closes its descriptor and exits.
def forkRequest : Request where
  msg := { resetMsg with source := taskMm, type := .fork, m3i2 := 9 }
  memory := fun _ _ => 0

def closeRequest : Request where
  msg := { resetMsg with source := 9, type := .close }
  memory := fun _ _ => 0

def exitRequest : Request where
  msg := { resetMsg with source := taskMm, type := .exit, m3i2 := 9 }
  memory := fun _ _ => 0

def sharedRoot : Except Stop (Int × Int × Int) := do
  let s ← initFs (blankState 10000) 10000
  let (_, s) ← taskFs id (s.receive (askOpen oRdwr [slash]))
  let (_, s) ← taskFs id ((s.copyFilp initPid 9).receive forkRequest)
  let shared := (s.fDescTable 0).fdCnt
  let (_, s) ← taskFs id (s.receive closeRequest)
  let (_, s) ← taskFs id (s.receive exitRequest)
  return (shared, (s.fDescTable 0).fdCnt, (s.inodeTable 0).iCnt)

theorem references_exact_shared : ∃ run : Run (Begins 10000) Serves, run.length = 5 ∧
    run.act 2 = .asks forkRequest ∧ run.act 4 = .asks exitRequest ∧
    ∀ t, t ≤ run.length → (run.state t).forking = none → CountsRight (run.state t).fs := by
  have answers : sharedRoot = .ok (2, 1, 2) := by decide +kernel
  obtain ⟨s₀, made, rest⟩ := bind_ok answers
  obtain ⟨⟨a₁, s₁⟩, opened, rest⟩ := bind_ok rest
  obtain ⟨⟨a₂, s₂⟩, forked, rest⟩ := bind_ok rest
  obtain ⟨⟨a₃, s₃⟩, closed, rest⟩ := bind_ok rest
  obtain ⟨⟨a₄, s₄⟩, exited, rest⟩ := bind_ok rest
  have runs (pid : Int) (child : Int) : (none : Option (Int × Int)) ≠ some (pid, child) :=
    fun same => nomatch same
  have alone : initPid ∈ ({initPid} : Finset Int) := Finset.mem_singleton_self _
  have both : (9 : Int) ∈ ({9, initPid} : Finset Int) := Finset.mem_insert_self ..
  have new : (9 : Int) ∉ ({initPid} : Finset Int) := by decide
  refine ⟨⟨5, fun t => match t with
      | 0 => ⟨s₀, {initPid}, none⟩
      | 1 => ⟨s₁, {initPid}, none⟩
      | 2 => ⟨s₁.copyFilp initPid 9, {initPid}, some (initPid, 9)⟩
      | 3 => ⟨s₂, {9, initPid}, none⟩
      | 4 => ⟨s₃, {9, initPid}, none⟩
      | _ => ⟨s₄, ({9, initPid} : Finset Int).erase 9, none⟩,
    fun t => match t with
      | 0 => .asks (askOpen oRdwr [slash])
      | 1 => .copies initPid 9
      | 2 => .asks forkRequest
      | 3 => .asks closeRequest
      | _ => .asks exitRequest,
    begins_blank made, ?_⟩, rfl, rfl, rfl, references_exact (by decide) _ ?_ ?_⟩
  · intro t within
    interval_cases t
    · exact .asked alone (runs _) (by decide) opened
    · exact .copied alone (by decide) new rfl
    · exact .forked rfl rfl rfl rfl forked
    · exact .asked both (runs _) (by decide) closed
    · exact .exited rfl rfl rfl both exited
  · intro t within request act
    interval_cases t <;> cases act <;> decide
  · intro t within request act type
    interval_cases t <;> cases act
    · intro pathname filename path strip flags
      have plain : u32 (askOpen oRdwr [slash]).msg.flags &&& oCreat = 0 := by decide
      exact absurd plain flags
    · cases type
    · cases type
    · cases type

end Konix.Fs
