import Konix.Fs.Store

set_option autoImplicit false

namespace Konix.Fs

open Splice Words Bits Runs RefCounts FileStores

-- What an event has done to the files; a copied `filp[]` does nothing.
def Explained (v : Service) (e : Event) (v' : Service) (op : Op Nat UInt8) : Prop :=
  match e with
  | .asks request => Shows (v.fs.receive request) v'.fs op
  | .copies _ _ => op = .quiet

structure Intact (size : Nat) (v : Service) : Prop where
  sound : Sound size v
  inSpace : InSpace size v.fs

section Runs

variable {size : Nat} {v v' : Service} {e : Event} {op : Op Nat UInt8}

theorem Shows.answered {s t : State} (shows_ : Shows s t op) (msg : Message) :
    Shows s { t with fsMsg := msg } op := by
  cases shows_ with
  | read type transfers => exact .read type transfers
  | write type transfers => exact .write type transfers
  | create type flags path missing lowest => exact .create type flags path missing lowest
  | remove type path => exact .remove type path
  | quiet other => exact .quiet other

theorem Begins.intact (small : size < 2 ^ 32) (begins : Begins size v) :
    Intact size v ∧ ∀ x, storeOf size v.fs.disk x = none := by
  have sound := begins.sound small
  obtain ⟨s, done, -⟩ := begins
  obtain ⟨s', done', started⟩ := initFs_spec s small
  rw [done, Except.ok.injEq] at done'
  subst done'
  have none_ (x : Nat) : storeOf size v.fs.disk x = none := by
    rw [(started.volume small fun _ => 0).storeOf_eq, if_neg (Finset.notMem_empty x)]
  refine ⟨⟨sound, ?_, ?_, ?_⟩, none_⟩
  · rw [started.root, started.inodes, Function.update_self]
    have four : dirEntrySize * 4 / dirEntrySize ≤ rootSlots := by decide
    exact four
  · intro x file there
    rw [none_ x] at there
    cases there
  · intro d p opened
    rw [State.opens, started.descs] at opened
    cases opened

theorem Intact.step (small : size < 2 ^ 32) (intact : Intact size v) (serves : Serves v e v')
    (allocated : ∀ request, e = .asks request → NamesAllocated (v.fs.receive request))
    (bounded : ∀ request, e = .asks request → Bounded (v.fs.receive request)) :
    Intact size v' ∧ ∃ op, Explained v e v' op ∧
      Step (storeOf size v.fs.disk) op (storeOf size v'.fs.disk) := by
  have sound := intact.sound.step small serves allocated
  obtain ⟨⟨⟨base, served⟩, files, block, volume⟩, inSpace⟩ := intact
  have received (request : Request) : InSpace size (v.fs.receive request) :=
    ⟨inSpace.dir, inSpace.sizes, inSpace.offsets⟩
  have counts (request : Request) :=
    served.counted.same (receive_sameReferences v.fs request)
  -- a fork or an exit of a process
  have quiet {request : Request} {t : State} {msg : Message} (disk : t.disk = v.fs.disk)
      (type : request.msg.type = .fork ∨ request.msg.type = .exit) :
      ∃ op, Shows (v.fs.receive request) { t with fsMsg := msg } op ∧
        Step (storeOf size v.fs.disk) op (storeOf size t.disk) := by
    rw [disk]
    refine ⟨.quiet, .quiet fun moves => ?_, .quiet _⟩
    have same : (v.fs.receive request).fsMsg.type = request.msg.type := rfl
    rw [same] at moves
    rcases type with fork | exit_
    · rw [fork] at moves
      exact absurd moves (by decide)
    · rw [exit_] at moves
      exact absurd moves (by decide)
  cases serves with
  | @asked request driver answer s' live runs kind done =>
    obtain ⟨t, msg, does, rfl⟩ := taskFs_does kind done
    obtain ⟨⟨op, shows_, step⟩, after⟩ := (volume.receive request).shows small (counts request)
      (received request) (bounded request rfl) does
    exact ⟨⟨sound, after.dir, after.sizes, after.offsets⟩, op, shows_.answered msg, step⟩
  | copied live slot new idle =>
    exact ⟨⟨sound, inSpace.dir, inSpace.sizes, inSpace.offsets⟩, .quiet, rfl, .quiet _⟩
  | @forked request driver answer s' parent child forking source type pid done =>
    obtain ⟨t, msg, fork, rfl⟩ := taskFs_fork type done
    have isChild : (v.fs.receive request).fsMsg.pid = child := pid
    rw [isChild] at fork
    obtain ⟨-, ⟨after, disk⟩, -⟩ := (counts request).forkFiles
      (Q := fun s => InSpace size s ∧ s.disk = v.fs.disk) ⟨received request, rfl⟩
      (served.child parent child forking).2
      (fun s holders d p counted kept opened => ⟨kept.1.share counted d, kept.2⟩) fork
    exact ⟨⟨sound, after.dir, after.sizes, after.offsets⟩, quiet disk (.inl type)⟩
  | @exited request driver answer s' idle source type live done =>
    obtain ⟨t, msg, exit_, rfl⟩ := taskFs_exit type done
    obtain ⟨-, ⟨after, disk⟩, -⟩ := (counts request).exitFiles
      (Q := fun s => InSpace size s ∧ s.disk = v.fs.disk) ⟨received request, rfl⟩ live
      (fun s fd d p counted kept opened => ⟨kept.1.release counted _ fd d, kept.2⟩) exit_
    exact ⟨⟨sound, after.dir, after.sizes, after.offsets⟩, quiet disk (.inr type)⟩

end Runs

-- The requests of a run find only allocated numbers, and stay inside the files.
structure Obeys {size : Nat} (run : Run (Begins size) Serves) : Prop where
  allocated : ∀ t, t < run.length → ∀ request, run.act t = .asks request →
    NamesAllocated ((run.state t).fs.receive request)
  bounded : ∀ t, t < run.length → ∀ request, run.act t = .asks request →
    Bounded ((run.state t).fs.receive request)

section Refinement

variable {size : Nat} {run : Run (Begins size) Serves}

theorem Obeys.intact (obeys : Obeys run) (small : size < 2 ^ 32) :
    ∀ t, t ≤ run.length → Intact size (run.state t) := by
  apply run.timed_invariant (P := fun _ v => Intact size v)
  · exact fun v begins => (begins.intact small).1
  · exact fun t within before => (before.step small (run.steps t within) (obeys.allocated t within)
      (obeys.bounded t within)).1

theorem Obeys.step (obeys : Obeys run) (small : size < 2 ^ 32) {t : Nat} (within : t < run.length) :
    ∃ op, Explained (run.state t) (run.act t) (run.state (t + 1)) op ∧
      Step (storeOf size (run.state t).fs.disk) op (storeOf size (run.state (t + 1)).fs.disk) :=
  ((obeys.intact small t (le_of_lt within)).step small (run.steps t within)
    (obeys.allocated t within) (obeys.bounded t within)).2

theorem Obeys.storeRun (obeys : Obeys run) (small : size < 2 ^ 32) :
    ∃ store : Run (fun st : Store Nat UInt8 => ∀ x, st x = none) Step, store.length = run.length ∧
      (∀ t, store.state t = storeOf size (run.state t).fs.disk) ∧
      ∀ t, t < run.length →
        Explained (run.state t) (run.act t) (run.state (t + 1)) (store.act t) := by
  have step : ∀ t, ∃ op, t < run.length →
      Explained (run.state t) (run.act t) (run.state (t + 1)) op ∧
        Step (storeOf size (run.state t).fs.disk) op
          (storeOf size (run.state (t + 1)).fs.disk) := by
    intro t
    by_cases within : t < run.length
    next =>
      obtain ⟨op, both⟩ := obeys.step small within
      exact ⟨op, fun _ => both⟩
    next => exact ⟨.quiet, fun below => absurd below within⟩
  choose op both using step
  exact ⟨⟨run.length, fun t => storeOf size (run.state t).fs.disk, op,
    (run.start.intact small).2, fun t within => (both t within).2⟩, rfl, fun _ => rfl,
    fun t within => (both t within).1⟩

end Refinement

-- INIT creates the file "a", writes to it, opens it once more and reads it through that descriptor.
def openA : Request := askOpen oRdwr [97]

def readA : Request := ask .read 1 5 []

-- What FS says of the file in front of each request.
def rereadA : Except Stop (List (Option Nat) × List Nat × List Int × Bool) := do
  let s₀ ← initFs (blankState 10000) 10000
  let (_, s₁) ← taskFs id (s₀.receive createA)
  let (_, s₂) ← taskFs id (s₁.receive writeA)
  let (_, s₃) ← taskFs id (s₂.receive openA)
  let (_, _) ← taskFs id (s₃.receive readA)
  return ([s₁.filp initPid 0, s₁.opens 0, s₃.filp initPid 1, s₃.opens 1],
    [freeSlotOf (s₀.inodeTable s₀.rootInode) s₀.disk, (s₁.inodeTable 1).iNrSects,
      lookupPath (s₂.receive openA) [97], (s₃.inodeTable 1).iSize, (s₃.inodeTable 1).iMode,
      (s₃.fDescTable 1).fdMode],
    [(s₁.fDescTable 0).fdPos, (s₃.fDescTable 1).fdPos], bitAt s₂.disk imapBase 5)

theorem Uses.bounded {s : State} {d p : Nat} (uses : Uses s d p) (other : s.fsMsg.type ≠ .open_)
    (lower : 0 ≤ s.fsMsg.cnt) (fits : (s.fDescTable d).fdPos + s.fsMsg.cnt ≤
      transferLimit s.fsMsg.type (s.inodeTable p)) : Bounded s where
  transfer := by
    intro _ d' p' uses' _
    obtain ⟨rfl, rfl⟩ := uses.unique uses'
    exact ⟨lower, fits⟩
  room := fun type => absurd type other

theorem reread_run : ∃ run : Run (Begins 10000) Serves, Obeys run ∧ run.length = 4 ∧
    run.act 1 = .asks writeA ∧ run.act 3 = .asks readA ∧
    Transfers ((run.state 3).fs.receive readA) 1 1 := by
  have answers : rereadA = .ok ([some 0, some 1, some 1, some 1], [4, 2048, 5, 5, iRegular, oRdwr],
    [0, 0], true) := by decide +kernel
  obtain ⟨s₀, made, rest⟩ := bind_ok answers
  obtain ⟨⟨a₁, s₁⟩, created, rest⟩ := bind_ok rest
  obtain ⟨⟨a₂, s₂⟩, written, rest⟩ := bind_ok rest
  obtain ⟨⟨a₃, s₃⟩, opened, rest⟩ := bind_ok rest
  obtain ⟨⟨a₄, s₄⟩, seen, rest⟩ := bind_ok rest
  simp only [pure, Except.pure, Except.ok.injEq, Prod.mk.injEq, List.cons.injEq, and_true] at rest
  obtain ⟨⟨filp₁, opens₁, filp₃, opens₃⟩, ⟨slot, sects, number, size, mode, flags⟩, ⟨pos₁, pos₃⟩,
    set⟩ := rest
  have uses₁ : Uses (s₁.receive writeA) 0 1 := ⟨filp₁, opens₁⟩
  have uses₃ : Uses (s₃.receive readA) 1 1 := ⟨filp₃, opens₃⟩
  have runs (child : Int) : (none : Option (Int × Int)) ≠ some (initPid, child) :=
    fun same => nomatch same
  have alone : initPid ∈ ({initPid} : Finset Int) := Finset.mem_singleton_self _
  refine ⟨⟨4, fun t => match t with
      | 0 => ⟨s₀, {initPid}, none⟩
      | 1 => ⟨s₁, {initPid}, none⟩
      | 2 => ⟨s₂, {initPid}, none⟩
      | 3 => ⟨s₃, {initPid}, none⟩
      | _ => ⟨s₄, {initPid}, none⟩,
    fun t => match t with
      | 0 => .asks createA
      | 1 => .asks writeA
      | 2 => .asks openA
      | _ => .asks readA,
    begins_blank made, ?_⟩, ⟨?_, ?_⟩, rfl, rfl, rfl, uses₃, ?_, mode⟩
  · intro t within
    interval_cases t
    · exact .asked alone runs (by decide) created
    · exact .asked alone runs (by decide) written
    · exact .asked alone runs (by decide) opened
    · exact .asked alone runs (by decide) seen
  · intro t within request act
    interval_cases t <;> cases act
    · rintro (⟨-, plain⟩ | other)
      · have creates : u32 createA.msg.flags &&& oCreat ≠ 0 := by decide
        exact absurd plain creates
      · cases other
    · rintro (⟨type, -⟩ | other)
      · cases type
      · cases other
    · intro _ pathname path
      have name : pathnameOf (s₂.receive openA) = .ok [97] := rfl
      have same : pathname = [97] := Except.ok.inj (path.symm.trans name)
      subst same
      right
      have found : lookupPath (s₂.receive openA) [97] = 5 := number
      show lookupPath (s₂.receive openA) [97] < bitsPerSect ∧
        bitAt s₂.disk imapBase (lookupPath (s₂.receive openA) [97]) = true
      rw [found]
      exact ⟨by decide, set⟩
    · rintro (⟨type, -⟩ | other)
      · cases type
      · cases other
  · intro t within request act
    interval_cases t <;> cases act
    · refine ⟨fun moves => ?_, fun _ _ => ?_⟩
      · rcases moves with type | type <;> cases type
      · have four : 4 < rootSlots := by decide
        exact lt_of_eq_of_lt slot four
    · have other : writeA.msg.type ≠ .open_ := by decide
      have lower : 0 ≤ writeA.msg.cnt := by decide
      refine uses₁.bounded other lower ?_
      show (s₁.fDescTable 0).fdPos + 5 ≤ ((s₁.inodeTable 1).iNrSects * sectorSize : Nat)
      rw [pos₁, sects]
      decide
    · refine ⟨fun moves => ?_, fun _ creates => ?_⟩
      · rcases moves with type | type <;> cases type
      · have plain : u32 openA.msg.flags &&& oCreat = 0 := by decide
        exact absurd plain creates
    · have other : readA.msg.type ≠ .open_ := by decide
      have lower : 0 ≤ readA.msg.cnt := by decide
      refine uses₃.bounded other lower ?_
      show (s₃.fDescTable 1).fdPos + 5 ≤ ((s₃.inodeTable 1).iSize : Nat)
      rw [pos₃, size]
      decide
  · show (s₃.fDescTable 1).fdMode &&& oRdwr ≠ 0
    rw [flags]
    decide

theorem files_refine_store {size : Nat} (small : size < 2 ^ 32) (run : Run (Begins size) Serves)
    (obeys : Obeys run) : ∀ t, t < run.length →
      ∃ op, Explained (run.state t) (run.act t) (run.state (t + 1)) op ∧
        Step (storeOf size (run.state t).fs.disk) op
          (storeOf size (run.state (t + 1)).fs.disk) :=
  fun _ within => obeys.step small within

theorem files_refine_store_reread : ∃ run : Run (Begins 10000) Serves, run.length = 4 ∧
    run.act 1 = .asks writeA ∧ run.act 3 = .asks readA ∧ ∀ t, t < run.length →
      ∃ op, Explained (run.state t) (run.act t) (run.state (t + 1)) op ∧
        Step (storeOf 10000 (run.state t).fs.disk) op
          (storeOf 10000 (run.state (t + 1)).fs.disk) := by
  obtain ⟨run, obeys, length, writes, reads, -⟩ := reread_run
  exact ⟨run, length, writes, reads, files_refine_store (by decide) run obeys⟩

-- Byte `b` of the file of inode `x` is written by the request of the event.
structure Wrote (v : Service) (e : Event) (x b : Nat) (byte : UInt8) (request : Request)
    (d p : Nat) :
    Prop where
  asks : e = .asks request
  type : request.msg.type = .write
  transfers : Transfers (v.fs.receive request) d p
  num : (v.fs.inodeTable p).iNum = x
  lower : (v.fs.fDescTable d).fdPos.toNat ≤ b
  upper : b < (v.fs.fDescTable d).fdPos.toNat + request.msg.cnt.toNat
  byte : byte = request.memory request.msg.source
    (request.msg.buf + (b - (v.fs.fDescTable d).fdPos.toNat))

def Writes (v : Service) (e : Event) (x b : Nat) (byte : UInt8) : Prop :=
  ∃ request d p, Wrote v e x b byte request d p

section Writes

variable {v v' : Service} {e : Event} {op : Op Nat UInt8} {x b : Nat} {byte : UInt8}

theorem Explained.writes_iff (explained : Explained v e v' op) :
    op.Writes x b byte ↔ Writes v e x b byte := by
  constructor
  · rintro ⟨off, len, data, rfl, lower, upper, rfl⟩
    cases e with
    | copies parent child => cases explained
    | asks request =>
      cases explained with
      | @write d p type transfers =>
        exact ⟨request, d, p, rfl, type, transfers, rfl, lower, upper, rfl⟩
  · rintro ⟨request, d, p, rfl, type, transfers, rfl, lower, upper, rfl⟩
    have isWrite : (v.fs.receive request).fsMsg.type = .write := type
    have shows_ : Shows (v.fs.receive request) v'.fs op := explained
    cases shows_ with
    | @write d' p' type' transfers' =>
      obtain ⟨rfl, rfl⟩ := transfers'.uses.unique transfers.uses
      exact ⟨_, _, _, rfl, lower, upper, rfl⟩
    | read type' _ => exact absurd (isWrite.symm.trans type') (by decide)
    | create type' _ _ _ _ => exact absurd (isWrite.symm.trans type') (by decide)
    | remove type' _ => exact absurd (isWrite.symm.trans type') (by decide)
    | quiet other => exact absurd transfers (other (.inr isWrite) d p)

theorem Explained.reads {request : Request} {d p : Nat}
    (explained : Explained v (.asks request) v' op)
    (type : request.msg.type = .read) (transfers : Transfers (v.fs.receive request) d p) :
    op = .read (v.fs.inodeTable p).iNum (v.fs.fDescTable d).fdPos.toNat
      (OpenFile.cellsAt (v'.fs.userMem request.msg.source) request.msg.buf
        request.msg.cnt.toNat) := by
  have isRead : (v.fs.receive request).fsMsg.type = .read := type
  have shows_ : Shows (v.fs.receive request) v'.fs op := explained
  cases shows_ with
  | @read d' p' type' transfers' =>
    obtain ⟨rfl, rfl⟩ := transfers'.uses.unique transfers.uses
    rfl
  | write type' _ => exact absurd (isRead.symm.trans type') (by decide)
  | create type' _ _ _ _ => exact absurd (isRead.symm.trans type') (by decide)
  | remove type' _ => exact absurd (isRead.symm.trans type') (by decide)
  | quiet other => exact absurd transfers (other (.inl isRead) d p)

end Writes

/--
Each byte that a READ leaves in its caller's buffer is the one of the last WRITE to that place of
the file, whoever has made it and through which descriptor; and there is one since the file exists.
-/
theorem reads_show_last_write {size : Nat} (small : size < 2 ^ 32)
    (run : Run (Begins size) Serves) (obeys : Obeys run) {t d p : Nat} {request : Request}
    (within : t < run.length) (act : run.act t = .asks request) (type : request.msg.type = .read)
    (transfers : Transfers ((run.state t).fs.receive request) d p) (j : Nat)
    (inside : j < request.msg.cnt.toNat) :
    ∃ t₀, t₀ < t ∧
      Writes (run.state t₀) (run.act t₀) ((run.state t).fs.inodeTable p).iNum
        (((run.state t).fs.fDescTable d).fdPos.toNat + j)
        ((run.state (t + 1)).fs.userMem request.msg.source (request.msg.buf + j)) ∧
      ∀ u, t₀ < u → u < t →
        (storeOf size (run.state u).fs.disk ((run.state t).fs.inodeTable p).iNum).isSome ∧
        ∀ byte, ¬ Writes (run.state u) (run.act u) ((run.state t).fs.inodeTable p).iNum
          (((run.state t).fs.fDescTable d).fdPos.toNat + j) byte := by
  obtain ⟨store, length, states, explained⟩ := obeys.storeRun small
  have reads := explained t within
  rw [act] at reads
  have op := reads.reads type transfers
  have bound : j < (OpenFile.cellsAt ((run.state (t + 1)).fs.userMem request.msg.source)
      request.msg.buf request.msg.cnt.toNat).length := by
    rwa [OpenFile.cellsAt, List.length_map, List.length_range]
  obtain ⟨t₀, before, wrote, since⟩ := read_last_written store (length ▸ within) op j bound
  refine ⟨t₀, before, ?_, fun u after below => ?_⟩
  · rw [(explained t₀ (by omega)).writes_iff] at wrote
    simpa [OpenFile.cellsAt] using wrote
  · obtain ⟨there, none_⟩ := since u after below
    rw [states u] at there
    exact ⟨there, fun byte writes =>
      none_ byte ((explained u (by omega)).writes_iff.mpr writes)⟩

theorem reads_show_last_write_reread : ∃ run : Run (Begins 10000) Serves, run.length = 4 ∧
    run.act 1 = .asks writeA ∧ run.act 3 = .asks readA ∧ ∃ t₀, t₀ < 3 ∧
      Writes (run.state t₀) (run.act t₀) ((run.state 3).fs.inodeTable 1).iNum
        (((run.state 3).fs.fDescTable 1).fdPos.toNat + 4)
        ((run.state 4).fs.userMem initPid 4) := by
  obtain ⟨run, obeys, length, writes, reads, transfers⟩ := reread_run
  obtain ⟨t₀, before, wrote, -⟩ := reads_show_last_write (by decide) run obeys (by omega) reads rfl
    transfers 4 (by decide)
  exact ⟨run, length, writes, reads, t₀, before, wrote⟩

end Konix.Fs
