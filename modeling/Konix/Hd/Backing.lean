import Konix.Hd.Service

set_option autoImplicit false

namespace Konix.Hd

open Splice AtaDrives

def fsbufAt : Nat := 0x600000

def sectorMsg (io : MsgType) (dev pos bytes : Nat) : Message :=
  { Fs.State.driverMsg io dev pos bytes with m3p2 := fsbufAt }

/--
What FS takes for its disk is the root partition of the drive, and what it takes for its buffer is
the memory that it passes to the driver.
-/
structure Backs (part : PartInfo) (s : Fs.State) (h : Task) : Prop where
  ready : h.Ready
  found : partOf h.info (minor rootDev) = .ok part
  disk : ∀ j, j < part.size * sectorBytes →
    s.disk j = h.drive.media (part.base * sectorBytes + j)
  buf : ∀ j, j < fsbufSize → s.fsbuf j = h.mem (fsbufAt + j)

-- What FS does to its disk and to its buffer: a request to the driver, or bytes that it puts there.
inductive Access
  | sectors (io : MsgType) (pos n : Nat)
  | fill (off len : Nat) (data : Nat → UInt8)

namespace Access

def onDisk (s : Fs.State) : Access → Except Fs.Stop Fs.State
  | .sectors io pos n => s.rwSector io rootDev pos (n * sectorSize)
  | .fill off len data => .ok { s with fsbuf := splice s.fsbuf off len data }

def onDrive (fuel : Nat) (k : Kernel.State) (h : Task) : Access → Except Stuck Task
  | .sectors io pos n => h.serve fuel k (sectorMsg io rootDev pos (n * sectorSize))
  | .fill off len data => .ok { h with mem := splice h.mem (fsbufAt + off) len data }

-- Up to 256 whole sectors of the partition, and bytes of the buffer.
def Inside (part : PartInfo) : Access → Prop
  | .sectors io pos n => (io = .devRead ∨ io = .devWrite) ∧ pos % sectorSize = 0 ∧ 1 ≤ n ∧ n ≤ 256 ∧
      pos + n * sectorSize ≤ part.size * sectorSize
  | .fill off len _ => off + len ≤ fsbufSize

end Access

-- The rest of the drive and of memory is as before.
structure Apart (part : PartInfo) (h h' : Task) : Prop where
  info : h'.info = h.info
  media : ∀ b, b < part.base * sectorBytes ∨ (part.base + part.size) * sectorBytes ≤ b →
    h'.drive.media b = h.drive.media b
  mem : ∀ a, a < fsbufAt ∨ fsbufAt + fsbufSize ≤ a → h'.mem a = h.mem a

theorem Apart.refl (part : PartInfo) (h : Task) : Apart part h h :=
  ⟨rfl, fun _ _ => rfl, fun _ _ => rfl⟩

theorem Apart.trans {part : PartInfo} {h h' h'' : Task} (first : Apart part h h')
    (second : Apart part h' h'') : Apart part h h'' where
  info := second.info.trans first.info
  media b out := (second.media b out).trans (first.media b out)
  mem a out := (second.mem a out).trans (first.mem a out)

section Backing

variable {part : PartInfo} {s : Fs.State} {h : Task} {k : Kernel.State} {fuel : Nat}

theorem va2la_flat (flat : Kernel.ldtSegLinear (k.procTable taskFs).ldtRw = 0) :
    va2la k taskFs fsbufAt = .ok fsbufAt := by
  have same : (Kernel.ldtSegLinear (k.procTable taskFs).ldtRw + fsbufAt) % 4294967296 =
      fsbufAt := by
    rw [flat]
    rfl
  rw [va2la, Kernel.va2la, same]
  simp only [decide_true, Kernel.State.assertThat_true]
  rfl

theorem Backs.extent (backs : Backs part s h)
    (flat : Kernel.ldtSegLinear (k.procTable taskFs).ldtRw = 0)
    (fits : part.base + part.size ≤ 268435456) {io : MsgType} {pos n : Nat}
    (aligned : pos % sectorSize = 0) (some_ : 1 ≤ n) (few : n ≤ 256)
    (inside : pos + n * sectorSize ≤ part.size * sectorSize) :
    h.contents.extent k (sectorMsg io rootDev pos (n * sectorSize)) =
      some ⟨fsbufAt, part.base * sectorBytes + pos, n⟩ := by
  generalize message : sectorMsg io rootDev pos (n * sectorSize) = m
  have device : m.device = minor rootDev := by rw [← message]; rfl
  have position : m.position = pos := by rw [← message]; rfl
  have procNr : m.procNr = taskFs := by rw [← message]; rfl
  have buf : m.buf = fsbufAt := by rw [← message]; rfl
  have cnt : m.cnt = (n * sectorSize : Nat) := by rw [← message]; rfl
  have isPart : partOf h.contents.info m.device = .ok part := by
    rw [device]
    exact backs.found
  have isLa : va2la k m.procNr m.buf = .ok fsbufAt := by
    rw [procNr, buf]
    exact va2la_flat flat
  have sects : m.cnt.toNat / sectorSize = n := by
    rw [cnt, Int.toNat_natCast]
    exact Nat.mul_div_cancel _ (by decide)
  have drive : drvOfDev m.device = 0 := by
    rw [device]
    decide
  rw [Contents.extent, isPart, isLa]
  dsimp only
  rw [sects, position, drive, cnt]
  have whole : (pos / sectorSize + part.base) * sectorBytes = part.base * sectorBytes + pos := by
    simp only [sectorSize, sectorBytes] at aligned ⊢
    omega
  have below : pos / sectorSize + part.base + n ≤ 268435456 := by
    simp only [sectorSize] at inside ⊢
    omega
  have room : fsbufAt + n * sectorBytes ≤ 4294967296 := by
    simp only [fsbufAt, sectorBytes]
    omega
  rw [if_pos ⟨rfl, aligned, rfl, some_, few, below, room⟩, whole]

theorem fill_backed (backs : Backs part s h) {off len : Nat} (bound : off + len ≤ fsbufSize)
    (data : Nat → UInt8) :
    Backs part { s with fsbuf := splice s.fsbuf off len data }
        { h with mem := splice h.mem (fsbufAt + off) len data } ∧
      Apart part h { h with mem := splice h.mem (fsbufAt + off) len data } := by
  constructor
  · refine ⟨⟨backs.ready.idle, backs.ready.quiet⟩, backs.found, backs.disk, fun j below => ?_⟩
    dsimp only
    by_cases here : off ≤ j ∧ j < off + len
    next =>
      rw [splice_inside _ _ here.1 here.2, splice_inside _ _ (by omega) (by omega)]
      congr 1
      omega
    next =>
      rw [splice_outside _ _ (by omega), splice_outside _ _ (by omega)]
      exact backs.buf j below
  · exact ⟨rfl, fun _ _ => rfl, fun a out => splice_outside _ _ (by omega)⟩

theorem read_backed (backs : Backs part s h) {h' : Task} (ready : h'.Ready) {pos n : Nat}
    (within : pos + n * sectorBytes ≤ part.size * sectorBytes) (few : n ≤ 256)
    (same : h'.contents = h.contents.read ⟨fsbufAt, part.base * sectorBytes + pos, n⟩) :
    Backs part (s.transfer .devRead rootDev pos (n * sectorSize)) h' ∧ Apart part h h' := by
  have info : h'.info = h.info := congrArg Contents.info same
  have media : h'.drive.media = h.drive.media := congrArg Contents.media same
  have mem : h'.mem = splice h.mem fsbufAt (n * sectorBytes)
      (window h.drive.media (part.base * sectorBytes + pos)) := congrArg Contents.mem same
  have room : n * sectorBytes ≤ fsbufSize := by
    simp only [sectorBytes, fsbufSize]
    omega
  have buf : (s.transfer .devRead rootDev pos (n * sectorSize)).fsbuf =
      splice s.fsbuf 0 (n * sectorBytes) (window s.disk pos) := rfl
  constructor
  · refine ⟨ready, info ▸ backs.found, ?_, fun j below => ?_⟩
    · rw [media]
      exact backs.disk
    · rw [buf, mem]
      by_cases here : j < n * sectorBytes
      next =>
        rw [splice_inside _ _ (Nat.zero_le j) (by omega), splice_inside _ _ (by omega) (by omega),
          window_apply, window_apply, Nat.sub_zero, Nat.add_sub_cancel_left, Nat.add_assoc]
        exact backs.disk (pos + j) (by omega)
      next =>
        rw [splice_outside _ _ (by omega), splice_outside _ _ (by omega)]
        exact backs.buf j below
  · refine ⟨info, fun b _ => by rw [media], fun a out => ?_⟩
    rw [mem]
    exact splice_outside _ _ (by omega)

theorem write_backed (backs : Backs part s h) {h' : Task} (ready : h'.Ready) {pos n : Nat}
    (within : pos + n * sectorBytes ≤ part.size * sectorBytes) (few : n ≤ 256)
    (same : h'.contents = h.contents.write ⟨fsbufAt, part.base * sectorBytes + pos, n⟩) :
    Backs part (s.transfer .devWrite rootDev pos (n * sectorSize)) h' ∧ Apart part h h' := by
  have info : h'.info = h.info := congrArg Contents.info same
  have mem : h'.mem = h.mem := congrArg Contents.mem same
  have media : h'.drive.media = splice h.drive.media (part.base * sectorBytes + pos)
      (n * sectorBytes) (window h.mem fsbufAt) := congrArg Contents.media same
  have room : n * sectorBytes ≤ fsbufSize := by
    simp only [sectorBytes, fsbufSize]
    omega
  have disk : (s.transfer .devWrite rootDev pos (n * sectorSize)).disk =
      splice s.disk pos (n * sectorBytes) s.fsbuf := rfl
  constructor
  · refine ⟨ready, info ▸ backs.found, fun j below => ?_, ?_⟩
    · rw [disk, media]
      by_cases here : pos ≤ j ∧ j < pos + n * sectorBytes
      next =>
        rw [splice_inside _ _ here.1 here.2, splice_inside _ _ (by omega) (by omega), window_apply,
          backs.buf _ (by omega)]
        congr 1
        omega
      next =>
        rw [splice_outside _ _ (by omega), splice_outside _ _ (by omega)]
        exact backs.disk j below
    · rw [mem]
      exact backs.buf
  · refine ⟨info, fun b out => ?_, fun a _ => by rw [mem]⟩
    rw [media]
    rw [Nat.add_mul] at out
    exact splice_outside _ _ (by omega)

theorem access_backed (backs : Backs part s h)
    (flat : Kernel.ldtSegLinear (k.procTable taskFs).ldtRw = 0)
    (fits : part.base + part.size ≤ 268435456) (enough : 256 ≤ fuel) {access : Access}
    (inside : access.Inside part) :
    ∃ s' h', access.onDisk s = .ok s' ∧ access.onDrive fuel k h = .ok h' ∧ Backs part s' h' ∧
      Apart part h h' := by
  cases access with
  | fill off len data => exact ⟨_, _, rfl, rfl, fill_backed backs inside data⟩
  | sectors io pos n =>
    obtain ⟨moves, aligned, some_, few, within⟩ := inside
    have extent : h.contents.extent k (sectorMsg io rootDev pos (n * sectorSize)) = _ :=
      backs.extent flat fits aligned some_ few within
    rcases moves with rfl | rfl
    next =>
      obtain ⟨h', done, ready, same⟩ := serve_served enough backs.ready
        (Contents.serve_read rfl extent)
      exact ⟨_, h', Fs.State.rwSector_rootDev .., done, read_backed backs ready within few same⟩
    next =>
      obtain ⟨h', done, ready, same⟩ := serve_served enough backs.ready
        (Contents.serve_write rfl extent)
      exact ⟨_, h', Fs.State.rwSector_rootDev .., done, write_backed backs ready within few same⟩

end Backing

/--
Through any run of requests and changes to its buffer, FS finds on its disk and in its buffer what
the driver keeps in the root partition and in memory; the rest of both is left alone.
-/
theorem root_partition_backs (k : Kernel.State)
    (flat : Kernel.ldtSegLinear (k.procTable taskFs).ldtRw = 0) {part : PartInfo}
    (fits : part.base + part.size ≤ 268435456) {fuel : Nat} (enough : 256 ≤ fuel)
    {accesses : List Access} (inside : ∀ access ∈ accesses, access.Inside part) {s : Fs.State}
    {h : Task} (backs : Backs part s h) :
    ∃ s' h', accesses.foldlM Access.onDisk s = .ok s' ∧
      accesses.foldlM (Access.onDrive fuel k) h = .ok h' ∧ Backs part s' h' ∧ Apart part h h' := by
  induction accesses generalizing s h with
  | nil => exact ⟨s, h, rfl, rfl, backs, Apart.refl part h⟩
  | cons access accesses ih =>
    obtain ⟨s₁, h₁, onDisk, onDrive, backs₁, apart⟩ :=
      access_backed backs flat fits enough (inside access List.mem_cons_self)
    obtain ⟨s', h', onDisk', onDrive', backs', apart'⟩ :=
      ih (fun access member => inside access (List.mem_cons_of_mem _ member)) backs₁
    refine ⟨s', h', ?_, ?_, backs', apart.trans apart'⟩
    · rw [List.foldlM_cons, bind_of_ok _ onDisk]
      exact onDisk'
    · rw [List.foldlM_cons, bind_of_ok _ onDrive]
      exact onDrive'

def emptyFs : Fs.State where
  disk _ := 0
  fsbuf _ := 0
  inodeTable _ := ⟨0, 0, 0, 0, 0, 0, 0⟩
  fDescTable _ := ⟨0, 0, 0, none⟩
  superBlock _ := ⟨0, 0, 0, 0, 0, 0, 0, 0, 0, 0, 0, 0, 0, 0, 0⟩
  rootInode := 0
  filp _ _ := none
  userMem _ _ := 0
  fsMsg := resetMsg
  driverMsgs := []

def emptyTask : Task where
  info := onePartition
  openCnt := 1
  hdbuf _ := 0
  drive := ⟨fun _ => 0, fun _ => 0, .idle, false⟩
  mem _ := 0

def writeReadBack : List Access :=
  [.fill 0 512 fun _ => 7, .sectors .devWrite 512 1, .sectors .devRead 0 2]

theorem root_partition_backs_write : ∃ s' h', writeReadBack.foldlM Access.onDisk emptyFs = .ok s' ∧
    writeReadBack.foldlM (Access.onDrive 256 (Kernel.kernelMain 0 0 fun _ => resetMsg)) emptyTask =
      .ok h' ∧ Backs ⟨63, 8388608⟩ s' h' ∧ Apart ⟨63, 8388608⟩ emptyTask h' := by
  refine root_partition_backs (Kernel.kernelMain 0 0 fun _ => resetMsg) (by decide) (by decide)
    (le_refl 256) ?_ ⟨⟨rfl, rfl⟩, rfl, fun _ _ => rfl, fun _ _ => rfl⟩
  intro access member
  simp only [writeReadBack, List.mem_cons, List.not_mem_nil, or_false] at member
  rcases member with rfl | rfl | rfl
  · show 0 + 512 ≤ fsbufSize
    decide
  · exact ⟨.inr rfl, by decide, by decide, by decide, by decide⟩
  · exact ⟨.inl rfl, by decide, by decide, by decide, by decide⟩

end Konix.Hd
