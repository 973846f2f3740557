/-
  File:      Nvecd/Storage/SnapshotDir.lean
  Subject:   The snapshot directory: snapshot files, their checkpoint sidecars
             (`storage/wal_checkpoint.cpp`), the choice of a recovery base
             (`FindSnapshotCandidates`, `load_newest_valid_snapshot` in
             `server/nvecd_server.cpp`) and retention (`CleanupOldSnapshots` in
             `server/snapshot_scheduler.cpp`).

  A sidecar is a file of its own beside the snapshot: publishing a snapshot over another leaves
  the old sidecar, removing a snapshot leaves its sidecar. The sidecar names the size and the
  CRC of the snapshot it was written for.

  * `decodeCheckpoint_encode` -- a sidecar reads back;
  * `readWalCheckpoint_*` -- what each operation on the directory does to the sidecars' reading;
  * `IsBase`, `loadNewestValidSnapshot_base`, `exists_base` -- what recovery starts from;
  * `cleanupOldSnapshots` -- retention by age alone.

  Modification times are numbers; a name is a path relative to the directory.
-/
import Mathlib.Data.List.Pairwise
import Mathlib.Data.List.Sort
import Mathlib.Data.String.Basic
import Nvecd.Storage.WalFormat
import Nvecd.Utils.Error

namespace Nvecd.Storage

open Nvecd.Lib Nvecd.Utils

/-! ## 1. Files and sidecars -/

structure SnapshotFile where
  name : String
  /-- A regular file, not a symbolic link or a directory. -/
  isRegular : Bool := true
  mtime : Nat
  content : Bytes
  deriving DecidableEq, Repr

/-- A directory: no two files have one name. -/
structure SnapshotDir where
  files : List SnapshotFile := []
  /-- The files `<name>.walseq`, by the snapshot's name. -/
  sidecars : List (String × Bytes) := []
  distinct : files.Pairwise fun f g => f.name ≠ g.name := by decide
  deriving DecidableEq

namespace SnapshotDir

def lookup (d : SnapshotDir) (name : String) : Option SnapshotFile :=
  d.files.find? fun f => f.name == name

def sidecar (d : SnapshotDir) (name : String) : Option Bytes :=
  (d.sidecars.find? fun p => p.1 == name).map (·.2)

/-- `std::filesystem::remove`. -/
def remove (d : SnapshotDir) (name : String) : SnapshotDir :=
  { d with
    files := d.files.filter fun g => g.name != name
    distinct := d.distinct.filter _ }

/-- `rename` of a finished file to its final name. -/
def publish (d : SnapshotDir) (f : SnapshotFile) : SnapshotDir :=
  { d with
    files := f :: (d.remove f.name).files
    distinct := by
      refine List.pairwise_cons.mpr ⟨fun g hg => ?_, (d.remove f.name).distinct⟩
      have := (List.mem_filter.mp hg).2
      exact fun he => by simp [he] at this }

/-- `last_write_time(path, now)`. -/
def touch (d : SnapshotDir) (name : String) (now : Nat) : SnapshotDir :=
  { d with
    files := d.files.map fun g => if g.name = name then { g with mtime := now } else g
    distinct := by
      refine List.pairwise_map.mpr (d.distinct.imp fun {a b} hne => ?_)
      split <;> split <;> exact hne }

def putSidecar (d : SnapshotDir) (name : String) (bytes : Bytes) : SnapshotDir :=
  { d with sidecars := (name, bytes) :: d.sidecars.filter fun p => p.1 != name }

theorem lookup_eq_some {d : SnapshotDir} {name : String} {f : SnapshotFile} :
    d.lookup name = some f ↔ f ∈ d.files ∧ f.name = name := by
  constructor
  · intro h
    exact ⟨List.mem_of_find?_eq_some h, by simpa using List.find?_some h⟩
  · rintro ⟨hf, rfl⟩
    cases hfind : d.lookup f.name with
    | none =>
      have := List.find?_eq_none.mp hfind f hf
      simp at this
    | some g =>
      have hg := List.mem_of_find?_eq_some hfind
      have hn : g.name = f.name := by simpa using List.find?_some hfind
      by_contra hne
      have hsymm : Std.Symm fun f g : SnapshotFile => f.name ≠ g.name := ⟨fun _ _ h => h.symm⟩
      exact d.distinct.forall hg hf (fun he => hne (congrArg some he)) hn

/-- A file is known by its name. -/
theorem eq_of_name {d : SnapshotDir} {f g : SnapshotFile} (hf : f ∈ d.files) (hg : g ∈ d.files)
    (h : f.name = g.name) : f = g := by
  have hfind := lookup_eq_some.2 ⟨hf, h⟩
  rw [lookup_eq_some.2 ⟨hg, rfl⟩] at hfind
  exact (Option.some.inj hfind).symm

theorem mem_remove {d : SnapshotDir} {name : String} {f : SnapshotFile} :
    f ∈ (d.remove name).files ↔ f ∈ d.files ∧ f.name ≠ name := by
  simp [remove]

theorem mem_publish {d : SnapshotDir} {f g : SnapshotFile} :
    g ∈ (d.publish f).files ↔ g = f ∨ (g ∈ d.files ∧ g.name ≠ f.name) := by
  simp [publish, mem_remove]

@[simp] theorem sidecar_remove (d : SnapshotDir) (name name' : String) :
    (d.remove name).sidecar name' = d.sidecar name' := rfl

@[simp] theorem sidecar_publish (d : SnapshotDir) (f : SnapshotFile) (name : String) :
    (d.publish f).sidecar name = d.sidecar name := rfl

@[simp] theorem sidecar_touch (d : SnapshotDir) (name name' : String) (now : Nat) :
    (d.touch name now).sidecar name' = d.sidecar name' := rfl

@[simp] theorem files_putSidecar (d : SnapshotDir) (name : String) (bytes : Bytes) :
    (d.putSidecar name bytes).files = d.files := rfl

@[simp] theorem sidecar_putSidecar_self (d : SnapshotDir) (name : String) (bytes : Bytes) :
    (d.putSidecar name bytes).sidecar name = some bytes := by
  simp [sidecar, putSidecar]

theorem sidecar_putSidecar_ne (d : SnapshotDir) {name name' : String} (bytes : Bytes)
    (h : name' ≠ name) : (d.putSidecar name bytes).sidecar name' = d.sidecar name' := by
  have hfind : (d.sidecars.filter fun p => p.1 != name).find? (fun p => p.1 == name') =
      d.sidecars.find? fun p => p.1 == name' := by
    rw [List.find?_filter]
    congr 1
    funext p
    by_cases hp : p.1 = name'
    · simp [hp, h]
    · simp [hp]
  simp [sidecar, putSidecar, h.symm, hfind]

end SnapshotDir

/-- `path::extension`: from the last dot on, unless the name starts with it. -/
def extension (name : String) : List Char :=
  let suffix := name.toList.reverse.takeWhile (· ≠ '.')
  if name.toList.length ≤ suffix.length + 1 then [] else '.' :: suffix.reverse

/-! ## 2. The checkpoint sidecar -/

def kCheckpointMagic : Nat := 0x5043574E

def kCheckpointVersion : Nat := 1

def kCheckpointSize : Nat := 32

def kFrameCrcOffset : Nat := 28

def kMaxBoundSnapshotSize : Nat := 3 * 1024 * 1024 * 1024

/-- What a failing `WriteWalCheckpoint` leaves behind: nothing, or the new sidecar when only the
    last fsync of the directory failed. -/
inductive CheckpointIo where
  | ok
  | beforeRename
  | fsyncDir
  deriving DecidableEq, Repr

section Sidecar

variable (crc32 : Bytes → UInt32)

/-- The first 28 bytes: magic, version, sequence, and the snapshot's size and CRC. -/
def checkpointFrame (sequence : Nat) (content : Bytes) : Bytes :=
  leBytes 4 kCheckpointMagic ++ leBytes 4 kCheckpointVersion ++ leBytes 8 sequence ++
    leBytes 8 content.length ++ leBytes 4 (crc32 content).toNat

def encodeCheckpoint (sequence : Nat) (content : Bytes) : Bytes :=
  checkpointFrame crc32 sequence content ++
    leBytes 4 (crc32 (checkpointFrame crc32 sequence content)).toNat

/-- `ReadSnapshotBinding`: the bytes the sidecar is bound to. -/
def readSnapshotBinding (d : SnapshotDir) (name : String) : Except Error Bytes :=
  match d.lookup name with
  | none => .error (makeError .kWalReadError "Failed to open checkpoint snapshot: ")
  | some f =>
    if !f.isRegular || decide (kMaxBoundSnapshotSize < f.content.length) then
      .error (makeError .kStorageCorrupted "Checkpoint snapshot is not a bounded regular file: ")
    else .ok f.content

/-- `WriteWalCheckpoint`. -/
def writeWalCheckpoint (io : CheckpointIo) (name : String) (sequence : Nat) (d : SnapshotDir) :
    SnapshotDir × Except Error Unit :=
  if sequence = kMaxU64 then
    (d, .error (makeError .kStorageWriteError "Cannot checkpoint exhausted WAL sequence space"))
  else
    match readSnapshotBinding d name with
    | .error e => (d, .error e)
    | .ok content =>
      match io with
      | .beforeRename =>
        (d, .error (makeError .kStorageWriteError "Failed to write WAL checkpoint '"))
      | .fsyncDir =>
        (d.putSidecar name (encodeCheckpoint crc32 sequence content),
          .error (makeError .kStorageWriteError "Failed to fsync WAL checkpoint directory for '"))
      | .ok => (d.putSidecar name (encodeCheckpoint crc32 sequence content), .ok ())

/-- The checks `ReadWalCheckpoint` makes on a sidecar's bytes. -/
def decodeCheckpoint (content bytes : Bytes) : Except Error Nat :=
  if bytes.length ≠ kCheckpointSize then
    .error (makeError .kStorageCorrupted "Invalid WAL checkpoint file type or size")
  else if ofLeBytes (bytes.take 4) ≠ kCheckpointMagic ∨
      ofLeBytes ((bytes.drop 4).take 4) ≠ kCheckpointVersion then
    .error (makeError .kStorageCorrupted "Invalid WAL checkpoint magic or version")
  else if ofLeBytes ((bytes.drop kFrameCrcOffset).take 4) ≠
      (crc32 (bytes.take kFrameCrcOffset)).toNat then
    .error (makeError .kStorageCorrupted "WAL checkpoint CRC32 mismatch")
  else
    let sequence := ofLeBytes ((bytes.drop 8).take 8)
    if sequence = kMaxU64 then
      .error (makeError .kStorageCorrupted "WAL checkpoint sequence is exhausted")
    else if ofLeBytes ((bytes.drop 16).take 8) ≠ content.length ∨
        ofLeBytes ((bytes.drop 24).take 4) ≠ (crc32 content).toNat then
      .error (makeError .kStorageCorrupted "WAL checkpoint does not match snapshot")
    else .ok sequence

/-- `ReadWalCheckpoint`. -/
def readWalCheckpoint (d : SnapshotDir) (name : String) : Except Error Nat :=
  match readSnapshotBinding d name with
  | .error e => .error e
  | .ok content =>
    match d.sidecar name with
    | none => .error (makeError .kWalReadError "Failed to open WAL checkpoint: ")
    | some bytes => decodeCheckpoint crc32 content bytes

variable {crc32}

@[simp] theorem length_checkpointFrame (sequence : Nat) (content : Bytes) :
    (checkpointFrame crc32 sequence content).length = 28 := by
  simp [checkpointFrame]

/-- **A sidecar reads back**, for a sequence below the last one and a snapshot of a bounded
    size. -/
theorem decodeCheckpoint_encode {sequence : Nat} {content : Bytes} (hseq : sequence < kMaxU64)
    (hlen : content.length ≤ kMaxBoundSnapshotSize) :
    decodeCheckpoint crc32 content (encodeCheckpoint crc32 sequence content) = .ok sequence := by
  have hsplit : encodeCheckpoint crc32 sequence content =
      leBytes 4 kCheckpointMagic ++ (leBytes 4 kCheckpointVersion ++ (leBytes 8 sequence ++
        (leBytes 8 content.length ++ (leBytes 4 (crc32 content).toNat ++
          leBytes 4 (crc32 (checkpointFrame crc32 sequence content)).toNat)))) := by
    simp [encodeCheckpoint, checkpointFrame]
  have hsize : (encodeCheckpoint crc32 sequence content).length = kCheckpointSize := by
    simp [encodeCheckpoint, kCheckpointSize]
  have hmagic : ofLeBytes ((encodeCheckpoint crc32 sequence content).take 4) =
      kCheckpointMagic := by
    rw [hsplit, List.take_left' (length_leBytes 4 _)]
    exact ofLeBytes_leBytes (by decide)
  have hdrop4 : (encodeCheckpoint crc32 sequence content).drop 4 =
      leBytes 4 kCheckpointVersion ++ (leBytes 8 sequence ++ (leBytes 8 content.length ++
        (leBytes 4 (crc32 content).toNat ++
          leBytes 4 (crc32 (checkpointFrame crc32 sequence content)).toNat))) := by
    rw [hsplit]
    exact List.drop_left' (length_leBytes 4 _)
  have hdrop8 : (encodeCheckpoint crc32 sequence content).drop 8 =
      leBytes 8 sequence ++ (leBytes 8 content.length ++ (leBytes 4 (crc32 content).toNat ++
        leBytes 4 (crc32 (checkpointFrame crc32 sequence content)).toNat)) := by
    rw [show (8 : Nat) = 4 + 4 from rfl, ← List.drop_drop, hdrop4]
    exact List.drop_left' (length_leBytes 4 _)
  have hdrop16 : (encodeCheckpoint crc32 sequence content).drop 16 =
      leBytes 8 content.length ++ (leBytes 4 (crc32 content).toNat ++
        leBytes 4 (crc32 (checkpointFrame crc32 sequence content)).toNat) := by
    rw [show (16 : Nat) = 8 + 8 from rfl, ← List.drop_drop, hdrop8]
    exact List.drop_left' (length_leBytes 8 _)
  have hdrop24 : (encodeCheckpoint crc32 sequence content).drop 24 =
      leBytes 4 (crc32 content).toNat ++
        leBytes 4 (crc32 (checkpointFrame crc32 sequence content)).toNat := by
    rw [show (24 : Nat) = 16 + 8 from rfl, ← List.drop_drop, hdrop16]
    exact List.drop_left' (length_leBytes 8 _)
  have hversion : ofLeBytes (((encodeCheckpoint crc32 sequence content).drop 4).take 4) =
      kCheckpointVersion := by
    rw [hdrop4, List.take_left' (length_leBytes 4 _)]
    exact ofLeBytes_leBytes (by decide)
  have hsequence : ofLeBytes (((encodeCheckpoint crc32 sequence content).drop 8).take 8) =
      sequence := by
    rw [hdrop8, List.take_left' (length_leBytes 8 _)]
    exact ofLeBytes_leBytes (lt_trans hseq (by decide))
  have hcontent : ofLeBytes (((encodeCheckpoint crc32 sequence content).drop 16).take 8) =
      content.length := by
    rw [hdrop16, List.take_left' (length_leBytes 8 _)]
    exact ofLeBytes_leBytes (lt_of_le_of_lt hlen (by decide))
  have hbound : ofLeBytes (((encodeCheckpoint crc32 sequence content).drop 24).take 4) =
      (crc32 content).toNat := by
    rw [hdrop24, List.take_left' (length_leBytes 4 _)]
    exact ofLeBytes_leBytes (crc32 content).toNat_lt
  have hframe : (encodeCheckpoint crc32 sequence content).take kFrameCrcOffset =
      checkpointFrame crc32 sequence content := by
    rw [encodeCheckpoint]
    exact List.take_left' (length_checkpointFrame _ _)
  have hcrc : ofLeBytes (((encodeCheckpoint crc32 sequence content).drop kFrameCrcOffset).take 4) =
      (crc32 (checkpointFrame crc32 sequence content)).toNat := by
    have hdrop : (encodeCheckpoint crc32 sequence content).drop kFrameCrcOffset =
        leBytes 4 (crc32 (checkpointFrame crc32 sequence content)).toNat ++ [] := by
      rw [encodeCheckpoint, List.append_nil]
      exact List.drop_left' (length_checkpointFrame _ _)
    rw [hdrop, List.take_left' (length_leBytes 4 _)]
    exact ofLeBytes_leBytes (crc32 _).toNat_lt
  have hmax : ¬ sequence = kMaxU64 := Nat.ne_of_lt hseq
  simp only [decodeCheckpoint, hsize, hmagic, hversion, hframe, hcrc, hsequence, hcontent, hbound,
    if_neg hmax, ne_eq, not_true_eq_false, or_self, if_false]

/-- The reading of one sidecar depends on that file and that sidecar alone. -/
theorem readWalCheckpoint_congr {d d' : SnapshotDir} {name : String}
    (hl : d'.lookup name = d.lookup name) (hs : d'.sidecar name = d.sidecar name) :
    readWalCheckpoint crc32 d' name = readWalCheckpoint crc32 d name := by
  unfold readWalCheckpoint readSnapshotBinding
  rw [hl, hs]

theorem readWalCheckpoint_remove {d : SnapshotDir} {name name' : String} (h : name' ≠ name) :
    readWalCheckpoint crc32 (d.remove name) name' = readWalCheckpoint crc32 d name' := by
  refine readWalCheckpoint_congr (Option.ext fun f => ?_) rfl
  rw [SnapshotDir.lookup_eq_some, SnapshotDir.lookup_eq_some, SnapshotDir.mem_remove]
  constructor
  · rintro ⟨⟨hf, -⟩, he⟩
    exact ⟨hf, he⟩
  · rintro ⟨hf, he⟩
    exact ⟨⟨hf, he ▸ h⟩, he⟩

theorem readWalCheckpoint_publish {d : SnapshotDir} {f : SnapshotFile} {name : String}
    (h : name ≠ f.name) :
    readWalCheckpoint crc32 (d.publish f) name = readWalCheckpoint crc32 d name := by
  refine readWalCheckpoint_congr (Option.ext fun g => ?_) rfl
  rw [SnapshotDir.lookup_eq_some, SnapshotDir.lookup_eq_some, SnapshotDir.mem_publish]
  constructor
  · rintro ⟨rfl | ⟨hg, -⟩, he⟩
    · exact absurd he.symm h
    · exact ⟨hg, he⟩
  · rintro ⟨hg, he⟩
    exact ⟨.inr ⟨hg, he ▸ h⟩, he⟩

/-- A new time stamp leaves the sidecar valid. -/
theorem readWalCheckpoint_touch (d : SnapshotDir) (name name' : String) (now : Nat) :
    readWalCheckpoint crc32 (d.touch name now) name' = readWalCheckpoint crc32 d name' := by
  have hbind : readSnapshotBinding (d.touch name now) name' = readSnapshotBinding d name' := by
    unfold readSnapshotBinding
    cases hl : d.lookup name' with
    | none =>
      have hnone : (d.touch name now).lookup name' = none := by
        rw [SnapshotDir.lookup, List.find?_eq_none] at hl ⊢
        intro g hg
        obtain ⟨f, hf, rfl⟩ := List.mem_map.mp hg
        have := hl f hf
        split <;> exact this
      rw [hnone]
    | some f =>
      obtain ⟨hf, hn⟩ := SnapshotDir.lookup_eq_some.mp hl
      have hsome : (d.touch name now).lookup name' =
          some (if f.name = name then { f with mtime := now } else f) := by
        refine SnapshotDir.lookup_eq_some.mpr ⟨List.mem_map_of_mem hf, ?_⟩
        split <;> exact hn
      rw [hsome]
      by_cases he : f.name = name
      · simp only [if_pos he]
      · simp only [if_neg he]
  unfold readWalCheckpoint
  rw [hbind, SnapshotDir.sidecar_touch]

theorem readWalCheckpoint_putSidecar {d : SnapshotDir} {name name' : String} {bytes : Bytes}
    (h : name' ≠ name) :
    readWalCheckpoint crc32 (d.putSidecar name bytes) name' = readWalCheckpoint crc32 d name' :=
  readWalCheckpoint_congr rfl (d.sidecar_putSidecar_ne bytes h)

/-- A sidecar that was just written is valid. -/
theorem readWalCheckpoint_encode {d : SnapshotDir} {name : String} {sequence : Nat}
    {content : Bytes} (hseq : sequence < kMaxU64)
    (hbind : readSnapshotBinding d name = .ok content) :
    readWalCheckpoint crc32 (d.putSidecar name (encodeCheckpoint crc32 sequence content)) name =
      .ok sequence := by
  have hlen : content.length ≤ kMaxBoundSnapshotSize := by
    unfold readSnapshotBinding at hbind
    split at hbind
    · cases hbind
    · split at hbind
      · cases hbind
      · rename_i f _ hcond
        obtain rfl := Except.ok.inj hbind
        simp only [Bool.or_eq_true, decide_eq_true_eq, not_or, Nat.not_lt] at hcond
        exact hcond.2
  have hbind' : readSnapshotBinding (d.putSidecar name (encodeCheckpoint crc32 sequence content))
      name = .ok content := hbind
  unfold readWalCheckpoint
  rw [hbind', SnapshotDir.sidecar_putSidecar_self]
  exact decodeCheckpoint_encode hseq hlen

/-- The sidecar of `name` is in place in `d'`, and valid. -/
structure SidecarWritten (crc32 : Bytes → UInt32) (name : String) (sequence : Nat)
    (d d' : SnapshotDir) (content : Bytes) : Prop where
  eq : d' = d.putSidecar name (encodeCheckpoint crc32 sequence content)
  bound : readSnapshotBinding d name = .ok content
  valid : readWalCheckpoint crc32 d' name = .ok sequence

/-- What `WriteWalCheckpoint` does to the directory: nothing, and it fails; or the sidecar is
    there. -/
theorem writeWalCheckpoint_cases {io : CheckpointIo} {name : String} {sequence : Nat}
    {d d' : SnapshotDir} {res : Except Error Unit} (hseq : sequence ≤ kMaxU64)
    (h : writeWalCheckpoint crc32 io name sequence d = (d', res)) :
    (d' = d ∧ (∃ e, res = .error e) ∧ (io = .beforeRename ∨ sequence = kMaxU64 ∨
        ∃ e, readSnapshotBinding d name = .error e)) ∨
      ∃ content, SidecarWritten crc32 name sequence d d' content := by
  unfold writeWalCheckpoint at h
  split at h
  · rename_i hmax
    obtain ⟨rfl, rfl⟩ := Prod.mk.inj h
    exact .inl ⟨rfl, ⟨_, rfl⟩, .inr (.inl hmax)⟩
  rename_i hmax
  have hlt : sequence < kMaxU64 := lt_of_le_of_ne hseq hmax
  cases hbind : readSnapshotBinding d name with
  | error e =>
    rw [hbind] at h
    obtain ⟨rfl, rfl⟩ := Prod.mk.inj h
    exact .inl ⟨rfl, ⟨_, rfl⟩, .inr (.inr ⟨e, rfl⟩)⟩
  | ok content =>
    rw [hbind] at h
    cases io with
    | beforeRename =>
      obtain ⟨rfl, rfl⟩ := Prod.mk.inj h
      exact .inl ⟨rfl, ⟨_, rfl⟩, .inl rfl⟩
    | fsyncDir =>
      obtain ⟨rfl, rfl⟩ := Prod.mk.inj h
      exact .inr ⟨content, rfl, hbind, readWalCheckpoint_encode hlt hbind⟩
    | ok =>
      obtain ⟨rfl, rfl⟩ := Prod.mk.inj h
      exact .inr ⟨content, rfl, hbind, readWalCheckpoint_encode hlt hbind⟩

/-- The file a sidecar was written for. -/
theorem SidecarWritten.file {name : String} {sequence : Nat} {d d' : SnapshotDir}
    {content : Bytes} (h : SidecarWritten crc32 name sequence d d' content) :
    ∃ f ∈ d.files, f.name = name ∧ f.content = content := by
  have hbind := h.bound
  unfold readSnapshotBinding at hbind
  split at hbind
  · cases hbind
  · rename_i f hf
    obtain ⟨hmem, hname⟩ := SnapshotDir.lookup_eq_some.mp hf
    split at hbind
    · cases hbind
    · exact ⟨f, hmem, hname, Except.ok.inj hbind⟩

theorem SidecarWritten.other {name name' : String} {sequence : Nat} {d d' : SnapshotDir}
    {content : Bytes} (h : SidecarWritten crc32 name sequence d d' content) (hne : name' ≠ name) :
    readWalCheckpoint crc32 d' name' = readWalCheckpoint crc32 d name' := by
  rw [h.eq, readWalCheckpoint_putSidecar hne]

theorem SidecarWritten.files {name : String} {sequence : Nat} {d d' : SnapshotDir}
    {content : Bytes} (h : SidecarWritten crc32 name sequence d d' content) :
    d'.files = d.files := by
  rw [h.eq, SnapshotDir.files_putSidecar]

end Sidecar

/-! ## 3. The recovery base -/

/-- The order of `FindSnapshotCandidates`: newer first, then the greater path first. -/
def notOlder (a b : SnapshotFile) : Prop :=
  b.mtime < a.mtime ∨ (a.mtime = b.mtime ∧ ¬ a.name < b.name)

instance (a b : SnapshotFile) : Decidable (notOlder a b) := inferInstanceAs (Decidable (_ ∨ _))

theorem notOlder_refl (a : SnapshotFile) : notOlder a a := .inr ⟨rfl, lt_irrefl _⟩

theorem notOlder_antisymm {a b : SnapshotFile} (h₁ : notOlder a b) (h₂ : notOlder b a) :
    a.name = b.name := by
  rcases h₁ with h₁ | ⟨h₁, hn₁⟩ <;> rcases h₂ with h₂ | ⟨h₂, hn₂⟩
  · omega
  · omega
  · omega
  · exact le_antisymm (not_lt.mp hn₂) (not_lt.mp hn₁)

theorem notOlder_mtime {a b : SnapshotFile} (h : notOlder a b) : b.mtime ≤ a.mtime := by
  rcases h with h | ⟨h, -⟩
  · exact h.le
  · exact h.ge

theorem notOlder_total (a b : SnapshotFile) : notOlder a b ∨ notOlder b a := by
  rcases lt_trichotomy a.mtime b.mtime with h | h | h
  · exact .inr (.inl h)
  · rcases le_total a.name b.name with hn | hn
    · exact .inr (.inr ⟨h.symm, not_lt.mpr hn⟩)
    · exact .inl (.inr ⟨h, not_lt.mpr hn⟩)
  · exact .inl (.inl h)

theorem notOlder_trans {a b c : SnapshotFile} (h₁ : notOlder a b) (h₂ : notOlder b c) :
    notOlder a c := by
  rcases h₁ with h₁ | ⟨h₁, hn₁⟩ <;> rcases h₂ with h₂ | ⟨h₂, hn₂⟩
  · exact .inl (by omega)
  · exact .inl (by omega)
  · exact .inl (by omega)
  · exact .inr ⟨h₁.trans h₂, not_lt.mpr ((not_lt.mp hn₂).trans (not_lt.mp hn₁))⟩

instance : Std.Total notOlder := ⟨notOlder_total⟩

instance : IsTrans SnapshotFile notOlder := ⟨fun _ _ _ => notOlder_trans⟩

/-- `directory_iterator` lists the directory itself, not its subdirectories. -/
def isListed (f : SnapshotFile) : Bool := !f.name.toList.contains '/'

/-- A published snapshot: a regular file with a final suffix. -/
def isSnapshot (f : SnapshotFile) : Bool :=
  isListed f && f.isRegular &&
    (extension f.name == ".nvec".toList || extension f.name == ".dmp".toList)

/-- `FindSnapshotCandidates`. -/
def findSnapshotCandidates (d : SnapshotDir) (requireCheckpoint : Bool) : List SnapshotFile :=
  (d.files.filter fun f => isSnapshot f && (!requireCheckpoint || (d.sidecar f.name).isSome))
    |>.insertionSort notOlder

theorem mem_findSnapshotCandidates {d : SnapshotDir} {requireCheckpoint : Bool}
    {f : SnapshotFile} : f ∈ findSnapshotCandidates d requireCheckpoint ↔
      f ∈ d.files ∧ isSnapshot f = true ∧
        (requireCheckpoint = true → (d.sidecar f.name).isSome = true) := by
  rw [findSnapshotCandidates, List.mem_insertionSort, List.mem_filter, Bool.and_eq_true,
    Bool.or_eq_true, Bool.not_eq_true']
  cases requireCheckpoint <;> simp

/-- The chosen base: its path (empty for none), its checkpoint and the loaded stores. -/
structure RecoverySnapshot (σ : Type) where
  path : String := ""
  checkpoint : Nat := 0
  stores : σ

section Load

variable {σ : Type} (crc32 : Bytes → UInt32) (load : Bytes → Except Error σ)

/-- The loop of `load_newest_valid_snapshot`: the first candidate with a valid sidecar that
    loads; if there were candidates and none did, the last error. -/
def loadCandidates (d : SnapshotDir) (requireCheckpoint : Bool) (empty : σ) :
    List SnapshotFile → Option Error → Except Error (RecoverySnapshot σ)
  | [], some e => .error e
  | [], none => .ok { stores := empty }
  | f :: fs, _ =>
    match (if requireCheckpoint then readWalCheckpoint crc32 d f.name else .ok 0) with
    | .error e => loadCandidates d requireCheckpoint empty fs (some e)
    | .ok checkpoint =>
      match load f.content with
      | .error e => loadCandidates d requireCheckpoint empty fs (some e)
      | .ok stores => .ok ⟨f.name, checkpoint, stores⟩

/-- `load_newest_valid_snapshot`. -/
def loadNewestValidSnapshot (d : SnapshotDir) (requireCheckpoint : Bool) (empty : σ) :
    Except Error (RecoverySnapshot σ) :=
  loadCandidates crc32 load d requireCheckpoint empty (findSnapshotCandidates d requireCheckpoint)
    none

variable {crc32 load}

variable (crc32 load) in
/-- A candidate that recovery can start from. -/
structure Usable (d : SnapshotDir) (f : SnapshotFile) : Prop where
  mem : f ∈ d.files
  snapshot : isSnapshot f = true
  checkpoint : ∃ c, readWalCheckpoint crc32 d f.name = .ok c
  loads : ∃ stores, load f.content = .ok stores

variable (crc32 load) in
/-- **The recovery base**: the newest usable candidate. -/
structure IsBase (d : SnapshotDir) (base : RecoverySnapshot σ) (f : SnapshotFile) : Prop where
  mem : f ∈ d.files
  snapshot : isSnapshot f = true
  path : f.name = base.path
  checkpoint : readWalCheckpoint crc32 d f.name = .ok base.checkpoint
  loads : load f.content = .ok base.stores
  newest : ∀ g, Usable crc32 load d g → notOlder f g

theorem IsBase.usable {d : SnapshotDir} {base : RecoverySnapshot σ} {f : SnapshotFile}
    (h : IsBase crc32 load d base f) : Usable crc32 load d f :=
  ⟨h.mem, h.snapshot, ⟨_, h.checkpoint⟩, ⟨_, h.loads⟩⟩

theorem sidecar_of_checkpoint {d : SnapshotDir} {name : String} {c : Nat}
    (h : readWalCheckpoint crc32 d name = .ok c) : (d.sidecar name).isSome = true := by
  unfold readWalCheckpoint at h
  split at h
  · cases h
  · cases hs : d.sidecar name with
    | none => rw [hs] at h; cases h
    | some bytes => rfl

theorem Usable.candidate {d : SnapshotDir} {f : SnapshotFile} (h : Usable crc32 load d f) :
    f ∈ findSnapshotCandidates d true := by
  obtain ⟨c, hc⟩ := h.checkpoint
  exact mem_findSnapshotCandidates.2 ⟨h.mem, h.snapshot, fun _ => sidecar_of_checkpoint hc⟩

/-- Candidates in front of the base are skipped. -/
theorem loadCandidates_base {d : SnapshotDir} {base : RecoverySnapshot σ} {f : SnapshotFile}
    (h : IsBase crc32 load d base f) (empty : σ) {fs : List SnapshotFile}
    {lastError : Option Error} (hfs : ∀ g ∈ fs, g ∈ d.files ∧ isSnapshot g = true)
    (hsorted : fs.Pairwise notOlder) (hf : f ∈ fs) :
    loadCandidates crc32 load d true empty fs lastError = .ok base := by
  induction fs generalizing lastError with
  | nil => cases hf
  | cons g fs ih =>
    by_cases hgf : f = g
    · subst hgf
      simp only [loadCandidates, if_true, h.checkpoint, h.loads]
      rw [h.path]
    · have hf' : f ∈ fs := by
        rcases List.mem_cons.mp hf with he | hf
        · exact absurd he hgf
        · exact hf
      have hskip : ∀ e, loadCandidates crc32 load d true empty fs (some e) = .ok base := fun e =>
        ih (fun k hk => hfs k (List.mem_cons_of_mem g hk)) (List.pairwise_cons.mp hsorted).2 hf'
      simp only [loadCandidates, if_true]
      cases hc : readWalCheckpoint crc32 d g.name with
      | error e => exact hskip e
      | ok c =>
        cases hl : load g.content with
        | error e => exact hskip e
        | ok stores =>
          -- two usable files, each not older than the other
          obtain ⟨hg, hgs⟩ := hfs g List.mem_cons_self
          have h₁ := h.newest g ⟨hg, hgs, ⟨c, hc⟩, ⟨stores, hl⟩⟩
          have h₂ := (List.pairwise_cons.mp hsorted).1 f hf'
          exact absurd (SnapshotDir.eq_of_name h.mem hg (notOlder_antisymm h₁ h₂)) hgf

theorem loadNewestValidSnapshot_base {d : SnapshotDir} {base : RecoverySnapshot σ}
    {f : SnapshotFile} (h : IsBase crc32 load d base f) (empty : σ) :
    loadNewestValidSnapshot crc32 load d true empty = .ok base := by
  refine loadCandidates_base h empty (fun g hg => ?_) (List.pairwise_insertionSort _ _)
    h.usable.candidate
  obtain ⟨hmem, hsnap, -⟩ := mem_findSnapshotCandidates.1 hg
  exact ⟨hmem, hsnap⟩

/-- Where there is a usable candidate there is a base, and it is not older. -/
theorem exists_base {d : SnapshotDir} {f : SnapshotFile} (h : Usable crc32 load d f) :
    ∃ base g, IsBase crc32 load d base g ∧ notOlder g f := by
  classical
  cases hfind : (findSnapshotCandidates d true).find? fun g => Usable crc32 load d g with
  | none =>
    have := List.find?_eq_none.mp hfind f h.candidate
    simp [h] at this
  | some g =>
    obtain ⟨hg, pre, post, hsplit, hpre⟩ := List.find?_eq_some_iff_append.mp hfind
    have hg' : Usable crc32 load d g := by simpa using hg
    have hsorted : (findSnapshotCandidates d true).Pairwise notOlder :=
      List.pairwise_insertionSort _ _
    rw [hsplit] at hsorted
    have hnewest : ∀ k, Usable crc32 load d k → notOlder g k := by
      intro k hk
      have hmem := hk.candidate
      rw [hsplit] at hmem
      rcases List.mem_append.mp hmem with hin | hin
      · have := hpre k hin
        simp [hk] at this
      · rcases List.mem_cons.mp hin with rfl | hin
        · exact notOlder_refl k
        · exact (List.pairwise_cons.mp (List.pairwise_append.mp hsorted).2.1).1 k hin
    obtain ⟨c, hc⟩ := hg'.checkpoint
    obtain ⟨stores, hl⟩ := hg'.loads
    exact ⟨⟨g.name, c, stores⟩, g, ⟨hg'.mem, hg'.snapshot, rfl, hc, hl, hnewest⟩, hnewest f h⟩

end Load

/-! ## 4. Retention -/

/-- The files `CleanupOldSnapshots` manages: `auto_*.nvec`. -/
def isAuto (f : SnapshotFile) : Bool :=
  isListed f && f.isRegular && extension f.name == ".nvec".toList &&
    "auto_".toList.isPrefixOf f.name.toList

/-- What `std::sort` by modification time, newest first, may return: the order of files with
    equal times is not specified. -/
def sortedAutos (d : SnapshotDir) (order : List SnapshotFile) : Prop :=
  order.Perm (d.files.filter isAuto) ∧ order.Pairwise fun f g => g.mtime ≤ f.mtime

instance (d : SnapshotDir) (order : List SnapshotFile) : Decidable (sortedAutos d order) :=
  inferInstanceAs (Decidable (_ ∧ _))

/-- The files the removal loop reaches: those behind the first `retain`, up to one whose
    `remove` throws. -/
def oldSnapshots (retain : Int) (order : List SnapshotFile) (throwsAt : Option Nat) :
    List SnapshotFile :=
  match throwsAt with
  | none => order.drop retain.toNat
  | some k => (order.drop retain.toNat).take k

/-- `CleanupOldSnapshots`, over the sorted files. -/
def cleanupOldSnapshots (retain : Int) (order : List SnapshotFile) (throwsAt : Option Nat)
    (d : SnapshotDir) : SnapshotDir :=
  if retain ≤ 0 then d
  else (oldSnapshots retain order throwsAt).foldl (fun d f => d.remove f.name) d

theorem sortedAutos_distinct {d : SnapshotDir} {order : List SnapshotFile}
    (h : sortedAutos d order) : order.Pairwise fun f g => f.name ≠ g.name := by
  have hp : (d.files.filter isAuto).Pairwise fun f g => f.name ≠ g.name := d.distinct.filter _
  exact (h.1.pairwise_iff fun h => h.symm).mpr hp

/-- Of files with different names, the first of a name is not among those behind the first `n`,
    if fewer than `n` come before it. -/
theorem not_mem_drop_of_rank {order : List SnapshotFile} {n : Nat} {name : String}
    (hdistinct : order.Pairwise fun f g => f.name ≠ g.name)
    (hrank : (order.takeWhile fun f => f.name != name).length < n ∨ ∀ f ∈ order, f.name ≠ name) :
    ∀ g ∈ order.drop n, g.name ≠ name := by
  intro g hg he
  rcases hrank with hlt | hnone
  · induction order generalizing n with
    | nil => simp at hg
    | cons f order ih =>
      obtain ⟨hf, hdistinct⟩ := List.pairwise_cons.mp hdistinct
      cases n with
      | zero => cases hlt
      | succ n =>
        rw [List.drop_succ_cons] at hg
        by_cases hfn : f.name = name
        · exact hf g (List.mem_of_mem_drop hg) (hfn.trans he.symm)
        · have htake : ((f :: order).takeWhile fun f => f.name != name) =
              f :: order.takeWhile fun f => f.name != name := by
            simp [hfn]
          rw [htake, List.length_cons] at hlt
          exact ih hdistinct hg (by omega)
  · exact hnone g (List.mem_of_mem_drop hg) he

theorem foldl_remove {d : SnapshotDir} {gone : List SnapshotFile} {f : SnapshotFile}
    (hf : f ∈ d.files) (hne : ∀ g ∈ gone, f.name ≠ g.name) :
    f ∈ (gone.foldl (fun d g => d.remove g.name) d).files ∧
      ∀ crc32, readWalCheckpoint crc32 (gone.foldl (fun d g => d.remove g.name) d) f.name =
        readWalCheckpoint crc32 d f.name := by
  induction gone generalizing d with
  | nil => exact ⟨hf, fun _ => rfl⟩
  | cons g gone ih =>
    have hg := hne g List.mem_cons_self
    obtain ⟨hmem, hread⟩ := ih (SnapshotDir.mem_remove.mpr ⟨hf, hg⟩)
      fun h hh => hne h (List.mem_cons_of_mem g hh)
    exact ⟨hmem, fun c => (hread c).trans (readWalCheckpoint_remove hg)⟩

/-- **What cleanup leaves**: a file whose name is not among those sorted behind the first
    `retain`, with its sidecar. -/
theorem cleanupOldSnapshots_keeps {d : SnapshotDir} {retain : Int} {order : List SnapshotFile}
    {throwsAt : Option Nat} {f : SnapshotFile} (hf : f ∈ d.files)
    (hkept : ∀ g ∈ order.drop retain.toNat, f.name ≠ g.name) :
    f ∈ (cleanupOldSnapshots retain order throwsAt d).files ∧
      ∀ crc32, readWalCheckpoint crc32 (cleanupOldSnapshots retain order throwsAt d) f.name =
        readWalCheckpoint crc32 d f.name := by
  unfold cleanupOldSnapshots
  split
  · exact ⟨hf, fun _ => rfl⟩
  · refine foldl_remove hf fun g hg => hkept g ?_
    cases throwsAt with
    | none => exact hg
    | some k => exact List.mem_of_mem_take hg

/-! ## 5. The base under changes of the directory -/

section Base

variable {σ : Type} {crc32 : Bytes → UInt32} {load : Bytes → Except Error σ}
  {d d' : SnapshotDir} {base : RecoverySnapshot σ} {f : SnapshotFile}

/-- The base stays when no usable candidate is added and it is itself untouched. -/
theorem IsBase.shrink (h : IsBase crc32 load d base f) (hmem : f ∈ d'.files)
    (hread : readWalCheckpoint crc32 d' f.name = readWalCheckpoint crc32 d f.name)
    (hsub : ∀ g, Usable crc32 load d' g → Usable crc32 load d g) :
    IsBase crc32 load d' base f where
  mem := hmem
  snapshot := h.snapshot
  path := h.path
  checkpoint := hread.trans h.checkpoint
  loads := h.loads
  newest := fun g hg => h.newest g (hsub g hg)

theorem IsBase.publish {g : SnapshotFile} (h : IsBase crc32 load d base f) (hne : f.name ≠ g.name)
    (hfresh : ∀ c, readWalCheckpoint crc32 (d.publish g) g.name ≠ .ok c) :
    IsBase crc32 load (d.publish g) base f := by
  refine h.shrink (SnapshotDir.mem_publish.mpr (.inr ⟨h.mem, hne⟩)) (readWalCheckpoint_publish hne)
    fun k hk => ?_
  obtain ⟨c, hc⟩ := hk.checkpoint
  rcases SnapshotDir.mem_publish.mp hk.mem with rfl | ⟨hkd, hkn⟩
  · exact absurd hc (hfresh c)
  · exact ⟨hkd, hk.snapshot, ⟨c, (readWalCheckpoint_publish hkn).symm.trans hc⟩, hk.loads⟩

theorem mem_of_mem_cleanup {retain : Int} {order : List SnapshotFile} {throwsAt : Option Nat}
    {g : SnapshotFile} (h : g ∈ (cleanupOldSnapshots retain order throwsAt d).files) :
    g ∈ d.files ∧ readWalCheckpoint crc32 (cleanupOldSnapshots retain order throwsAt d) g.name =
      readWalCheckpoint crc32 d g.name := by
  have hfold : ∀ (gone : List SnapshotFile) (d : SnapshotDir),
      g ∈ (gone.foldl (fun d k => d.remove k.name) d).files →
      g ∈ d.files ∧ readWalCheckpoint crc32 (gone.foldl (fun d k => d.remove k.name) d) g.name =
        readWalCheckpoint crc32 d g.name := by
    intro gone
    induction gone with
    | nil => exact fun d h => ⟨h, rfl⟩
    | cons k gone ih =>
      intro d h
      obtain ⟨hmem, hread⟩ := ih (d.remove k.name) h
      obtain ⟨hg, hne⟩ := SnapshotDir.mem_remove.mp hmem
      exact ⟨hg, hread.trans (readWalCheckpoint_remove hne)⟩
  unfold cleanupOldSnapshots at h ⊢
  split at h
  · rename_i hc
    rw [if_pos hc]
    exact ⟨h, rfl⟩
  · rename_i hc
    rw [if_neg hc]
    exact hfold _ _ h

/-- A sidecar that is written leaves the base, or makes the file it belongs to the base. -/
theorem IsBase.write {name : String} {sequence : Nat} {content : Bytes}
    (h : IsBase crc32 load d base f) (hw : SidecarWritten crc32 name sequence d d' content) :
    (f.name ≠ name ∧ IsBase crc32 load d' base f) ∨
      ∃ base' g, IsBase crc32 load d' base' g ∧ g.name = name ∧ base'.checkpoint = sequence ∧
        notOlder g f := by
  have hsub : ∀ g, Usable crc32 load d' g → g.name ≠ name → Usable crc32 load d g := by
    intro g hg hne
    obtain ⟨c, hc⟩ := hg.checkpoint
    exact ⟨hw.files ▸ hg.mem, hg.snapshot, ⟨c, (hw.other hne).symm.trans hc⟩, hg.loads⟩
  by_cases hf : f.name = name
  · refine .inr ⟨{ base with checkpoint := sequence }, f, ⟨hw.files ▸ h.mem, h.snapshot, h.path,
      hf ▸ hw.valid, h.loads, fun g hg => ?_⟩, hf, rfl, notOlder_refl f⟩
    by_cases hg' : g.name = name
    · rw [SnapshotDir.eq_of_name (hw.files ▸ hg.mem) h.mem (hg'.trans hf.symm)]
      exact notOlder_refl f
    · exact h.newest g (hsub g hg hg')
  · by_cases hnew : ∃ g, Usable crc32 load d' g ∧ g.name = name ∧ ¬ notOlder f g
    · obtain ⟨g, hg, hgn, hold⟩ := hnew
      have hgf : notOlder g f := (notOlder_total g f).resolve_right hold
      obtain ⟨stores, hl⟩ := hg.loads
      refine .inr ⟨⟨g.name, sequence, stores⟩, g, ⟨hg.mem, hg.snapshot, rfl, hgn ▸ hw.valid, hl,
        fun k hk => ?_⟩, hgn, rfl, hgf⟩
      by_cases hk' : k.name = name
      · rw [SnapshotDir.eq_of_name hk.mem hg.mem (hk'.trans hgn.symm)]
        exact notOlder_refl g
      · exact notOlder_trans hgf (h.newest k (hsub k hk hk'))
    · refine .inl ⟨hf, ⟨hw.files ▸ h.mem, h.snapshot, h.path, (hw.other hf).trans h.checkpoint,
        h.loads, fun g hg => ?_⟩⟩
      by_cases hg' : g.name = name
      · by_contra hold
        exact hnew ⟨g, hg, hg', hold⟩
      · exact h.newest g (hsub g hg hg')

end Base

end Nvecd.Storage
