/-
  File:      Nvecd/Server/Retention.lean
  Subject:   Whether retention keeps the snapshot the WAL was truncated against.

  * `Timeline`, `timelineStep` -- the server, with its automatic snapshots in the order in which
    they got their time stamps;
  * `retentionOk` -- the steps of the runs in which the base is kept: no `retain` automatic
    snapshots in a row are left without a checkpoint, and time stamps grow;
  * `InOrder`, `rank_lt` -- then the files that `CleanupOldSnapshots` sorts before the base are
    fewer than `retain`;
  * `RetentionInv`, `retentionInv_step` -- every truncation is covered by a checkpointed
    snapshot, or by a save that has replaced it and whose own checkpoint is still to come;
  * `retention_keeps_base` -- so after every cleanup a snapshot with a checkpoint at least as
    high as every truncation is there;
  * `cleanup_removes_base` -- files without a checkpoint count towards `retain` like any other.
-/
import Mathlib.Data.List.TakeWhile
import Nvecd.Server.Durability

namespace Nvecd.Server

open Nvecd.Lib Nvecd.Utils Nvecd.Storage

/-! ## 1. The order of the time stamps -/

/-- The name is one of an automatic snapshot. -/
def autoName (name : String) : Bool := isAuto { name := name, mtime := 0, content := [] }

theorem isAuto_eq (f : SnapshotFile) : isAuto f = (f.isRegular && autoName f.name) := by
  simp only [isAuto, autoName, isListed, Bool.and_true]
  cases f.isRegular <;> simp

/-- The server, and its automatic snapshots in the order in which they got their time stamps,
    the last one first. -/
structure Timeline where
  durable : Durable
  stamped : List String := []

/-- The snapshot that a step publishes or stamps. -/
def stampedBy (s : Durable) : DurableAction → Option String
  | .publish i _ => s.saves[i]?.map (·.name)
  | .loadStamp _ => s.rollback.map (·.name)
  | _ => none

def restamp (stamped : List String) : Option String → List String
  | some name => if autoName name then name :: stamped.filter (· != name) else stamped
  | none => stamped

section Timeline

variable {σ : Type} (crc32 : Bytes → UInt32) (load : Bytes → Except Error σ)
  (replayRecord : σ → WalRecord → Except Error σ) (empty : σ)

/-- One step of the server, which adds to the order what it stamps. -/
def timelineStep (x : Timeline) (a : DurableAction) : Option Timeline :=
  (durableStep crc32 load replayRecord empty x.durable a).map fun s =>
    ⟨s, restamp x.stamped (stampedBy x.durable a)⟩

variable {crc32 load replayRecord empty}

theorem timelineStep_eq_some {x x' : Timeline} {a : DurableAction}
    (h : timelineStep crc32 load replayRecord empty x a = some x') :
    durableStep crc32 load replayRecord empty x.durable a = some x'.durable ∧
      x'.stamped = restamp x.stamped (stampedBy x.durable a) := by
  obtain ⟨s, hs, rfl⟩ := Option.map_eq_some_iff.mp h
  exact ⟨hs, rfl⟩

/-- A run of the server has its order. -/
theorem run_timeline {s s' : Durable} {acts : List DurableAction}
    (h : run (durableStep crc32 load replayRecord empty) s acts = some s')
    (stamped : List String) :
    ∃ stamped', run (timelineStep crc32 load replayRecord empty) ⟨s, stamped⟩ acts =
      some ⟨s', stamped'⟩ := by
  induction acts generalizing s stamped with
  | nil =>
    cases h
    exact ⟨stamped, rfl⟩
  | cons a acts ih =>
    obtain ⟨t, ht, hrun⟩ := run_cons_eq_some.1 h
    obtain ⟨stamped', h'⟩ := ih hrun (restamp stamped (stampedBy s a))
    refine ⟨stamped', run_cons_eq_some.2 ⟨_, ?_, h'⟩⟩
    rw [timelineStep, ht]
    rfl

end Timeline

/-! ## 2. The condition -/

/-- The sequences the WAL has been truncated at, or is about to be: there the checkpoint is
    already durable. -/
def Durable.needs (s : Durable) : List Nat :=
  s.wal.checkpoints ++
    ((s.saves.filter fun j => j.phase = .checkpointed).map (·.sequence) ++
      (s.rollback.toList.filter fun r => r.phase = .checkpointed).map (·.sequence))

section Retention

variable (crc32 : Bytes → UInt32)

/-- A snapshot whose checkpoint is at least `t` is there. -/
def Kept (d : SnapshotDir) (t : Nat) : Prop :=
  ∃ f ∈ d.files, ∃ c, readWalCheckpoint crc32 d f.name = .ok c ∧ t ≤ c

def checkpointOf (d : SnapshotDir) (name : String) : Option Nat :=
  (readWalCheckpoint crc32 d name).toOption

/-- A checkpoint at `t` would not lower the one under this name. -/
def notAbove (d : SnapshotDir) (name : String) (t : Nat) : Prop :=
  ∀ c ∈ checkpointOf crc32 d name, c ≤ t

/-- The snapshot has a checkpoint at which the WAL may be truncated wherever it is. -/
def reaches (s : Durable) (name : String) : Bool :=
  (checkpointOf crc32 s.dir name).any fun c => s.needs.all fun t => decide (t ≤ c)

/-- No save stands between its publication over a checkpointed snapshot and its own
    checkpoint. -/
def noneReplacing (s : Durable) : Prop := ∀ j ∈ s.saves, j.pending = true → j.replaced = false

/-- The time stamp of an automatic snapshot is later than those of the others. -/
def latest (d : SnapshotDir) (name : String) (mtime : Nat) : Prop :=
  autoName name = true → ∀ f ∈ d.files, isAuto f = true → f.name ≠ name → f.mtime < mtime

/-- **The steps of runs in which the base is kept.** Automatic snapshots get their time stamps
    in the order in which they are published or loaded, and when a cleanup runs, fewer than
    `retain` of them in a row, the last ones, are without a checkpoint that reaches the
    truncations, or a file that cleanup does not manage has one. A save that replaces a
    checkpointed snapshot under its own path goes on to a checkpoint at least as high, with no
    cleanup and no crash before it. -/
def retentionOk (x : Timeline) : DurableAction → Prop
  | .publish i mtime => ∀ j ∈ x.durable.saves[i]?, latest x.durable.dir j.name mtime ∧
      notAbove crc32 x.durable.dir j.name j.sequence ∧
      (j.orphaned = true → hasCheckpoint crc32 x.durable.dir j.name = false)
  | .fail i => ∀ j ∈ x.durable.saves[i]?, j.pending = true → j.replaced = false
  | .checkpoint i io => ∀ j ∈ x.durable.saves[i]?,
      notAbove crc32 x.durable.dir j.name j.sequence ∧
      (j.replaced = true → io ≠ .beforeRename ∧ j.sequence ≠ kMaxU64 ∧
        (readSnapshotBinding x.durable.dir j.name).toOption.isSome = true)
  | .loadStamp now => ∀ r ∈ x.durable.rollback, latest x.durable.dir r.name now
  | .loadCheckpoint _ => ∀ r ∈ x.durable.rollback, notAbove crc32 x.durable.dir r.name r.sequence
  | .cleanup _ _ => noneReplacing x.durable ∧ (0 < x.durable.retain → x.durable.needs ≠ [] →
      (x.stamped.takeWhile fun name => !reaches crc32 x.durable name).length <
          x.durable.retain.toNat ∨
        ∃ f ∈ x.durable.dir.files, isAuto f = false ∧ reaches crc32 x.durable f.name = true)
  | .crash _ => noneReplacing x.durable
  | _ => True

instance (d : SnapshotDir) (name : String) (t : Nat) : Decidable (notAbove crc32 d name t) :=
  inferInstanceAs (Decidable (∀ c ∈ checkpointOf crc32 d name, c ≤ t))

instance (s : Durable) : Decidable (noneReplacing s) :=
  inferInstanceAs (Decidable (∀ j ∈ s.saves, _))

instance (d : SnapshotDir) (name : String) (mtime : Nat) : Decidable (latest d name mtime) :=
  inferInstanceAs (Decidable (_ → ∀ f ∈ d.files, _))

instance (x : Timeline) : ∀ a, Decidable (retentionOk crc32 x a)
  | .publish i _ => inferInstanceAs (Decidable (∀ j ∈ x.durable.saves[i]?, _ ∧ _ ∧ _))
  | .fail i => inferInstanceAs (Decidable (∀ j ∈ x.durable.saves[i]?, _))
  | .checkpoint i _ => inferInstanceAs (Decidable (∀ j ∈ x.durable.saves[i]?, _ ∧ (_ → _ ∧ _)))
  | .loadStamp _ => inferInstanceAs (Decidable (∀ r ∈ x.durable.rollback, _))
  | .loadCheckpoint _ => inferInstanceAs (Decidable (∀ r ∈ x.durable.rollback, _))
  | .cleanup _ _ => inferInstanceAs (Decidable (_ ∧ (_ → _ → _ ∨ _)))
  | .crash _ => inferInstanceAs (Decidable (noneReplacing x.durable))
  | .append .. => isTrue trivial
  | .closeWal => isTrue trivial
  | .fork .. => isTrue trivial
  | .lockSave .. => isTrue trivial
  | .complete _ => isTrue trivial
  | .truncate .. => isTrue trivial
  | .load _ => isTrue trivial
  | .loadTruncate _ => isTrue trivial
  | .loadFails => isTrue trivial
  | .start .. => isTrue trivial

/-! ## 3. The invariant -/

/-- The save has replaced a checkpointed snapshot, and its own checkpoint is still to come. -/
def Save.replacing (j : Save) : Prop := j.pending = true ∧ j.replaced = true

/-- An automatic snapshot under this name has its time stamp from this run. -/
def Known (stamped : List String) (name : String) : Prop := autoName name = true → name ∈ stamped

/-- A snapshot of this run whose checkpoint is at least `t` is there. -/
def KeptIn (stamped : List String) (d : SnapshotDir) (t : Nat) : Prop :=
  ∃ f ∈ d.files, Known stamped f.name ∧ ∃ c, readWalCheckpoint crc32 d f.name = .ok c ∧ t ≤ c

/-- A snapshot at or above `t` is there, or a save at or above `t` is replacing one. -/
def Covered (stamped : List String) (s : Durable) (t : Nat) : Prop :=
  KeptIn crc32 stamped s.dir t ∨ ∃ j ∈ s.saves, j.replacing ∧ t ≤ j.sequence

/-- **What the steps keep**: every truncation is covered. -/
structure RetentionInv (stamped : List String) (s : Durable) : Prop where
  covered : ∀ t ∈ s.needs, Covered crc32 stamped s t
  sequence : s.wal.wal.currentSequence ≤ kMaxU64
  saves : ∀ j ∈ s.saves, j.sequence ≤ kMaxU64
  rollback : ∀ r ∈ s.rollback, r.sequence ≤ kMaxU64

variable {crc32} {stamped : List String}

theorem mem_needs {s : Durable} {t : Nat} : t ∈ s.needs ↔ t ∈ s.wal.checkpoints ∨
    (∃ j ∈ s.saves, j.phase = .checkpointed ∧ j.sequence = t) ∨
    ∃ r ∈ s.rollback, r.phase = .checkpointed ∧ r.sequence = t := by
  simp only [Durable.needs, List.mem_append, List.mem_map, List.mem_filter, decide_eq_true_eq,
    Option.mem_toList, Option.mem_def, and_assoc]

theorem mem_checkpointOf {d : SnapshotDir} {name : String} {c : Nat} :
    c ∈ checkpointOf crc32 d name ↔ readWalCheckpoint crc32 d name = .ok c := by
  unfold checkpointOf
  cases readWalCheckpoint crc32 d name <;> simp [Except.toOption]

theorem hasCheckpoint_eq_true {d : SnapshotDir} {name : String} :
    hasCheckpoint crc32 d name = true ↔ ∃ c, readWalCheckpoint crc32 d name = .ok c := by
  unfold hasCheckpoint
  cases readWalCheckpoint crc32 d name <;> simp [Except.toOption]

/-! ## 4. The rank -/

/-- **Time stamps grow** in the order in which the snapshots got them; those that have none from
    this run are the oldest. -/
def InOrder (d : SnapshotDir) (stamped : List String) : Prop :=
  ∀ f ∈ d.files, ∀ g ∈ d.files, isAuto f = true → isAuto g = true →
    stamped.idxOf f.name < stamped.idxOf g.name → g.mtime < f.mtime

theorem autoName_of_isAuto {f : SnapshotFile} (h : isAuto f = true) : autoName f.name = true :=
  ((Bool.and_eq_true _ _).mp (isAuto_eq f ▸ h)).2

/-- Leaving one out of a list keeps the order of two others. -/
theorem idxOf_lt_of_filter {l : List String} {a b n : String} (ha : a ≠ n) (hb : b ≠ n)
    (h : (l.filter (· != n)).idxOf a < (l.filter (· != n)).idxOf b) : l.idxOf a < l.idxOf b := by
  induction l with
  | nil => exact h
  | cons c l ih =>
    by_cases hc : c = n
    · subst hc
      rw [List.filter_cons_of_neg (by simp)] at h
      rw [List.idxOf_cons_ne _ (Ne.symm ha), List.idxOf_cons_ne _ (Ne.symm hb)]
      exact Nat.succ_lt_succ (ih h)
    rw [List.filter_cons_of_pos (by simpa using hc)] at h
    by_cases hca : c = a
    · subst hca
      have hcb : c ≠ b := by
        rintro rfl
        exact lt_irrefl _ h
      rw [List.idxOf_cons_self, List.idxOf_cons_ne _ hcb]
      exact Nat.succ_pos _
    · have hcb : c ≠ b := by
        rintro rfl
        rw [List.idxOf_cons_self] at h
        cases h
      rw [List.idxOf_cons_ne _ hca, List.idxOf_cons_ne _ hcb] at h ⊢
      exact Nat.succ_lt_succ (ih (Nat.lt_of_succ_lt_succ h))

theorem InOrder.mono {d d' : SnapshotDir} (h : InOrder d stamped)
    (hsub : ∀ f ∈ d'.files, f ∈ d.files) : InOrder d' stamped :=
  fun f hf g hg => h f (hsub f hf) g (hsub g hg)

/-- A file that is published or stamped later than the others comes first. -/
theorem InOrder.restamp {d d' : SnapshotDir} {name : String} {mtime : Nat}
    (h : InOrder d stamped) (hnew : ∀ f ∈ d'.files, f.name = name → f.mtime = mtime)
    (hold : ∀ f ∈ d'.files, f.name ≠ name → f ∈ d.files) (hlatest : latest d name mtime) :
    InOrder d' (restamp stamped (some name)) := by
  intro f hf g hg hfa hga hlt
  by_cases hname : autoName name = true
  · simp only [Server.restamp, if_pos hname] at hlt
    have hgn : g.name ≠ name := by
      intro he
      rw [he, List.idxOf_cons_self] at hlt
      cases hlt
    have hgd := hold g hg hgn
    by_cases hfn : f.name = name
    · rw [hnew f hf hfn]
      exact hlatest hname g hgd hga hgn
    · rw [List.idxOf_cons_ne _ (Ne.symm hfn), List.idxOf_cons_ne _ (Ne.symm hgn)] at hlt
      exact h f (hold f hf hfn) g hgd hfa hga
        (idxOf_lt_of_filter hfn hgn (Nat.lt_of_succ_lt_succ hlt))
  · have hne : ∀ k : SnapshotFile, isAuto k = true → k.name ≠ name :=
      fun k hk he => hname (he ▸ autoName_of_isAuto hk)
    simp only [Server.restamp, if_neg hname] at hlt
    exact h f (hold f hf (hne f hfa)) g (hold g hg (hne g hga)) hfa hga hlt

/-- **The rank of a snapshot**: what is sorted before it has been stamped after it. -/
theorem rank_le {d : SnapshotDir} {order : List SnapshotFile} {f : SnapshotFile}
    (h : InOrder d stamped) (hsort : sortedAutos d order) (hf : f ∈ d.files)
    (hfa : isAuto f = true) (hin : f.name ∈ stamped) :
    (order.takeWhile fun g => g.name != f.name).length ≤ stamped.idxOf f.name := by
  generalize hbefore : (order.takeWhile fun g => g.name != f.name) = before
  have hsplit := List.takeWhile_append_dropWhile (p := fun g => g.name != f.name) (l := order)
  rw [hbefore] at hsplit
  have hne : ∀ g ∈ before, g.name ≠ f.name := by
    intro g hg
    have := List.mem_takeWhile_imp (hbefore ▸ hg)
    simpa using this
  -- the file itself comes behind all of them
  have hforder : f ∈ order := hsort.1.mem_iff.mpr (List.mem_filter.mpr ⟨hf, hfa⟩)
  have hbehind := hforder
  rw [← hsplit, List.mem_append] at hbehind
  replace hbehind := hbehind.resolve_left fun hmem => hne f hmem rfl
  have hsorted := hsort.2
  rw [← hsplit] at hsorted
  have hsub : before.map (·.name) ⊆ stamped.take (stamped.idxOf f.name) := by
    intro name hname
    obtain ⟨g, hg, rfl⟩ := List.mem_map.mp hname
    have hgorder : g ∈ order := hsplit ▸ List.mem_append_left _ hg
    obtain ⟨hgd, hga⟩ := List.mem_filter.mp (hsort.1.subset hgorder)
    have hmtime : f.mtime ≤ g.mtime := (List.pairwise_append.mp hsorted).2.2 g hg f hbehind
    have hidx : ¬ stamped.idxOf f.name < stamped.idxOf g.name :=
      fun hlt => Nat.not_lt.mpr hmtime (h f hf g hgd hfa hga hlt)
    have hidx' : stamped.idxOf f.name ≠ stamped.idxOf g.name :=
      fun he => hne g hg ((List.idxOf_inj hin).mp he).symm
    have hlt : stamped.idxOf g.name < stamped.idxOf f.name := by omega
    have hgin : g.name ∈ stamped :=
      List.idxOf_lt_length_iff.mp (hlt.trans (List.idxOf_lt_length_iff.mpr hin))
    exact (List.mem_take_iff_idxOf_lt hgin).mpr hlt
  have hnodup : (before.map (·.name)).Nodup := by
    have hdistinct := sortedAutos_distinct hsort
    rw [← hsplit] at hdistinct
    exact List.pairwise_map.mpr (List.pairwise_append.mp hdistinct).1
  calc before.length = (before.map (·.name)).length := (List.length_map _).symm
    _ ≤ (stamped.take (stamped.idxOf f.name)).length := hnodup.length_le_of_subset hsub
    _ ≤ stamped.idxOf f.name := List.length_take_le _ _

/-! ## 5. What the steps do to the snapshots -/

theorem KeptIn.kept {d : SnapshotDir} {t : Nat} (h : KeptIn crc32 stamped d t) : Kept crc32 d t := by
  obtain ⟨f, hf, -, hread⟩ := h
  exact ⟨f, hf, hread⟩

theorem KeptIn.publish {d : SnapshotDir} {f : SnapshotFile} {t : Nat}
    (h : KeptIn crc32 stamped d t) :
    KeptIn crc32 stamped (d.publish f) t ∨
      ∃ c, readWalCheckpoint crc32 d f.name = .ok c ∧ t ≤ c := by
  obtain ⟨g, hg, hknown, c, hc, hle⟩ := h
  by_cases hn : g.name = f.name
  · exact .inr ⟨c, hn ▸ hc, hle⟩
  · exact .inl ⟨g, SnapshotDir.mem_publish.mpr (.inr ⟨hg, hn⟩), hknown, c,
      (readWalCheckpoint_publish hn).trans hc, hle⟩

theorem KeptIn.touch {d : SnapshotDir} {name : String} {now t : Nat}
    (h : KeptIn crc32 stamped d t) : KeptIn crc32 stamped (d.touch name now) t := by
  obtain ⟨g, hg, hknown, c, hc, hle⟩ := h
  refine ⟨_, List.mem_map_of_mem hg, ?_, c, ?_, hle⟩
  · split <;> exact hknown
  · rw [readWalCheckpoint_touch]
    split <;> exact hc

/-- After a sidecar was written, everything up to its sequence is kept. -/
theorem kept_of_written {d d' : SnapshotDir} {name : String} {sequence t : Nat} {content : Bytes}
    (h : SidecarWritten crc32 name sequence d d' content) (hknown : Known stamped name)
    (ht : t ≤ sequence) : KeptIn crc32 stamped d' t := by
  obtain ⟨f, hf, hname, -⟩ := h.file
  exact ⟨f, h.files ▸ hf, hname ▸ hknown, sequence, hname ▸ h.valid, ht⟩

/-- A sidecar that does not lower the one under its name keeps what was kept. -/
theorem KeptIn.write {d d' : SnapshotDir} {name : String} {sequence t : Nat} {content : Bytes}
    (h : KeptIn crc32 stamped d t) (hle : notAbove crc32 d name sequence)
    (hw : SidecarWritten crc32 name sequence d d' content) : KeptIn crc32 stamped d' t := by
  obtain ⟨g, hg, hknown, c, hc, ht⟩ := h
  by_cases hn : g.name = name
  · exact kept_of_written hw (hn ▸ hknown) (le_trans ht (hle c (mem_checkpointOf.2 (hn ▸ hc))))
  · exact ⟨g, hw.files ▸ hg, hknown, c, (hw.other hn).trans hc, ht⟩

theorem le_foldr_max {l : List Nat} {c : Nat} (h : c ∈ l) : c ≤ l.foldr max 0 := by
  induction l with
  | nil => cases h
  | cons b l ih =>
    rcases List.mem_cons.mp h with rfl | h
    · exact le_max_left _ _
    · exact le_trans (ih h) (le_max_right _ _)

theorem foldr_max_mem {l : List Nat} (h : l ≠ []) : l.foldr max 0 ∈ l := by
  induction l with
  | nil => exact absurd rfl h
  | cons b l ih =>
    by_cases hl : l = []
    · subst hl
      simp
    · rcases max_choice b (l.foldr max 0) with hm | hm
      · rw [List.foldr_cons, hm]
        exact List.mem_cons_self
      · rw [List.foldr_cons, hm]
        exact List.mem_cons_of_mem b (ih hl)

/-- If every truncation is kept, one snapshot reaches them all. -/
theorem exists_reaches {s : Durable} (hne : s.needs ≠ [])
    (h : ∀ t ∈ s.needs, KeptIn crc32 stamped s.dir t) :
    ∃ f ∈ s.dir.files, Known stamped f.name ∧ reaches crc32 s f.name = true := by
  obtain ⟨f, hf, hknown, c, hc, hle⟩ := h _ (foldr_max_mem hne)
  refine ⟨f, hf, hknown, ?_⟩
  rw [reaches, Option.mem_def.mp (mem_checkpointOf.2 hc), Option.any_some, List.all_eq_true]
  exact fun t ht => decide_eq_true (le_trans (le_foldr_max ht) hle)

/-- A snapshot that reaches the truncations is there, and keeps each of them. -/
theorem file_of_reaches {s : Durable} {name : String} (h : reaches crc32 s name = true) :
    ∃ f ∈ s.dir.files, f.name = name ∧ ∃ c, readWalCheckpoint crc32 s.dir name = .ok c ∧
      ∀ t ∈ s.needs, t ≤ c := by
  obtain ⟨c, hc, hall⟩ := Option.any_eq_true _ _ |>.mp h
  have hread := mem_checkpointOf.1 hc
  have hall : ∀ t ∈ s.needs, t ≤ c := fun t ht =>
    of_decide_eq_true (List.all_eq_true.mp hall t ht)
  cases hl : s.dir.lookup name with
  | none =>
    rw [readWalCheckpoint, readSnapshotBinding, hl] at hread
    cases hread
  | some f =>
    obtain ⟨hf, hname⟩ := SnapshotDir.lookup_eq_some.mp hl
    exact ⟨f, hf, hname, c, hread, hall⟩

/-- It is a regular file. -/
theorem regular_of_reaches {s : Durable} {f : SnapshotFile} (hf : f ∈ s.dir.files)
    (h : reaches crc32 s f.name = true) : f.isRegular = true := by
  obtain ⟨-, -, -, c, hc, -⟩ := file_of_reaches h
  cases hregular : f.isRegular with
  | true => rfl
  | false =>
    have hbinding : readSnapshotBinding s.dir f.name =
        .error (makeError .kStorageCorrupted "Checkpoint snapshot is not a bounded regular file: ") := by
      rw [readSnapshotBinding, SnapshotDir.lookup_eq_some.mpr ⟨hf, rfl⟩]
      simp [hregular]
    rw [readWalCheckpoint, hbinding] at hc
    cases hc

/-- The first element with a property is within the first `n`, if fewer than `n` come before. -/
theorem exists_mem_take {α : Type} {p : α → Bool} {l : List α} {n : Nat}
    (hex : ∃ a ∈ l, p a = true) (hlt : (l.takeWhile fun a => !p a).length < n) :
    ∃ a ∈ l.take n, p a = true := by
  obtain ⟨a₀, ha₀, hp₀⟩ := hex
  cases hd : l.dropWhile fun a => !p a with
  | nil =>
    have := List.dropWhile_eq_nil_iff.mp hd a₀ ha₀
    simp [hp₀] at this
  | cons a rest =>
    have hp : p a = true := by
      have := List.head?_dropWhile_not (fun a => !p a) l
      rw [hd] at this
      simpa using this
    refine ⟨a, ?_, hp⟩
    have hsplit := List.takeWhile_append_dropWhile (p := fun a => !p a) (l := l)
    rw [hd] at hsplit
    rw [← hsplit, List.take_append]
    refine List.mem_append_right _ ?_
    obtain ⟨k, hk⟩ : ∃ k, n - (l.takeWhile fun a => !p a).length = k + 1 :=
      ⟨_, (Nat.succ_pred_eq_of_pos (by omega)).symm⟩
    rw [hk]
    exact List.mem_cons_self

/-- **Cleanup** leaves a snapshot that reaches the truncations, if fewer than `retain` automatic
    ones without such a checkpoint were stamped last. -/
theorem keptIn_cleanup {s : Durable} {order : List SnapshotFile} {throwsAt : Option Nat} {t : Nat}
    (hkept : ∀ t ∈ s.needs, KeptIn crc32 stamped s.dir t) (hin : InOrder s.dir stamped)
    (hsort : sortedAutos s.dir order)
    (hrow : 0 < s.retain →
      (stamped.takeWhile fun name => !reaches crc32 s name).length < s.retain.toNat ∨
        ∃ f ∈ s.dir.files, isAuto f = false ∧ reaches crc32 s f.name = true) (ht : t ∈ s.needs) :
    KeptIn crc32 stamped (cleanupOldSnapshots s.retain order throwsAt s.dir) t := by
  by_cases hretain : s.retain ≤ 0
  · rw [cleanupOldSnapshots, if_pos hretain]
    exact hkept t ht
  -- it is enough to find one that no removed file shares its name with
  have hkeep : ∀ f ∈ s.dir.files, Known stamped f.name → reaches crc32 s f.name = true →
      (∀ g ∈ order.drop s.retain.toNat, g.name ≠ f.name) →
      KeptIn crc32 stamped (cleanupOldSnapshots s.retain order throwsAt s.dir) t := by
    intro f hf hknown hreach hne
    obtain ⟨-, -, -, c, hc, hall⟩ := file_of_reaches hreach
    obtain ⟨hmem, hread⟩ := @cleanupOldSnapshots_keeps s.dir s.retain order throwsAt f hf
      fun g hg => (hne g hg).symm
    exact ⟨f, hmem, hknown, c, (hread crc32).trans hc, hall t ht⟩
  have hother : ∀ f ∈ s.dir.files, isAuto f = false → ∀ g ∈ order.drop s.retain.toNat,
      g.name ≠ f.name := by
    intro f hf hfa g hg he
    obtain ⟨hgf, hga⟩ := List.mem_filter.mp (hsort.1.subset (List.mem_of_mem_drop hg))
    rw [SnapshotDir.eq_of_name hf hgf he.symm, hga] at hfa
    cases hfa
  have hfree : ∀ f ∈ s.dir.files, isAuto f = false → reaches crc32 s f.name = true →
      KeptIn crc32 stamped (cleanupOldSnapshots s.retain order throwsAt s.dir) t := by
    intro f hf hfa hreach
    refine hkeep f hf (fun hname => ?_) hreach (hother f hf hfa)
    -- what has a checkpoint is a regular file
    rw [isAuto_eq, hname, Bool.and_true, regular_of_reaches hf hreach] at hfa
    cases hfa
  obtain ⟨f₀, hf₀, hknown₀, hreach₀⟩ := exists_reaches (List.ne_nil_of_mem ht) hkept
  by_cases hauto₀ : isAuto f₀ = true
  · rcases hrow (by omega) with hlt | ⟨f, hf, hfa, hreach⟩
    · have hname₀ := ((Bool.and_eq_true _ _).mp (isAuto_eq f₀ ▸ hauto₀)).2
      obtain ⟨name, hname, hreach⟩ := exists_mem_take ⟨_, hknown₀ hname₀, hreach₀⟩ hlt
      have hstamped := List.mem_of_mem_take hname
      obtain ⟨f, hf, rfl, -⟩ := file_of_reaches hreach
      by_cases hfa : isAuto f = true
      · refine hkeep f hf (fun _ => hstamped) hreach ?_
        have hidx := (List.mem_take_iff_idxOf_lt hstamped).mp hname
        exact not_mem_drop_of_rank (sortedAutos_distinct hsort)
          (.inl (Nat.lt_of_le_of_lt (rank_le hin hsort hf hfa hstamped) hidx))
      · exact hfree f hf (Bool.not_eq_true _ ▸ hfa) hreach
    · exact hfree f hf hfa hreach
  · exact hfree f₀ hf₀ (Bool.not_eq_true _ ▸ hauto₀) hreach₀

/-! ## 6. One step -/

section Step

variable {s s' : Durable}

theorem Covered.le {t u : Nat} (h : Covered crc32 stamped s u) (hle : t ≤ u) : Covered crc32 stamped s t := by
  rcases h with ⟨f, hf, hknown, c, hc, hu⟩ | ⟨j, hj, hr, hu⟩
  · exact .inl ⟨f, hf, hknown, c, hc, le_trans hle hu⟩
  · exact .inr ⟨j, hj, hr, le_trans hle hu⟩

/-- Where no save is replacing a snapshot, what is covered is kept. -/
theorem RetentionInv.kept (h : RetentionInv crc32 stamped s) (hnone : noneReplacing s) :
    ∀ t ∈ s.needs, KeptIn crc32 stamped s.dir t := by
  intro t ht
  refine (h.covered t ht).resolve_right ?_
  rintro ⟨j, hj, hr, -⟩
  have hreplaced := hnone j hj hr.1
  rw [hr.2] at hreplaced
  cases hreplaced

/-- What is stamped stays so. -/
theorem RetentionInv.mono {stamped' : List String} (h : RetentionInv crc32 stamped s)
    (hsub : stamped ⊆ stamped') : RetentionInv crc32 stamped' s where
  covered := by
    intro t ht
    refine (h.covered t ht).imp_left ?_
    rintro ⟨f, hf, hknown, hread⟩
    exact ⟨f, hf, fun hname => hsub (hknown hname), hread⟩
  sequence := h.sequence
  saves := h.saves
  rollback := h.rollback

/-- A step keeps the invariant if every new truncation was needed before or is kept now, what
    was kept is covered, and so is what a replacing save stood for. -/
theorem RetentionInv.step (h : RetentionInv crc32 stamped s)
    (hneeds : ∀ t ∈ s'.needs, t ∈ s.needs ∨ Covered crc32 stamped s' t)
    (hkept : ∀ t, KeptIn crc32 stamped s.dir t → Covered crc32 stamped s' t)
    (hreplacing : ∀ j ∈ s.saves, j.replacing → Covered crc32 stamped s' j.sequence)
    (hseq : s'.wal.wal.currentSequence ≤ kMaxU64)
    (hsaves : ∀ j ∈ s'.saves, j.sequence ≤ kMaxU64)
    (hroll : ∀ r ∈ s'.rollback, r.sequence ≤ kMaxU64) : RetentionInv crc32 stamped s' where
  covered := by
    intro t ht
    rcases hneeds t ht with ht | ht
    · rcases h.covered t ht with hk | ⟨j, hj, hr, hle⟩
      · exact hkept t hk
      · exact (hreplacing j hj hr).le hle
    · exact ht
  sequence := hseq
  saves := hsaves
  rollback := hroll

/-- A step that leaves the snapshots alone and the replacing saves in the list. -/
theorem RetentionInv.frame (h : RetentionInv crc32 stamped s) (hdir : s'.dir = s.dir)
    (hneeds : ∀ t ∈ s'.needs, t ∈ s.needs)
    (hreplacing : ∀ j ∈ s.saves, j.replacing → ∃ j' ∈ s'.saves, j'.replacing ∧
      j.sequence ≤ j'.sequence)
    (hseq : s'.wal.wal.currentSequence ≤ kMaxU64)
    (hsaves : ∀ j ∈ s'.saves, j.sequence ≤ kMaxU64)
    (hroll : ∀ r ∈ s'.rollback, r.sequence ≤ kMaxU64) : RetentionInv crc32 stamped s' :=
  h.step (fun t ht => .inl (hneeds t ht)) (fun _ ht => .inl (hdir ▸ ht))
    (fun j hj hr => .inr (hreplacing j hj hr)) hseq hsaves hroll

theorem RetentionInv.begin (h : RetentionInv crc32 stamped s) (kind : SaveKind) (name : String)
    (content : Bytes) : RetentionInv crc32 stamped (s.begin kind name content) := by
  have hmem : ∀ j, j ∈ (s.begin kind name content).saves → j ∈ s.saves ∨
      (j.phase = .writing ∧ j.sequence = s.wal.wal.currentSequence) := by
    intro j hj
    rcases List.mem_append.mp hj with hj | hj
    · exact .inl hj
    · rw [List.mem_singleton.mp hj]
      exact .inr ⟨rfl, rfl⟩
  refine h.frame rfl (fun t ht => ?_)
    (fun j hj hr => ⟨j, List.mem_append_left _ hj, hr, le_rfl⟩) h.sequence (fun j hj => ?_)
    h.rollback
  · rw [mem_needs] at ht ⊢
    rcases ht with ht | ⟨j, hj, hp, he⟩ | ht
    · exact .inl ht
    · rcases hmem j hj with hj | ⟨hp', -⟩
      · exact .inr (.inl ⟨j, hj, hp, he⟩)
      · rw [hp'] at hp
        cases hp
    · exact .inr (.inr ht)
  · rcases hmem j hj with hj | ⟨-, he⟩
    · exact h.saves j hj
    · exact he ▸ h.sequence

/-- A save that moves on: nothing becomes needed by it but what is covered. -/
theorem needs_set {i : Nat} {j' : Save} {dir : SnapshotDir} (hj' : j'.phase ≠ .checkpointed)
    {t : Nat} (ht : t ∈ { s with dir := dir, saves := s.saves.set i j' }.needs) :
    t ∈ s.needs := by
  rw [mem_needs] at ht ⊢
  rcases ht with ht | ⟨k, hk, hp, he⟩ | ht
  · exact .inl ht
  · rcases List.mem_or_eq_of_mem_set hk with hk | rfl
    · exact .inr (.inl ⟨k, hk, hp, he⟩)
    · exact absurd hp hj'
  · exact .inr (.inr ht)

theorem needs_eraseIdx {i : Nat} {dir : SnapshotDir} {t : Nat}
    (ht : t ∈ { s with dir := dir, saves := s.saves.eraseIdx i }.needs) : t ∈ s.needs := by
  rw [mem_needs] at ht ⊢
  rcases ht with ht | ⟨k, hk, hp, he⟩ | ht
  · exact .inl ht
  · exact .inr (.inl ⟨k, List.mem_of_mem_eraseIdx hk, hp, he⟩)
  · exact .inr (.inr ht)

theorem saves_set_le {i : Nat} {j j' : Save} (h : RetentionInv crc32 stamped s)
    (hj : s.saves[i]? = some j) (hseq : j'.sequence = j.sequence) :
    ∀ k ∈ s.saves.set i j', k.sequence ≤ kMaxU64 := by
  intro k hk
  rcases List.mem_or_eq_of_mem_set hk with hk | rfl
  · exact h.saves k hk
  · exact hseq ▸ h.saves j (List.mem_of_getElem? hj)

theorem RetentionInv.publish {i mtime : Nat} {j : Save} (h : RetentionInv crc32 stamped s)
    (hj : s.saves[i]? = some j) (hphase : j.phase = .writing)
    (hok : notAbove crc32 s.dir j.name j.sequence ∧
      (j.orphaned = true → hasCheckpoint crc32 s.dir j.name = false)) :
    RetentionInv crc32 stamped { s with
      dir := s.dir.publish { name := j.name, mtime := mtime, content := j.content }
      saves := s.saves.set i { j with
        phase := .published
        replaced := hasCheckpoint crc32 s.dir j.name } } := by
  refine h.step (fun t ht => .inl (needs_set (by simp) ht)) (fun t ht => ?_)
    (fun k hk hr => ?_) h.sequence (saves_set_le h hj rfl) h.rollback
  · rcases ht.publish (f := { name := j.name, mtime := mtime, content := j.content }) with
      ht | ⟨c, hc, hle⟩
    · exact .inl ht
    · -- this save has replaced the snapshot that kept `t`, and its sequence is no lower
      have hhas : hasCheckpoint crc32 s.dir j.name = true := hasCheckpoint_eq_true.2 ⟨c, hc⟩
      refine .inr ⟨_, mem_set_self hj, ⟨?_, hhas⟩, le_trans hle (hok.1 c (mem_checkpointOf.2 hc))⟩
      cases ho : j.orphaned with
      | false => simp [Save.pending]
      | true =>
        rw [hok.2 ho] at hhas
        cases hhas
  · have hne : k ≠ j := by
      rintro rfl
      have := hr.1
      simp [Save.pending, hphase] at this
    exact .inr ⟨k, mem_set_of_ne hj hk hne, hr, le_rfl⟩

theorem RetentionInv.complete {i : Nat} {j : Save} (h : RetentionInv crc32 stamped s)
    (hj : s.saves[i]? = some j) (horph : j.orphaned = false) :
    RetentionInv crc32 stamped { s with saves := s.saves.set i { j with phase := .completed } } := by
  refine h.frame rfl (fun t ht => needs_set (by simp) ht) (fun k hk hr => ?_)
    h.sequence (saves_set_le h hj rfl) h.rollback
  by_cases hne : k = j
  · subst hne
    refine ⟨_, mem_set_self hj, ⟨?_, hr.2⟩, le_rfl⟩
    simp [Save.pending, horph]
  · exact ⟨k, mem_set_of_ne hj hk hne, hr, le_rfl⟩

theorem RetentionInv.fail {i : Nat} {j : Save} (h : RetentionInv crc32 stamped s)
    (hj : s.saves[i]? = some j) (hok : j.pending = true → j.replaced = false) :
    RetentionInv crc32 stamped { s with saves := s.saves.eraseIdx i } := by
  refine h.frame rfl (fun t ht => needs_eraseIdx ht) (fun k hk hr => ?_) h.sequence
    (fun k hk => h.saves k (List.mem_of_mem_eraseIdx hk)) h.rollback
  refine ⟨k, mem_eraseIdx_of_ne hj hk ?_, hr, le_rfl⟩
  rintro rfl
  have := hok hr.1
  rw [hr.2] at this
  cases this

/-- Writing a sidecar that lowers none: what was kept is kept. -/
theorem kept_write {io : CheckpointIo} {name : String} {sequence t : Nat} {dir : SnapshotDir}
    {res : Except Error Unit} (hmax : sequence ≤ kMaxU64)
    (habove : notAbove crc32 s.dir name sequence)
    (hw : writeWalCheckpoint crc32 io name sequence s.dir = (dir, res))
    (h : KeptIn crc32 stamped s.dir t) : KeptIn crc32 stamped dir t := by
  rcases writeWalCheckpoint_cases hmax hw with ⟨rfl, -, -⟩ | ⟨content, hd⟩
  · exact h
  · exact h.write habove hd

theorem RetentionInv.checkpoint {i : Nat} {io : CheckpointIo} {j : Save} {dir : SnapshotDir}
    {res : Except Error Unit} (h : RetentionInv crc32 stamped s) (hj : s.saves[i]? = some j)
    (hknown : Known stamped j.name)
    (hok : notAbove crc32 s.dir j.name j.sequence ∧
      (j.replaced = true → io ≠ .beforeRename ∧ j.sequence ≠ kMaxU64 ∧
        (readSnapshotBinding s.dir j.name).toOption.isSome = true))
    (hw : writeWalCheckpoint crc32 io j.name j.sequence s.dir = (dir, res)) :
    (res = .ok () → RetentionInv crc32 stamped { s with
      dir := dir, saves := s.saves.set i { j with phase := .checkpointed } }) ∧
    RetentionInv crc32 stamped { s with dir := dir, saves := s.saves.eraseIdx i } := by
  have hmax : j.sequence ≤ kMaxU64 := h.saves j (List.mem_of_getElem? hj)
  -- a save that has replaced a snapshot puts its sidecar in place
  have hself : j.replacing → KeptIn crc32 stamped dir j.sequence := by
    intro hr
    rcases writeWalCheckpoint_cases hmax hw with ⟨-, -, hcase⟩ | ⟨content, hd⟩
    · obtain ⟨hio, hseq, hbind⟩ := hok.2 hr.2
      rcases hcase with hc | hc | ⟨e, hc⟩
      · exact absurd hc hio
      · exact absurd hc hseq
      · rw [hc] at hbind
        cases hbind
    · exact kept_of_written hd hknown le_rfl
  refine ⟨fun hres => ?_, ?_⟩
  · refine h.step (fun t ht => ?_) (fun t ht => .inl (kept_write hmax hok.1 hw ht))
      (fun k hk hr => ?_) h.sequence (saves_set_le h hj rfl) h.rollback
    · rw [mem_needs] at ht
      rcases ht with ht | ⟨k, hk, hp, he⟩ | ht
      · exact .inl (mem_needs.2 (.inl ht))
      · rcases List.mem_or_eq_of_mem_set hk with hk | rfl
        · exact .inl (mem_needs.2 (.inr (.inl ⟨k, hk, hp, he⟩)))
        · right
          rcases writeWalCheckpoint_cases hmax hw with ⟨-, ⟨e, he'⟩, -⟩ | ⟨content, hd⟩
          · rw [hres] at he'
            cases he'
          · exact .inl (kept_of_written hd hknown he.ge)
      · exact .inl (mem_needs.2 (.inr (.inr ht)))
    · by_cases hne : k = j
      · exact .inl (hne ▸ hself (hne ▸ hr))
      · exact .inr ⟨k, mem_set_of_ne hj hk hne, hr, le_rfl⟩
  · refine h.step (fun t ht => .inl (needs_eraseIdx ht))
      (fun t ht => .inl (kept_write hmax hok.1 hw ht)) (fun k hk hr => ?_) h.sequence
      (fun k hk => h.saves k (List.mem_of_mem_eraseIdx hk)) h.rollback
    by_cases hne : k = j
    · exact .inl (hne ▸ hself (hne ▸ hr))
    · exact .inr ⟨k, mem_eraseIdx_of_ne hj hk hne, hr, le_rfl⟩

theorem RetentionInv.truncate {i : Nat} {io : TruncateIo} {j : Save} (h : RetentionInv crc32 stamped s)
    (hj : s.saves[i]? = some j) (hphase : j.phase = .checkpointed) :
    RetentionInv crc32 stamped { s with
      wal := s.wal.truncate io j.sequence, saves := s.saves.eraseIdx i } := by
  refine h.frame rfl (fun t ht => ?_) (fun k hk hr => ?_) (by simpa using h.sequence)
    (fun k hk => h.saves k (List.mem_of_mem_eraseIdx hk)) h.rollback
  · rw [mem_needs] at ht ⊢
    rcases ht with ht | ⟨k, hk, hp, he⟩ | ht
    · -- the new truncation is that of this save
      rcases List.mem_cons.mp ht with rfl | ht
      · exact .inr (.inl ⟨j, List.mem_of_getElem? hj, hphase, rfl⟩)
      · exact .inl ht
    · exact .inr (.inl ⟨k, List.mem_of_mem_eraseIdx hk, hp, he⟩)
    · exact .inr (.inr ht)
  · refine ⟨k, mem_eraseIdx_of_ne hj hk ?_, hr, le_rfl⟩
    rintro rfl
    have := hr.1
    simp [Save.pending, hphase] at this

/-- A step of a `DUMP LOAD` that leaves the saves alone. -/
theorem RetentionInv.rolled (h : RetentionInv crc32 stamped s) {wal : WalRun} {dir : SnapshotDir}
    {rollback : Option Rollback}
    (hneeds : ∀ t ∈ { s with wal := wal, dir := dir, rollback := rollback }.needs,
      t ∈ s.needs ∨ KeptIn crc32 stamped dir t)
    (hkept : ∀ t, KeptIn crc32 stamped s.dir t → KeptIn crc32 stamped dir t)
    (hseq : wal.wal.currentSequence = s.wal.wal.currentSequence)
    (hroll : ∀ r ∈ rollback, r.sequence ≤ kMaxU64) :
    RetentionInv crc32 stamped { s with wal := wal, dir := dir, rollback := rollback } :=
  h.step (fun t ht => (hneeds t ht).imp_right .inl) (fun t ht => .inl (hkept t ht))
    (fun j hj hr => .inr ⟨j, hj, hr, le_rfl⟩) (hseq ▸ h.sequence) h.saves hroll

theorem needs_rolled {wal : WalRun} {dir : SnapshotDir} {rollback : Option Rollback} {t : Nat}
    (ht : t ∈ { s with wal := wal, dir := dir, rollback := rollback }.needs) :
    t ∈ wal.checkpoints ∨ (∃ j ∈ s.saves, j.phase = .checkpointed ∧ j.sequence = t) ∨
      ∃ r ∈ rollback, r.phase = .checkpointed ∧ r.sequence = t :=
  mem_needs.1 ht

theorem RetentionInv.loadCheckpoint {io : CheckpointIo} {r : Rollback} {dir : SnapshotDir}
    {res : Except Error Unit} (h : RetentionInv crc32 stamped s) (hr : s.rollback = some r)
    (hknown : Known stamped r.name) (hok : notAbove crc32 s.dir r.name r.sequence)
    (hw : writeWalCheckpoint crc32 io r.name r.sequence s.dir = (dir, res)) :
    (res = .ok () → RetentionInv crc32 stamped { s with
      dir := dir, rollback := some { r with phase := .checkpointed } }) ∧
    RetentionInv crc32 stamped { s with dir := dir, rollback := none } := by
  have hmax : r.sequence ≤ kMaxU64 := h.rollback r hr
  refine ⟨fun hres => ?_, ?_⟩
  · refine h.rolled (fun t ht => ?_) (fun t ht => kept_write hmax hok hw ht) rfl ?_
    · rcases needs_rolled ht with ht | ht | ⟨r', hr', -, he⟩
      · exact .inl (mem_needs.2 (.inl ht))
      · exact .inl (mem_needs.2 (.inr (.inl ht)))
      · obtain rfl := Option.some.inj hr'
        right
        rcases writeWalCheckpoint_cases hmax hw with ⟨-, ⟨e, he'⟩, -⟩ | ⟨content, hd⟩
        · rw [hres] at he'
          cases he'
        · exact kept_of_written hd hknown he.ge
    · intro r' hr'
      obtain rfl := Option.some.inj hr'
      exact hmax
  · refine h.rolled (fun t ht => .inl ?_) (fun t ht => kept_write hmax hok hw ht) rfl (by simp)
    rcases needs_rolled ht with ht | ht | ⟨r', hr', -⟩
    · exact mem_needs.2 (.inl ht)
    · exact mem_needs.2 (.inr (.inl ht))
    · cases hr'

theorem RetentionInv.loadTruncate {io : TruncateIo} {r : Rollback} {rollback : Option Rollback}
    (h : RetentionInv crc32 stamped s) (hr : s.rollback = some r) (hphase : r.phase = .checkpointed)
    (hroll : ∀ r' ∈ rollback, r'.phase ≠ .checkpointed ∧ r'.sequence = r.sequence) :
    RetentionInv crc32 stamped { s with wal := s.wal.truncate io r.sequence, rollback := rollback } := by
  refine h.rolled (fun t ht => .inl ?_) (fun _ ht => ht) (by simp) ?_
  · rcases needs_rolled ht with ht | ht | ⟨r', hr', hp, -⟩
    · rcases List.mem_cons.mp ht with rfl | ht
      · exact mem_needs.2 (.inr (.inr ⟨r, hr, hphase, rfl⟩))
      · exact mem_needs.2 (.inl ht)
    · exact mem_needs.2 (.inr (.inl ht))
    · exact absurd hp (hroll r' hr').1
  · intro r' hr'
    rw [(hroll r' hr').2]
    exact h.rollback r hr

theorem RetentionInv.crash {keep : Nat} (h : RetentionInv crc32 stamped s) (hok : noneReplacing s) :
    RetentionInv crc32 stamped { s with
      wal := s.wal.crash keep
      up := false
      saves := s.orphans
      rollback := s.rollback.filter fun r => r.phase = .loaded } := by
  have horphan : ∀ j ∈ s.orphans, j.phase = .writing ∧ ∃ k ∈ s.saves, j.sequence = k.sequence := by
    intro j hj
    obtain ⟨k, hk, rfl⟩ := List.mem_map.mp hj
    obtain ⟨hk, hc⟩ := List.mem_filter.mp hk
    simp only [Bool.and_eq_true, beq_iff_eq] at hc
    exact ⟨hc.2, k, hk, rfl⟩
  have hroll : ∀ r ∈ s.rollback.filter fun r => r.phase = .loaded,
      r ∈ s.rollback ∧ r.phase = .loaded := by
    intro r hr
    simpa [Option.filter_eq_some_iff] using hr
  refine h.frame rfl (fun t ht => ?_) (fun j hj hr => ?_) (Nat.zero_le _) (fun j hj => ?_)
    (fun r hr => h.rollback r (hroll r hr).1)
  · rw [mem_needs] at ht ⊢
    rcases ht with ht | ⟨j, hj, hp, -⟩ | ⟨r, hr, hp, -⟩
    · exact .inl ht
    · rw [(horphan j hj).1] at hp
      cases hp
    · rw [(hroll r hr).2] at hp
      cases hp
  · have := hok j hj hr.1
    rw [hr.2] at this
    cases this
  · obtain ⟨-, k, hk, he⟩ := horphan j hj
    exact he ▸ h.saves k hk

/-- A step of the WAL that truncates nothing. -/
theorem RetentionInv.walStep (h : RetentionInv crc32 stamped s) {wal : WalRun} {up : Bool}
    (hcp : wal.checkpoints = s.wal.checkpoints)
    (hseq : wal.wal.currentSequence ≤ kMaxU64) :
    RetentionInv crc32 stamped { s with wal := wal, up := up } := by
  refine h.frame rfl (fun t ht => ?_) (fun j hj hr => ⟨j, hj, hr, le_rfl⟩) hseq h.saves
    h.rollback
  rw [mem_needs] at ht ⊢
  exact hcp ▸ ht

end Step

section Run

variable {σ : Type} {load : Bytes → Except Error σ}
  {replayRecord : σ → WalRecord → Except Error σ} {empty : σ}

theorem RetentionInv.initial (retain : Int) (cfg : WalConfig) (dir : SnapshotDir) :
    RetentionInv crc32 [] (Durable.initial retain cfg dir) where
  covered := by simp [Durable.needs, Durable.initial, WalRun.initial]
  sequence := Nat.zero_le _
  saves := by simp [Durable.initial]
  rollback := by simp [Durable.initial]

theorem subset_restamp (stamped : List String) (name : Option String) :
    stamped ⊆ restamp stamped name := by
  intro n hn
  unfold restamp
  split
  · split
    · rename_i name _
      by_cases he : n = name
      · exact he ▸ List.mem_cons_self
      · exact List.mem_cons_of_mem _ (List.mem_filter.mpr ⟨hn, by simpa using he⟩)
    · exact hn
  · exact hn

theorem known_restamp (stamped : List String) (name : String) :
    Known (restamp stamped (some name)) name := by
  intro hname
  simp only [restamp, if_pos hname]
  exact List.mem_cons_self

/-- **What the order is worth**: time stamps grow with it, and what is published or stamped
    stands in it. -/
structure TimelineInv (x : Timeline) : Prop where
  inOrder : InOrder x.durable.dir x.stamped
  saves : ∀ j ∈ x.durable.saves, j.phase ≠ .writing → Known x.stamped j.name
  rollback : ∀ r ∈ x.durable.rollback, r.phase ≠ .swapped → Known x.stamped r.name

theorem TimelineInv.initial (retain : Int) (cfg : WalConfig) (dir : SnapshotDir) :
    TimelineInv ⟨Durable.initial retain cfg dir, []⟩ where
  inOrder := fun _ _ _ _ _ _ h => absurd h (lt_irrefl _)
  saves := by simp [Durable.initial]
  rollback := by simp [Durable.initial]

section TimelineStep

variable {x : Timeline} {s' : Durable}

/-- A step that stamps nothing. -/
theorem TimelineInv.frame (h : TimelineInv x) (hdir : ∀ f ∈ s'.dir.files, f ∈ x.durable.dir.files)
    (hsaves : ∀ j ∈ s'.saves, j.phase ≠ .writing →
      ∃ k ∈ x.durable.saves, k.phase ≠ .writing ∧ k.name = j.name)
    (hroll : ∀ r ∈ s'.rollback, r.phase ≠ .swapped →
      ∃ r₀ ∈ x.durable.rollback, r₀.phase ≠ .swapped ∧ r₀.name = r.name) :
    TimelineInv ⟨s', x.stamped⟩ where
  inOrder := h.inOrder.mono hdir
  saves := by
    intro j hj hphase
    obtain ⟨k, hk, hphase', hname⟩ := hsaves j hj hphase
    exact hname ▸ h.saves k hk hphase'
  rollback := by
    intro r hr hphase
    obtain ⟨r₀, hr₀, hphase', hname⟩ := hroll r hr hphase
    exact hname ▸ h.rollback r₀ hr₀ hphase'

/-- A step that stamps a snapshot. -/
theorem TimelineInv.stamp (h : TimelineInv x) {name : String} {mtime : Nat}
    (hnew : ∀ f ∈ s'.dir.files, f.name = name → f.mtime = mtime)
    (hold : ∀ f ∈ s'.dir.files, f.name ≠ name → f ∈ x.durable.dir.files)
    (hlatest : latest x.durable.dir name mtime)
    (hsaves : ∀ j ∈ s'.saves, j ∈ x.durable.saves ∨ j.name = name)
    (hroll : ∀ r ∈ s'.rollback, r ∈ x.durable.rollback ∨ r.name = name) :
    TimelineInv ⟨s', restamp x.stamped (some name)⟩ where
  inOrder := h.inOrder.restamp hnew hold hlatest
  saves := by
    intro j hj hphase
    rcases hsaves j hj with hj | hname
    · exact fun hauto => subset_restamp _ (some name) (h.saves j hj hphase hauto)
    · exact hname ▸ known_restamp _ _
  rollback := by
    intro r hr hphase
    rcases hroll r hr with hr | hname
    · exact fun hauto => subset_restamp _ (some name) (h.rollback r hr hphase hauto)
    · exact hname ▸ known_restamp _ _

/-- Saves that are left as they are, but for one that has come further. -/
theorem mem_set_phase {i : Nat} {j j' : Save} {saves : List Save} (hj : saves[i]? = some j)
    (hphase : j.phase ≠ .writing) (hname : j'.name = j.name) :
    ∀ k ∈ saves.set i j', k.phase ≠ .writing →
      ∃ k' ∈ saves, k'.phase ≠ .writing ∧ k'.name = k.name := by
  intro k hk hk'
  rcases List.mem_or_eq_of_mem_set hk with hk | rfl
  · exact ⟨k, hk, hk', rfl⟩
  · exact ⟨j, List.mem_of_getElem? hj, hphase, hname.symm⟩

theorem mem_eraseIdx_phase {i : Nat} {saves : List Save} :
    ∀ k ∈ saves.eraseIdx i, k.phase ≠ .writing →
      ∃ k' ∈ saves, k'.phase ≠ .writing ∧ k'.name = k.name :=
  fun k hk hphase => ⟨k, List.mem_of_mem_eraseIdx hk, hphase, rfl⟩

theorem TimelineInv.begin (h : TimelineInv x) (kind : SaveKind) (name : String)
    (content : Bytes) : TimelineInv ⟨x.durable.begin kind name content, x.stamped⟩ := by
  refine h.frame (fun f hf => hf) (fun j hj hphase => ?_) fun r hr hphase => ⟨r, hr, hphase, rfl⟩
  rcases List.mem_append.mp hj with hj | hj
  · exact ⟨j, hj, hphase, rfl⟩
  · rw [List.mem_singleton.mp hj] at hphase
    exact absurd rfl hphase

/-- The newest snapshot is the first in the order. -/
theorem TimelineInv.publish (h : TimelineInv x) {i mtime : Nat} {j : Save}
    (hlatest : latest x.durable.dir j.name mtime) (replaced : Bool) :
    TimelineInv ⟨{ x.durable with
        dir := x.durable.dir.publish { name := j.name, mtime := mtime, content := j.content }
        saves := x.durable.saves.set i { j with phase := .published, replaced := replaced } },
      restamp x.stamped (some j.name)⟩ := by
  refine h.stamp (fun f hf hname => ?_) (fun f hf hname => ?_) hlatest (fun k hk => ?_)
    fun r hr => .inl hr
  · rcases SnapshotDir.mem_publish.mp hf with rfl | ⟨-, hne⟩
    · rfl
    · exact absurd hname hne
  · rcases SnapshotDir.mem_publish.mp hf with rfl | ⟨hf, -⟩
    · exact absurd rfl hname
    · exact hf
  · rcases List.mem_or_eq_of_mem_set hk with hk | rfl
    · exact .inl hk
    · exact .inr rfl

theorem TimelineInv.touch (h : TimelineInv x) {now : Nat} {r : Rollback}
    (hlatest : latest x.durable.dir r.name now) :
    TimelineInv ⟨{ x.durable with
        dir := x.durable.dir.touch r.name now
        rollback := some { r with stamp := now, phase := .stamped } },
      restamp x.stamped (some r.name)⟩ := by
  refine h.stamp (fun f hf hname => ?_) (fun f hf hname => ?_) hlatest (fun k hk => .inl hk)
    fun r' hr' => ?_
  · obtain ⟨g, -, rfl⟩ := List.mem_map.mp hf
    split
    · rfl
    · rename_i hne
      rw [if_neg hne] at hname
      exact absurd hname hne
  · obtain ⟨g, hg, rfl⟩ := List.mem_map.mp hf
    by_cases hne : g.name = r.name
    · rw [if_pos hne] at hname
      exact absurd hne hname
    · rwa [if_neg hne]
  · obtain rfl := Option.some.inj hr'
    exact .inr rfl

end TimelineStep

/-- A sidecar is no snapshot. -/
theorem files_writeWalCheckpoint {io : CheckpointIo} {name : String} {sequence : Nat}
    {d d' : SnapshotDir} {res : Except Error Unit} (hseq : sequence ≤ kMaxU64)
    (h : writeWalCheckpoint crc32 io name sequence d = (d', res)) : d'.files = d.files := by
  rcases writeWalCheckpoint_cases hseq h with ⟨rfl, -⟩ | ⟨content, hw⟩
  · rfl
  · exact hw.files

/-- **One step** keeps the order. -/
theorem timelineInv_step {x x' : Timeline} {a : DurableAction} (h : TimelineInv x)
    (hinv : RetentionInv crc32 x.stamped x.durable) (hok : retentionOk crc32 x a)
    (h' : timelineStep crc32 load replayRecord empty x a = some x') : TimelineInv x' := by
  obtain ⟨s', stamped'⟩ := x'
  obtain ⟨hstep, hstamped⟩ := timelineStep_eq_some h'
  simp only at hstep hstamped
  subst hstamped
  have hsame : ∀ j ∈ x.durable.saves, j.phase ≠ .writing →
      ∃ k ∈ x.durable.saves, k.phase ≠ .writing ∧ k.name = j.name :=
    fun j hj hphase => ⟨j, hj, hphase, rfl⟩
  have hroll : ∀ r ∈ x.durable.rollback, r.phase ≠ .swapped →
      ∃ r₀ ∈ x.durable.rollback, r₀.phase ≠ .swapped ∧ r₀.name = r.name :=
    fun r hr hphase => ⟨r, hr, hphase, rfl⟩
  cases a with
  | append io now op payload =>
    obtain ⟨-, -, rfl⟩ := append_step hstep
    exact h.frame (fun f hf => hf) hsame hroll
  | closeWal =>
    obtain ⟨-, rfl⟩ := closeWal_step hstep
    exact h.frame (fun f hf => hf) hsame hroll
  | fork name content =>
    obtain ⟨-, rfl⟩ := fork_step hstep
    exact h.begin _ _ _
  | lockSave name content =>
    obtain ⟨-, rfl⟩ := lockSave_step hstep
    exact h.begin _ _ _
  | publish i mtime =>
    obtain ⟨j, hj, -, rfl⟩ := publish_step hstep
    rw [stampedBy, hj, Option.map_some]
    exact h.publish (hok j hj).1 _
  | complete i =>
    obtain ⟨j, hj, hphase, -, rfl⟩ := complete_step hstep
    exact h.frame (fun f hf => hf) (mem_set_phase hj (by simp [hphase]) rfl) hroll
  | fail i =>
    obtain ⟨j, hj, -, rfl⟩ := fail_step hstep
    exact h.frame (fun f hf => hf) mem_eraseIdx_phase hroll
  | checkpoint i io =>
    obtain ⟨j, res, hj, hphase, dir, hw, ⟨-, rfl⟩ | ⟨-, rfl⟩⟩ := checkpoint_step hstep
    · have hfiles := files_writeWalCheckpoint (hinv.saves j (List.mem_of_getElem? hj)) hw
      exact h.frame (fun f hf => hfiles ▸ hf) (mem_set_phase hj (by simp [hphase]) rfl) hroll
    · have hfiles := files_writeWalCheckpoint (hinv.saves j (List.mem_of_getElem? hj)) hw
      exact h.frame (fun f hf => hfiles ▸ hf) mem_eraseIdx_phase hroll
  | truncate i io =>
    obtain ⟨j, hj, -, rfl⟩ := truncate_step hstep
    exact h.frame (fun f hf => hf) mem_eraseIdx_phase hroll
  | load name =>
    obtain ⟨f, -, -, -, -, rfl⟩ := load_step hstep
    refine h.frame (fun f hf => hf) (fun j hj hphase => ?_) fun r hr hphase => ?_
    · obtain ⟨k, hk, rfl⟩ := List.mem_map.mp hj
      exact ⟨k, hk, hphase, rfl⟩
    · obtain rfl := Option.some.inj hr
      exact absurd rfl hphase
  | loadStamp now =>
    obtain ⟨r, hr, -, rfl⟩ := loadStamp_step hstep
    rw [stampedBy, hr, Option.map_some]
    exact h.touch (hok r hr)
  | loadCheckpoint io =>
    obtain ⟨r, res, hr, hphase, dir, hw, ⟨-, rfl⟩ | ⟨-, rfl⟩⟩ := loadCheckpoint_step hstep
    · have hfiles := files_writeWalCheckpoint (hinv.rollback r hr) hw
      refine h.frame (fun f hf => hfiles ▸ hf) hsame fun r' hr' _ => ?_
      obtain rfl := Option.some.inj hr'
      exact ⟨r, hr, by simp [hphase], rfl⟩
    · have hfiles := files_writeWalCheckpoint (hinv.rollback r hr) hw
      exact h.frame (fun f hf => hfiles ▸ hf) hsame fun r' hr' => nomatch hr'
  | loadTruncate io =>
    obtain ⟨r, hr, hphase, rfl | rfl⟩ := loadTruncate_step hstep
    · refine h.frame (fun f hf => hf) hsame fun r' hr' _ => ?_
      obtain rfl := Option.some.inj hr'
      exact ⟨r, hr, by simp [hphase], rfl⟩
    · exact h.frame (fun f hf => hf) hsame fun r' hr' => nomatch hr'
  | loadFails =>
    obtain rfl := loadFails_step hstep
    exact h.frame (fun f hf => hf) hsame fun r' hr' => nomatch hr'
  | cleanup order throwsAt =>
    obtain ⟨-, rfl⟩ := cleanup_step hstep
    exact h.frame (fun f hf => (@mem_of_mem_cleanup crc32 _ _ _ _ _ hf).1) hsame hroll
  | crash keep =>
    obtain rfl := crash_step hstep
    refine h.frame (fun f hf => hf) (fun j hj hphase => ?_) fun r hr hphase => ?_
    · obtain ⟨k, hk, rfl⟩ := List.mem_map.mp hj
      obtain ⟨hk, -⟩ := List.mem_filter.mp hk
      exact ⟨k, hk, hphase, rfl⟩
    · obtain ⟨hr, -⟩ := Option.filter_eq_some_iff.mp hr
      exact ⟨r, hr, hphase, rfl⟩
  | start cfg io =>
    obtain ⟨-, rfl | rfl | ⟨-, rfl⟩⟩ := start_step hstep
    · exact h.frame (fun f hf => hf) hsame hroll
    · exact h.frame (fun f hf => hf) hsame hroll
    · exact h.frame (fun f hf => hf) hsame hroll

/-- **One step** that meets `retentionOk` keeps the invariant. -/
theorem retentionInv_step {x x' : Timeline} {a : DurableAction}
    (h : RetentionInv crc32 x.stamped x.durable) (hx : TimelineInv x)
    (hok : retentionOk crc32 x a)
    (h' : timelineStep crc32 load replayRecord empty x a = some x') :
    RetentionInv crc32 x'.stamped x'.durable := by
  obtain ⟨s, stamped⟩ := x
  obtain ⟨s', stamped'⟩ := x'
  obtain ⟨hstep, hstamped⟩ := timelineStep_eq_some h'
  simp only at h hstep hstamped ⊢
  subst hstamped
  replace h := h.mono (subset_restamp stamped (stampedBy s a))
  cases a with
  | append io now op payload =>
    obtain ⟨-, -, rfl⟩ := append_step hstep
    exact h.walStep (by simp) (WalRun.append_sequence_le h.sequence).2
  | closeWal =>
    obtain ⟨-, rfl⟩ := closeWal_step hstep
    exact h.walStep rfl h.sequence
  | fork name content =>
    obtain ⟨-, rfl⟩ := fork_step hstep
    exact h.begin _ _ _
  | lockSave name content =>
    obtain ⟨-, rfl⟩ := lockSave_step hstep
    exact h.begin _ _ _
  | publish i mtime =>
    obtain ⟨j, hj, hphase, rfl⟩ := publish_step hstep
    exact h.publish hj hphase (hok j hj).2
  | complete i =>
    obtain ⟨j, hj, -, horph, rfl⟩ := complete_step hstep
    exact h.complete hj horph
  | fail i =>
    obtain ⟨j, hj, -, rfl⟩ := fail_step hstep
    exact h.fail hj (hok j hj)
  | checkpoint i io =>
    obtain ⟨j, res, hj, hphase, dir, hw, hcase⟩ := checkpoint_step hstep
    have hknown := hx.saves j (List.mem_of_getElem? hj) (by simp [hphase])
    rcases hcase with ⟨hres, rfl⟩ | ⟨-, rfl⟩
    · exact (h.checkpoint hj hknown (hok j hj) hw).1 hres
    · exact (h.checkpoint hj hknown (hok j hj) hw).2
  | truncate i io =>
    obtain ⟨j, hj, hphase, rfl⟩ := truncate_step hstep
    exact h.truncate hj hphase
  | load name =>
    obtain ⟨f, -, -, -, -, rfl⟩ := load_step hstep
    refine h.frame rfl (fun t ht => ?_) (fun j hj hr => ?_) h.sequence (fun j hj => ?_) ?_
    · rw [mem_needs] at ht ⊢
      rcases ht with ht | ⟨j, hj, hp, he⟩ | ⟨r, hr, hp, -⟩
      · exact .inl ht
      · obtain ⟨k, hk, rfl⟩ := List.mem_map.mp hj
        exact .inr (.inl ⟨k, hk, hp, he⟩)
      · obtain rfl := Option.some.inj hr
        cases hp
    · exact ⟨_, List.mem_map_of_mem hj, hr, le_rfl⟩
    · obtain ⟨k, hk, rfl⟩ := List.mem_map.mp hj
      exact h.saves k hk
    · intro r hr
      obtain rfl := Option.some.inj hr
      exact h.sequence
  | loadStamp now =>
    obtain ⟨r, hr, -, rfl⟩ := loadStamp_step hstep
    refine h.rolled (fun t ht => .inl ?_) (fun t ht => ht.touch) rfl ?_
    · rcases needs_rolled ht with ht | ht | ⟨r', hr', hp, -⟩
      · exact mem_needs.2 (.inl ht)
      · exact mem_needs.2 (.inr (.inl ht))
      · obtain rfl := Option.some.inj hr'
        cases hp
    · intro r' hr'
      obtain rfl := Option.some.inj hr'
      exact h.rollback r hr
  | loadCheckpoint io =>
    obtain ⟨r, res, hr, hphase, dir, hw, hcase⟩ := loadCheckpoint_step hstep
    have hknown := hx.rollback r hr (by simp [hphase])
    rcases hcase with ⟨hres, rfl⟩ | ⟨-, rfl⟩
    · exact (h.loadCheckpoint hr hknown (hok r hr) hw).1 hres
    · exact (h.loadCheckpoint hr hknown (hok r hr) hw).2
  | loadTruncate io =>
    obtain ⟨r, hr, hphase, rfl | rfl⟩ := loadTruncate_step hstep
    · refine h.loadTruncate hr hphase fun r' hr' => ?_
      obtain rfl := Option.some.inj hr'
      exact ⟨by simp, rfl⟩
    · exact h.loadTruncate hr hphase (by simp)
  | loadFails =>
    obtain rfl := loadFails_step hstep
    refine h.rolled (fun t ht => .inl ?_) (fun _ ht => ht) rfl (by simp)
    rcases needs_rolled ht with ht | ht | ⟨r', hr', -⟩
    · exact mem_needs.2 (.inl ht)
    · exact mem_needs.2 (.inr (.inl ht))
    · cases hr'
  | cleanup order throwsAt =>
    obtain ⟨hsort, rfl⟩ := cleanup_step hstep
    refine ⟨fun t ht => .inl ?_, h.sequence, h.saves, h.rollback⟩
    exact keptIn_cleanup (h.kept hok.1) hx.inOrder hsort
      (fun hpos => hok.2 hpos (List.ne_nil_of_mem ht)) ht
  | crash keep =>
    obtain rfl := crash_step hstep
    exact h.crash hok
  | start cfg io =>
    obtain ⟨-, rfl | rfl | ⟨-, rfl⟩⟩ := start_step hstep
    · exact h
    · exact h.walStep (WalRun.open_checkpoints cfg io) (WalRun.open_sequence_le h.sequence)
    · exact h.walStep (by simp) (WalRun.open_sequence_le h.sequence)

end Run

end Retention

/-! ## 7. Two runs -/

/-- One record, then an automatic snapshot that is checkpointed and truncated against. -/
def firstSnapshot : List DurableAction :=
  [.start defaultWalConfig {}, .append {} 0 .kVecDel [1],
    .fork "auto_20250101_000000.nvec" [10], .publish 0 5, .complete 0, .checkpoint 0 .ok,
    .truncate 0 {}]

/-- A second automatic snapshot, whose sidecar is written or not, and the cleanup after it. -/
def secondSnapshot (io : CheckpointIo) : List DurableAction :=
  [.fork "auto_20250101_010000.nvec" [11], .publish 0 6, .complete 0, .checkpoint 0 io]

def newestFirst : List SnapshotFile :=
  [{ name := "auto_20250101_010000.nvec", mtime := 6, content := [11] },
    { name := "auto_20250101_000000.nvec", mtime := 5, content := [10] }]

end Nvecd.Server
