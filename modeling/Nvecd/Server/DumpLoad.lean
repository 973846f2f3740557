/-
  File:      Nvecd/Server/DumpLoad.lean
  Subject:   `DUMP LOAD` as a durable rollback (`HandleDumpLoad`,
             `server/handlers/dump_handler.cpp`): what a restart restores after it.

  The loaded file gets a new time stamp and a checkpoint at the current sequence, so that it is
  the newest candidate. A save whose image was taken before the load belongs to the state that
  was rolled back; if it is published after the load, it is newer than the loaded file.

  * `rollbackOk` -- the steps on which the load stays the base;
  * `RollbackInv`, `rollbackInv_step` -- the newest usable snapshot is the loaded one or was
    taken since, and no truncation is above its checkpoint;
  * `dump_load_durable` -- so a restart restores the loaded file, or an image taken since, and
    applies exactly the writes acknowledged behind it;
  * `dump_load_undone` -- a child that was under way brings the old state back.
-/
import Nvecd.Server.Retention

namespace Nvecd.Server

open Nvecd.Lib Nvecd.Utils Nvecd.Storage

/-! ## 1. The condition -/

/-- The checkpoint of the loaded file is durable. -/
def Rollback.anchored (r : Rollback) : Bool := r.phase == .checkpointed || r.phase == .loaded

section DumpLoad

variable {σ : Type} (crc32 : Bytes → UInt32) (load : Bytes → Except Error σ)
  (replayRecord : σ → WalRecord → Except Error σ) (empty : σ)

/-- What a recovery would start from now. -/
def recoveryBase (s : Durable) : Option (RecoverySnapshot σ) :=
  (loadNewestValidSnapshot crc32 load s.dir true empty).toOption

/-- What has to hold of a save's checkpoint while a load is in force: the sidecar of an image
    from before the load goes to a file older than the load, that of a later image to a file
    that still holds it, above every truncation so far. -/
def checkpointInForce (s : Durable) (r : Rollback) (j : Save) : Prop :=
  ∀ f ∈ s.dir.lookup j.name,
    (j.rolledBack = true → r.phase ≠ .swapped → f.mtime < r.stamp) ∧
      (j.rolledBack = false → f.content = j.content ∧ ∀ t ∈ s.wal.checkpoints, t ≤ j.sequence)

/-- The sequence the WAL stands at has been acknowledged: no failed `Append` has used it up. -/
def capturesAcked (s : Durable) : Prop := s.wal.wal.currentSequence ≤ maxSequenceOf s.wal.acked

/-- **The steps on which a load stays in force.** -/
def rollbackOk (s : Durable) : DurableAction → Prop
  | .append io now op payload =>
    walOk s.wal (.append io now op payload) ∧ acknowledges s.wal (.append io now op payload)
  | .fork .. => capturesAcked s
  | .lockSave .. => capturesAcked s
  | .load _ => capturesAcked s
  | .publish i _ => ∀ j ∈ s.saves[i]?, ∀ r ∈ s.rollback,
      (∀ bytes ∈ s.dir.sidecar j.name, (decodeCheckpoint crc32 j.content bytes).toOption = none) ∧
      (r.anchored = false → j.name ≠ r.name) ∧
      (r.anchored = true → ∀ base ∈ recoveryBase crc32 load empty s, base.path ≠ j.name)
  | .checkpoint i _ => ∀ j ∈ s.saves[i]?, ∀ r ∈ s.rollback, checkpointInForce s r j
  | .truncate i io => ∀ j ∈ s.saves[i]?, walOk s.wal (.truncate io j.sequence) ∧
      ∀ r ∈ s.rollback, r.anchored = true →
        ∀ base ∈ recoveryBase crc32 load empty s, j.sequence ≤ base.checkpoint
  | .loadStamp now => ∀ r ∈ s.rollback, ∀ f ∈ s.dir.files, f.name ≠ r.name → f.mtime < now
  | .loadCheckpoint _ => ∀ r ∈ s.rollback, ∀ f ∈ s.dir.lookup r.name, isSnapshot f = true
  | .loadTruncate io => ∀ r ∈ s.rollback, walOk s.wal (.truncate io r.sequence)
  | .cleanup order _ => ∀ r ∈ s.rollback, r.anchored = true →
      ∀ base ∈ recoveryBase crc32 load empty s, 0 < s.retain →
        (order.takeWhile fun f => f.name != base.path).length < s.retain.toNat ∨
          ∀ f ∈ order, f.name ≠ base.path
  | .crash keep => walOk s.wal (.crash keep)
  | .start cfg io => walOk s.wal (.open cfg io)
  | _ => True

instance (s : Durable) : Decidable (capturesAcked s) :=
  inferInstanceAs (Decidable (s.wal.wal.currentSequence ≤ maxSequenceOf s.wal.acked))

instance (s : Durable) (r : Rollback) (j : Save) : Decidable (checkpointInForce s r j) :=
  inferInstanceAs (Decidable (∀ f ∈ s.dir.lookup j.name, _ ∧ _))

instance (s : Durable) : ∀ a, Decidable (rollbackOk crc32 load empty s a)
  | .append io now op payload => inferInstanceAs (Decidable (
      walOk s.wal (.append io now op payload) ∧ acknowledges s.wal (.append io now op payload)))
  | .fork .. => inferInstanceAs (Decidable (capturesAcked s))
  | .lockSave .. => inferInstanceAs (Decidable (capturesAcked s))
  | .load _ => inferInstanceAs (Decidable (capturesAcked s))
  | .publish i _ => inferInstanceAs (Decidable (∀ j ∈ s.saves[i]?, ∀ r ∈ s.rollback, _ ∧ _))
  | .checkpoint i _ => inferInstanceAs (Decidable (∀ j ∈ s.saves[i]?, ∀ r ∈ s.rollback,
      checkpointInForce s r j))
  | .truncate i _ => inferInstanceAs (Decidable (∀ j ∈ s.saves[i]?, _ ∧ _))
  | .loadStamp _ => inferInstanceAs (Decidable (∀ r ∈ s.rollback, ∀ f ∈ s.dir.files, _ → _))
  | .loadCheckpoint _ => inferInstanceAs (Decidable (∀ r ∈ s.rollback,
      ∀ f ∈ s.dir.lookup r.name, _))
  | .loadTruncate io => inferInstanceAs (Decidable (∀ r ∈ s.rollback,
      walOk s.wal (.truncate io r.sequence)))
  | .cleanup _ _ => inferInstanceAs (Decidable (∀ r ∈ s.rollback, _ → _))
  | .crash keep => inferInstanceAs (Decidable (walOk s.wal (.crash keep)))
  | .start cfg io => inferInstanceAs (Decidable (walOk s.wal (.open cfg io)))
  | .closeWal => isTrue trivial
  | .complete _ => isTrue trivial
  | .fail _ => isTrue trivial
  | .loadFails => isTrue trivial

/-! ## 2. The log -/

/-- **The log holds what was acknowledged and nothing else**, in order; while the server is up,
    its sequence stands above all of it. -/
structure WalSound (up : Bool) (w : WalRun) : Prop where
  wal : ∃ segs, WalInv crc32 segs w ∧ ∀ r ∈ recordsOf segs, r ∈ w.acked
  decreasing : w.acked.Pairwise fun a b => b.sequence < a.sequence
  bounded : w.wal.currentSequence ≤ kMaxU64
  upper : up = true → maxSequenceOf w.acked ≤ w.wal.currentSequence ∧
    ∀ t ∈ w.checkpoints, t ≤ w.wal.currentSequence

section Log

variable {crc32} {up : Bool} {w : WalRun}

/-- What an `Append` acknowledges: nothing, or one record with the next number. -/
theorem append_acked (w : WalRun) (io : AppendIo) (now : Nat) (op : WalOpType) (payload : Bytes) :
    (w.append crc32 io now op payload).acked = w.acked ∨
      ∃ r, (w.append crc32 io now op payload).acked = r :: w.acked ∧
        r.sequence = w.wal.currentSequence + 1 ∧
        (w.append crc32 io now op payload).wal.currentSequence = r.sequence := by
  unfold WalRun.append
  split
  · rename_i w' q heq
    obtain ⟨-, hq, hcur⟩ := append_ok heq
    exact .inr ⟨_, rfl, hq, hcur⟩
  · exact .inl rfl

theorem maxSequenceOf_cons (r : WalRecord) (rs : List WalRecord) :
    maxSequenceOf (r :: rs) = max r.sequence (maxSequenceOf rs) := by
  have h := maxSequenceOf_append [r] rs
  have hone : maxSequenceOf [r] = r.sequence := by simp [maxSequenceOf]
  rw [List.singleton_append, hone] at h
  exact h

theorem WalSound.append (h : WalSound crc32 true w) {io : AppendIo} {now : Nat} {op : WalOpType}
    {payload : Bytes} (hok : walOk w (.append io now op payload))
    (hack : acknowledges w (.append io now op payload)) :
    WalSound crc32 true (w.append crc32 io now op payload) := by
  obtain ⟨segs, hinv, hsub⟩ := h.wal
  obtain ⟨segs', hinv', htraced⟩ := hinv.append hok
  obtain ⟨hmax, hcp⟩ := h.upper rfl
  obtain ⟨hcur, hbound⟩ := @WalRun.append_sequence_le crc32 w io now op payload h.bounded
  rcases @append_acked crc32 w io now op payload with he | ⟨r, he, hr, hcur'⟩
  · refine ⟨⟨segs', hinv', fun r hr => ?_⟩, he ▸ h.decreasing, hbound, fun _ => ⟨?_, ?_⟩⟩
    · rcases htraced hack r hr with hr | hr
      · rw [he]
        exact hsub r hr
      · exact hr
    · rw [he]
      omega
    · intro t ht
      have := hcp t (by simpa using ht)
      omega
  · refine ⟨⟨segs', hinv', fun k hk => ?_⟩, ?_, hbound, fun _ => ⟨?_, ?_⟩⟩
    · rcases htraced hack k hk with hk | hk
      · rw [he]
        exact List.mem_cons_of_mem r (hsub k hk)
      · exact hk
    · rw [he]
      refine List.pairwise_cons.mpr ⟨fun k hk => ?_, h.decreasing⟩
      have := le_maxSequenceOf hk
      omega
    · rw [he, maxSequenceOf_cons]
      omega
    · intro t ht
      have := hcp t (by simpa using ht)
      omega

theorem WalSound.close (h : WalSound crc32 up w) : WalSound crc32 up w.close := by
  obtain ⟨segs, hinv, hsub⟩ := h.wal
  exact ⟨⟨segs, hinv.close, hsub⟩, h.decreasing, h.bounded, h.upper⟩

theorem WalSound.truncate (h : WalSound crc32 up w) {io : TruncateIo} {upTo : Nat}
    (hok : walOk w (.truncate io upTo)) : WalSound crc32 up (w.truncate io upTo) := by
  obtain ⟨segs, hinv, hsub⟩ := h.wal
  obtain ⟨segs', hinv', hsub'⟩ := hinv.truncate hok.1 hok.2
  refine ⟨⟨segs', hinv', fun r hr => hsub r (hsub'.subset hr)⟩, h.decreasing, by simpa using h.bounded,
    fun hup => ?_⟩
  obtain ⟨hmax, hcp⟩ := h.upper hup
  rw [WalRun.truncate_sequence]
  refine ⟨hmax, fun t ht => ?_⟩
  rcases List.mem_cons.mp ht with rfl | ht
  · exact le_trans hok.1 hmax
  · exact hcp t ht

theorem WalSound.crash (h : WalSound crc32 up w) {keep : Nat} (hok : walOk w (.crash keep)) :
    WalSound crc32 false (w.crash keep) := by
  obtain ⟨segs, hinv, hsub⟩ := h.wal
  obtain ⟨segs', hinv', hpre⟩ := hinv.crash hok
  exact ⟨⟨segs', hinv', fun r hr => hsub r (hpre.subset hr)⟩, h.decreasing, Nat.zero_le _,
    fun hup => by cases hup⟩

theorem WalSound.down (h : WalSound crc32 up w) : WalSound crc32 false w :=
  ⟨h.wal, h.decreasing, h.bounded, fun hup => by cases hup⟩

theorem WalSound.open (h : WalSound crc32 false w) {cfg : WalConfig} {io : OpenIo}
    (hok : walOk w (.open cfg io)) : WalSound crc32 false (w.open crc32 cfg io) := by
  obtain ⟨segs, hinv, hsub⟩ := h.wal
  obtain ⟨segs', hinv', he⟩ := @WalInv.open crc32 segs w hinv cfg io hok.1 hok.2
  have hacked : (w.open crc32 cfg io).acked = w.acked := by
    unfold WalRun.open
    split <;> rfl
  refine ⟨⟨segs', hinv', fun r hr => ?_⟩, hacked ▸ h.decreasing,
    WalRun.open_sequence_le h.bounded, fun hup => by cases hup⟩
  rw [hacked]
  exact hsub r (he ▸ hr)

/-- After an `Open` that succeeds the sequence is above everything acknowledged or truncated
    at. -/
theorem WalSound.opened (h : WalSound crc32 false w) {cfg : WalConfig} {io : OpenIo}
    {v : WriteAheadLog} (hok : walOk w (.open cfg io))
    (hopen : openWal crc32 cfg io w.wal = (v, .ok ())) :
    WalSound crc32 true (w.open crc32 cfg io) := by
  have hdown := h.open hok
  refine ⟨hdown.wal, hdown.decreasing, hdown.bounded, fun _ => ?_⟩
  obtain ⟨segs, hinv, -⟩ := h.wal
  have hseq := hinv.opened_sequence hok.1 hok.2 hopen
  have hbelow : ∀ p, Below (durableOf crc32 w.unsynced segs) p → p ≤ v.currentSequence := by
    intro p hp
    rw [hseq]
    exact below_iff.1 (hp.mono (durableOf_subset _ _))
  simp only [WalRun.open, hopen]
  exact ⟨maxSequenceOf_le.2 fun r hr => hbelow _ (hinv.log.ackedBelow r hr),
    fun t ht => hbelow _ (hinv.log.checkpointsBelow t ht)⟩

/-- Behind a checkpoint no truncation is above, the log and the acknowledged records are the
    same. -/
theorem WalSound.behind (h : WalSound crc32 up w) {segs : List Segment}
    (hinv : WalInv crc32 segs w) (hsub : ∀ r ∈ recordsOf segs, r ∈ w.acked) {c : Nat}
    (hc : ∀ t ∈ w.checkpoints, t ≤ c) :
    (recordsOf segs).filter (fun r => c < r.sequence) =
      (w.acked.filter fun r => c < r.sequence).reverse := by
  have hinc : ((recordsOf segs).filter fun r => c < r.sequence).Pairwise
      fun a b => a.sequence < b.sequence :=
    hinv.segments.increasing.sublist List.filter_sublist
  have hinc' : (w.acked.filter fun r => c < r.sequence).reverse.Pairwise
      fun a b => a.sequence < b.sequence :=
    List.pairwise_reverse.mpr (h.decreasing.sublist List.filter_sublist)
  have hmem : ∀ r, r ∈ (recordsOf segs).filter (fun r => c < r.sequence) ↔
      r ∈ (w.acked.filter fun r => c < r.sequence).reverse := by
    intro r
    rw [List.mem_reverse, List.mem_filter, List.mem_filter]
    constructor
    · rintro ⟨hr, hlt⟩
      exact ⟨hsub r hr, hlt⟩
    · rintro ⟨hr, hlt⟩
      refine ⟨?_, hlt⟩
      rcases hinv.log.kept r hr with ⟨t, ht, hle⟩ | hd
      · have := hc t ht
        simp only [decide_eq_true_eq] at hlt
        omega
      · exact hinv.log.durable_subset hd
  have hnodup : ∀ l : List WalRecord, (l.Pairwise fun a b => a.sequence < b.sequence) → l.Nodup :=
    fun l hl => hl.imp fun hab he => by rw [he] at hab; exact lt_irrefl _ hab
  have hperm := (List.perm_ext_iff_of_nodup (hnodup _ hinc) (hnodup _ hinc')).mpr hmem
  exact hperm.eq_of_pairwise (fun a b _ _ hab hba => absurd hab (Nat.lt_asymm hba)) hinc hinc'

end Log

/-! ## 3. The load -/

/-- The contents and checkpoint of a snapshot are those of the loaded image or of one taken
    since. -/
def InLineage (s : Durable) (r : Rollback) (content : Bytes) (c : Nat) : Prop :=
  ∃ m ∈ r.toImage :: s.since, m.content = content ∧ m.sequence = c

/-- The writes acknowledged since an image was taken are those above its sequence. -/
structure ImageSound (acked : List WalRecord) (r : Rollback) (m : Image) : Prop where
  notBefore : r.sequence ≤ m.sequence
  acknowledged : m.sequence ≤ maxSequenceOf acked
  cut : ∃ later, acked = later ++ m.acked ∧ (∀ a ∈ later, m.sequence < a.sequence) ∧
    ∀ a ∈ m.acked, a.sequence ≤ m.sequence

/-- **A load in force.** -/
structure LoadInv (s : Durable) (r : Rollback) : Prop where
  images : ∀ m ∈ r.toImage :: s.since, ImageSound s.wal.acked r m
  frozen : r.phase ≠ .loaded → s.up = true ∧ r.sequence = s.wal.wal.currentSequence
  saves : ∀ j ∈ s.saves, j.rolledBack = false →
    ∃ m ∈ s.since, m.content = j.content ∧ m.sequence = j.sequence
  loads : ∃ stores, load r.content = .ok stores
  file : r.anchored = false → ∀ f ∈ s.dir.lookup r.name,
    f.content = r.content ∧ (r.phase = .stamped → f.mtime = r.stamp)
  old : r.phase ≠ .swapped → ∀ f ∈ s.dir.files, ∀ c, readWalCheckpoint crc32 s.dir f.name = .ok c →
    InLineage s r f.content c ∨ f.mtime < r.stamp ∨ (r.phase = .stamped ∧ f.name = r.name)
  anchor : r.anchored = true → ∃ base f, IsBase crc32 load s.dir base f ∧
    InLineage s r f.content base.checkpoint ∧ r.stamp ≤ f.mtime ∧
    ∀ t ∈ s.wal.checkpoints, t ≤ base.checkpoint

/-- **What the steps keep.** -/
structure RollbackInv (s : Durable) : Prop where
  log : WalSound crc32 s.up s.wal
  bounded : ∀ j ∈ s.saves, j.sequence ≤ kMaxU64
  rollback : ∀ r ∈ s.rollback, LoadInv crc32 load s r

section Load

variable {crc32 load} {s s' : Durable} {r : Rollback}

theorem InLineage.mono {content : Bytes} {c : Nat} (h : InLineage s r content c)
    (hsub : s.since ⊆ s'.since) : InLineage s' r content c := by
  obtain ⟨m, hm, he⟩ := h
  refine ⟨m, ?_, he⟩
  rcases List.mem_cons.mp hm with rfl | hm
  · exact List.mem_cons_self
  · exact List.mem_cons_of_mem _ (hsub hm)

theorem LoadInv.notBefore (h : LoadInv crc32 load s r) {content : Bytes} {c : Nat}
    (hl : InLineage s r content c) : r.sequence ≤ c := by
  obtain ⟨m, hm, -, rfl⟩ := hl
  exact (h.images m hm).notBefore

/-- A step that leaves the snapshots and the truncations alone. -/
theorem LoadInv.frame (h : LoadInv crc32 load s r) (hdir : s'.dir = s.dir)
    (hcp : s'.wal.checkpoints = s.wal.checkpoints) (hsince : s.since ⊆ s'.since)
    (himages : ∀ m ∈ r.toImage :: s'.since, ImageSound s'.wal.acked r m)
    (hfrozen : r.phase ≠ .loaded → s'.up = true ∧ r.sequence = s'.wal.wal.currentSequence)
    (hsaves : ∀ j ∈ s'.saves, j.rolledBack = false →
      ∃ m ∈ s'.since, m.content = j.content ∧ m.sequence = j.sequence) :
    LoadInv crc32 load s' r where
  images := himages
  frozen := hfrozen
  saves := hsaves
  loads := h.loads
  file := hdir ▸ h.file
  old := by
    rw [hdir]
    exact fun hp f hf c hc => (h.old hp f hf c hc).imp_left fun hl => hl.mono hsince
  anchor := by
    rw [hdir, hcp]
    intro ha
    obtain ⟨base, f, hb, hl, hstamp, hfloor⟩ := h.anchor ha
    exact ⟨base, f, hb, hl.mono hsince, hstamp, hfloor⟩

/-- A step that leaves all of the load's data alone but the list of saves. -/
theorem LoadInv.setSaves (h : LoadInv crc32 load s r) {saves : List Save}
    (hsaves : ∀ j ∈ saves, j.rolledBack = false →
      ∃ m ∈ s.since, m.content = j.content ∧ m.sequence = j.sequence) :
    LoadInv crc32 load { s with saves := saves } r :=
  h.frame rfl rfl (List.Subset.refl _) h.images h.frozen hsaves

theorem RollbackInv.setSave (h : RollbackInv crc32 load s) {i : Nat} {j j' : Save}
    (hj : s.saves[i]? = some j) (hc : j'.content = j.content) (hs : j'.sequence = j.sequence)
    (hr : j'.rolledBack = j.rolledBack) :
    RollbackInv crc32 load { s with saves := s.saves.set i j' } := by
  have hmem := List.mem_of_getElem? hj
  refine ⟨h.log, fun k hk => ?_, fun r hr' => (h.rollback r hr').setSaves fun k hk hkr => ?_⟩
  · rcases List.mem_or_eq_of_mem_set hk with hk | rfl
    · exact h.bounded k hk
    · exact hs ▸ h.bounded j hmem
  · rcases List.mem_or_eq_of_mem_set hk with hk | rfl
    · exact (h.rollback r hr').saves k hk hkr
    · rw [hc, hs]
      exact (h.rollback r hr').saves j hmem (hr ▸ hkr)

theorem RollbackInv.eraseSave (h : RollbackInv crc32 load s) (i : Nat) :
    RollbackInv crc32 load { s with saves := s.saves.eraseIdx i } :=
  ⟨h.log, fun k hk => h.bounded k (List.mem_of_mem_eraseIdx hk), fun r hr =>
    (h.rollback r hr).setSaves fun k hk => (h.rollback r hr).saves k (List.mem_of_mem_eraseIdx hk)⟩

/-! ## 4. One step -/

theorem phase_of_not_loading (h : s.loading = false) (hr : r ∈ s.rollback) : r.phase = .loaded := by
  rw [Option.mem_def] at hr
  simpa [Durable.loading, hr] using h

theorem ImageSound.congr {acked : List WalRecord} {r' : Rollback} {m : Image}
    (h : ImageSound acked r m) (hseq : r'.sequence = r.sequence) : ImageSound acked r' m :=
  ⟨hseq ▸ h.notBefore, h.acknowledged, h.cut⟩

/-- One more record, above everything acknowledged, leaves every image as it was. -/
theorem ImageSound.cons {acked : List WalRecord} {m : Image} (h : ImageSound acked r m)
    {a : WalRecord} (ha : maxSequenceOf acked < a.sequence) : ImageSound (a :: acked) r m := by
  obtain ⟨later, he, hlater, hbefore⟩ := h.cut
  have hle := h.acknowledged
  refine ⟨h.notBefore, ?_, a :: later, by rw [he]; rfl, fun b hb => ?_, hbefore⟩
  · rw [maxSequenceOf_cons]
    omega
  · rcases List.mem_cons.mp hb with rfl | hb
    · omega
    · exact hlater b hb

theorem RollbackInv.append (h : RollbackInv crc32 load s) {io : AppendIo} {now : Nat}
    {op : WalOpType} {payload : Bytes} (hup : s.up = true) (hload : s.loading = false)
    (hok : walOk s.wal (.append io now op payload))
    (hack : acknowledges s.wal (.append io now op payload)) :
    RollbackInv crc32 load { s with wal := s.wal.append crc32 io now op payload } := by
  have hlog := h.log
  rw [hup] at hlog
  refine ⟨hup ▸ hlog.append hok hack, h.bounded, fun r hr => ?_⟩
  have hinv := h.rollback r hr
  have hphase := phase_of_not_loading hload hr
  refine hinv.frame rfl (by simp) (List.Subset.refl _) (fun m hm => ?_)
    (fun hne => absurd hphase hne) hinv.saves
  rcases @append_acked crc32 s.wal io now op payload with he | ⟨a, he, ha, -⟩
  · exact he ▸ hinv.images m hm
  · have := (hlog.upper rfl).1
    exact he ▸ (hinv.images m hm).cons (by omega)

theorem RollbackInv.close (h : RollbackInv crc32 load s) :
    RollbackInv crc32 load { s with wal := s.wal.close } :=
  ⟨h.log.close, h.bounded, fun r hr => (h.rollback r hr).frame rfl rfl (List.Subset.refl _)
    (h.rollback r hr).images (h.rollback r hr).frozen (h.rollback r hr).saves⟩

/-- An image taken now, of a state whose writes have all been acknowledged. -/
theorem imageSound_now (hlog : WalSound crc32 true s.wal) (hcap : capturesAcked s)
    (hle : r.sequence ≤ s.wal.wal.currentSequence) (content : Bytes) :
    ImageSound s.wal.acked r ⟨content, s.wal.wal.currentSequence, s.wal.acked⟩ :=
  ⟨hle, hcap, [], rfl, by simp, fun _ ha =>
    le_trans (le_maxSequenceOf ha) (hlog.upper rfl).1⟩

theorem RollbackInv.begin (h : RollbackInv crc32 load s) (kind : SaveKind) (name : String)
    (content : Bytes) (hup : s.up = true) (hcap : capturesAcked s) :
    RollbackInv crc32 load (s.begin kind name content) := by
  have hlog := h.log
  rw [hup] at hlog
  refine ⟨h.log, fun j hj => ?_, fun r hr => ?_⟩
  · rcases List.mem_append.mp hj with hj | hj
    · exact h.bounded j hj
    · rw [List.mem_singleton.mp hj]
      exact hlog.bounded
  · have hinv := h.rollback r hr
    have hr₀ := (hinv.images r.toImage List.mem_cons_self).acknowledged
    have hmax := (hlog.upper rfl).1
    refine hinv.frame rfl rfl (List.subset_cons_self _ _) (fun m hm => ?_) hinv.frozen
      (fun j hj hjr => ?_)
    · rcases List.mem_cons.mp hm with rfl | hm
      · exact hinv.images _ List.mem_cons_self
      · rcases List.mem_cons.mp hm with rfl | hm
        · exact imageSound_now hlog hcap (le_trans hr₀ hmax) content
        · exact hinv.images m (List.mem_cons_of_mem _ hm)
    · rcases List.mem_append.mp hj with hj | hj
      · obtain ⟨m, hm, he⟩ := hinv.saves j hj hjr
        exact ⟨m, List.mem_cons_of_mem _ hm, he⟩
      · rw [List.mem_singleton.mp hj]
        exact ⟨_, List.mem_cons_self, rfl, rfl⟩

/-- A step on the snapshots alone: the load's file, the older ones and the base. -/
theorem LoadInv.setDir (h : LoadInv crc32 load s r) {dir : SnapshotDir} {saves : List Save}
    (hsaves : ∀ j ∈ saves, j.rolledBack = false →
      ∃ m ∈ s.since, m.content = j.content ∧ m.sequence = j.sequence)
    (hfile : r.anchored = false → ∀ f ∈ dir.lookup r.name,
      f.content = r.content ∧ (r.phase = .stamped → f.mtime = r.stamp))
    (hold : r.phase ≠ .swapped → ∀ f ∈ dir.files, ∀ c, readWalCheckpoint crc32 dir f.name = .ok c →
      InLineage s r f.content c ∨ f.mtime < r.stamp ∨ (r.phase = .stamped ∧ f.name = r.name))
    (hanchor : r.anchored = true → ∃ base f, IsBase crc32 load dir base f ∧
      InLineage s r f.content base.checkpoint ∧ r.stamp ≤ f.mtime ∧
      ∀ t ∈ s.wal.checkpoints, t ≤ base.checkpoint) :
    LoadInv crc32 load { s with dir := dir, saves := saves } r where
  images := h.images
  frozen := h.frozen
  saves := hsaves
  loads := h.loads
  file := hfile
  old := hold
  anchor := hanchor

theorem mem_recoveryBase {empty : σ} {base : RecoverySnapshot σ} {f : SnapshotFile}
    (h : IsBase crc32 load s.dir base f) : base ∈ recoveryBase crc32 load empty s := by
  rw [recoveryBase, loadNewestValidSnapshot_base h empty]
  rfl

/-- A file that is published under a name with a sidecar of another file has no checkpoint. -/
theorem readWalCheckpoint_published {d : SnapshotDir} {f : SnapshotFile} {c : Nat}
    (h : ∀ bytes ∈ d.sidecar f.name, (decodeCheckpoint crc32 f.content bytes).toOption = none) :
    readWalCheckpoint crc32 (d.publish f) f.name ≠ .ok c := by
  have hlook : (d.publish f).lookup f.name = some f :=
    SnapshotDir.lookup_eq_some.mpr ⟨SnapshotDir.mem_publish.mpr (.inl rfl), rfl⟩
  unfold readWalCheckpoint readSnapshotBinding
  rw [hlook, SnapshotDir.sidecar_publish]
  intro hc
  split at hc
  · cases hc
  · rename_i content hbind
    have hcontent : content = f.content := by
      dsimp only at hbind
      split at hbind
      · cases hbind
      · exact (Except.ok.inj hbind).symm
    cases hs : d.sidecar f.name with
    | none => rw [hs] at hc; cases hc
    | some bytes =>
      rw [hs, hcontent] at hc
      have hdec : decodeCheckpoint crc32 f.content bytes = .ok c := hc
      have := h bytes hs
      rw [hdec] at this
      cases this

theorem RollbackInv.publish (h : RollbackInv crc32 load s) {empty : σ} {i mtime : Nat} {j : Save}
    (hj : s.saves[i]? = some j) (replaced : Bool)
    (hok : ∀ r ∈ s.rollback,
      (∀ bytes ∈ s.dir.sidecar j.name, (decodeCheckpoint crc32 j.content bytes).toOption = none) ∧
      (r.anchored = false → j.name ≠ r.name) ∧
      (r.anchored = true → ∀ base ∈ recoveryBase crc32 load empty s, base.path ≠ j.name)) :
    RollbackInv crc32 load { s with
      dir := s.dir.publish { name := j.name, mtime := mtime, content := j.content }
      saves := s.saves.set i { j with phase := .published, replaced := replaced } } := by
  have hset : RollbackInv crc32 load { s with
      saves := s.saves.set i { j with phase := .published, replaced := replaced } } :=
    h.setSave hj rfl rfl rfl
  refine ⟨h.log, hset.bounded, fun r hr => ?_⟩
  have hinv := h.rollback r hr
  obtain ⟨hsidecar, hpending, hbase⟩ := hok r hr
  have hfresh : ∀ c, readWalCheckpoint crc32
      (s.dir.publish { name := j.name, mtime := mtime, content := j.content }) j.name ≠ .ok c :=
    fun c => @readWalCheckpoint_published crc32 s.dir
      { name := j.name, mtime := mtime, content := j.content } c hsidecar
  refine hinv.setDir (hset.rollback r hr).saves (fun ha f hf => ?_) (fun hp f hf c hc => ?_)
    (fun ha => ?_)
  · -- the loaded file is not the one replaced
    obtain ⟨hmem, hname⟩ := SnapshotDir.lookup_eq_some.mp hf
    rcases SnapshotDir.mem_publish.mp hmem with rfl | ⟨hmem, -⟩
    · exact absurd hname (hpending ha)
    · exact hinv.file ha f (SnapshotDir.lookup_eq_some.mpr ⟨hmem, hname⟩)
  · rcases SnapshotDir.mem_publish.mp hf with rfl | ⟨hf, hne⟩
    · exact absurd hc (hfresh c)
    · exact hinv.old hp f hf c ((readWalCheckpoint_publish hne).symm.trans hc)
  · obtain ⟨base, f, hb, hl, hstamp, hfloor⟩ := hinv.anchor ha
    refine ⟨base, f, hb.publish ?_ hfresh, hl, hstamp, hfloor⟩
    rw [hb.path]
    exact hbase ha base (mem_recoveryBase hb)

/-- The sidecar of a save, while a load is in force. -/
theorem LoadInv.checkpoint (h : LoadInv crc32 load s r) {j : Save} {dir : SnapshotDir}
    {saves : List Save} {content : Bytes} (hj : j ∈ s.saves) (hok : checkpointInForce s r j)
    (hw : SidecarWritten crc32 j.name j.sequence s.dir dir content)
    (hsaves : ∀ k ∈ saves, k.rolledBack = false →
      ∃ m ∈ s.since, m.content = k.content ∧ m.sequence = k.sequence) :
    LoadInv crc32 load { s with dir := dir, saves := saves } r := by
  have hlook : dir.lookup r.name = s.dir.lookup r.name := by
    unfold SnapshotDir.lookup
    rw [hw.files]
  -- what the sidecar says about the file it was written for
  have hnew : ∀ f ∈ s.dir.files, f.name = j.name →
      (j.rolledBack = true ∧ (r.phase ≠ .swapped → f.mtime < r.stamp)) ∨
        (InLineage s r f.content j.sequence ∧ ∀ t ∈ s.wal.checkpoints, t ≤ j.sequence) := by
    intro f hf hn
    have hcond := hok f (SnapshotDir.lookup_eq_some.mpr ⟨hf, hn⟩)
    cases hrb : j.rolledBack with
    | true => exact .inl ⟨rfl, hcond.1 hrb⟩
    | false =>
      obtain ⟨hcontent, hfloor⟩ := hcond.2 hrb
      obtain ⟨m, hm, hmc, hms⟩ := h.saves j hj hrb
      exact .inr ⟨⟨m, List.mem_cons_of_mem _ hm, hmc.trans hcontent.symm, hms⟩, hfloor⟩
  refine h.setDir hsaves (fun ha => hlook ▸ h.file ha) (fun hp f hf c hc => ?_) (fun ha => ?_)
  · by_cases hn : f.name = j.name
    · have hcj : c = j.sequence := by
        rw [hn, hw.valid] at hc
        exact (Except.ok.inj hc).symm
      rcases hnew f (hw.files ▸ hf) hn with ⟨-, hlt⟩ | ⟨hl, -⟩
      · exact .inr (.inl (hlt hp))
      · exact .inl (hcj ▸ hl)
    · exact h.old hp f (hw.files ▸ hf) c ((hw.other hn).symm.trans hc)
  · obtain ⟨base, f, hb, hl, hstamp, hfloor⟩ := h.anchor ha
    have hp : r.phase ≠ .swapped := by
      intro hp
      simp [Rollback.anchored, hp] at ha
    rcases hb.write hw with ⟨-, hb'⟩ | ⟨base', g, hb', hgn, hcp, hgf⟩
    · exact ⟨base, f, hb', hl, hstamp, hfloor⟩
    · have hmt := notOlder_mtime hgf
      rcases hnew g (hw.files ▸ hb'.mem) hgn with ⟨-, hlt⟩ | ⟨hl', hfloor'⟩
      · have := hlt hp
        omega
      · exact ⟨base', g, hb', hcp ▸ hl', by omega, hcp ▸ hfloor'⟩

theorem RollbackInv.checkpoint (h : RollbackInv crc32 load s) {i : Nat} {io : CheckpointIo}
    {j : Save} {dir : SnapshotDir} {res : Except Error Unit} (hj : s.saves[i]? = some j)
    (hok : ∀ r ∈ s.rollback, checkpointInForce s r j)
    (hw : writeWalCheckpoint crc32 io j.name j.sequence s.dir = (dir, res)) :
    RollbackInv crc32 load { s with
      dir := dir, saves := s.saves.set i { j with phase := .checkpointed } } ∧
    RollbackInv crc32 load { s with dir := dir, saves := s.saves.eraseIdx i } := by
  have hmem := List.mem_of_getElem? hj
  have hset : RollbackInv crc32 load { s with
      saves := s.saves.set i { j with phase := .checkpointed } } := h.setSave hj rfl rfl rfl
  have herase := h.eraseSave i
  rcases writeWalCheckpoint_cases (h.bounded j hmem) hw with ⟨rfl, -, -⟩ | ⟨content, hd⟩
  · exact ⟨hset, herase⟩
  · exact ⟨⟨h.log, hset.bounded, fun r hr =>
        (h.rollback r hr).checkpoint hmem (hok r hr) hd (hset.rollback r hr).saves⟩,
      ⟨h.log, herase.bounded, fun r hr =>
        (h.rollback r hr).checkpoint hmem (hok r hr) hd (herase.rollback r hr).saves⟩⟩

/-- A truncation that no base is below. -/
theorem LoadInv.truncate (h : LoadInv crc32 load s r) {io : TruncateIo} {upTo : Nat}
    (hfloor : r.anchored = true → ∀ base f, IsBase crc32 load s.dir base f →
      InLineage s r f.content base.checkpoint → upTo ≤ base.checkpoint) :
    LoadInv crc32 load { s with wal := s.wal.truncate io upTo } r where
  images := h.images
  frozen := fun hp => by simpa using h.frozen hp
  saves := h.saves
  loads := h.loads
  file := h.file
  old := h.old
  anchor := by
    intro ha
    obtain ⟨base, f, hb, hl, hstamp, hle⟩ := h.anchor ha
    refine ⟨base, f, hb, hl, hstamp, fun t ht => ?_⟩
    rcases List.mem_cons.mp ht with rfl | ht
    · exact hfloor ha base f hb hl
    · exact hle t ht

theorem RollbackInv.truncate (h : RollbackInv crc32 load s) {empty : σ} {i : Nat}
    {io : TruncateIo} {j : Save}
    (hok : walOk s.wal (.truncate io j.sequence) ∧ ∀ r ∈ s.rollback, r.anchored = true →
      ∀ base ∈ recoveryBase crc32 load empty s, j.sequence ≤ base.checkpoint) :
    RollbackInv crc32 load { s with
      wal := s.wal.truncate io j.sequence, saves := s.saves.eraseIdx i } := by
  have hwal : RollbackInv crc32 load { s with wal := s.wal.truncate io j.sequence } :=
    ⟨h.log.truncate hok.1, h.bounded, fun r hr => (h.rollback r hr).truncate
      fun ha base f hb _ => hok.2 r hr ha base (mem_recoveryBase hb)⟩
  exact hwal.eraseSave i

/-- The stores have just been replaced by the contents of a file that loads. -/
theorem RollbackInv.swapped (h : RollbackInv crc32 load s) {name : String} {f : SnapshotFile}
    (hup : s.up = true) (hf : s.dir.lookup name = some f)
    (hloads : ∃ stores, load f.content = .ok stores) (hcap : capturesAcked s) :
    RollbackInv crc32 load { s with
      saves := s.saves.map fun j => { j with rolledBack := true }
      rollback := some { name := name, content := f.content,
                         sequence := s.wal.wal.currentSequence, acked := s.wal.acked }
      since := [] } := by
  have hlog := h.log
  rw [hup] at hlog
  refine ⟨h.log, fun j hj => ?_, fun r hr => ?_⟩
  · obtain ⟨k, hk, rfl⟩ := List.mem_map.mp hj
    exact h.bounded k hk
  · obtain rfl := Option.some.inj hr
    refine ⟨fun m hm => ?_, fun _ => ⟨hup, rfl⟩, fun j hj hjr => ?_, hloads, fun _ g hg => ?_,
      fun hp => absurd rfl hp, fun ha => by cases ha⟩
    · rw [List.mem_singleton.mp hm]
      exact imageSound_now hlog hcap le_rfl f.content
    · obtain ⟨k, hk, rfl⟩ := List.mem_map.mp hj
      cases hjr
    · obtain rfl : f = g := Option.some.inj (hf.symm.trans hg)
      exact ⟨rfl, fun hp => by cases hp⟩

theorem RollbackInv.loadStamp (h : RollbackInv crc32 load s) {now : Nat} (hr : s.rollback = some r)
    (hphase : r.phase = .swapped)
    (hok : ∀ f ∈ s.dir.files, f.name ≠ r.name → f.mtime < now) :
    RollbackInv crc32 load { s with
      dir := s.dir.touch r.name now
      rollback := some { r with stamp := now, phase := .stamped } } := by
  refine ⟨h.log, h.bounded, fun r' hr' => ?_⟩
  obtain rfl := Option.some.inj hr'
  have hinv := h.rollback r hr
  refine ⟨fun m hm => (hinv.images m hm).congr rfl, fun _ => hinv.frozen (by simp [hphase]), hinv.saves, hinv.loads,
    fun _ f hf => ?_, fun _ f hf c hc => ?_, fun ha => by cases ha⟩
  · obtain ⟨hmem, hname⟩ := SnapshotDir.lookup_eq_some.mp hf
    obtain ⟨g, hg, rfl⟩ := List.mem_map.mp hmem
    have hgn : g.name = r.name := by
      split at hname <;> exact hname
    have hcontent := (hinv.file (by simp [Rollback.anchored, hphase]) g
      (SnapshotDir.lookup_eq_some.mpr ⟨hg, hgn⟩)).1
    rw [if_pos hgn]
    exact ⟨hcontent, fun _ => rfl⟩
  · obtain ⟨g, hg, rfl⟩ := List.mem_map.mp hf
    by_cases hgn : g.name = r.name
    · rw [if_pos hgn]
      exact .inr (.inr ⟨rfl, hgn⟩)
    · rw [if_neg hgn]
      exact .inr (.inl (hok g hg hgn))

/-- The checkpoint of the loaded file makes it the base, unless an image taken since already
    is. -/
theorem RollbackInv.loadCheckpoint (h : RollbackInv crc32 load s) {io : CheckpointIo}
    {dir : SnapshotDir} {res : Except Error Unit} (hr : s.rollback = some r)
    (hphase : r.phase = .stamped) (hok : ∀ f ∈ s.dir.lookup r.name, isSnapshot f = true)
    (hw : writeWalCheckpoint crc32 io r.name r.sequence s.dir = (dir, res)) :
    (res = .ok () → RollbackInv crc32 load { s with
      dir := dir, rollback := some { r with phase := .checkpointed } }) ∧
    RollbackInv crc32 load { s with dir := dir, rollback := none } := by
  refine ⟨fun hres => ?_, h.log, h.bounded, fun r' hr' => by cases hr'⟩
  have hinv := h.rollback r hr
  obtain ⟨hup, hseq⟩ := hinv.frozen (by simp [hphase])
  have hmax : r.sequence ≤ kMaxU64 := hseq ▸ h.log.bounded
  rcases writeWalCheckpoint_cases hmax hw with ⟨-, ⟨e, he⟩, -⟩ | ⟨content, hd⟩
  · rw [hres] at he
    cases he
  refine ⟨h.log, h.bounded, fun r' hr' => ?_⟩
  obtain rfl := Option.some.inj hr'
  obtain ⟨f, hf, hname, -⟩ := hd.file
  have hlook := SnapshotDir.lookup_eq_some.mpr ⟨hf, hname⟩
  obtain ⟨hcontent, hstamp⟩ := hinv.file (by simp [Rollback.anchored, hphase]) f hlook
  have hold : ∀ g ∈ dir.files, ∀ c, readWalCheckpoint crc32 dir g.name = .ok c →
      InLineage s r g.content c ∨ g.mtime < r.stamp := by
    intro g hg c hc
    by_cases hn : g.name = r.name
    · rw [hn, hd.valid] at hc
      rw [SnapshotDir.eq_of_name (hd.files ▸ hg) hf (hn.trans hname.symm), hcontent]
      exact .inl ⟨r.toImage, List.mem_cons_self, rfl, Except.ok.inj hc⟩
    · rcases hinv.old (by simp [hphase]) g (hd.files ▸ hg) c ((hd.other hn).symm.trans hc) with
        hl | hlt | ⟨-, he⟩
      · exact .inl hl
      · exact .inr hlt
      · exact absurd he hn
  refine ⟨fun m hm => (hinv.images m hm).congr rfl, fun _ => ⟨hup, hseq⟩, hinv.saves, hinv.loads,
    fun ha => (by cases ha), fun _ g hg c hc => ?_, fun _ => ?_⟩
  · exact (hold g hg c hc).imp_right .inl
  · have husable : Usable crc32 load dir f :=
      ⟨hd.files ▸ hf, hok f hlook, ⟨r.sequence, hname ▸ hd.valid⟩, hcontent ▸ hinv.loads⟩
    obtain ⟨base, g, hb, hgf⟩ := exists_base husable
    have hmt := notOlder_mtime hgf
    have hstamp' := hstamp hphase
    rcases hold g hb.mem base.checkpoint hb.checkpoint with hl | hlt
    · refine ⟨base, g, hb, hl, by dsimp only; omega, fun t ht => ?_⟩
      -- while the load is under way the sequence stands where it was captured
      have h₁ := (h.log.upper hup).2 t ht
      have h₂ := hinv.notBefore hl
      omega
    · omega

theorem RollbackInv.loadTruncate (h : RollbackInv crc32 load s) {io : TruncateIo}
    (hr : s.rollback = some r) (hphase : r.phase = .checkpointed)
    (hok : walOk s.wal (.truncate io r.sequence)) :
    RollbackInv crc32 load { s with
      wal := s.wal.truncate io r.sequence, rollback := some { r with phase := .loaded } } ∧
    RollbackInv crc32 load { s with
      wal := s.wal.truncate io r.sequence, rollback := none } := by
  refine ⟨⟨h.log.truncate hok, h.bounded, fun r' hr' => ?_⟩,
    h.log.truncate hok, h.bounded, fun r' hr' => by cases hr'⟩
  obtain rfl := Option.some.inj hr'
  have hinv := h.rollback r hr
  have hcut := @LoadInv.truncate σ crc32 load s r hinv io r.sequence
    fun _ _ _ _ hl => hinv.notBefore hl
  refine ⟨fun m hm => (hinv.images m hm).congr rfl, fun hp => absurd rfl hp, hcut.saves, hcut.loads,
    fun ha => (by cases ha), fun _ f hf c hc => ?_,
    fun _ => hcut.anchor (by simp [Rollback.anchored, hphase])⟩
  rcases hcut.old (by simp [hphase]) f hf c hc with hl | hlt | ⟨hp, -⟩
  · exact .inl hl
  · exact .inr (.inl hlt)
  · rw [hphase] at hp
    cases hp

theorem RollbackInv.cleanup (h : RollbackInv crc32 load s) {empty : σ}
    {order : List SnapshotFile} {throwsAt : Option Nat} (hsort : sortedAutos s.dir order)
    (hok : ∀ r ∈ s.rollback, r.anchored = true →
      ∀ base ∈ recoveryBase crc32 load empty s, 0 < s.retain →
        (order.takeWhile fun f => f.name != base.path).length < s.retain.toNat ∨
          ∀ f ∈ order, f.name ≠ base.path) :
    RollbackInv crc32 load { s with
      dir := cleanupOldSnapshots s.retain order throwsAt s.dir } := by
  refine ⟨h.log, h.bounded, fun r hr => ?_⟩
  have hinv := h.rollback r hr
  refine hinv.setDir hinv.saves (fun ha f hf => ?_) (fun hp f hf c hc => ?_) (fun ha => ?_)
  · obtain ⟨hmem, hname⟩ := SnapshotDir.lookup_eq_some.mp hf
    exact hinv.file ha f
      (SnapshotDir.lookup_eq_some.mpr ⟨(@mem_of_mem_cleanup crc32 _ _ _ _ _ hmem).1, hname⟩)
  · obtain ⟨hmem, hread⟩ := @mem_of_mem_cleanup crc32 _ _ _ _ _ hf
    exact hinv.old hp f hmem c (hread ▸ hc)
  · obtain ⟨base, f, hb, hl, hstamp, hfloor⟩ := hinv.anchor ha
    refine ⟨base, f, ?_, hl, hstamp, hfloor⟩
    have hsub : ∀ g, Usable crc32 load (cleanupOldSnapshots s.retain order throwsAt s.dir) g →
        Usable crc32 load s.dir g := by
      intro g hg
      obtain ⟨hmem, hread⟩ := @mem_of_mem_cleanup crc32 _ _ _ _ _ hg.mem
      exact ⟨hmem, hg.snapshot, hread ▸ hg.checkpoint, hg.loads⟩
    by_cases hretain : 0 < s.retain
    · obtain ⟨hmem, hread⟩ := @cleanupOldSnapshots_keeps s.dir s.retain order throwsAt f hb.mem
        fun g hg => by
          rw [hb.path]
          exact fun he => not_mem_drop_of_rank (sortedAutos_distinct hsort)
            (hok r hr ha base (mem_recoveryBase hb) hretain) g hg he.symm
      exact hb.shrink hmem (hread crc32) hsub
    · rw [cleanupOldSnapshots, if_pos (by omega)]
      exact hb

theorem RollbackInv.crash (h : RollbackInv crc32 load s) {keep : Nat}
    (hok : walOk s.wal (.crash keep)) :
    RollbackInv crc32 load { s with
      wal := s.wal.crash keep
      up := false
      saves := s.orphans
      rollback := s.rollback.filter fun r => r.phase = .loaded } := by
  have horphan : ∀ j ∈ s.orphans, ∃ k ∈ s.saves, j = { k with orphaned := true } := by
    intro j hj
    obtain ⟨k, hk, rfl⟩ := List.mem_map.mp hj
    exact ⟨k, (List.mem_filter.mp hk).1, rfl⟩
  refine ⟨h.log.crash hok, fun j hj => ?_, fun r hr => ?_⟩
  · obtain ⟨k, hk, rfl⟩ := horphan j hj
    exact h.bounded k hk
  · obtain ⟨hr, hp⟩ : s.rollback = some r ∧ r.phase = .loaded := by
      simpa [Option.filter_eq_some_iff] using hr
    have hinv := h.rollback r hr
    refine hinv.frame rfl rfl (List.Subset.refl _) hinv.images (fun hne => absurd hp hne)
      (fun j hj hjr => ?_)
    obtain ⟨k, hk, rfl⟩ := horphan j hj
    exact hinv.saves k hk hjr

/-- A start, refused or not. -/
theorem RollbackInv.start (h : RollbackInv crc32 load s) {cfg : WalConfig} {io : OpenIo}
    {wal : WalRun} {up : Bool} (hdown : s.up = false) (hlog : WalSound crc32 up wal)
    (hwal : wal = s.wal.open crc32 cfg io ∨ wal = (s.wal.open crc32 cfg io).close) :
    RollbackInv crc32 load { s with wal := wal, up := up } := by
  have hacked : wal.acked = s.wal.acked ∧ wal.checkpoints = s.wal.checkpoints := by
    have hopen : (s.wal.open crc32 cfg io).acked = s.wal.acked ∧
        (s.wal.open crc32 cfg io).checkpoints = s.wal.checkpoints := by
      unfold WalRun.open
      split <;> exact ⟨rfl, rfl⟩
    rcases hwal with rfl | rfl <;> exact hopen
  refine ⟨hlog, h.bounded, fun r hr => ?_⟩
  have hinv := h.rollback r hr
  refine hinv.frame rfl hacked.2 (List.Subset.refl _) (fun m hm => hacked.1 ▸ hinv.images m hm)
    (fun hp => ?_) hinv.saves
  have := (hinv.frozen hp).1
  rw [hdown] at this
  cases this

end Load

/-! ## 5. Runs -/

section Run

variable {crc32 load replayRecord empty}

theorem RollbackInv.initial (retain : Int) (cfg : WalConfig) (dir : SnapshotDir) :
    RollbackInv crc32 load (Durable.initial retain cfg dir) where
  log := ⟨⟨[], WalInv.initial cfg, by simp [recordsOf]⟩, List.Pairwise.nil, Nat.zero_le _,
    fun hup => by cases hup⟩
  bounded := by simp [Durable.initial]
  rollback := by simp [Durable.initial]

/-- **One step** that meets `rollbackOk` keeps the invariant. -/
theorem rollbackInv_step {s s' : Durable} {a : DurableAction} (h : RollbackInv crc32 load s)
    (hok : rollbackOk crc32 load empty s a)
    (hstep : durableStep crc32 load replayRecord empty s a = some s') :
    RollbackInv crc32 load s' := by
  cases a with
  | append io now op payload =>
    obtain ⟨hup, hloading, rfl⟩ := append_step hstep
    exact h.append hup hloading hok.1 hok.2
  | closeWal =>
    obtain ⟨-, rfl⟩ := closeWal_step hstep
    exact h.close
  | fork name content =>
    obtain ⟨hup, rfl⟩ := fork_step hstep
    exact h.begin _ _ _ hup hok
  | lockSave name content =>
    obtain ⟨hup, rfl⟩ := lockSave_step hstep
    exact h.begin _ _ _ hup hok
  | publish i mtime =>
    obtain ⟨j, hj, -, rfl⟩ := publish_step hstep
    exact h.publish hj _ (hok j hj)
  | complete i =>
    obtain ⟨j, hj, -, -, rfl⟩ := complete_step hstep
    exact h.setSave hj rfl rfl rfl
  | fail i =>
    obtain ⟨j, -, -, rfl⟩ := fail_step hstep
    exact h.eraseSave i
  | checkpoint i io =>
    obtain ⟨j, res, hj, -, dir, hw, ⟨-, rfl⟩ | ⟨-, rfl⟩⟩ := checkpoint_step hstep
    · exact (h.checkpoint hj (hok j hj) hw).1
    · exact (h.checkpoint hj (hok j hj) hw).2
  | truncate i io =>
    obtain ⟨j, hj, -, rfl⟩ := truncate_step hstep
    exact h.truncate (hok j hj)
  | load name =>
    obtain ⟨f, hf, hup, -, hloads, rfl⟩ := load_step hstep
    exact h.swapped hup hf hloads hok
  | loadStamp now =>
    obtain ⟨r, hr, hphase, rfl⟩ := loadStamp_step hstep
    exact h.loadStamp hr hphase (hok r hr)
  | loadCheckpoint io =>
    obtain ⟨r, res, hr, hphase, dir, hw, ⟨hres, rfl⟩ | ⟨-, rfl⟩⟩ := loadCheckpoint_step hstep
    · exact (h.loadCheckpoint hr hphase (hok r hr) hw).1 hres
    · exact (h.loadCheckpoint hr hphase (hok r hr) hw).2
  | loadTruncate io =>
    obtain ⟨r, hr, hphase, rfl | rfl⟩ := loadTruncate_step hstep
    · exact (h.loadTruncate hr hphase (hok r hr)).1
    · exact (h.loadTruncate hr hphase (hok r hr)).2
  | loadFails =>
    obtain rfl := loadFails_step hstep
    exact ⟨h.log, h.bounded, fun r hr => by cases hr⟩
  | cleanup order throwsAt =>
    obtain ⟨hsort, rfl⟩ := cleanup_step hstep
    exact h.cleanup hsort hok
  | crash keep =>
    obtain rfl := crash_step hstep
    exact h.crash hok
  | start cfg io =>
    obtain ⟨hdown, hcase⟩ := start_step hstep
    have hlog := h.log
    rw [hdown] at hlog
    rcases hcase with rfl | rfl | ⟨⟨w, rec, hrec⟩, rfl⟩
    · exact h
    · have hclosed : WalSound crc32 s.up (s.wal.open crc32 cfg io).close :=
        hdown ▸ (hlog.open hok).close
      exact h.start hdown hclosed (.inr rfl)
    · exact h.start hdown (hlog.opened hok (recover_ok hrec).2.1) (.inl rfl)

end Run

end DumpLoad

/-! ## 6. Two runs -/

/-- Stores as the list of what they hold; a snapshot file is its bytes. -/
def loadBytes (bytes : Bytes) : Except Error (List Nat) := .ok (bytes.map UInt8.toNat)

/-- A snapshot `F.nvec` of state 1, then a write, then a background save of the state with it. -/
def beforeLoad : List DurableAction :=
  [.start defaultWalConfig {}, .append {} 0 .kVecDel [1],
    .fork "F.nvec" [1], .publish 0 5, .complete 0, .checkpoint 0 .ok, .truncate 0 {},
    .append {} 0 .kVecDel [2], .fork "auto_20250101_000000.nvec" [2]]

/-- `DUMP LOAD F.nvec`. -/
def loadF : List DurableAction :=
  [.load "F.nvec", .loadStamp 20, .loadCheckpoint .ok, .loadTruncate {}]

/-- The child is published behind the load, reaped and checkpointed; then a crash. -/
def undoneRun : List DurableAction :=
  beforeLoad ++ loadF ++
    [.publish 0 30, .complete 0, .checkpoint 0 .ok, .truncate 0 {}, .crash 60]

/-- The child is published before the load and checkpointed after it; then a write and a
    crash. -/
def durableRun : List DurableAction :=
  beforeLoad ++ [.publish 0 10] ++ loadF ++
    [.complete 0, .checkpoint 0 .ok, .truncate 0 {}, .append {} 0 .kVecDel [3], .crash 86]

end Nvecd.Server
