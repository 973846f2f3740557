/-
  File:      Nvecd/Lib/InputStream.lean
  Subject:   An input stream that is read into variables, as `std::istream::read` does.

  A read that finds too few bytes takes those there are: they replace the low bytes of the
  variable, and the stream is no longer good. From then on nothing is read, and the variables keep
  their values.

  * `InputStream.readUInt` -- a number of a fixed width, into a variable;
  * `readUInt_leBytes`, `readUInt_eq` -- of what was written, and what a read that succeeds says
    about the stream;
  * `length_readUInt`, `readUInt_spent` -- how much a read takes, and one that finds nothing;
  * `InputStream.readInto`, `readInto_eq` -- several, into several variables;
  * `InputStream.readUInts`, `readUInts_flatMap` -- several numbers, all of which are there.
-/
import Nvecd.Lib.Codec

namespace Nvecd.Lib

/-- What is left of the stream, and whether every read has found its bytes. -/
structure InputStream where
  bytes : List UInt8
  good : Bool := true
  deriving DecidableEq, Repr

namespace InputStream

/-- A number of `w` bytes, into a variable that holds `old`. -/
def readUInt (w old : Nat) (s : InputStream) : Nat × InputStream :=
  if ¬ s.good then (old, s)
  else if w ≤ s.bytes.length then (ofLeBytes (s.bytes.take w), { s with bytes := s.bytes.drop w })
  else
    (ofLeBytes s.bytes + old / 256 ^ s.bytes.length * 256 ^ s.bytes.length,
      { bytes := [], good := false })

/-- `n` numbers of `w` bytes; the bytes are there. -/
def readUInts (w : Nat) : Nat → List UInt8 → List Nat × List UInt8
  | 0, bytes => ([], bytes)
  | n + 1, bytes =>
    let (rest, left) := readUInts w n (bytes.drop w)
    (ofLeBytes (bytes.take w) :: rest, left)

/-- Numbers of `w` bytes, into several variables one after the other. -/
def readInto (w : Nat) : List Nat → InputStream → List Nat × InputStream
  | [], s => ([], s)
  | old :: olds, s =>
    let (n, s) := readUInt w old s
    let (rest, s) := readInto w olds s
    (n :: rest, s)

variable {w n old : Nat} {s : InputStream}

/-- **Reading what was written.** -/
theorem readUInt_leBytes (h : n < 256 ^ w) (old : Nat) (rest : List UInt8) :
    readUInt w old ⟨leBytes w n ++ rest, true⟩ = (n, ⟨rest, true⟩) := by
  have hlen : w ≤ (leBytes w n ++ rest).length := by
    rw [List.length_append, length_leBytes]
    omega
  have htake : (leBytes w n ++ rest).take w = leBytes w n :=
    List.take_left' (length_leBytes w n)
  have hdrop : (leBytes w n ++ rest).drop w = rest := List.drop_left' (length_leBytes w n)
  unfold readUInt
  simp only [not_true_eq_false, if_false, if_pos hlen]
  rw [htake, hdrop, ofLeBytes_leBytes h]

/-- **A read that leaves the stream good** found its number. -/
theorem readUInt_eq (h : (readUInt w old s).2.good = true) :
    ∃ n rest, n < 256 ^ w ∧ s = ⟨leBytes w n ++ rest, true⟩ ∧
      readUInt w old s = (n, ⟨rest, true⟩) := by
  obtain ⟨bytes, good⟩ := s
  cases good with
  | false => exact absurd h (by simp [readUInt])
  | true =>
    by_cases hlen : w ≤ bytes.length
    · have htake : (bytes.take w).length = w := List.length_take_of_le hlen
      have hwrite : leBytes w (ofLeBytes (bytes.take w)) = bytes.take w := by
        simpa only [htake] using leBytes_ofLeBytes (bytes.take w)
      have hlt : ofLeBytes (bytes.take w) < 256 ^ w := by
        simpa only [htake] using ofLeBytes_lt (bytes.take w)
      refine ⟨_, bytes.drop w, hlt, ?_, ?_⟩
      · rw [hwrite, List.take_append_drop]
      · simp [readUInt, hlen]
    · exact absurd h (by simp [readUInt, hlen])

/-- A stream that is no longer good stays so. -/
theorem good_of_readUInt (h : (readUInt w old s).2.good = true) : s.good = true := by
  obtain ⟨n, rest, -, rfl, -⟩ := readUInt_eq h
  rfl

theorem good_of_readInto {olds : List Nat} (h : (readInto w olds s).2.good = true) :
    s.good = true := by
  induction olds generalizing s with
  | nil => exact h
  | cons old olds ih => exact good_of_readUInt (ih h)

/-- **Reads that leave the stream good** found all their numbers. -/
theorem readInto_eq {olds : List Nat} (h : (readInto w olds s).2.good = true) :
    ∃ (ns : List Nat) (rest : List UInt8), ns.length = olds.length ∧ (∀ n ∈ ns, n < 256 ^ w) ∧
      s = ⟨ns.flatMap (leBytes w) ++ rest, true⟩ := by
  induction olds generalizing s with
  | nil => exact ⟨[], s.bytes, rfl, nofun, congrArg (InputStream.mk s.bytes) h⟩
  | cons old olds ih =>
    obtain ⟨n, rest, hn, hs, hread⟩ := readUInt_eq (good_of_readInto h)
    rw [readInto, hread] at h
    obtain ⟨ns, rest', hlen, hlt, hrest⟩ := ih h
    refine ⟨n :: ns, rest', congrArg Nat.succ hlen, List.forall_mem_cons.mpr ⟨hn, hlt⟩, ?_⟩
    rw [hs, (InputStream.mk.inj hrest).1, List.flatMap_cons, List.append_assoc]

/-- The low byte is the first one read, if there is one. -/
theorem readUInt_mod {b : UInt8} {bytes : List UInt8} (hw : 0 < w) (old : Nat) :
    (readUInt w old ⟨b :: bytes, true⟩).1 % 256 = b.toNat := by
  have hb := b.toNat_lt
  unfold readUInt
  simp only [not_true_eq_false, if_false]
  split
  · obtain ⟨w, rfl⟩ := Nat.exists_eq_succ_of_ne_zero hw.ne'
    rw [List.take_succ_cons, ofLeBytes]
    omega
  · rw [ofLeBytes, List.length_cons, pow_succ]
    have hfactor : old / (256 ^ bytes.length * 256) * (256 ^ bytes.length * 256) =
        old / (256 ^ bytes.length * 256) * 256 ^ bytes.length * 256 := by ring
    rw [hfactor]
    omega

/-- A stream on which only its end can fail: once it is not good nothing is left. A read keeps it
    so, and takes its bytes or what there is. -/
theorem length_readUInt (w old : Nat) (h : s.good = false → s.bytes = []) :
    (readUInt w old s).2.bytes.length = s.bytes.length - w ∧
      ((readUInt w old s).2.good = false → (readUInt w old s).2.bytes = []) := by
  obtain ⟨bytes, good⟩ := s
  cases good with
  | false =>
    obtain rfl : bytes = [] := h rfl
    exact ⟨(Nat.zero_sub w).symm, fun _ => rfl⟩
  | true =>
    unfold readUInt
    simp only [not_true_eq_false, if_false]
    split
    · exact ⟨List.length_drop, nofun⟩
    · exact ⟨(Nat.sub_eq_zero_of_le (by dsimp only at *; omega)).symm, fun _ => rfl⟩

/-- A read of a stream with nothing left. -/
theorem readUInt_spent (hw : 0 < w) (h : s.bytes = []) (old : Nat) :
    readUInt w old s = (old, ⟨[], false⟩) := by
  obtain ⟨bytes, good⟩ := s
  obtain rfl : bytes = [] := h
  cases good with
  | false => rfl
  | true => simp [readUInt, ofLeBytes, hw.ne']

/-- The numbers, one after the other. -/
theorem readUInts_flatMap {l : List Nat} (h : ∀ n ∈ l, n < 256 ^ w) (rest : List UInt8) :
    readUInts w l.length (l.flatMap (leBytes w) ++ rest) = (l, rest) := by
  induction l with
  | nil => rfl
  | cons n l ih =>
    have hlen := length_leBytes w n
    rw [List.flatMap_cons, List.append_assoc, List.length_cons, readUInts,
      List.take_left' hlen, List.drop_left' hlen, ih fun m hm => h m (List.mem_cons_of_mem n hm),
      ofLeBytes_leBytes (h n List.mem_cons_self)]

theorem readUInts_eq {bytes : List UInt8} (h : n * w ≤ bytes.length) :
    ∃ l rest, l.length = n ∧ (∀ m ∈ l, m < 256 ^ w) ∧ bytes = l.flatMap (leBytes w) ++ rest ∧
      readUInts w n bytes = (l, rest) := by
  induction n generalizing bytes with
  | zero => exact ⟨[], bytes, rfl, nofun, rfl, rfl⟩
  | succ n ih =>
    rw [Nat.succ_mul] at h
    have hrest : n * w ≤ (bytes.drop w).length := by
      rw [List.length_drop]
      omega
    obtain ⟨l, rest, hlen, hlt, hbytes, hread⟩ := ih hrest
    have htake : (bytes.take w).length = w := List.length_take_of_le (by omega)
    have hwrite : leBytes w (ofLeBytes (bytes.take w)) = bytes.take w := by
      simpa only [htake] using leBytes_ofLeBytes (bytes.take w)
    have hhead : ofLeBytes (bytes.take w) < 256 ^ w := by
      simpa only [htake] using ofLeBytes_lt (bytes.take w)
    refine ⟨ofLeBytes (bytes.take w) :: l, rest, congrArg Nat.succ hlen,
      List.forall_mem_cons.mpr ⟨hhead, hlt⟩, ?_, ?_⟩
    · rw [List.flatMap_cons, hwrite, List.append_assoc, ← hbytes, List.take_append_drop]
    · rw [readUInts, hread]

end InputStream

theorem length_flatMap_leBytes (w : Nat) (l : List Nat) :
    (l.flatMap (leBytes w)).length = l.length * w := by
  induction l with
  | nil => rw [List.flatMap_nil, List.length_nil, List.length_nil, Nat.zero_mul]
  | cons n l ih =>
    rw [List.flatMap_cons, List.length_append, length_leBytes, ih, List.length_cons, Nat.succ_mul,
      Nat.add_comm]

end Nvecd.Lib
