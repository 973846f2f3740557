/-
  File:      Nvecd/Lib/Codec.lean
  Subject:   Byte streams: numbers of a fixed width, and records one after the other.

  A writer may refuse a value (`Except`); a reader returns what it read and the bytes behind it.
  A list of records is read into a state, record by record, so that reading may check each record
  against those before it.

  * `readNumber` -- the other side of `leBytes`;
  * `overwrite` -- bytes written over what stands at an offset;
  * `writeAll`, `readMany`, `readMany_writeAll` -- the rule for a list of records;
  * `readMany_eq_ok` -- and the rule for what a reader has accepted;
  * `Order` -- the order in which an unordered container is walked: some order.
-/
import Nvecd.Lib.LittleEndian

namespace Nvecd.Lib

universe u v w

/-! ## 1. Numbers -/

/-- A number of `w` bytes, if there are as many. -/
def readNumber (w : Nat) (bytes : List UInt8) : Option (Nat × List UInt8) :=
  if bytes.length < w then none else some (ofLeBytes (bytes.take w), bytes.drop w)

theorem readNumber_leBytes {w n : Nat} (h : n < 256 ^ w) (rest : List UInt8) :
    readNumber w (leBytes w n ++ rest) = some (n, rest) := by
  simp [readNumber, ofLeBytes_leBytes h]

theorem readNumber_one (b : UInt8) (rest : List UInt8) :
    readNumber 1 (b :: rest) = some (b.toNat, rest) := by
  simp [readNumber, ofLeBytes]

/-- What was read stood at the front. -/
theorem readNumber_eq_some {w n : Nat} {bytes rest : List UInt8}
    (h : readNumber w bytes = some (n, rest)) :
    ∃ front, bytes = front ++ rest ∧ front.length = w ∧ n = ofLeBytes front := by
  unfold readNumber at h
  split at h
  · cases h
  · rename_i hlen
    cases h
    exact ⟨bytes.take w, (List.take_append_drop w bytes).symm, by simp; omega, rfl⟩

/-- `data` written at `offset` over what stands there. -/
def overwrite {α : Type u} (offset : Nat) (data bytes : List α) : List α :=
  bytes.take offset ++ (data ++ bytes.drop (offset + data.length))

theorem overwrite_append {α : Type u} {offset : Nat} {old data : List α} (front rest : List α)
    (hfront : front.length = offset) (h : data.length = old.length) :
    overwrite offset data (front ++ (old ++ rest)) = front ++ (data ++ rest) := by
  unfold overwrite
  rw [← hfront, List.take_left' rfl, h, ← List.length_append, ← List.append_assoc front old rest,
    List.drop_left' rfl]

/-! ## 2. Records -/

section Records

variable {α : Type u} {σ : Type v} {ε : Type w}

/-- The records one after the other; the first that is refused is reported. -/
def writeAll (write : α → Except ε (List UInt8)) : List α → Except ε (List UInt8)
  | [] => .ok []
  | x :: xs =>
    match write x with
    | .error e => .error e
    | .ok bytes =>
      match writeAll write xs with
      | .error e => .error e
      | .ok rest => .ok (bytes ++ rest)

/-- `n` records, each into the state the ones before have left. -/
def readMany (read : σ → List UInt8 → Except ε (σ × List UInt8)) :
    Nat → σ → List UInt8 → Except ε (σ × List UInt8)
  | 0, s, bytes => .ok (s, bytes)
  | n + 1, s, bytes =>
    match read s bytes with
    | .error e => .error e
    | .ok (s, bytes) => readMany read n s bytes

/-- States that follow one another, record by record. -/
inductive Chain (Next : σ → α → σ → Prop) : σ → List α → σ → Prop
  | nil (s : σ) : Chain Next s [] s
  | cons {s t u : σ} {x : α} {xs : List α} (h : Next s x t) (hs : Chain Next t xs u) :
      Chain Next s (x :: xs) u

variable {write : α → Except ε (List UInt8)} {read : σ → List UInt8 → Except ε (σ × List UInt8)}

theorem readMany_succ (n : Nat) (s : σ) (bytes : List UInt8) :
    readMany read (n + 1) s bytes =
      match read s bytes with
      | .error e => .error e
      | .ok (s, bytes) => readMany read n s bytes := rfl

theorem writeAll_cons_ok {x : α} {xs : List α} {bytes : List UInt8} :
    writeAll write (x :: xs) = .ok bytes ↔
      ∃ b bs, write x = .ok b ∧ writeAll write xs = .ok bs ∧ bytes = b ++ bs := by
  constructor
  · intro h
    unfold writeAll at h
    split at h
    · cases h
    · rename_i b hb
      split at h
      · cases h
      · rename_i bs hbs
        cases h
        exact ⟨b, bs, hb, hbs, rfl⟩
  · rintro ⟨b, bs, hb, hbs, rfl⟩
    simp [writeAll, hb, hbs]

/-- Records of at least `k` bytes each. -/
theorem length_writeAll {xs : List α} {bytes : List UInt8} {k : Nat}
    (hmin : ∀ x ∈ xs, ∀ b, write x = .ok b → k ≤ b.length) (h : writeAll write xs = .ok bytes) :
    xs.length * k ≤ bytes.length := by
  induction xs generalizing bytes with
  | nil => simp
  | cons x xs ih =>
    obtain ⟨b, bs, hb, hbs, rfl⟩ := writeAll_cons_ok.1 h
    have h1 := hmin x List.mem_cons_self b hb
    have h2 := ih (fun y hy => hmin y (List.mem_cons_of_mem x hy)) hbs
    simp only [List.length_cons, List.length_append, Nat.succ_mul]
    omega

/-- **Reading back a list of records.** `Ready s xs` says that the state `s` can take `xs`; every
    record has to be read back, and to leave a state that can take the rest. -/
theorem readMany_writeAll {Ready : σ → List α → Prop}
    (hread : ∀ s x xs b rest, Ready s (x :: xs) → write x = .ok b →
      ∃ s', read s (b ++ rest) = .ok (s', rest) ∧ Ready s' xs)
    {s : σ} {xs : List α} {bytes : List UInt8} (hready : Ready s xs)
    (h : writeAll write xs = .ok bytes) (rest : List UInt8) :
    ∃ s', readMany read xs.length s (bytes ++ rest) = .ok (s', rest) ∧ Ready s' [] := by
  induction xs generalizing s bytes with
  | nil =>
    cases h
    exact ⟨s, rfl, hready⟩
  | cons x xs ih =>
    obtain ⟨b, bs, hb, hbs, rfl⟩ := writeAll_cons_ok.1 h
    obtain ⟨s', hone, hnext⟩ := hread s x xs b (bs ++ rest) hready hb
    obtain ⟨t, hmany, hdone⟩ := ih hnext hbs
    refine ⟨t, ?_, hdone⟩
    rw [List.length_cons, readMany_succ, List.append_assoc, hone]
    exact hmany

/-- One record more. -/
theorem readMany_snoc {n : Nat} {s t u : σ} {bytes later rest : List UInt8}
    (h : readMany read n s bytes = .ok (t, later)) (hone : read t later = .ok (u, rest)) :
    readMany read (n + 1) s bytes = .ok (u, rest) := by
  induction n generalizing s bytes with
  | zero =>
    cases h
    rw [Nat.zero_add, readMany_succ, hone]
    rfl
  | succ n ih =>
    rw [readMany_succ] at h ⊢
    split at h
    · cases h
    · rename_i s' bytes' hfirst
      exact ih h

/-- What every record keeps, a list of them keeps. -/
theorem readMany_inv (Inv : σ → Prop)
    (hread : ∀ s bytes s' rest, Inv s → read s bytes = .ok (s', rest) → Inv s') {n : Nat}
    {s s' : σ} {bytes rest : List UInt8} (hs : Inv s)
    (h : readMany read n s bytes = .ok (s', rest)) : Inv s' := by
  induction n generalizing s bytes with
  | zero =>
    cases h
    exact hs
  | succ n ih =>
    rw [readMany_succ] at h
    split at h
    · cases h
    · rename_i t later hone
      exact ih (hread s bytes t later hs hone) h

/-- **What was read is a list of records**: if whatever `read` takes is one record, related to the
    states before and after, `readMany` takes as many of them. -/
theorem readMany_eq_ok {encode : α → List UInt8} {Next : σ → α → σ → Prop}
    (hread : ∀ s bytes s' rest, read s bytes = .ok (s', rest) →
      ∃ x, bytes = encode x ++ rest ∧ Next s x s')
    {n : Nat} {s s' : σ} {bytes rest : List UInt8} (h : readMany read n s bytes = .ok (s', rest)) :
    ∃ xs : List α, xs.length = n ∧ bytes = xs.flatMap encode ++ rest ∧ Chain Next s xs s' := by
  induction n generalizing s bytes with
  | zero =>
    cases h
    exact ⟨[], rfl, rfl, .nil _⟩
  | succ n ih =>
    rw [readMany_succ] at h
    split at h
    · cases h
    · rename_i t later hone
      obtain ⟨x, rfl, hnext⟩ := hread s bytes t later hone
      obtain ⟨xs, hlen, rfl, hchain⟩ := ih h
      exact ⟨x :: xs, by rw [List.length_cons, hlen], by simp, .cons hnext hchain⟩

end Records

/-! ## 3. Unordered containers -/

/-- An order in which the elements of an unordered container are walked: any permutation. -/
structure Order (α : Type u) where
  arrange : List α → List α
  perm : ∀ l, (arrange l).Perm l

/-- The order in which they are listed. -/
def Order.listed {α : Type u} : Order α := ⟨fun l => l, fun l => .refl l⟩

end Nvecd.Lib
