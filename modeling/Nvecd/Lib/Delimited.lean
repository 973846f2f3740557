/-
  File:      Nvecd/Lib/Delimited.lean
  Subject:   Texts that are made of fields, each behind a delimiter, and numbers in decimal.

  A field without the delimiter ends where the next one begins, so a list of such fields can be
  read from the front (`joined_inj`). Something that begins with a delimiter and stands inside
  such a text stands at the beginning of one of its fields, or behind all of them
  (`joined_split`).

  * `joined` -- the fields of a list, each behind the delimiter;
  * `natText`, `intText` -- decimal numbers, which have no other characters than digits and `-`.
-/
import Mathlib.Data.List.Basic

namespace Nvecd.Lib

universe u

section Joined

variable {α : Type u} {sep : α}

/-- The fields one after the other, each behind the delimiter. -/
def joined (sep : α) (fields : List (List α)) : List α := fields.flatMap fun f => sep :: f

theorem joined_cons (f : List α) (fields : List (List α)) :
    joined sep (f :: fields) = sep :: (f ++ joined sep fields) := by
  simp [joined]

/-- A rest that does not run on from the last field. -/
def Delimits (sep : α) (rest : List α) : Prop := rest = [] ∨ ∃ l, rest = sep :: l

theorem delimits_joined (fields : List (List α)) {rest : List α} (h : Delimits sep rest) :
    Delimits sep (joined sep fields ++ rest) := by
  cases fields with
  | nil => exact h
  | cons f fields =>
    rw [joined_cons]
    exact .inr ⟨_, rfl⟩

/-- One field ends at the first delimiter. -/
theorem field_inj {f f' rest rest' : List α} (hf : sep ∉ f) (hf' : sep ∉ f')
    (hr : Delimits sep rest) (hr' : Delimits sep rest') (h : f ++ rest = f' ++ rest') :
    f = f' ∧ rest = rest' := by
  induction f generalizing f' with
  | nil =>
    cases f' with
    | nil => exact ⟨rfl, h⟩
    | cons a f' =>
      -- the rest would begin with a character of the other field
      rw [List.nil_append, List.cons_append] at h
      rcases hr with rfl | ⟨l, rfl⟩
      · cases h
      · rw [List.cons.injEq] at h
        exact absurd (h.1 ▸ List.mem_cons_self) hf'
  | cons a f ih =>
    cases f' with
    | nil =>
      rw [List.nil_append, List.cons_append] at h
      rcases hr' with rfl | ⟨l, rfl⟩
      · cases h
      · rw [List.cons.injEq] at h
        exact absurd (h.1 ▸ List.mem_cons_self) hf
    | cons a' f' =>
      rw [List.cons_append, List.cons_append, List.cons.injEq] at h
      obtain ⟨hff, hrr⟩ := ih (fun hm => hf (List.mem_cons_of_mem a hm))
        (fun hm => hf' (List.mem_cons_of_mem a' hm)) h.2
      exact ⟨by rw [h.1, hff], hrr⟩

/-- **Reading from the front**: as many fields, and the rest. -/
theorem joined_inj {fields fields' : List (List α)} {rest rest' : List α}
    (hlen : fields.length = fields'.length) (hf : ∀ f ∈ fields, sep ∉ f)
    (hf' : ∀ f ∈ fields', sep ∉ f) (hr : Delimits sep rest) (hr' : Delimits sep rest')
    (h : joined sep fields ++ rest = joined sep fields' ++ rest') :
    fields = fields' ∧ rest = rest' := by
  induction fields generalizing fields' with
  | nil =>
    cases fields' with
    | nil => exact ⟨rfl, h⟩
    | cons f' fields' => cases hlen
  | cons f fields ih =>
    cases fields' with
    | nil => cases hlen
    | cons f' fields' =>
      rw [joined_cons, joined_cons, List.cons_append, List.cons_append, List.cons.injEq,
        List.append_assoc, List.append_assoc] at h
      obtain ⟨hff, hrest⟩ := field_inj (hf f List.mem_cons_self) (hf' f' List.mem_cons_self)
        (delimits_joined fields hr) (delimits_joined fields' hr') h.2
      obtain ⟨hfields, hend⟩ := ih (Nat.succ.inj hlen) (fun g hg => hf g (List.mem_cons_of_mem f hg))
        (fun g hg => hf' g (List.mem_cons_of_mem f' hg)) hrest
      exact ⟨by rw [hff, hfields], hend⟩

/-- **A delimiter inside**: it is that of a field, or stands behind all of them. -/
theorem joined_split {fields : List (List α)} {rest x s : List α} (hf : ∀ f ∈ fields, sep ∉ f)
    (h : joined sep fields ++ rest = x ++ sep :: s) :
    (∃ done f later, fields = done ++ f :: later ∧ x = joined sep done ∧
      s = f ++ (joined sep later ++ rest)) ∨
    ∃ z, x = joined sep fields ++ z ∧ rest = z ++ sep :: s := by
  induction fields generalizing x with
  | nil => exact .inr ⟨x, rfl, h⟩
  | cons f fields ih =>
    rw [joined_cons, List.cons_append, List.append_assoc] at h
    cases x with
    | nil =>
      rw [List.nil_append, List.cons.injEq] at h
      exact .inl ⟨[], f, fields, rfl, rfl, h.2.symm⟩
    | cons a x =>
      rw [List.cons_append, List.cons.injEq] at h
      obtain ⟨rfl, h⟩ := h
      -- the field is passed over as a whole
      have hno : sep ∉ f := hf f List.mem_cons_self
      obtain ⟨x', rfl, htail⟩ : ∃ x', x = f ++ x' ∧ joined sep fields ++ rest = x' ++ sep :: s := by
        rcases List.append_eq_append_iff.mp h with ⟨x', hx, hs⟩ | ⟨c, hc, hs⟩
        · exact ⟨x', hx, hs⟩
        · cases c with
          | nil => exact ⟨[], by rw [hc, List.append_nil, List.append_nil], hs.symm⟩
          | cons d c =>
            rw [List.cons_append, List.cons.injEq] at hs
            refine absurd ?_ hno
            rw [hc, hs.1]
            exact List.mem_append_right _ List.mem_cons_self
      rcases ih (fun g hg => hf g (List.mem_cons_of_mem f hg)) htail with
        ⟨done, g, later, hfields, hx, hs⟩ | ⟨z, hx, hrest⟩
      · refine .inl ⟨f :: done, g, later, by rw [hfields, List.cons_append], ?_, hs⟩
        rw [joined_cons, hx]
      · refine .inr ⟨z, ?_, hrest⟩
        rw [joined_cons, hx, List.cons_append, List.append_assoc]

end Joined

/-! ## Numbers -/

/-- The digits of a number. -/
def natText (n : Nat) : List UInt8 := (Nat.toDigits 10 n).map fun c => UInt8.ofNat c.toNat

/-- The digits behind a `-` if the number is negative. -/
def intText (n : Int) : List UInt8 := if n < 0 then 45 :: natText n.natAbs else natText n.natAbs

/-- `0` to `9`. -/
def isDigitByte (b : UInt8) : Bool := 48 ≤ b && b ≤ 57

theorem digit_toNat {c : Char} (h : c.isDigit = true) : 48 ≤ c.toNat ∧ c.toNat ≤ 57 := by
  rw [Char.isDigit, Bool.and_eq_true, decide_eq_true_eq, decide_eq_true_eq] at h
  exact ⟨UInt32.le_iff_toNat_le.mp h.1, UInt32.le_iff_toNat_le.mp h.2⟩

/-- The byte of a digit. -/
theorem toNat_digit {n : Nat} {c : Char} (h : c ∈ Nat.toDigits 10 n) :
    (UInt8.ofNat c.toNat).toNat = c.toNat ∧ 48 ≤ c.toNat ∧ c.toNat ≤ 57 := by
  have hdigit := digit_toNat (Nat.isDigit_of_mem_toDigits (by decide) (by decide) h)
  have hlt : c.toNat < 2 ^ 8 := Nat.lt_of_le_of_lt hdigit.2 (by decide)
  exact ⟨UInt8.toNat_ofNat_of_lt' hlt, hdigit⟩

theorem isDigitByte_natText {n : Nat} {b : UInt8} (h : b ∈ natText n) : isDigitByte b = true := by
  obtain ⟨c, hc, rfl⟩ := List.mem_map.mp h
  obtain ⟨hval, hdigit⟩ := toNat_digit hc
  simp only [isDigitByte, Bool.and_eq_true, decide_eq_true_eq, UInt8.le_iff_toNat_le, hval]
  exact hdigit

theorem natText_ne_nil (n : Nat) : natText n ≠ [] := by
  simp [natText, Nat.toDigits_ne_nil]

theorem natText_injective : Function.Injective natText := by
  have hback : ∀ n, (natText n).map (fun b => Char.ofNat b.toNat) = Nat.toDigits 10 n := by
    intro n
    rw [natText, List.map_map]
    refine (List.map_congr_left fun c hc => ?_).trans (List.map_id _)
    show Char.ofNat (UInt8.ofNat c.toNat).toNat = c
    rw [(toNat_digit hc).1, Char.ofNat_toNat]
  intro n n' h
  have hdigits : Nat.toDigits 10 n = Nat.toDigits 10 n' := by rw [← hback n, ← hback n', h]
  calc
    n = Nat.ofDigitChars 10 (Nat.toDigits 10 n) 0 := Nat.ofDigitChars_ten_toDigits.symm
    _ = Nat.ofDigitChars 10 (Nat.toDigits 10 n') 0 := by rw [hdigits]
    _ = n' := Nat.ofDigitChars_ten_toDigits

/-- A byte of a number. -/
def isNumberByte (b : UInt8) : Bool := b = 45 || isDigitByte b

theorem isNumberByte_intText {n : Int} {b : UInt8} (h : b ∈ intText n) :
    isNumberByte b = true := by
  unfold intText at h
  unfold isNumberByte
  split at h
  · rcases List.mem_cons.mp h with rfl | h
    · rfl
    · rw [isDigitByte_natText h, Bool.or_true]
  · rw [isDigitByte_natText h, Bool.or_true]

theorem intText_ne_nil (n : Int) : intText n ≠ [] := by
  unfold intText
  split
  · exact List.cons_ne_nil _ _
  · exact natText_ne_nil _

theorem intText_injective : Function.Injective intText := by
  -- a `-` is no digit
  have hsign : ∀ m n : Nat, (45 : UInt8) :: natText m ≠ natText n := by
    intro m n h
    have hdigit : isDigitByte 45 = true := isDigitByte_natText (h ▸ List.mem_cons_self)
    exact absurd hdigit (by decide)
  intro n n' h
  unfold intText at h
  split at h <;> split at h
  · have habs := natText_injective (List.cons.inj h).2
    omega
  · exact absurd h (hsign _ _)
  · exact absurd h.symm (hsign _ _)
  · have habs := natText_injective h
    omega

end Nvecd.Lib
