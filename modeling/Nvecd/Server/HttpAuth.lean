/-
  File:      Nvecd/Server/HttpAuth.lean
  Subject:   Who may use the HTTP interface (`server/http_server.cpp`, `utils/string_utils.cpp`).

  The password comes as a bearer token or in the base64 of the Basic scheme. The decoder shifts its
  accumulator for every character and never clears what it has used up: its low bits are the
  pending ones all the same (`Base64Decoder.take_low`), so the bytes come out right, but as a number
  it grows until it does not fit any more.

  * `base64Decode`, `constantTimeEquals`, `isAuthorized` -- as in the source;
  * `base64Decode_encode`, `constantTimeEquals_iff`, `isAuthorized_basic` -- what they are for;
  * `basic_credentials_iff` -- and the accumulator overflows unless the bytes are a small number.
-/
import Mathlib.Data.List.GetD
import Mathlib.Data.Nat.Bitwise
import Nvecd.Lib.Base64
import Nvecd.Storage.WalFormat

namespace Nvecd.Server

open Nvecd.Lib
open Nvecd.Storage (Bytes)

/-! ## 1. The decoder -/

/-- The standard one. -/
abbrev kAlphabet : Bytes := Base64.alphabet

/-- The table of the digits: all entries are -1, and then one after the other is set. -/
def base64Lookup : UInt8 → Int :=
  kAlphabet.zipIdx.foldl (fun lookup c => Function.update lookup c.1 (c.2 : Int)) fun _ => -1

structure Base64Decoder where
  /-- A signed `int`. -/
  accum : BitVec 32
  bits : Nat
  out : Bytes
  deriving DecidableEq, Repr

/-- `static_cast<char>(value & 0xFF)`. -/
def lowByte (value : BitVec 32) : UInt8 := UInt8.ofNat (value &&& 0xFF#32).toNat

/-- One round of the loop, for a character with the value `value`. -/
def Base64Decoder.take (d : Base64Decoder) (value : Nat) : Base64Decoder :=
  let accum := (d.accum <<< 6) ||| BitVec.ofNat 32 value
  let bits := d.bits + 6
  if 8 ≤ bits then ⟨accum, bits - 8, d.out ++ [lowByte (accum.sshiftRight (bits - 8))]⟩
  else ⟨accum, bits, d.out⟩

/-- The loop. -/
def Base64Decoder.loop : Base64Decoder → Bytes → Option Bytes
  | d, [] => some d.out
  | d, ch :: rest =>
    if ch = Base64.pad then some d.out
    else if base64Lookup ch < 0 then none
    else (d.take (base64Lookup ch).toNat).loop rest

def Base64Decoder.start : Base64Decoder := ⟨0, 0, []⟩

def base64Decode (input : Bytes) : Option Bytes := Base64Decoder.start.loop input

/-- The value that a round gives the accumulator is one of a signed `int`. -/
def Base64Decoder.Fits (d : Base64Decoder) (value : Nat) : Prop :=
  -2 ^ 31 ≤ d.accum.toInt * 64 + value ∧ d.accum.toInt * 64 + value < 2 ^ 31

/-- **The accumulator does not overflow** in any round of the loop. -/
def Base64Decoder.NoOverflow : Base64Decoder → Bytes → Prop
  | _, [] => True
  | d, ch :: rest =>
    if ch = Base64.pad then True
    else if base64Lookup ch < 0 then True
    else d.Fits (base64Lookup ch).toNat ∧ (d.take (base64Lookup ch).toNat).NoOverflow rest

/-! ## 2. The digits -/

theorem digit_spec : ∀ v < 64, Base64.digit v ≠ Base64.pad ∧ base64Lookup (Base64.digit v) = v := by
  decide +kernel

variable {d : Base64Decoder} {v : Nat}

theorem Base64Decoder.loop_digit (hv : v < 64) (rest : Bytes) :
    d.loop (Base64.digit v :: rest) = (d.take v).loop rest := by
  obtain ⟨hpad, hlookup⟩ := digit_spec v hv
  have hnat : ¬ (v : Int) < 0 := by omega
  rw [loop, if_neg hpad, hlookup, if_neg hnat, Int.toNat_natCast]

theorem Base64Decoder.noOverflow_digit (hv : v < 64) (rest : Bytes) :
    d.NoOverflow (Base64.digit v :: rest) ↔ d.Fits v ∧ (d.take v).NoOverflow rest := by
  obtain ⟨hpad, hlookup⟩ := digit_spec v hv
  have hnat : ¬ (v : Int) < 0 := by omega
  rw [NoOverflow, if_neg hpad, hlookup, if_neg hnat, Int.toNat_natCast]

theorem Base64Decoder.loop_pads (n : Nat) : d.loop (List.replicate n Base64.pad) = some d.out := by
  cases n with
  | zero => rfl
  | succ n => rw [List.replicate_succ, loop, if_pos rfl]

theorem Base64Decoder.noOverflow_pads (n : Nat) :
    d.NoOverflow (List.replicate n Base64.pad) ↔ True := by
  cases n with
  | zero => rfl
  | succ n => rw [List.replicate_succ, NoOverflow, if_pos rfl]

/-! ## 3. The accumulator -/

/-- The shifted accumulator and the value have no bits in common. -/
theorem Base64Decoder.take_accum (d : Base64Decoder) (hv : v < 64) :
    (d.take v).accum.toNat = (d.accum.toNat * 64 + v) % 2 ^ 32 := by
  have haccum : (d.take v).accum = (d.accum <<< 6) ||| BitVec.ofNat 32 v := by
    rw [take]
    split <;> rfl
  have hshift : d.accum.toNat <<< 6 % 2 ^ 32 = (d.accum.toNat % 2 ^ 26) <<< 6 := by
    rw [Nat.shiftLeft_eq, Nat.shiftLeft_eq]
    omega
  rw [haccum, BitVec.toNat_or, BitVec.toNat_shiftLeft, BitVec.toNat_ofNat, hshift,
    Nat.mod_eq_of_lt (by omega : v < 2 ^ 32),
    ← Nat.shiftLeft_add_eq_or_of_lt (by omega : v < 2 ^ 6),
    Nat.shiftLeft_eq]
  omega

/-- The byte above `k` bits is the same whichever bits come in from above. -/
theorem lowByte_sshiftRight (x : BitVec 32) {k : Nat} (hk : k ≤ 24) :
    lowByte (x.sshiftRight k) = UInt8.ofNat (x.toNat / 2 ^ k) := by
  have hlow : (x.sshiftRight k).setWidth 8 = (x >>> k).setWidth 8 := by
    ext i hi
    have hin : k + i < 32 := by omega
    rw [BitVec.getElem_setWidth, BitVec.getElem_setWidth, BitVec.getLsbD_sshiftRight,
      BitVec.getLsbD_ushiftRight, if_pos hin, decide_eq_false (by omega : ¬ 32 ≤ i)]
    rfl
  have hmod : (x.sshiftRight k).toNat % 2 ^ 8 = (x >>> k).toNat % 2 ^ 8 := by
    rw [← BitVec.toNat_setWidth, hlow, BitVec.toNat_setWidth]
  have hand : (x.sshiftRight k &&& 0xFF#32).toNat = (x.sshiftRight k).toNat % 2 ^ 8 := by
    rw [BitVec.toNat_and]
    exact Nat.and_two_pow_sub_one_eq_mod _ 8
  rw [lowByte, hand, hmod, BitVec.toNat_ushiftRight, Nat.shiftRight_eq_div_pow]
  exact UInt8.ofNat_mod_size

/-- What is above the byte does not matter for it. -/
theorem ofNat_mod_div (x k : Nat) :
    UInt8.ofNat (x % 2 ^ (k + 8) / 2 ^ k) = UInt8.ofNat (x / 2 ^ k) := by
  rw [Nat.pow_add, Nat.mod_mul_right_div_self]
  exact UInt8.ofNat_mod_size

theorem Base64Decoder.take_bits (d : Base64Decoder) (v : Nat) :
    (d.take v).bits = if 8 ≤ d.bits + 6 then d.bits + 6 - 8 else d.bits + 6 := by
  rw [take]
  split <;> rfl

/-- **The low bits of the accumulator are the pending ones**, whatever is above them. -/
theorem Base64Decoder.take_low (d : Base64Decoder) (hv : v < 64) (hbits : d.bits < 8) :
    d.accum.toNat % 2 ^ d.bits * 64 + v = (d.take v).accum.toNat % 2 ^ (d.bits + 6) := by
  have hpow : 2 ^ (d.bits + 6) = 2 ^ d.bits * 64 := by rw [Nat.pow_add]
  have hdvd : 2 ^ (d.bits + 6) ∣ 2 ^ 32 := Nat.pow_dvd_pow 2 (by omega)
  rw [take_accum d hv, Nat.mod_mod_of_dvd _ hdvd, hpow]
  have hsplit := Nat.div_add_mod d.accum.toNat (2 ^ d.bits)
  have hlt : d.accum.toNat % 2 ^ d.bits * 64 + v < 2 ^ d.bits * 64 := by
    have := Nat.mod_lt d.accum.toNat (Nat.two_pow_pos d.bits)
    omega
  have heq : d.accum.toNat * 64 + v =
      2 ^ d.bits * 64 * (d.accum.toNat / 2 ^ d.bits) + (d.accum.toNat % 2 ^ d.bits * 64 + v) := by
    rw [Nat.mul_right_comm]
    omega
  rw [heq, Nat.mul_add_mod, Nat.mod_eq_of_lt hlt]

/-- **The loop reads the digits back**: it gives what `unpack` gives for its pending bits. -/
theorem Base64Decoder.loop_digits (digits : List Nat) (hdigits : ∀ v ∈ digits, v < 64) (n : Nat)
    (hbits : d.bits < 8) :
    d.loop (digits.map Base64.digit ++ List.replicate n Base64.pad) =
      some (d.out ++ Base64.unpack (d.accum.toNat % 2 ^ d.bits) d.bits digits) := by
  induction digits generalizing d with
  | nil => rw [List.map_nil, List.nil_append, loop_pads, Base64.unpack, List.append_nil]
  | cons v digits ih =>
    have hv := hdigits v List.mem_cons_self
    have hlow := d.take_low hv hbits
    have ih := @ih (d.take v) fun x hx => hdigits x (List.mem_cons_of_mem _ hx)
    rw [List.map_cons, List.cons_append, loop_digit hv]
    rw [take_bits] at ih
    by_cases hfull : 8 ≤ d.bits + 6
    · -- a byte is complete
      rw [if_pos hfull] at ih
      have hsum : d.bits + 6 = d.bits + 6 - 8 + 8 := by omega
      have hbyte : (d.take v).out = d.out ++ [UInt8.ofNat
          ((d.accum.toNat % 2 ^ d.bits * 64 + v) / 2 ^ (d.bits + 6 - 8))] := by
        have hout : (d.take v).out =
            d.out ++ [lowByte ((d.take v).accum.sshiftRight (d.bits + 6 - 8))] := by
          rw [take]
          simp only [if_pos hfull]
        have hbyte := ofNat_mod_div (d.take v).accum.toNat (d.bits + 6 - 8)
        rw [← hsum] at hbyte
        rw [hout, lowByte_sshiftRight _ (by omega), hlow, hbyte]
      have hpending : (d.accum.toNat % 2 ^ d.bits * 64 + v) % 2 ^ (d.bits + 6 - 8) =
          (d.take v).accum.toNat % 2 ^ (d.bits + 6 - 8) := by
        rw [hlow]
        exact Nat.mod_mod_of_dvd _ (Nat.pow_dvd_pow 2 (by omega))
      rw [ih (by omega), hbyte, Base64.unpack, if_pos hfull, hpending, List.append_assoc,
        List.singleton_append]
    · rw [if_neg hfull] at ih
      have hout : (d.take v).out = d.out := by
        rw [take]
        simp only [if_neg hfull]
      rw [ih (by omega), hout, Base64.unpack, if_neg hfull, hlow]

/-- **Decoding the encoding of any bytes gives them back.** -/
theorem base64Decode_encode (s : Bytes) : base64Decode (Base64.encode s) = some s := by
  have h := @Base64Decoder.loop_digits Base64Decoder.start (Base64.sextets s) (Base64.sextets_lt s)
    (Base64.padding s) (by decide)
  have hunpack := Base64.unpack_sextets s
  simp only [Base64Decoder.start, List.nil_append] at h
  rw [base64Decode, Base64.encode, Base64Decoder.start, h]
  exact congrArg some hunpack

/-- While nothing overflows the accumulator is the number that the digits are. -/
theorem Base64Decoder.noOverflow_iff (digits : List Nat) (hdigits : ∀ v ∈ digits, v < 64) (n : Nat)
    (haccum : d.accum.toNat < 2 ^ 31) :
    d.NoOverflow (digits.map Base64.digit ++ List.replicate n Base64.pad) ↔
      Base64.number 64 d.accum.toNat digits < 2 ^ 31 := by
  induction digits generalizing d with
  | nil =>
    rw [List.map_nil, List.nil_append, noOverflow_pads]
    exact (iff_true_intro haccum).symm
  | cons v digits ih =>
    have hv := hdigits v List.mem_cons_self
    have hint : d.accum.toInt = d.accum.toNat := BitVec.toInt_eq_toNat_of_lt (by omega)
    rw [List.map_cons, List.cons_append, noOverflow_digit hv, Base64.number_cons, Fits, hint]
    by_cases hfits : d.accum.toNat * 64 + v < 2 ^ 31
    · have htake : (d.take v).accum.toNat = d.accum.toNat * 64 + v := by
        rw [take_accum d hv, Nat.mod_eq_of_lt (by omega)]
      rw [ih (fun x hx => hdigits x (List.mem_cons_of_mem _ hx)) (htake ▸ hfits), htake]
      exact and_iff_right (by omega)
    · have hle := @Base64.le_number 64 (by omega) (d.accum.toNat * 64 + v) digits
      constructor
      · rintro ⟨h, -⟩
        omega
      · intro h
        omega

/-! ## 4. Requests -/

/-- `ConstantTimeEquals`: all bytes are compared, with a zero for each that one text is short of. -/
def constantTimeEquals (left right : Bytes) : Bool :=
  (List.range (max left.length right.length)).foldl
    (fun difference i => difference ||| (left.getD i 0 ^^^ right.getD i 0).toNat)
    (left.length ^^^ right.length) = 0

def kBearerPrefix : Bytes := "Bearer ".toUTF8.toList

def kBasicPrefix : Bytes := "Basic ".toUTF8.toList

def colon : UInt8 := 58

/-- The text behind a beginning that it has and is longer than. -/
def textBehind (beginning text : Bytes) : Option Bytes :=
  if beginning.length < text.length ∧ text.take beginning.length = beginning then
    some (text.drop beginning.length)
  else none

/-- What the credentials of the Basic scheme say is the password. -/
def passwordOf (decoded : Bytes) : Bytes :=
  match decoded.findIdx? (· = colon) with
  | none => decoded
  | some i => decoded.drop (i + 1)

/-- `IsAuthorized`, for a request with this `Authorization` header. -/
def isAuthorized (requirepass : Bytes) (authorization : Option Bytes) : Bool :=
  if requirepass = [] then true
  else
    match authorization with
    | none => false
    | some auth =>
      match textBehind kBearerPrefix auth with
      | some token => constantTimeEquals token requirepass
      | none =>
        match textBehind kBasicPrefix auth with
        | none => false
        | some encoded =>
          match base64Decode encoded with
          | none => false
          | some decoded => constantTimeEquals (passwordOf decoded) requirepass

theorem foldl_or_eq_zero (f : Nat → Nat) (l : List Nat) (n : Nat) :
    l.foldl (fun difference i => difference ||| f i) n = 0 ↔ n = 0 ∧ ∀ i ∈ l, f i = 0 := by
  induction l generalizing n with
  | nil => simp
  | cons i l ih =>
    rw [List.foldl_cons, ih, Nat.or_eq_zero_iff, List.forall_mem_cons, and_assoc]

/-- **It tells texts apart.** -/
theorem constantTimeEquals_iff (left right : Bytes) :
    constantTimeEquals left right = true ↔ left = right := by
  rw [constantTimeEquals, decide_eq_true_eq,
    foldl_or_eq_zero fun i => (left.getD i 0 ^^^ right.getD i 0).toNat]
  constructor
  · rintro ⟨hlength, hbytes⟩
    have hlen : left.length = right.length := Nat.xor_eq_zero_iff.mp hlength
    apply List.ext_getElem hlen
    intro i hi hi'
    have hbyte := hbytes i (List.mem_range.mpr (lt_of_lt_of_le hi (le_max_left _ _)))
    rw [List.getD_eq_getElem _ _ hi, List.getD_eq_getElem _ _ hi', UInt8.toNat_xor,
      Nat.xor_eq_zero_iff] at hbyte
    exact UInt8.toNat_inj.mp hbyte
  · rintro rfl
    refine ⟨Nat.xor_self _, fun i _ => ?_⟩
    rw [UInt8.toNat_xor, Nat.xor_self]

/-- The first colon is the one behind the user's name. -/
theorem passwordOf_credentials {user : Bytes} (huser : colon ∉ user) (password : Bytes) :
    passwordOf (user ++ colon :: password) = password := by
  have hnone : user.findIdx? (· = colon) = none := by
    rw [List.findIdx?_eq_none_iff]
    intro b hb
    exact decide_eq_false fun h => huser (h ▸ hb)
  have hfind : (user ++ colon :: password).findIdx? (· = colon) = some user.length := by
    rw [List.findIdx?_append, hnone]
    rw [List.findIdx?_cons]
    simp
  rw [passwordOf, hfind]
  simp

/-- `Authorization: Basic base64(user:password)`. -/
def basicHeader (user password : Bytes) : Bytes :=
  kBasicPrefix ++ Base64.encode (user ++ colon :: password)

theorem encode_ne_nil {s : Bytes} (hs : s ≠ []) : Base64.encode s ≠ [] := by
  intro h
  have hdecode := base64Decode_encode s
  rw [h] at hdecode
  exact hs (Option.some.inj hdecode).symm

/-- **Basic credentials are accepted for their password**, if one is asked for. -/
theorem isAuthorized_basic {user : Bytes} (huser : colon ∉ user) (password requirepass : Bytes) :
    isAuthorized requirepass (some (basicHeader user password)) = true ↔
      requirepass = [] ∨ password = requirepass := by
  have hne : Base64.encode (user ++ colon :: password) ≠ [] := encode_ne_nil (by simp)
  have hbearer : textBehind kBearerPrefix (basicHeader user password) = none := by
    refine if_neg fun h => ?_
    have hbearer : kBearerPrefix = [66, 101, 97, 114, 101, 114, 32] := by decide +kernel
    have hbasic : kBasicPrefix = [66, 97, 115, 105, 99, 32] := by decide +kernel
    -- the second letters differ
    have hletter := congrArg (·[1]?) h.2
    rw [basicHeader, hbearer, hbasic] at hletter
    simp at hletter
  have hbasic : textBehind kBasicPrefix (basicHeader user password) =
      some (Base64.encode (user ++ colon :: password)) := by
    rw [textBehind, basicHeader, List.take_left, List.drop_left, if_pos]
    refine ⟨?_, rfl⟩
    have := List.length_pos_iff.mpr hne
    rw [List.length_append]
    omega
  rw [isAuthorized]
  by_cases hpass : requirepass = []
  · simp [hpass]
  · rw [if_neg hpass]
    simp only [hbearer, hbasic, base64Decode_encode, passwordOf_credentials huser,
      constantTimeEquals_iff, hpass, false_or]

/-! ## 5. All of it -/

/-- What the decoder of credentials is for, on the encoding of some bytes. -/
structure DecodesCredentials (s : Bytes) : Prop where
  decodes : base64Decode (Base64.encode s) = some s
  noOverflow : Base64Decoder.start.NoOverflow (Base64.encode s)
  authorizes : ∀ user password, s = user ++ colon :: password → colon ∉ user → ∀ requirepass,
    isAuthorized requirepass (some (basicHeader user password)) = true ↔
      requirepass = [] ∨ password = requirepass

/-- **The bytes always come out right, but the accumulator overflows** unless they are, as a number
    with the filling bits behind them, less than `2 ^ 31`. -/
theorem basic_credentials_iff (s : Bytes) :
    DecodesCredentials s ↔
      Base64.number 256 0 (s.map UInt8.toNat) * 4 ^ Base64.padding s < 2 ^ 31 := by
  have hoverflow := @Base64Decoder.noOverflow_iff Base64Decoder.start (Base64.sextets s)
    (Base64.sextets_lt s) (Base64.padding s) (by decide)
  have hstart : Base64Decoder.start.accum.toNat = 0 := rfl
  rw [hstart, Base64.number_sextets] at hoverflow
  constructor
  · intro h
    exact hoverflow.mp h.noOverflow
  · intro h
    exact ⟨base64Decode_encode s, hoverflow.mpr h,
      fun _ password _ huser requirepass => isAuthorized_basic huser password requirepass⟩

/-- The credentials `user:s3cret`. -/
theorem credentials_overflow : ¬ DecodesCredentials "user:s3cret".toUTF8.toList := by
  intro h
  have hsmall := (@Base64Decoder.noOverflow_iff Base64Decoder.start _ (Base64.sextets_lt _) _
    (by decide)).mp h.noOverflow
  exact absurd hsmall (by decide +kernel)

end Nvecd.Server
