/-
  File:      Nvecd/Cache/CacheKey.lean
  Subject:   `cache/cache_key_generator.cpp`: the texts whose digests are the keys of the cache.

  A key text is made of fields behind colons. All but two of them are numbers or words without a
  colon; the item of a `SIM` query and the filter are the client's, and stand at the two ends. So
  the text of one query can be that of another, whose item goes on where the first one's filter
  begins. There is no other way (`simKeyText_eq`).

  * `SimCacheKeyParams`, `simKeyText`; `SimvCacheKeyParams`, `hashVector`, `simvKeyText`;
  * `Shadows` -- the one way in which two `SIM` queries have one text;
  * `cache_keys_separate`.
-/
import Nvecd.Lib.Delimited
import Nvecd.Lib.LittleEndian
import Nvecd.Storage.WalFormat

namespace Nvecd.Cache

open Nvecd.Lib Nvecd.Storage

/-! ## 1. Key texts -/

/-- What `using=` can name. -/
inductive SimMode where
  | events
  | vectors
  | fusion
  deriving DecidableEq, Repr

def SimMode.text : SimMode → Bytes
  | events => [101, 118, 101, 110, 116, 115]
  | vectors => [118, 101, 99, 116, 111, 114, 115]
  | fusion => [102, 117, 115, 105, 111, 110]

structure SimCacheKeyParams where
  id : Bytes
  topK : Int
  mode : SimMode := .fusion
  adaptive : Option Bool := none
  cooccurrenceGeneration : Nat := 0
  vectorGeneration : Nat := 0
  filterExpr : Bytes := []
  metadataGeneration : Nat := 0
  datasetGeneration : Nat := 0
  deriving DecidableEq, Repr

structure SimvCacheKeyParams where
  vector : List UInt32
  topK : Int
  vectorGeneration : Nat := 0
  filterExpr : Bytes := []
  metadataGeneration : Nat := 0
  datasetGeneration : Nat := 0
  deriving DecidableEq, Repr

/-- `AdaptiveCachePart`: `default`, `on` or `off`. -/
def adaptiveCachePart : Option Bool → Bytes
  | none => [100, 101, 102, 97, 117, 108, 116]
  | some true => [111, 110]
  | some false => [111, 102, 102]

/-- `:`. -/
def kColon : UInt8 := 58

/-- What follows the item: `:top_k:mode:a..:g..:v..:m..:d..`. -/
def simFields (p : SimCacheKeyParams) : List Bytes :=
  [intText p.topK, p.mode.text, 97 :: adaptiveCachePart p.adaptive,
    103 :: natText p.cooccurrenceGeneration, 118 :: natText p.vectorGeneration,
    109 :: natText p.metadataGeneration, 100 :: natText p.datasetGeneration]

/-- `:f` and the filter, if there is one. -/
def filterPart (filterExpr : Bytes) : Bytes :=
  if filterExpr = [] then [] else kColon :: 102 :: filterExpr

/-- What `GenerateSimCacheKey` hashes. -/
def simKeyText (p : SimCacheKeyParams) : Bytes :=
  [83, 73, 77, 58] ++ (p.id ++ (joined kColon (simFields p) ++ filterPart p.filterExpr))

/-- A hexadecimal digit in lower case. -/
def hexDigit (n : Nat) : UInt8 := UInt8.ofNat (if n < 10 then 48 + n else 87 + n)

/-- Two digits for each byte. -/
def hexText (bytes : Bytes) : Bytes :=
  bytes.flatMap fun b => [hexDigit (b.toNat / 16), hexDigit (b.toNat % 16)]

section Simv

-- the digest of `MD5`
variable (md5 : Bytes → Bytes)

/-- `HashVector`: the digest of the bytes of the components. -/
def hashVector (vector : List UInt32) : Bytes :=
  if vector = [] then List.replicate 32 48
  else hexText (md5 (vector.flatMap fun x => leBytes 4 x.toNat))

def simvFields (p : SimvCacheKeyParams) : List Bytes :=
  [intText p.topK, 118 :: natText p.vectorGeneration, 109 :: natText p.metadataGeneration,
    100 :: natText p.datasetGeneration]

/-- What `GenerateSimvCacheKey` hashes. -/
def simvKeyText (p : SimvCacheKeyParams) : Bytes :=
  [83, 73, 77, 86, 58] ++
    (hashVector md5 p.vector ++ (joined kColon (simvFields p) ++ filterPart p.filterExpr))

end Simv

/-! ## 2. Fields have no colon -/

theorem colon_natText (n : Nat) : kColon ∉ natText n := fun h =>
  absurd (isDigitByte_natText h) (by decide)

theorem colon_intText (n : Int) : kColon ∉ intText n := fun h =>
  absurd (isNumberByte_intText h) (by decide)

theorem colon_cons_natText {b : UInt8} (hb : kColon ≠ b) (n : Nat) : kColon ∉ b :: natText n := by
  rw [List.mem_cons, not_or]
  exact ⟨hb, colon_natText n⟩

theorem colon_simFields (p : SimCacheKeyParams) : ∀ f ∈ simFields p, kColon ∉ f := by
  have hmode : kColon ∉ p.mode.text := by cases p.mode <;> decide
  have hadaptive : kColon ∉ 97 :: adaptiveCachePart p.adaptive := by
    rcases p.adaptive with - | - | -
    · decide
    · decide
    · decide
  intro f hf
  simp only [simFields, List.mem_cons, List.not_mem_nil, or_false] at hf
  rcases hf with rfl | rfl | rfl | rfl | rfl | rfl | rfl
  · exact colon_intText _
  · exact hmode
  · exact hadaptive
  · exact colon_cons_natText (by decide) _
  · exact colon_cons_natText (by decide) _
  · exact colon_cons_natText (by decide) _
  · exact colon_cons_natText (by decide) _

theorem colon_simvFields (p : SimvCacheKeyParams) : ∀ f ∈ simvFields p, kColon ∉ f := by
  intro f hf
  simp only [simvFields, List.mem_cons, List.not_mem_nil, or_false] at hf
  rcases hf with rfl | rfl | rfl | rfl
  · exact colon_intText _
  · exact colon_cons_natText (by decide) _
  · exact colon_cons_natText (by decide) _
  · exact colon_cons_natText (by decide) _

theorem length_simFields (p q : SimCacheKeyParams) :
    (simFields p).length = (simFields q).length := rfl

theorem length_simvFields (p q : SimvCacheKeyParams) :
    (simvFields p).length = (simvFields q).length := rfl

theorem delimits_filterPart (filterExpr : Bytes) : Delimits kColon (filterPart filterExpr) := by
  unfold filterPart
  split
  · exact .inl rfl
  · exact .inr ⟨_, rfl⟩

theorem filterPart_injective : Function.Injective filterPart := by
  intro f f' h
  unfold filterPart at h
  split at h <;> split at h
  · rename_i hf hf'
    rw [hf, hf']
  · cases h
  · cases h
  · simpa using h

theorem hexDigit_ne_colon {n : Nat} (h : n < 16) : hexDigit n ≠ kColon := by
  have hall : ∀ d : Fin 16, hexDigit d ≠ kColon := by decide
  exact hall ⟨n, h⟩

theorem colon_hashVector (md5 : Bytes → Bytes) (vector : List UInt32) :
    kColon ∉ hashVector md5 vector := by
  unfold hashVector
  split
  · decide
  · intro h
    obtain ⟨b, -, hb⟩ := List.mem_flatMap.mp h
    have hlt : b.toNat < 256 := b.toNat_lt
    simp only [List.mem_cons, List.not_mem_nil, or_false] at hb
    rcases hb with hb | hb
    · exact hexDigit_ne_colon (by omega) hb.symm
    · exact hexDigit_ne_colon (by omega) hb.symm

/-! ## 3. Equal texts -/

theorem simFields_injective {p q : SimCacheKeyParams} (hid : p.id = q.id)
    (hfilter : p.filterExpr = q.filterExpr) (h : simFields p = simFields q) : p = q := by
  have hmode : Function.Injective SimMode.text := by
    intro a b hab
    cases a <;> cases b <;> first | rfl | cases hab
  have hadaptive : Function.Injective adaptiveCachePart := by
    intro a b hab
    rcases a with - | - | - <;> rcases b with - | - | - <;> first | rfl | cases hab
  simp only [simFields, List.cons.injEq, true_and, and_true] at h
  obtain ⟨h₁, h₂, h₃, h₄, h₅, h₆, h₇⟩ := h
  cases p
  cases q
  simp only at hid hfilter h₁ h₂ h₃ h₄ h₅ h₆ h₇
  rw [hid, hfilter, intText_injective h₁, hmode h₂, hadaptive h₃, natText_injective h₄,
    natText_injective h₅, natText_injective h₆, natText_injective h₇]

/-- **The text of `p` is read as `q`**: the item of `q` is that of `p`, its fields and the
    beginning of its filter; the rest of that filter are the fields of `q`, and its filter. -/
def Shadows (p q : SimCacheKeyParams) : Prop :=
  ∃ z, q.id = p.id ++ (joined kColon (simFields p) ++ (kColon :: 102 :: z)) ∧
    p.filterExpr = z ++ (joined kColon (simFields q) ++ filterPart q.filterExpr)

/-- The fields of a query begin with a number. -/
theorem joined_simFields (q : SimCacheKeyParams) (rest : Bytes) :
    ∃ c l, joined kColon (simFields q) ++ rest = kColon :: c :: l ∧ isNumberByte c = true := by
  obtain ⟨c, l, hc⟩ := List.exists_cons_of_ne_nil (intText_ne_nil q.topK)
  refine ⟨c, l ++ (joined kColon (simFields q).tail ++ rest), ?_, ?_⟩
  · rw [simFields, joined_cons, hc, List.tail_cons, List.cons_append, List.cons_append,
      List.cons_append, List.append_assoc]
  · exact isNumberByte_intText (hc ▸ List.mem_cons_self)

/-- The other fields of a query begin with a letter. -/
theorem letter_simFields {p : SimCacheKeyParams} {done later : List Bytes} {f : Bytes}
    (h : simFields p = done ++ f :: later) (hdone : done ≠ []) :
    ∃ c l, f = c :: l ∧ isNumberByte c = false := by
  have hmem : f ∈ (simFields p).tail := by
    obtain ⟨d, done, rfl⟩ := List.exists_cons_of_ne_nil hdone
    rw [h, List.cons_append, List.tail_cons]
    exact List.mem_append_right _ List.mem_cons_self
  simp only [simFields, List.tail_cons, List.mem_cons, List.not_mem_nil, or_false] at hmem
  rcases hmem with rfl | rfl | rfl | rfl | rfl | rfl
  · cases p.mode
    · exact ⟨101, _, rfl, rfl⟩
    · exact ⟨118, _, rfl, rfl⟩
    · exact ⟨102, _, rfl, rfl⟩
  · exact ⟨97, _, rfl, rfl⟩
  · exact ⟨103, _, rfl, rfl⟩
  · exact ⟨118, _, rfl, rfl⟩
  · exact ⟨109, _, rfl, rfl⟩
  · exact ⟨100, _, rfl, rfl⟩

/-- A text in which the other query's item is longer. -/
theorem shadows_of_longer {p q : SimCacheKeyParams} {x : Bytes} (hx : x ≠ [])
    (hid : q.id = p.id ++ x)
    (h : joined kColon (simFields p) ++ filterPart p.filterExpr =
      x ++ (joined kColon (simFields q) ++ filterPart q.filterExpr)) : Shadows p q := by
  obtain ⟨c, l, hq, hnumber⟩ := joined_simFields q (filterPart q.filterExpr)
  have hsplit := h
  rw [hq] at hsplit
  rcases joined_split (colon_simFields p) hsplit with
    ⟨done, f, later, hfields, hdone, hs⟩ | ⟨z, hz, hrest⟩
  · -- the fields of `q` would begin with a field of `p` that is no number
    have hne : done ≠ [] := by
      rintro rfl
      exact hx hdone
    obtain ⟨c', l', rfl, hletter⟩ := letter_simFields hfields hne
    rw [List.cons_append, List.cons.injEq] at hs
    rw [hs.1, hletter] at hnumber
    cases hnumber
  · -- they begin in the filter of `p`, behind its first two bytes
    unfold filterPart at hrest
    split at hrest
    · cases z <;> cases hrest
    · cases z with
      | nil =>
        rw [List.nil_append, List.cons.injEq, List.cons.injEq] at hrest
        rw [← hrest.2.1] at hnumber
        cases hnumber
      | cons a z =>
        rw [List.cons_append, List.cons.injEq] at hrest
        obtain ⟨rfl, hrest⟩ := hrest
        cases z with
        | nil =>
          rw [List.nil_append, List.cons.injEq] at hrest
          exact absurd hrest.1 (by decide)
        | cons b z =>
          rw [List.cons_append, List.cons.injEq] at hrest
          obtain ⟨rfl, hrest⟩ := hrest
          exact ⟨z, by rw [hid, hz], by rw [hq, hrest]⟩

/-- **Two `SIM` queries have one text** only if they are one query or one is read as the other. -/
theorem simKeyText_eq {p q : SimCacheKeyParams} :
    simKeyText p = simKeyText q ↔ p = q ∨ Shadows p q ∨ Shadows q p := by
  constructor
  · intro h
    have htext := List.append_cancel_left h
    rcases List.append_eq_append_iff.mp htext with ⟨x, hid, hrest⟩ | ⟨x, hid, hrest⟩
    · by_cases hx : x = []
      · subst hx
        rw [List.append_nil] at hid
        obtain ⟨hfields, hfilter⟩ := joined_inj (length_simFields p q) (colon_simFields p)
          (colon_simFields q)
          (delimits_filterPart _) (delimits_filterPart _) hrest
        exact .inl (simFields_injective hid.symm (filterPart_injective hfilter) hfields)
      · exact .inr (.inl (shadows_of_longer hx hid hrest))
    · by_cases hx : x = []
      · subst hx
        rw [List.append_nil] at hid
        obtain ⟨hfields, hfilter⟩ := joined_inj (length_simFields q p) (colon_simFields q)
          (colon_simFields p)
          (delimits_filterPart _) (delimits_filterPart _) hrest
        exact .inl (simFields_injective hid.symm (filterPart_injective hfilter) hfields).symm
      · exact .inr (.inr (shadows_of_longer hx hid hrest))
  · have hshadow : ∀ {p q : SimCacheKeyParams}, Shadows p q → simKeyText p = simKeyText q := by
      rintro p q ⟨z, hid, hfilter⟩
      obtain ⟨c, l, hq, -⟩ := joined_simFields q (filterPart q.filterExpr)
      have hne : p.filterExpr ≠ [] := by
        rw [hfilter, hq]
        exact List.append_ne_nil_of_right_ne_nil _ (List.cons_ne_nil _ _)
      unfold simKeyText
      rw [filterPart, if_neg hne, hid, hfilter]
      simp only [List.append_assoc, List.cons_append]
    rintro (rfl | h | h)
    · rfl
    · exact hshadow h
    · exact (hshadow h).symm

/-- No query is read as itself. -/
theorem not_shadows_self (p : SimCacheKeyParams) : ¬ Shadows p p := by
  rintro ⟨z, hid, -⟩
  have hlen := congrArg List.length hid
  simp only [List.length_append, List.length_cons] at hlen
  omega

/-- **The keys of queries.** The text of a `SIM` query is its own exactly as far as the item of
    no other goes on with its fields and the beginning of its filter; that of a `SIMV` query is
    its own, and no `SIM` query's. -/
theorem cache_keys_separate {md5 : Bytes → Bytes} (hhash : Function.Injective (hashVector md5)) :
    (∀ p q : SimCacheKeyParams,
      (simKeyText p = simKeyText q → p = q) ↔ ¬ Shadows p q ∧ ¬ Shadows q p) ∧
    (∀ p q : SimvCacheKeyParams, simvKeyText md5 p = simvKeyText md5 q → p = q) ∧
    ∀ p q, simKeyText p ≠ simvKeyText md5 q := by
  refine ⟨fun p q => ⟨fun h => ?_, fun h heq => ?_⟩, fun p q h => ?_, fun p q h => ?_⟩
  · constructor
    · intro hs
      have hpq := h (simKeyText_eq.2 (.inr (.inl hs)))
      subst hpq
      exact not_shadows_self p hs
    · intro hs
      have hpq := h (simKeyText_eq.2 (.inr (.inr hs)))
      subst hpq
      exact not_shadows_self p hs
  · rcases simKeyText_eq.1 heq with hpq | hs | hs
    · exact hpq
    · exact absurd hs h.1
    · exact absurd hs h.2
  · have htext := List.append_cancel_left h
    obtain ⟨hvector, hrest⟩ := field_inj (colon_hashVector md5 _) (colon_hashVector md5 _)
      (delimits_joined _ (delimits_filterPart _)) (delimits_joined _ (delimits_filterPart _)) htext
    obtain ⟨hfields, hfilter⟩ := joined_inj (length_simvFields p q) (colon_simvFields p)
      (colon_simvFields q) (delimits_filterPart _) (delimits_filterPart _) hrest
    simp only [simvFields, List.cons.injEq, true_and, and_true] at hfields
    obtain ⟨h₁, h₂, h₃, h₄⟩ := hfields
    have hfilterExpr := filterPart_injective hfilter
    have hvec := hhash hvector
    cases p
    cases q
    simp only at hvec hfilterExpr h₁ h₂ h₃ h₄
    rw [hvec, hfilterExpr, intText_injective h₁, natText_injective h₂, natText_injective h₃,
      natText_injective h₄]
  · exact absurd (congrArg (·[3]?) h) (by simp [simKeyText, simvKeyText])

theorem hexText_injective : Function.Injective hexText := by
  have hdigit : ∀ d d' : Fin 16, hexDigit d = hexDigit d' → d = d' := by decide
  have hbyte : ∀ {n n' : Nat}, n < 16 → n' < 16 → hexDigit n = hexDigit n' → n = n' :=
    fun hn hn' h => congrArg Fin.val (hdigit ⟨_, hn⟩ ⟨_, hn'⟩ h)
  intro l l' h
  induction l generalizing l' with
  | nil =>
    cases l' with
    | nil => rfl
    | cons b l' => cases h
  | cons b l ih =>
    cases l' with
    | nil => cases h
    | cons b' l' =>
      have hb : b.toNat < 256 := b.toNat_lt
      have hb' : b'.toNat < 256 := b'.toNat_lt
      rw [hexText, hexText, List.flatMap_cons, List.flatMap_cons] at h
      simp only [List.cons_append, List.nil_append, List.cons.injEq] at h
      have hhigh := hbyte (by omega) (by omega) h.1
      have hlow := hbyte (by omega) (by omega) h.2.1
      have hsame : b = b' := UInt8.toNat_inj.mp (by omega)
      rw [hsame, ih h.2.2]

/-- A digest without collisions, and for the bytes of the `float` 1 that of MD5. -/
def exampleDigest (bytes : Bytes) : Bytes :=
  if bytes = [0, 0, 128, 63] then
    [66, 157, 129, 237, 39, 149, 227, 197, 134, 144, 108, 108, 51, 90, 161, 54]
  else List.replicate 17 0 ++ bytes

theorem exampleDigest_injective : Function.Injective exampleDigest := by
  intro l l' h
  unfold exampleDigest at h
  split at h <;> split at h
  · rename_i hl hl'
    rw [hl, hl']
  · have hlen := congrArg List.length h
    simp only [List.length_append, List.length_replicate, List.length_cons, List.length_nil] at hlen
    omega
  · have hlen := congrArg List.length h
    simp only [List.length_append, List.length_replicate, List.length_cons, List.length_nil] at hlen
    omega
  · exact List.append_cancel_left h

theorem length_exampleDigest (bytes : Bytes) :
    exampleDigest bytes = exampleDigest [0, 0, 128, 63] ∨ 17 ≤ (exampleDigest bytes).length := by
  by_cases h : bytes = [0, 0, 128, 63]
  · exact .inl (by rw [h])
  · right
    rw [exampleDigest, if_neg h, List.length_append, List.length_replicate]
    exact Nat.le_add_right _ _

theorem floatBytes_injective :
    Function.Injective fun v : List UInt32 => v.flatMap fun x => leBytes 4 x.toNat := by
  intro v v' h
  simp only at h
  induction v generalizing v' with
  | nil =>
    cases v' with
    | nil => rfl
    | cons x v' => cases h
  | cons x v ih =>
    cases v' with
    | nil => cases h
    | cons x' v' =>
      rw [List.flatMap_cons, List.flatMap_cons] at h
      obtain ⟨hx, hv⟩ := List.append_inj h (by rw [length_leBytes, length_leBytes])
      have hsame := congrArg ofLeBytes hx
      rw [ofLeBytes_leBytes x.toNat_lt, ofLeBytes_leBytes x'.toNat_lt] at hsame
      rw [UInt32.toNat_inj.mp hsame, ih hv]

theorem hashVector_exampleDigest : Function.Injective (hashVector exampleDigest) := by
  -- no digest is written as 32 zeros
  have hzeros : ∀ bytes, hexText (exampleDigest bytes) ≠ List.replicate 32 48 := by
    intro bytes h
    rcases length_exampleDigest bytes with hd | hd
    · rw [hd] at h
      exact absurd h (by decide)
    · have hlen := congrArg List.length h
      have hhex : ∀ l : Bytes, (hexText l).length = 2 * l.length := by
        intro l
        simp [hexText, List.length_flatMap, Nat.mul_comm]
      rw [hhex, List.length_replicate] at hlen
      omega
  intro v v' h
  unfold hashVector at h
  split at h <;> split at h
  · rename_i hv hv'
    rw [hv, hv']
  · exact absurd h.symm (hzeros _)
  · exact absurd h (hzeros _)
  · exact floatBytes_injective (exampleDigest_injective (hexText_injective h))

/-- Two queries that differ in the item and the filter have keys of their own, as have two that
    ask for another number of neighbours of a vector. -/
theorem cache_keys_separate_example :
    simKeyText { id := [120], topK := 5, filterExpr := [97, 61, 49] } ≠
        simKeyText { id := [120, 58, 53], topK := 5 } ∧
      simvKeyText exampleDigest { vector := [0x3F800000], topK := 5 } ≠
        simvKeyText exampleDigest { vector := [0x3F800000], topK := 6 } := by
  obtain ⟨hsim, hsimv, -⟩ := cache_keys_separate hashVector_exampleDigest
  refine ⟨fun h => ?_, fun h => absurd (hsimv _ _ h) (by decide)⟩
  have hboth : ¬ Shadows { id := [120], topK := 5, filterExpr := [97, 61, 49] }
      { id := [120, 58, 53], topK := 5 } ∧
      ¬ Shadows { id := [120, 58, 53], topK := 5 }
        { id := [120], topK := 5, filterExpr := [97, 61, 49] } := by
    constructor
    · rintro ⟨z, hid, -⟩
      have hlen := congrArg List.length hid
      simp [simFields, joined] at hlen
      omega
    · rintro ⟨z, hid, -⟩
      have hlen := congrArg List.length hid
      simp [simFields, joined] at hlen
  exact absurd ((hsim _ _).mpr hboth h) (by decide)

end Nvecd.Cache
