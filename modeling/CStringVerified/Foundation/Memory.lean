import Mathlib.Data.BitVec

/-!
# Byte-addressed memory

A 64-bit address space of which some bytes are mapped. Address arithmetic is modular; a region is
the set of addresses at a distance below its size from its base, so it may wrap. Words are eight
bytes, least significant first. The null address is never mapped.
-/

namespace Foundation

/-- A byte of memory. -/
abbrev Byte := BitVec 8

/-- An address of a byte. -/
abbrev Address := BitVec 64

/-- The address `k` bytes further on, modulo the size of the address space. -/
def Address.offset (a : Address) (k : Nat) : Address := a + BitVec.ofNat 64 k

namespace Address

@[simp] theorem offset_zero (a : Address) : a.offset 0 = a := by
  simp [offset]

@[simp] theorem offset_offset (a : Address) (i j : Nat) :
    (a.offset i).offset j = a.offset (i + j) := by
  simp [offset, BitVec.add_assoc, BitVec.ofNat_add]

theorem toNat_offset (a : Address) (k : Nat) : (a.offset k).toNat = (a.toNat + k) % 2 ^ 64 := by
  simp [offset]

/-- The distance of an address of a region from the region's base. -/
theorem offset_sub_toNat (a : Address) {k : Nat} (hk : k < 2 ^ 64) :
    (a.offset k - a).toNat = k := by
  rw [BitVec.toNat_sub, toNat_offset]
  have := a.isLt
  omega

theorem offset_toNat_sub (a x : Address) : a.offset (x - a).toNat = x := by
  rw [offset, BitVec.ofNat_toNat, BitVec.setWidth_eq, BitVec.add_comm, BitVec.sub_add_cancel]

theorem offset_injective (a : Address) {i j : Nat} (hi : i < 2 ^ 64) (hj : j < 2 ^ 64)
    (h : a.offset i = a.offset j) : i = j := by
  rw [← offset_sub_toNat a hi, ← offset_sub_toNat a hj, h]

/-- The addresses at a distance below `n` from `a`. -/
def InRegion (a : Address) (n : Nat) (x : Address) : Prop := (x - a).toNat < n

instance (a : Address) (n : Nat) (x : Address) : Decidable (a.InRegion n x) :=
  inferInstanceAs (Decidable (_ < _))

theorem inRegion_offset (a : Address) {n k : Nat} (hk : k < n) : a.InRegion n (a.offset k) := by
  by_cases h : k < 2 ^ 64
  · rw [InRegion, offset_sub_toNat a h]; exact hk
  · have := (a.offset k - a).isLt
    unfold InRegion
    omega

theorem inRegion_iff (a : Address) (n : Nat) (x : Address) :
    a.InRegion n x ↔ ∃ k, k < n ∧ x = a.offset k := by
  constructor
  · intro h
    exact ⟨(x - a).toNat, h, (offset_toNat_sub a x).symm⟩
  · rintro ⟨k, hk, rfl⟩
    exact inRegion_offset a hk

theorem InRegion.mono {a : Address} {n n' : Nat} {x : Address} (h : a.InRegion n x)
    (hn : n ≤ n') : a.InRegion n' x := lt_of_lt_of_le h hn

end Address

/-! ## Words -/

/-- The bytes of a word, least significant first. -/
def wordBytes (w : BitVec 64) : List Byte :=
  (List.range 8).map fun i => (w >>> (8 * i)).setWidth 8

/-- The word made of some bytes, least significant first. -/
def ofWordBytes (bs : List Byte) : BitVec 64 :=
  bs.foldr (fun b acc => acc <<< 8 ||| b.setWidth 64) 0

@[simp] theorem length_wordBytes (w : BitVec 64) : (wordBytes w).length = 8 := by
  simp [wordBytes]

theorem getLsbD_ofWordBytes (bs : List Byte) {i : Nat} (hi : i < 64) :
    (ofWordBytes bs).getLsbD i = (bs.getD (i / 8) 0).getLsbD (i % 8) := by
  induction bs generalizing i with
  | nil => simp [ofWordBytes]
  | cons b bs ih =>
    simp only [ofWordBytes, List.foldr_cons, BitVec.getLsbD_or, BitVec.getLsbD_shiftLeft,
      BitVec.getLsbD_setWidth] at ih ⊢
    by_cases h8 : i < 8
    · simp [h8, hi, Nat.div_eq_of_lt h8, Nat.mod_eq_of_lt h8]
    · have hdiv : i / 8 = (i - 8) / 8 + 1 := by omega
      have hmod : i % 8 = (i - 8) % 8 := by omega
      rw [ih (i := i - 8) (by omega), hdiv, hmod]
      simp only [hi, h8, decide_true, decide_false, Bool.not_false, Bool.true_and,
        List.getD_cons_succ, Bool.or_eq_left_iff_imp]
      intro h
      have := BitVec.lt_of_getLsbD h
      omega

@[simp] theorem ofWordBytes_wordBytes (w : BitVec 64) : ofWordBytes (wordBytes w) = w := by
  apply BitVec.eq_of_getLsbD_eq
  intro i hi
  have h8 : i / 8 < 8 := by omega
  rw [getLsbD_ofWordBytes _ hi]
  simp only [wordBytes, List.getD_eq_getElem?_getD, List.getElem?_map, List.getElem?_range h8,
    Option.map_some, Option.getD_some, BitVec.getLsbD_setWidth, BitVec.getLsbD_ushiftRight]
  rw [show 8 * (i / 8) + i % 8 = i by omega]
  simp only [Bool.and_eq_right_iff_imp, decide_eq_true_eq]
  omega

/-! ## Memory -/

/-- Memory: what each mapped byte holds. No object lives at the null address. -/
structure Memory where
  /-- The byte at an address, if it is mapped. -/
  byte : Address → Option Byte
  /-- The null address is not mapped. -/
  null_unmapped : byte 0 = none

namespace Memory

variable {m m' : Memory} {a : Address} {bs : List Byte}

theorem ne_null_of_mapped {b : Byte} (h : m.byte a = some b) : a ≠ 0 := by
  rintro rfl
  rw [m.null_unmapped] at h
  cases h

/-- The `n` bytes from `a` on, if all of them are mapped. -/
def bytes (m : Memory) : Address → Nat → Option (List Byte)
  | _, 0 => some []
  | a, n + 1 =>
    match m.byte a, m.bytes (a.offset 1) n with
    | some b, some bs => some (b :: bs)
    | _, _ => none

/-- The word at `a`. -/
def word (m : Memory) (a : Address) : Option (BitVec 64) := (m.bytes a 8).map ofWordBytes

/-- The bytes `bs` lie at `a`. -/
def Holds (m : Memory) (a : Address) (bs : List Byte) : Prop :=
  ∀ k (hk : k < bs.length), m.byte (a.offset k) = some bs[k]

theorem bytes_congr {n : Nat} (h : ∀ k, k < n → m.byte (a.offset k) = m'.byte (a.offset k)) :
    m.bytes a n = m'.bytes a n := by
  induction n generalizing a with
  | zero => rfl
  | succ n ih =>
    have h0 : m.byte a = m'.byte a := by simpa using h 0 (by omega)
    have hrest : m.bytes (a.offset 1) n = m'.bytes (a.offset 1) n :=
      ih fun k hk => by rw [Address.offset_offset]; exact h (1 + k) (by omega)
    simp only [bytes, h0, hrest]

/-- A word depends on its eight bytes only. -/
theorem word_congr (h : ∀ k, k < 8 → m.byte (a.offset k) = m'.byte (a.offset k)) :
    m.word a = m'.word a := by
  rw [word, word, bytes_congr h]

/-- Every byte of what was read is mapped. -/
theorem mapped_of_bytes {n : Nat} (h : m.bytes a n = some bs) {k : Nat} (hk : k < n) :
    ∃ b, m.byte (a.offset k) = some b := by
  induction n generalizing a bs k with
  | zero => omega
  | succ n ih =>
    simp only [bytes] at h
    split at h
    · rename_i b bs' hb hbs
      cases k with
      | zero => exact ⟨b, by simpa using hb⟩
      | succ k =>
        have := ih hbs (k := k) (by omega)
        rwa [Address.offset_offset, Nat.add_comm] at this
    · cases h

theorem mapped_of_word {w : BitVec 64} (h : m.word a = some w) {k : Nat} (hk : k < 8) :
    ∃ b, m.byte (a.offset k) = some b := by
  obtain ⟨bs, hbs, -⟩ := Option.map_eq_some_iff.mp h
  exact mapped_of_bytes hbs hk

theorem Holds.bytes_eq (h : m.Holds a bs) : m.bytes a bs.length = some bs := by
  induction bs generalizing a with
  | nil => rfl
  | cons b bs ih =>
    have h0 : m.byte a = some b := by
      have := h 0 (by simp)
      rwa [Address.offset_zero] at this
    have hrest : m.Holds (a.offset 1) bs := by
      intro k hk
      rw [Address.offset_offset, Nat.add_comm]
      exact h (k + 1) (by simpa using hk)
    simp only [List.length_cons, bytes, h0, ih hrest]

theorem word_of_holds {w : BitVec 64} (h : m.Holds a (wordBytes w)) : m.word a = some w := by
  have := h.bytes_eq
  rw [length_wordBytes] at this
  simp [word, this]

theorem Holds.congr (h : m.Holds a bs)
    (heq : ∀ k, k < bs.length → m'.byte (a.offset k) = m.byte (a.offset k)) : m'.Holds a bs :=
  fun k hk => (heq k hk).trans (h k hk)

theorem holds_append {bs' : List Byte} :
    m.Holds a (bs ++ bs') ↔ m.Holds a bs ∧ m.Holds (a.offset bs.length) bs' := by
  constructor
  · intro h
    refine ⟨fun k hk => ?_, fun k hk => ?_⟩
    · have := h k (by simp; omega)
      rwa [List.getElem_append_left hk] at this
    · have := h (bs.length + k) (by simp; omega)
      rw [Address.offset_offset, this]
      simp
  · rintro ⟨h1, h2⟩ k hk
    by_cases hkb : k < bs.length
    · rw [List.getElem_append_left hkb]
      exact h1 k hkb
    · have hk' : k - bs.length < bs'.length := by simp at hk; omega
      have := h2 (k - bs.length) hk'
      rw [Address.offset_offset, show bs.length + (k - bs.length) = k by omega] at this
      rw [this, List.getElem_append_right (by omega)]

/-! ## Writing, mapping and cutting down -/

/-- Put `bs` at `a`. Addresses that are not mapped stay so. -/
def overwrite (m : Memory) (a : Address) (bs : List Byte) : Memory where
  byte x :=
    match bs[(x - a).toNat]? with
    | some b => (m.byte x).map fun _ => b
    | none => m.byte x
  null_unmapped := by simp only [m.null_unmapped]; split <;> rfl

theorem mapped_overwrite (x : Address) :
    ((m.overwrite a bs).byte x).isSome = (m.byte x).isSome := by
  simp only [overwrite]
  split <;> simp

theorem byte_overwrite_of_not_inRegion {x : Address} (h : ¬ a.InRegion bs.length x) :
    (m.overwrite a bs).byte x = m.byte x := by
  have : bs[(x - a).toNat]? = none := by
    rw [List.getElem?_eq_none_iff]
    exact Nat.le_of_not_lt h
  simp only [overwrite, this]

theorem holds_overwrite (hsize : bs.length ≤ 2 ^ 64)
    (hmap : ∀ k, k < bs.length → (m.byte (a.offset k)).isSome) : (m.overwrite a bs).Holds a bs := by
  intro k hk
  obtain ⟨b, hb⟩ := Option.isSome_iff_exists.mp (hmap k hk)
  have hsub : (a.offset k - a).toNat = k := Address.offset_sub_toNat a (by omega)
  simp only [overwrite, hsub, List.getElem?_eq_getElem hk, hb, Option.map_some]

/-- The memory where only `bs` lies, at `a`. -/
def ofBytes (a : Address) (bs : List Byte) : Memory where
  byte x := if x = 0 then none else bs[(x - a).toNat]?
  null_unmapped := rfl

theorem holds_ofBytes (ha : a ≠ 0) (hsize : a.toNat + bs.length ≤ 2 ^ 64) :
    (ofBytes a bs).Holds a bs := by
  intro k hk
  have ha0 : a.toNat ≠ 0 := fun h => ha (BitVec.eq_of_toNat_eq h)
  have hne : a.offset k ≠ 0 := by
    intro h
    have := congrArg BitVec.toNat h
    rw [Address.toNat_offset, Nat.mod_eq_of_lt (by omega)] at this
    have h0 : (0 : Address).toNat = 0 := rfl
    omega
  simp only [ofBytes, if_neg hne, Address.offset_sub_toNat a (show k < 2 ^ 64 by omega),
    List.getElem?_eq_getElem hk]

/-- The part of the memory whose addresses satisfy `S`. -/
noncomputable def only (m : Memory) (S : Address → Prop) : Memory where
  byte x := open Classical in if S x then m.byte x else none
  null_unmapped := by rw [m.null_unmapped, ite_self]

theorem byte_only_of_mem {S : Address → Prop} {x : Address} (h : S x) :
    (m.only S).byte x = m.byte x := by
  simp [only, h]

end Memory

/-! ## Blocks -/

/-- A block of memory: a region that neither wraps around nor holds the null address. -/
structure Block where
  /-- The first address. -/
  base : Address
  /-- The number of bytes. -/
  size : Nat
  /-- The block ends within the address space. -/
  inside : base.toNat + size ≤ 2 ^ 64
  /-- The block does not start at the null address. -/
  nonnull : base ≠ 0

namespace Block

/-- The addresses of a block. -/
def Contains (b : Block) (x : Address) : Prop := b.base.InRegion b.size x

instance (b : Block) (x : Address) : Decidable (b.Contains x) :=
  inferInstanceAs (Decidable (b.base.InRegion b.size x))

/-- No address is in both blocks. -/
def Disjoint (b c : Block) : Prop := ∀ x, b.Contains x → ¬ c.Contains x

theorem Disjoint.symm {b c : Block} (h : b.Disjoint c) : c.Disjoint b :=
  fun x hc hb => h x hb hc

theorem size_lt (b : Block) : b.size < 2 ^ 64 := by
  have h1 := b.inside
  have h2 : b.base.toNat ≠ 0 := fun h => b.nonnull (BitVec.eq_of_toNat_eq h)
  omega

theorem contains_offset (b : Block) {k : Nat} (hk : k < b.size) : b.Contains (b.base.offset k) :=
  Address.inRegion_offset b.base hk

/-- A block does not wrap: its addresses are an interval. -/
theorem contains_iff (b : Block) (x : Address) :
    b.Contains x ↔ b.base.toNat ≤ x.toNat ∧ x.toNat < b.base.toNat + b.size := by
  have h1 := b.inside
  have h2 := b.base.isLt
  have h3 := x.isLt
  unfold Contains Address.InRegion
  rw [BitVec.toNat_sub]
  omega

/-- A block that ends before another one starts is disjoint from it. -/
theorem disjoint_of_le {b c : Block} (h : c.base.toNat + c.size ≤ b.base.toNat) : b.Disjoint c := by
  intro x hb hc
  rw [contains_iff] at hb hc
  omega

theorem not_contains_null (b : Block) : ¬ b.Contains 0 := by
  have h : b.base.toNat ≠ 0 := fun h => b.nonnull (BitVec.eq_of_toNat_eq h)
  rw [contains_iff, show (0 : Address).toNat = 0 from rfl]
  omega

end Block

namespace Memory

/-- Map a block. What it holds is what was mapped there before, or else whatever `fill` says. -/
def map (m : Memory) (b : Block) (fill : Address → Byte) : Memory where
  byte x := if b.Contains x then some ((m.byte x).getD (fill x)) else m.byte x
  null_unmapped := by rw [if_neg b.not_contains_null, m.null_unmapped]

theorem mapped_map {m : Memory} {b : Block} {fill : Address → Byte} {x : Address}
    (h : b.Contains x) : ((m.map b fill).byte x).isSome := by
  simp [map, h]

theorem byte_map_of_not_contains {m : Memory} {b : Block} {fill : Address → Byte} {x : Address}
    (h : ¬ b.Contains x) : (m.map b fill).byte x = m.byte x := by
  simp [map, h]

end Memory

end Foundation
