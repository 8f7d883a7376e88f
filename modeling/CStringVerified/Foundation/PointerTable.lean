import CStringVerified.Foundation.Heap
import Mathlib.Data.List.TakeWhile

/-!
# Terminated strings and tables of pointers to them

A string in memory runs up to its first nul byte. A pointer table is a sequence of slots of one
word each; a slot is null or points to a string. `Footprint` is the part of memory a table with its
strings occupies, and `Owned` a table that lies in live blocks of its own.
-/

namespace Foundation

variable {m m' : Memory} {a p : Address} {s : List Byte}

/-! ## Strings -/

/-- The part of a list of bytes before the first nul. -/
def cut (s : List Byte) : List Byte := s.takeWhile (· ≠ 0)

theorem cut_cons_zero (s : List Byte) : cut (0 :: s) = [] := rfl

theorem cut_cons_of_ne {b : Byte} (hb : b ≠ 0) (s : List Byte) : cut (b :: s) = b :: cut s :=
  List.takeWhile_cons_of_pos (decide_eq_true hb)

theorem zero_not_mem_cut (s : List Byte) : (0 : Byte) ∉ cut s := by
  intro h
  have hne := List.mem_takeWhile_imp (p := fun b : Byte => b ≠ 0) h
  exact of_decide_eq_true hne rfl

theorem cut_eq_self_iff : cut s = s ↔ (0 : Byte) ∉ s := by
  constructor
  · intro h hs
    rw [← h] at hs
    exact zero_not_mem_cut s hs
  · intro h
    refine List.takeWhile_eq_self_iff.mpr fun b hb => decide_eq_true ?_
    exact fun h0 => h (h0 ▸ hb)

/-- The cut ends at a nul, the appended one if there is no other. -/
theorem cut_append (s : List Byte) : ∃ rest, s ++ [0] = cut s ++ [0] ++ rest := by
  induction s with
  | nil => exact ⟨[], rfl⟩
  | cons b s ih =>
    obtain ⟨rest, hrest⟩ := ih
    by_cases hb : b = 0
    · subst hb
      exact ⟨s ++ [0], by rw [cut_cons_zero]; rfl⟩
    · refine ⟨rest, ?_⟩
      rw [cut_cons_of_ne hb, List.cons_append, hrest]
      simp

/-- The cut ends at a nul that is there. -/
theorem eq_cut_append (h : (0 : Byte) ∈ s) : ∃ rest, s = cut s ++ [0] ++ rest := by
  induction s with
  | nil => cases h
  | cons b s ih =>
    by_cases hb : b = 0
    · subst hb
      exact ⟨s, by rw [cut_cons_zero]; rfl⟩
    · have hmem : (0 : Byte) ∈ s := (List.mem_cons.mp h).resolve_left (Ne.symm hb)
      obtain ⟨rest, hrest⟩ := ih hmem
      refine ⟨rest, ?_⟩
      rw [cut_cons_of_ne hb, List.cons_append, List.cons_append, ← hrest]

theorem length_cut_le (s : List Byte) : (cut s).length ≤ s.length :=
  List.Sublist.length_le (List.takeWhile_sublist _)

/-- The terminated string `s` lies at `a`. -/
structure CStr (m : Memory) (a : Address) (s : List Byte) : Prop where
  holds : m.Holds a (s ++ [0])
  not_mem : (0 : Byte) ∉ s

namespace CStr

theorem byte_getElem (h : CStr m a s) {k : Nat} (hk : k < s.length) :
    m.byte (a.offset k) = some s[k] ∧ s[k] ≠ 0 := by
  refine ⟨?_, fun h0 => h.not_mem (h0 ▸ List.getElem_mem hk)⟩
  have := h.holds k (by simp; omega)
  rwa [List.getElem_append_left hk] at this

theorem byte_nul (h : CStr m a s) : m.byte (a.offset s.length) = some 0 := by
  have := h.holds s.length (by simp)
  simpa using this

/-- A string does not reach the end of the address space, where it would run into null. -/
theorem length_lt (h : CStr m a s) : a.toNat + s.length < 2 ^ 64 := by
  by_contra hlong
  have ha := a.isLt
  have hk : 2 ^ 64 - a.toNat < (s ++ [0]).length := by simp; omega
  have hnull : a.offset (2 ^ 64 - a.toNat) = 0 := by
    apply BitVec.eq_of_toNat_eq
    rw [Address.toNat_offset]
    show _ = 0
    omega
  exact Memory.ne_null_of_mapped (h.holds _ hk) hnull

theorem nonnull (h : CStr m a s) : a ≠ 0 := by
  rintro rfl
  have := h.holds 0 (by simp)
  rw [Address.offset_zero] at this
  exact Memory.ne_null_of_mapped this rfl

theorem congr (h : CStr m a s)
    (heq : ∀ x, a.InRegion (s.length + 1) x → m'.byte x = m.byte x) : CStr m' a s where
  holds := by
    refine h.holds.congr fun k hk => heq _ (Address.inRegion_offset a ?_)
    simpa using hk
  not_mem := h.not_mem

end CStr

/-- Bytes followed by a nul are a string: the one that ends at the first nul among them. -/
theorem cstr_cut (h : m.Holds a (s ++ [0])) : CStr m a (cut s) where
  holds := by
    obtain ⟨rest, hrest⟩ := cut_append s
    rw [hrest] at h
    exact (Memory.holds_append.mp h).1
  not_mem := zero_not_mem_cut s

/-- So are bytes with a nul among them. -/
theorem cstr_cut_of_mem (h : m.Holds a s) (h0 : (0 : Byte) ∈ s) : CStr m a (cut s) where
  holds := by
    obtain ⟨rest, hrest⟩ := eq_cut_append h0
    rw [hrest] at h
    exact (Memory.holds_append.mp h).1
  not_mem := zero_not_mem_cut s

/-- The first nul byte from `a` on is at distance `n`. -/
structure FirstNul (m : Memory) (a : Address) (n : Nat) : Prop where
  before : ∀ k, k < n → ∃ b, m.byte (a.offset k) = some b ∧ b ≠ 0
  nul : m.byte (a.offset n) = some 0

/-- The bytes before the first nul are a string. -/
theorem FirstNul.cstr {n : Nat} (h : FirstNul m a n) : ∃ s, s.length = n ∧ CStr m a s := by
  have hbyte : ∀ k, k < n → m.byte (a.offset k) = some ((m.byte (a.offset k)).getD 0) := by
    intro k hk
    obtain ⟨b, hb, -⟩ := h.before k hk
    rw [hb]
    rfl
  refine ⟨(List.range n).map fun k => (m.byte (a.offset k)).getD 0, by simp, ?_, ?_⟩
  · intro k hk
    by_cases hkn : k < n
    · rw [List.getElem_append_left (by simpa using hkn), List.getElem_map, List.getElem_range]
      exact hbyte k hkn
    · have hk' : k = n := by
        rw [List.length_append, List.length_map, List.length_range, List.length_singleton] at hk
        omega
      subst hk'
      rw [List.getElem_append_right (by simp)]
      simpa using h.nul
  · intro hmem
    obtain ⟨k, hk, hzero⟩ := List.mem_map.mp hmem
    obtain ⟨b, hb, hne⟩ := h.before k (List.mem_range.mp hk)
    rw [hb] at hzero
    exact hne hzero

/-! ## Tables -/

/-- The slot at `a` is null, or points to the given string. -/
def Slot (m : Memory) (a : Address) : Option (List Byte) → Prop
  | none => m.word a = some 0
  | some s => ∃ v, m.word a = some v ∧ CStr m v s

/-- The address of slot `k` of the table at `p`. -/
def slotAt (p : Address) (k : Nat) : Address := p.offset (8 * k)

/-- The slots of the table at `p`, from the first on. -/
def PointerTable (m : Memory) (p : Address) (slots : List (Option (List Byte))) : Prop :=
  ∀ k (hk : k < slots.length), Slot m (slotAt p k) slots[k]

/-- The slots of a table that ends with a null pointer. -/
def terminated (strings : List (List Byte)) : List (Option (List Byte)) :=
  strings.map some ++ [none]

/-- The first null slot of the table at `p` is number `n`. -/
structure NullAt (m : Memory) (p : Address) (n : Nat) : Prop where
  before : ∀ k, k < n → ∃ v, m.word (slotAt p k) = some v ∧ v ≠ 0
  null : m.word (slotAt p n) = some 0

@[simp] theorem length_terminated (strings : List (List Byte)) :
    (terminated strings).length = strings.length + 1 := by
  simp [terminated]

theorem getElem_terminated {strings : List (List Byte)} {k : Nat} (hk : k < strings.length)
    (hk' : k < (terminated strings).length) : (terminated strings)[k] = some strings[k] := by
  simp [terminated, List.getElem_append_left, hk]

namespace PointerTable

theorem string {strings : List (List Byte)} (h : PointerTable m p (terminated strings)) {k : Nat}
    (hk : k < strings.length) : Slot m (slotAt p k) (some strings[k]) := by
  have hk' : k < (terminated strings).length := by simp; omega
  have := h k hk'
  rwa [getElem_terminated hk hk'] at this

theorem nullAt {strings : List (List Byte)} (h : PointerTable m p (terminated strings)) :
    NullAt m p strings.length := by
  refine ⟨fun k hk => ?_, ?_⟩
  · obtain ⟨v, hv, hs⟩ := h.string hk
    exact ⟨v, hv, hs.nonnull⟩
  · have := h strings.length (by simp)
    simpa [terminated, Slot] using this

/-- The first slots are a table. -/
theorem take {slots : List (Option (List Byte))} (h : PointerTable m p slots) (n : Nat) :
    PointerTable m p (slots.take n) := by
  intro k hk
  rw [List.getElem_take]
  exact h k (lt_of_lt_of_le hk (List.length_take_le' n slots))

/-- One slot more. -/
theorem concat {slots : List (Option (List Byte))} (h : PointerTable m p slots)
    {slot : Option (List Byte)} (hslot : Slot m (slotAt p slots.length) slot) :
    PointerTable m p (slots ++ [slot]) := by
  intro k hk
  by_cases hk' : k < slots.length
  · rw [List.getElem_append_left hk']
    exact h k hk'
  · have hlast : k = slots.length := by
      rw [List.length_append, List.length_singleton] at hk
      omega
    subst hlast
    rw [List.getElem_append_right (le_refl _)]
    simpa using hslot

/-- The slots before a given one all point to strings, or there is a first one among them that does
not. -/
theorem strings_cases (m : Memory) (p : Address) (n : Nat) :
    (∃ strings : List (List Byte), strings.length = n ∧ PointerTable m p (strings.map some)) ∨
      ∃ strings : List (List Byte), strings.length < n ∧ PointerTable m p (strings.map some) ∧
        ∀ s, ¬Slot m (slotAt p strings.length) (some s) := by
  induction n with
  | zero => exact Or.inl ⟨[], rfl, fun k hk => absurd hk (Nat.not_lt_zero k)⟩
  | succ n ih =>
    rcases ih with ⟨strings, hlen, ht⟩ | ⟨strings, hlen, ht, hno⟩
    · by_cases hs : ∃ s, Slot m (slotAt p strings.length) (some s)
      · obtain ⟨s, hs⟩ := hs
        refine Or.inl ⟨strings ++ [s], by simp [hlen], ?_⟩
        rw [List.map_append]
        exact ht.concat (by simpa using hs)
      · exact Or.inr ⟨strings, by omega, ht, fun s hslot => hs ⟨s, hslot⟩⟩
    · exact Or.inr ⟨strings, by omega, ht, hno⟩

/-- The strings of a terminated table are a table without the last slot. -/
theorem dropNull {strings : List (List Byte)} (h : PointerTable m p (terminated strings)) :
    PointerTable m p (strings.map some) := by
  intro k hk
  have hk' : k < strings.length := by simpa using hk
  simpa using h.string hk'

end PointerTable

/-! ## Footprints -/

/-- What a slot and the string it points to occupy. -/
def SlotFootprint (m : Memory) (a : Address) (slot : Option (List Byte)) (x : Address) : Prop :=
  a.InRegion 8 x ∨ ∃ s v, slot = some s ∧ m.word a = some v ∧ Address.InRegion v (s.length + 1) x

/-- What a table and its strings occupy. -/
def Footprint (m : Memory) (p : Address) (slots : List (Option (List Byte))) (x : Address) : Prop :=
  ∃ k, ∃ hk : k < slots.length, SlotFootprint m (slotAt p k) slots[k] x

/-- A slot depends on its footprint only. -/
theorem Slot.congr {slot : Option (List Byte)} (h : Slot m a slot)
    (heq : ∀ x, SlotFootprint m a slot x → m'.byte x = m.byte x) : Slot m' a slot := by
  have hword : m'.word a = m.word a :=
    Memory.word_congr fun k hk => heq _ (Or.inl (Address.inRegion_offset a hk))
  cases slot with
  | none => exact hword.trans h
  | some s =>
    obtain ⟨v, hv, hs⟩ := h
    exact ⟨v, hword.trans hv, hs.congr fun x hx => heq x (Or.inr ⟨s, v, rfl, hv, hx⟩)⟩

theorem PointerTable.congr {slots : List (Option (List Byte))} (h : PointerTable m p slots)
    (heq : ∀ x, Footprint m p slots x → m'.byte x = m.byte x) : PointerTable m' p slots :=
  fun k hk => (h k hk).congr fun x hx => heq x ⟨k, hk, hx⟩

/-- A table is still there when nothing else is. -/
theorem PointerTable.only {slots : List (Option (List Byte))} (h : PointerTable m p slots) :
    PointerTable (m.only (Footprint m p slots)) p slots :=
  h.congr fun _ hx => Memory.byte_only_of_mem hx

/-- The end of a table is found in its slots, whatever they point to. -/
theorem NullAt.only {n : Nat} (h : NullAt m p n) :
    NullAt (m.only (p.InRegion (8 * (n + 1)))) p n := by
  have hword : ∀ k, k ≤ n →
      (m.only (p.InRegion (8 * (n + 1)))).word (slotAt p k) = m.word (slotAt p k) := by
    intro k hk
    refine Memory.word_congr fun i hi => Memory.byte_only_of_mem ?_
    rw [slotAt, Address.offset_offset]
    exact Address.inRegion_offset p (by omega)
  refine ⟨fun k hk => ?_, ?_⟩
  · rw [hword k (by omega)]
    exact h.before k hk
  · rw [hword n (le_refl n)]
    exact h.null

/-! ## Writing slots -/

theorem word_overwrite_self {w : BitVec 64}
    (hmap : ∀ k, k < 8 → (m.byte (a.offset k)).isSome) :
    (m.overwrite a (wordBytes w)).word a = some w :=
  Memory.word_of_holds (Memory.holds_overwrite (by simp) (by simpa using hmap))

/-- Writing a slot leaves the other slots alone. -/
theorem word_overwrite_slot {w : BitVec 64} {j k : Nat} (hj : 8 * j + 8 ≤ 2 ^ 64)
    (hk : 8 * k + 8 ≤ 2 ^ 64) (hjk : j ≠ k) :
    (m.overwrite (slotAt p k) (wordBytes w)).word (slotAt p j) = m.word (slotAt p j) := by
  refine Memory.word_congr fun i hi => Memory.byte_overwrite_of_not_inRegion fun hr => ?_
  rw [length_wordBytes, Address.inRegion_iff] at hr
  obtain ⟨i', hi', heq⟩ := hr
  unfold slotAt at heq
  rw [Address.offset_offset, Address.offset_offset] at heq
  have := Address.offset_injective p (by omega) (by omega) heq
  omega

/-! ## Tables in blocks of their own -/

/-- A slot that is null, or points to a block of its own that holds the string and a nul. -/
def OwnedSlot (h : Heap) (T : Block) (a : Address) : Option (List Byte) → Prop
  | none => h.mem.word a = some 0
  | some s => ∃ B ∈ h.live, T.Disjoint B ∧ B.size = s.length + 1 ∧ h.mem.word a = some B.base ∧
      h.mem.Holds B.base (s ++ [0])

/-- The live block `T` is a table, and the strings its slots point to lie in other live blocks. The
strings may hold nuls. -/
structure Owned (h : Heap) (T : Block) (slots : List (Option (List Byte))) : Prop where
  live : T ∈ h.live
  size_eq : T.size = 8 * slots.length
  slot : ∀ k (hk : k < slots.length), OwnedSlot h T (slotAt T.base k) slots[k]

namespace Owned

variable {h h' : Heap} {T : Block} {slots : List (Option (List Byte))}

theorem inRegion_slot (ho : Owned h T slots) {k : Nat} (hk : k < slots.length) {x : Address}
    (hx : (slotAt T.base k).InRegion 8 x) : T.Contains x := by
  obtain ⟨i, hi, rfl⟩ := (Address.inRegion_iff _ _ _).mp hx
  have hsize := ho.size_eq
  rw [slotAt, Address.offset_offset]
  exact T.contains_offset (by omega)

/-- Allocating more does not disturb a table. -/
theorem of_extends (ho : Owned h T slots) (he : h.Extends h') : Owned h' T slots where
  live := he.live T ho.live
  size_eq := ho.size_eq
  slot := by
    intro k hk
    have hword : h'.mem.word (slotAt T.base k) = h.mem.word (slotAt T.base k) :=
      he.word ho.live fun i hi => ho.inRegion_slot hk (Address.inRegion_offset _ hi)
    have hslot := ho.slot k hk
    cases hs : slots[k] with
    | none =>
      rw [hs] at hslot
      exact hword.trans hslot
    | some s =>
      rw [hs] at hslot
      obtain ⟨B, hB, hdisj, hsize, hw, hh⟩ := hslot
      refine ⟨B, he.live B hB, hdisj, hsize, hword.trans hw, he.holds hB (fun i hi => ?_) hh⟩
      exact B.contains_offset (by simp at hi; omega)

/-- Seen from outside: the strings end at their first nul. -/
theorem table (ho : Owned h T slots) :
    PointerTable h.mem T.base (slots.map (Option.map cut)) := by
  intro k hk
  have hk' : k < slots.length := by simpa using hk
  have hslot := ho.slot k hk'
  rw [List.getElem_map]
  cases hs : slots[k] with
  | none => rwa [hs] at hslot
  | some s =>
    rw [hs] at hslot
    obtain ⟨B, -, -, -, hw, hh⟩ := hslot
    exact ⟨B.base, hw, cstr_cut hh⟩

/-- Let a slot point to a block that holds a string. -/
theorem store (ho : Owned h T slots) {k : Nat} (hk : k < slots.length) {B : Block}
    (hB : B ∈ h.live) (hdisj : T.Disjoint B) (hsize : B.size = s.length + 1)
    (hh : h.mem.Holds B.base (s ++ [0])) :
    Owned (h.overwrite (slotAt T.base k) (wordBytes B.base)) T (slots.set k (some s)) := by
  have hT := T.size_lt
  have hTs := ho.size_eq
  -- strings in blocks away from the table are not written
  have hkeep : ∀ C : Block, T.Disjoint C → ∀ bs : List Byte, C.size = bs.length →
      h.mem.Holds C.base bs →
      (h.overwrite (slotAt T.base k) (wordBytes B.base)).mem.Holds C.base bs := by
    intro C hC bs hbs hholds
    refine hholds.congr fun i hi => Memory.byte_overwrite_of_not_inRegion fun hr => ?_
    rw [length_wordBytes] at hr
    exact hC _ (ho.inRegion_slot hk hr) (C.contains_offset (by omega))
  refine ⟨ho.live, by simpa using hTs, fun j hj => ?_⟩
  rw [List.length_set] at hj
  by_cases hjk : k = j
  · subst hjk
    rw [List.getElem_set_self]
    refine ⟨B, hB, hdisj, hsize, ?_, hkeep B hdisj _ (by simpa using hsize) hh⟩
    refine word_overwrite_self fun i hi => h.live_mapped T ho.live _ ?_
    exact ho.inRegion_slot hk (Address.inRegion_offset _ hi)
  · rw [List.getElem_set_ne hjk]
    have hword : (h.overwrite (slotAt T.base k) (wordBytes B.base)).mem.word (slotAt T.base j) =
        h.mem.word (slotAt T.base j) := word_overwrite_slot (by omega) (by omega) (Ne.symm hjk)
    have hslot := ho.slot j hj
    cases hs : slots[j] with
    | none =>
      rw [hs] at hslot
      exact hword.trans hslot
    | some s' =>
      rw [hs] at hslot
      obtain ⟨C, hC, hCd, hCs, hw, hch⟩ := hslot
      exact ⟨C, hC, hCd, hCs, hword.trans hw, hkeep C hCd _ (by simpa using hCs) hch⟩

end Owned

end Foundation
