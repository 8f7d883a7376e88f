import CStringVerified.Ada.Proofs.ReadProofs

/-!
# Two ways to the address of a slot

`Size_Terminated` steps an address by one word a round; `Index_Address` multiplies the index by the
size of a word. The sum is one of addresses, the product one of `Integer`s.
-/

namespace CStringVerified.CString.Arrays

open Foundation

variable {h : Heap} {p : Address} {size index : Natural}

/-- After `k` rounds the loop of `Size_Terminated` is at slot `k` and has counted `k`. -/
theorem rounds_sizeTerminatedBody {k : Nat} {state : Address × Natural} {h' : Heap}
    (hr : Run.rounds sizeTerminatedBody k (p, ⟨0, Nat.zero_le _⟩) h = some (state, h')) :
    state.1 = slotAt p k ∧ state.2.val = k := by
  have hinv := Run.rounds_inv (fun k (state : Address × Natural) _ =>
    state.1 = slotAt p k ∧ state.2.val = k) ?_ (k := 0) (by simp [slotAt]) hr
  · simpa using hinv
  rintro k ⟨a, size⟩ t ⟨a', size'⟩ t' ⟨ha, hsize⟩ hbody
  simp only at ha hsize
  subst ha hsize
  simp only [sizeTerminatedBody] at hbody
  obtain ⟨w, t1, -, hrest⟩ := Run.bind_eq_ok hbody
  by_cases hw : w = 0
  · rw [if_pos hw] at hrest
    cases hrest
  · rw [if_neg hw] at hrest
    obtain ⟨next, t2, hsucc, hret⟩ := Run.bind_eq_ok hrest
    unfold succNatural at hsucc
    split at hsucc
    · cases hsucc
      cases hret
      exact ⟨slotAt_succ p size.val, rfl⟩
    · cases hsucc

/-- The rounds are made as long as the slots are not null and `Natural` can count them. -/
theorem rounds_of_nonnull {k : Nat} (hk : k ≤ integerLast)
    (hslots : ∀ j, j < k → ∃ v, h.mem.word (slotAt p j) = some v ∧ v ≠ 0) :
    Run.rounds sizeTerminatedBody k (p, ⟨0, Nat.zero_le _⟩) h =
      some ((slotAt p k, ⟨k, hk⟩), h) := by
  have hstep : ∀ j (state : Address × Natural) (t : Heap), j < k →
      (state.1 = slotAt p j ∧ state.2.val = j ∧ t = h) →
      ∃ state' t', sizeTerminatedBody state t = (.ok (.inl state'), t') ∧
        (state'.1 = slotAt p (j + 1) ∧ state'.2.val = j + 1 ∧ t' = h) := by
    rintro j ⟨a, size⟩ t hj ⟨ha, hsize, rfl⟩
    simp only at ha hsize
    subst ha hsize
    obtain ⟨w, hw, hne⟩ := hslots size.val hj
    exact ⟨_, t, sizeTerminatedBody_next hw hne (by omega), slotAt_succ p size.val, rfl, rfl⟩
  obtain ⟨⟨a, size⟩, h', hr, ha, hsize, rfl⟩ := Run.rounds_spec _ hstep k 0 (Nat.zero_add k)
    (b := (p, ⟨0, Nat.zero_le _⟩)) (s := h) ⟨by simp [slotAt], rfl, rfl⟩
  rw [hr]
  congr 3
  exact Subtype.ext hsize

/-- The address of a slot inside the address space does not wrap. -/
theorem toNat_slotAt {k n : Nat} (hspace : p.toNat + 8 * n ≤ 2 ^ 64) (hk : k < n) :
    (slotAt p k).toNat = p.toNat + 8 * k := by
  rw [slotAt, Address.toNat_offset, Nat.mod_eq_of_lt (by omega)]

/-- The slot at `index` is reached: its address is computed without an exception, it is the one the
loop of `Size_Terminated` inspects in that round, and the readers fetch what the slot there points
to. -/
structure SlotReached (p : Address) (size index : Natural) : Prop where
  computed : ∀ h, ∃ a, indexAddress p size index h = (.ok a, h) ∧ a.toNat = p.toNat + 8 * index.val
  inspected : ∀ h state h',
    Run.rounds sizeTerminatedBody index.val (p, ⟨0, Nat.zero_le _⟩) h = some (state, h') →
      indexAddress p size index h = (.ok state.1, h)
  counted : ∀ h : Heap,
    (∀ j, j < index.val → ∃ v, h.mem.word (slotAt p j) = some v ∧ v ≠ 0) →
      ∃ state, Run.rounds sizeTerminatedBody index.val (p, ⟨0, Nat.zero_le _⟩) h = some (state, h)
  fetched : ∀ h, CString.Arrays.index p size index h = slotString (slotAt p index.val) h
  fetchedTerminated : ∀ (h : Heap) (n : Nat), NullAt h.mem p n → n ≤ integerLast → index.val < n →
    indexTerminated p index h = slotString (slotAt p index.val) h
  converted : ∀ h (k : Natural), k.val ≤ index.val →
    indexCore p size k h = slotString (slotAt p k.val) h

theorem indexCore_slotString (size : Natural) {k : Natural} (hk : k.val * wordSize ≤ integerLast) :
    indexCore p size k h = slotString (slotAt p k.val) h := by
  unfold indexCore
  exact Run.bind_ok (indexAddress_eq size k hk)

theorem index_slotString (hi : index.val < size.val) (hw : index.val * wordSize ≤ integerLast) :
    CString.Arrays.index p size index h = slotString (slotAt p index.val) h := by
  have hcore := indexCore_slotString (p := p) (h := h) size hw
  unfold CString.Arrays.index boundedIndex
  rw [if_neg (by omega)]
  match hs : slotString (slotAt p index.val) h with
  | (.ok s, t) => exact (Run.bind_ok (hcore.trans hs)).trans rfl
  | (.error e, t) => exact Run.bind_error (hcore.trans hs)

/-- An index below `Size` is reached exactly if its product with `Word_Size` is an `Integer`. -/
theorem slotReached_iff (p : Address) (size index : Natural) (hi : index.val < size.val)
    (hspace : p.toNat + 8 * size.val ≤ 2 ^ 64) :
    SlotReached p size index ↔ index.val * wordSize ≤ integerLast := by
  constructor
  · intro hr
    by_contra hover
    obtain ⟨a, ha, -⟩ := hr.computed (Heap.ofMemory (Memory.ofBytes 8 []))
    rw [indexAddress_over size index (by omega)] at ha
    cases ha
  · intro hw
    have haddr : ∀ h, indexAddress p size index h = (.ok (slotAt p index.val), h) :=
      fun h => indexAddress_eq size index hw
    refine ⟨fun h => ⟨_, haddr h, toNat_slotAt hspace hi⟩, ?_, ?_, ?_, ?_, ?_⟩
    · intro h state h' hrounds
      rw [haddr h, (rounds_sizeTerminatedBody hrounds).1]
    · intro h hslots
      exact ⟨_, rounds_of_nonnull index.property hslots⟩
    · intro h
      exact index_slotString hi hw
    · intro h n hnull hn hlt
      have hfetch : CString.Arrays.index p ⟨n, hn⟩ index h = slotString (slotAt p index.val) h :=
        index_slotString hlt hw
      unfold indexTerminated boundedIndexTerminated
      rw [Run.bind_ok (sizeTerminated_eq hnull hn)]
      exact hfetch
    · intro h k hk
      refine indexCore_slotString size ?_
      unfold wordSize at *
      omega

theorem slotReached_six : SlotReached 4096 ⟨7, by decide⟩ ⟨6, by decide⟩ :=
  (slotReached_iff 4096 ⟨7, by decide⟩ ⟨6, by decide⟩ (by decide) (by decide)).mpr (by decide)

/-- Slot number 2 ** 28 of a table with one slot more: the product overflows. -/
theorem slot_not_reached : ¬ ∀ (p : Address) (size index : Natural), index.val < size.val →
    p.toNat + 8 * size.val ≤ 2 ^ 64 → SlotReached p size index := by
  intro hall
  have hr := hall 4096 ⟨268435457, by decide⟩ ⟨268435456, by decide⟩ (by decide) (by decide)
  obtain ⟨a, ha, -⟩ := hr.computed (Heap.ofMemory (Memory.ofBytes 8 []))
  rw [indexAddress_over _ _ (by decide)] at ha
  cases ha

end CStringVerified.CString.Arrays
