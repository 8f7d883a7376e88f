import CStringVerified.Ada.Proofs.AgreementProofs
import CStringVerified.Ada.Proofs.EncodeProofs

/-!
# Encoding and decoding

An array of strings that is converted to C and back comes out from 0 on, every string cut before its
first nul. The terminated encoder has this property; the sized one loses the last string.
-/

namespace CStringVerified.CString.Arrays

open Foundation

/-- `table` holds the strings of `strings` from 0 on, each cut before its first nul. -/
structure DecodesTo (strings table : StringArray) : Prop where
  first : table.first = 0
  last : table.last = (strings.length : Int) - 1
  element : ∀ i : Nat, i < strings.length → ∃ u v, table.get? i = some u ∧
    strings.get? (strings.first + i) = some v ∧ u.chars = cut v.chars ∧
    (u = v ↔ (0 : Byte) ∉ v.chars)

theorem UnboundedString_ext {u v : UnboundedString} (h : u.chars = v.chars) : u = v := by
  cases u
  cases v
  cases h
  rfl

/-- Decoding a table whose slots hold the strings of `strings`. -/
theorem decodesTo_of_chars {strings table : StringArray} (hfirst : table.first = 0)
    (hlast : table.last = (strings.length : Int) - 1)
    (helem : ∀ (i : Nat) (hi : i < strings.elems.length), ∃ u, table.get? i = some u ∧
      u.chars = cut strings.elems[i].chars) : DecodesTo strings table := by
  refine ⟨hfirst, hlast, fun i hi => ?_⟩
  have hi' : i < strings.elems.length := hi
  obtain ⟨u, hu, hchars⟩ := helem i hi'
  refine ⟨u, strings.elems[i], hu, ?_, hchars, ?_⟩
  · rw [Arr.get?_first_add]
    exact List.getElem?_eq_getElem hi'
  · rw [← cut_eq_self_iff, ← hchars]
    exact ⟨fun h => h ▸ rfl, UnboundedString_ext⟩

/-- The slots of the terminated encoder, seen from outside. -/
theorem map_cut_slotsAfter (strings : StringArray) :
    (slotsAfter strings (strings.length + 1) strings.length).map (Option.map cut) =
      terminated (strings.elems.map fun u => cut u.chars) := by
  have hlen : strings.elems.length = strings.length := rfl
  refine List.ext_getElem (by simp [hlen]) fun i h1 h2 => ?_
  simp only [List.length_map, length_slotsAfter] at h1
  simp only [slotsAfter, terminated, List.getElem_map, List.getElem_range]
  by_cases hi : i < strings.length
  · have hi' : i < strings.elems.length := hi
    rw [if_pos hi, List.getElem_append_left (by simpa using hi')]
    simp [hi']
  · obtain rfl : i = strings.length := by omega
    rw [if_neg (by omega), List.getElem_append_right (by simp [hlen])]
    simp

/-- The terminated round trip, on every heap with every allocator: the call returns unless one of its
requests is refused, and what it returns decodes to the strings, also after further calls. -/
theorem terminated_round_trip (A : Allocator) (h : Heap) (strings : StringArray)
    (hne : 0 < strings.length) (hlast : strings.last < integerLast)
    (hsize : (strings.length - 1) * wordSize ≤ integerLast) :
    (∃ h', convertToCTerminated A strings h = (.error (.raised .storageError), h') ∧
      A.Refuses h h' (requests strings (strings.length + 1))) ∨
    ∃ pa h', convertToCTerminated A strings h = (.ok pa, h') ∧ ∀ calls : List EncodeCall,
      ∃ (n : Natural) (table : StringArray), n.val = strings.length ∧
        sizeTerminatedAllocated pa (runCalls A calls h') = (.ok n, runCalls A calls h') ∧
        convertTerminatedAllocated pa (runCalls A calls h') = (.ok table, runCalls A calls h') ∧
        DecodesTo strings table := by
  obtain ⟨r, h', hrun, -, hcase⟩ := convertToCTerminated_spec A h strings hne hlast
  rcases hcase with ⟨e, rfl, rfl, hrefuses⟩ | ⟨T, rfl, howned⟩
  · exact Or.inl ⟨h', hrun, hrefuses⟩
  · refine Or.inr ⟨⟨T.base⟩, h', hrun, fun calls => ?_⟩
    have hbounds := strings.length_eq_bounds
    obtain ⟨hlow, hle, -⟩ := first_nonneg hne
    have hint : strings.length ≤ integerLast := by omega
    have ht := (howned.of_extends (runCalls_extends A calls h')).table
    rw [map_cut_slotsAfter] at ht
    generalize runCalls A calls h' = h'' at ht ⊢
    have hlen : (strings.elems.map fun u => cut u.chars).length = strings.length := by
      rw [List.length_map]
      rfl
    have hnull : NullAt h''.mem T.base strings.length := hlen ▸ ht.nullAt
    have hshort : ∀ slot ∈ (strings.elems.map fun u => cut u.chars).map some,
        (slot.getD []).length ≤ integerLast := by
      intro slot hslot
      obtain ⟨s, hs, rfl⟩ := List.mem_map.mp hslot
      obtain ⟨u, -, rfl⟩ := List.mem_map.mp hs
      exact (length_cut_le u.chars).trans u.length_le
    have hlen' : ((strings.elems.map fun u => cut u.chars).map some).length = strings.length := by
      rw [List.length_map, hlen]
    obtain ⟨table, hconv, hfirst, hlast', helem⟩ := convert_eq ht.dropNull
      (show (⟨strings.length, hint⟩ : Natural).val = _ from hlen'.symm) (by rwa [hlen']) hshort
    refine ⟨⟨strings.length, hint⟩, table, rfl, sizeTerminated_eq hnull hint, ?_,
      decodesTo_of_chars hfirst hlast' fun i hi => ?_⟩
    · exact (convertTerminatedIs_of_convertIs hnull ⟨hconv, hconv⟩).2
    · obtain ⟨u, hu, hchars⟩ := helem i (hlen'.symm ▸ hi)
      refine ⟨u, hu, hchars.trans ?_⟩
      rw [List.getElem_map, List.getElem_map]
      rfl

/-- The array `(0 => "a")`. -/
def oneA : StringArray where
  first := 0
  last := 0
  elems := [⟨[97], by decide⟩]
  length_eq := rfl
  bounds := by decide

/-- A heap where nothing is mapped. -/
def emptyHeap : Heap := Heap.ofMemory (Memory.ofBytes 8 [])

theorem terminated_round_trip_oneA :
    ∃ pa h', convertToCTerminated Allocator.bump oneA emptyHeap = (.ok pa, h') ∧
      ∃ table, convertTerminatedAllocated pa h' = (.ok table, h') ∧ DecodesTo oneA table := by
  have hok : (convertToCTerminated Allocator.bump oneA emptyHeap).1 = .ok ⟨8⟩ := by rfl
  rcases terminated_round_trip Allocator.bump emptyHeap oneA (by decide) (by decide) (by decide) with
    ⟨h', hrun, -⟩ | ⟨pa, h', hrun, hcalls⟩
  · rw [hrun] at hok
    cases hok
  · obtain ⟨n, table, -, -, hconv, hdec⟩ := hcalls []
    exact ⟨pa, h', hrun, table, hconv, hdec⟩

/-! ## The sized encoder -/

/-- What is asked of `Convert_To_C`, for the array it returned in `h'` when it was called in `h`. -/
structure SizedRoundTrip (A : Allocator) (h : Heap) (strings : StringArray)
    (pa : AllocatedPointerArray) (h' : Heap) : Prop where
  slots : ∀ i : Nat, i < strings.length → ∃ v u, h'.mem.word (slotAt pa.pointer i) = some v ∧
    v ≠ 0 ∧ strings.get? (strings.first + i) = some u ∧ h'.mem.Holds v (u.chars ++ [0])
  converted : ∀ n : Natural, n.val = strings.length →
    ∃ table, convertAllocated pa n h' = (.ok table, h') ∧ DecodesTo strings table
  indexed : ∀ n i : Natural, n.val = strings.length → i.val < strings.length →
    ∃ u v, IndexIs h' pa.pointer n i (.ok u) ∧ strings.get? (strings.first + i.val) = some v ∧
      u.chars = cut v.chars
  sameAsTerminated : ∀ pa2 h2, convertToCTerminated A strings h = (.ok pa2, h2) →
    ∀ n i : Natural, n.val = strings.length → i.val < strings.length →
      (indexAllocatedUnbounded pa n i h').1 = (indexAllocatedUnbounded pa2 n i h2).1

/-- The last slot of the sized encoder stays null. -/
theorem last_slot_null {h' : Heap} {T : Block} {strings : StringArray} (hne : 0 < strings.length)
    (ho : Owned h' T (slotsAfter strings strings.length (strings.length - 1))) :
    h'.mem.word (slotAt T.base (strings.length - 1)) = some 0 := by
  have hk : strings.length - 1 <
      (slotsAfter strings strings.length (strings.length - 1)).length := by
    rw [length_slotsAfter]
    omega
  have hslot := ho.slot (strings.length - 1) hk
  simpa [slotsAfter, OwnedSlot] using hslot

theorem not_sizedRoundTrip_of_null {A : Allocator} {h h' : Heap} {strings : StringArray}
    {pa : AllocatedPointerArray} (hne : 0 < strings.length)
    (hnull : h'.mem.word (slotAt pa.pointer (strings.length - 1)) = some 0) :
    ¬ SizedRoundTrip A h strings pa h' := by
  intro hrt
  obtain ⟨v, u, hw, hv, -, -⟩ := hrt.slots (strings.length - 1) (by omega)
  rw [hnull] at hw
  exact hv (Option.some.inj hw).symm

theorem getElem_map_slotsAfter (strings : StringArray) {n m k : Nat}
    (hk : k < strings.elems.length)
    (hk' : k < ((slotsAfter strings n m).map (Option.map cut)).length) :
    ((slotsAfter strings n m).map (Option.map cut))[k] =
      if k < m then some (cut strings.elems[k].chars) else none := by
  simp only [slotsAfter, List.getElem_map, List.getElem_range]
  split
  · rw [List.getElem?_eq_getElem hk]
    rfl
  · rfl

/-- What decoding the sized encoder's table gives: the strings, but for the last one, which comes out
empty. -/
theorem convert_slotsAfter_chars {h' : Heap} {T : Block} {strings : StringArray} (n : Natural)
    (hn : n.val = strings.length) (hsize : (strings.length - 1) * wordSize ≤ integerLast)
    (ho : Owned h' T (slotsAfter strings strings.length (strings.length - 1))) :
    ∃ table, convertAllocated ⟨T.base⟩ n h' = (.ok table, h') ∧ table.first = 0 ∧
      table.last = (strings.length : Int) - 1 ∧
      ∀ (k : Nat) (hk : k < strings.elems.length), ∃ u, table.get? k = some u ∧
        u.chars = if k < strings.length - 1 then cut strings.elems[k].chars else [] := by
  have hshort : ∀ slot ∈ (slotsAfter strings strings.length (strings.length - 1)).map (Option.map cut),
      (slot.getD []).length ≤ integerLast := by
    intro slot hslot
    obtain ⟨k, hk, rfl⟩ := List.mem_iff_getElem.mp hslot
    have hk' : k < strings.elems.length := by
      rw [List.length_map, length_slotsAfter] at hk
      exact hk
    rw [getElem_map_slotsAfter strings hk' hk]
    split
    · exact (length_cut_le _).trans (UnboundedString.length_le _)
    · exact Nat.zero_le _
  have hlen : ((slotsAfter strings strings.length (strings.length - 1)).map (Option.map cut)).length =
      strings.length := by simp
  obtain ⟨table, hconv, hfirst, hlast, helem⟩ := convert_eq ho.table (hn.trans hlen.symm)
    (by rwa [hlen]) hshort
  rw [hn] at hlast
  refine ⟨table, hconv, hfirst, hlast, fun k hk => ?_⟩
  have hk' : k < ((slotsAfter strings strings.length (strings.length - 1)).map
      (Option.map cut)).length := hlen.symm ▸ hk
  obtain ⟨u, hu, hchars⟩ := helem k hk'
  rw [getElem_map_slotsAfter strings hk hk'] at hchars
  refine ⟨u, hu, hchars.trans ?_⟩
  split <;> rfl

/-- That is right exactly if the last string decodes to the empty one. -/
theorem convert_slotsAfter {h' : Heap} {T : Block} {strings : StringArray} (n : Natural)
    (hn : n.val = strings.length) (hne : 0 < strings.length)
    (hsize : (strings.length - 1) * wordSize ≤ integerLast)
    (ho : Owned h' T (slotsAfter strings strings.length (strings.length - 1))) :
    ∃ table, convertAllocated ⟨T.base⟩ n h' = (.ok table, h') ∧
      (DecodesTo strings table ↔
        ∃ u, strings.get? strings.last = some u ∧ cut u.chars = []) := by
  have hlast : strings.last = strings.first + (strings.length - 1 : Nat) := by
    have := strings.length_eq_bounds
    omega
  have hget : strings.get? strings.last = strings.elems[strings.length - 1]? := by
    rw [hlast, Arr.get?_first_add]
  obtain ⟨table, hconv, hfirst, htlast, hchars⟩ := convert_slotsAfter_chars n hn hsize ho
  refine ⟨table, hconv, fun hdec => ?_, fun hcut => ?_⟩
  · obtain ⟨u, v, hu, hv, huv, -⟩ := hdec.element (strings.length - 1) (by omega)
    obtain ⟨u', hu', huc⟩ := hchars (strings.length - 1) (Nat.sub_lt hne Nat.one_pos)
    rw [if_neg (lt_irrefl _)] at huc
    obtain rfl : u' = u := Option.some.inj (hu'.symm.trans hu)
    refine ⟨v, ?_, huv.symm.trans huc⟩
    rw [hlast]
    exact hv
  · obtain ⟨v, hv, hvc⟩ := hcut
    refine decodesTo_of_chars hfirst htlast fun i hi => ?_
    have hi1 : i < strings.length := hi
    obtain ⟨u, hu, huc⟩ := hchars i hi
    refine ⟨u, hu, huc.trans ?_⟩
    by_cases hi' : i < strings.length - 1
    · rw [if_pos hi']
    · obtain rfl : i = strings.length - 1 := by omega
      rw [hget, List.getElem?_eq_getElem hi] at hv
      rw [if_neg hi', Option.some.inj hv, hvc]

/-- `Convert_To_C` never does what is asked of it: the last slot of the table stays null. What can be
decoded from the table is still right exactly if the last string decodes to the empty one. -/
theorem sized_round_trip_never (A : Allocator) (h : Heap) (strings : StringArray)
    (hne : 0 < strings.length) (hsize : (strings.length - 1) * wordSize ≤ integerLast) :
    (∃ h', convertToC A strings h = (.error (.raised .storageError), h') ∧
      A.Refuses h h' (requests strings strings.length)) ∨
    ∃ pa h', convertToC A strings h = (.ok pa, h') ∧ ¬ SizedRoundTrip A h strings pa h' ∧
      h'.mem.word (slotAt pa.pointer (strings.length - 1)) = some 0 ∧
      ∀ n : Natural, n.val = strings.length →
        ∃ table, convertAllocated pa n h' = (.ok table, h') ∧
          (DecodesTo strings table ↔ ∃ u, strings.get? strings.last = some u ∧ cut u.chars = []) := by
  obtain ⟨r, h', hrun, -, hcase⟩ := convertToC_spec A h strings hne
  rcases hcase with ⟨e, rfl, rfl, hrefuses⟩ | ⟨T, rfl, howned⟩
  · exact Or.inl ⟨h', hrun, hrefuses⟩
  · have hnull := last_slot_null hne howned
    exact Or.inr ⟨⟨T.base⟩, h', hrun, not_sizedRoundTrip_of_null hne hnull, hnull,
      fun n hn => convert_slotsAfter n hn hne hsize howned⟩

theorem sized_round_trip_never_oneA :
    ∃ pa h', convertToC Allocator.bump oneA emptyHeap = (.ok pa, h') ∧
      ¬ SizedRoundTrip Allocator.bump emptyHeap oneA pa h' := by
  have hok : (convertToC Allocator.bump oneA emptyHeap).1 = .ok ⟨8⟩ := by rfl
  rcases sized_round_trip_never Allocator.bump emptyHeap oneA (by decide) (by decide) with
    ⟨h', hrun, -⟩ | ⟨pa, h', hrun, hnot, -⟩
  · rw [hrun] at hok
    cases hok
  · exact ⟨pa, h', hrun, hnot⟩

/-- The array `(0 => "a")` comes back as one null slot. -/
theorem sized_round_trip_fails :
    ¬ ∀ (A : Allocator) (h : Heap) (strings : StringArray) (pa : AllocatedPointerArray) (h' : Heap),
      0 < strings.length → (strings.length - 1) * wordSize ≤ integerLast →
      convertToC A strings h = (.ok pa, h') → SizedRoundTrip A h strings pa h' := by
  intro hall
  have hok : (convertToC Allocator.bump oneA emptyHeap).1 = .ok ⟨8⟩ := by rfl
  obtain ⟨r, h', hrun, -, hcase⟩ := convertToC_spec Allocator.bump emptyHeap oneA (by decide)
  rw [hrun] at hok
  rcases hcase with ⟨e, rfl, -⟩ | ⟨T, rfl, howned⟩
  · cases hok
  · exact not_sizedRoundTrip_of_null (by decide) (last_slot_null (by decide) howned)
      (hall _ _ _ _ _ (by decide) (by decide) hrun)

end CStringVerified.CString.Arrays
