import CStringVerified.Ada.Proofs.ReadProofs

/-!
# The readers of pointer arrays agree, and stay inside their table

Every entry point that fetches a string reaches the same slot and decodes it alike. What they read
is the table and its strings: they behave the same on a heap where nothing else is mapped.
-/

namespace CStringVerified.CString.Arrays

open Foundation

/-! ## A table with one string -/

/-- A memory that holds a terminated table with one slot, followed by the string. -/
def oneString (s : List Byte) : Memory :=
  Memory.ofBytes 8 (wordBytes 24 ++ (wordBytes 0 ++ (s ++ [0])))

theorem pointerTable_oneString {s : List Byte} (hs : (0 : Byte) ∉ s)
    (hlen : s.length < 2 ^ 64 - 32) : PointerTable (oneString s) 8 (terminated [s]) := by
  have hall : (oneString s).Holds 8 (wordBytes 24 ++ (wordBytes 0 ++ (s ++ [0]))) := by
    refine Memory.holds_ofBytes (by decide) ?_
    simp only [List.length_append, length_wordBytes, List.length_cons, List.length_nil]
    have : (8 : Address).toNat = 8 := rfl
    omega
  obtain ⟨hfirst, hrest⟩ := Memory.holds_append.mp hall
  obtain ⟨hsecond, hstring⟩ := Memory.holds_append.mp hrest
  rw [length_wordBytes] at hsecond hstring
  rw [length_wordBytes, Address.offset_offset] at hstring
  intro k hk
  match k with
  | 0 => exact ⟨24, Memory.word_of_holds hfirst, hstring, hs⟩
  | 1 => exact Memory.word_of_holds hsecond
  | k + 2 => rw [length_terminated, List.length_singleton] at hk; omega

/-! ## Agreement -/

/-- The four overloads of `Index` have the outcome `r`. -/
structure IndexIs (h : Heap) (p : Address) (size i : Natural) (r : Except Fail UnboundedString) :
    Prop where
  string : index p size i h = (r.map UnboundedString.toString, h)
  unbounded : indexUnbounded p size i h = (r, h)
  allocated : indexAllocated ⟨p⟩ size i h = (r.map UnboundedString.toString, h)
  allocatedUnbounded : indexAllocatedUnbounded ⟨p⟩ size i h = (r, h)

/-- The four overloads of `Index_Terminated` have the outcome `r`. -/
structure IndexTerminatedIs (h : Heap) (p : Address) (i : Natural)
    (r : Except Fail UnboundedString) : Prop where
  string : indexTerminated p i h = (r.map UnboundedString.toString, h)
  unbounded : indexTerminatedUnbounded p i h = (r, h)
  allocated : indexTerminatedAllocated ⟨p⟩ i h = (r.map UnboundedString.toString, h)
  allocatedUnbounded : indexTerminatedAllocatedUnbounded ⟨p⟩ i h = (r, h)

/-- Both overloads of `Convert` return `table`. -/
def ConvertIs (h : Heap) (p : Address) (size : Natural) (table : StringArray) : Prop :=
  convert p size h = (.ok table, h) ∧ convertAllocated ⟨p⟩ size h = (.ok table, h)

/-- Both overloads of `Convert_Terminated` return `table`. -/
def ConvertTerminatedIs (h : Heap) (p : Address) (table : StringArray) : Prop :=
  convertTerminated p h = (.ok table, h) ∧ convertTerminatedAllocated ⟨p⟩ h = (.ok table, h)

/-- The exception of an index that is too large. -/
def outOfRange : Except Fail UnboundedString :=
  .error (.raised (.constraintError (.message "Index out of range")))

variable {h : Heap} {p : Address} {slots : List (Option (List Byte))}
  {strings : List (List Byte)} {size i : Natural}

theorem pred_le {n : Nat} (hn : n * wordSize ≤ integerLast) : (n - 1) * wordSize ≤ integerLast :=
  (Nat.mul_le_mul_right wordSize (Nat.sub_le n 1)).trans hn

theorem indexIs_out (hi : size.val ≤ i.val) : IndexIs h p size i outOfRange where
  string := boundedIndex_out id hi
  unbounded := boundedIndex_out toUnboundedString hi
  allocated := boundedIndex_out id hi
  allocatedUnbounded := boundedIndex_out toUnboundedString hi

theorem indexIs_in (ht : PointerTable h.mem p slots) (hsize : size.val = slots.length)
    (hi : i.val < slots.length) (hw : (slots.length - 1) * wordSize ≤ integerLast) :
    IndexIs h p size i (decoded (slots[i.val].getD [])) := by
  have hiw : i.val * wordSize ≤ integerLast := by unfold wordSize at *; omega
  have hstring := boundedIndex_in id ht hsize hi hiw
  have hunbounded := boundedIndex_in toUnboundedString ht hsize hi hiw
  rw [map_toUnboundedString] at hunbounded
  exact ⟨hstring, hunbounded, hstring, hunbounded⟩

theorem indexTerminatedIs_out {n : Nat} (hnull : NullAt h.mem p n) (hn : n ≤ integerLast)
    (hi : n ≤ i.val) : IndexTerminatedIs h p i outOfRange where
  string := boundedIndexTerminated_out id hnull hn hi
  unbounded := boundedIndexTerminated_out toUnboundedString hnull hn hi
  allocated := boundedIndexTerminated_out id hnull hn hi
  allocatedUnbounded := boundedIndexTerminated_out toUnboundedString hnull hn hi

theorem indexTerminatedIs_in (ht : PointerTable h.mem p (terminated strings))
    (hw : strings.length * wordSize ≤ integerLast) (hi : i.val < strings.length) :
    IndexTerminatedIs h p i (decoded strings[i.val]) := by
  have hn : strings.length ≤ integerLast := by unfold wordSize at *; omega
  have hiw : i.val * wordSize ≤ integerLast := by unfold wordSize at *; omega
  have hstring := boundedIndexTerminated_in id ht hn hi hiw
  have hunbounded := boundedIndexTerminated_in toUnboundedString ht hn hi hiw
  rw [map_toUnboundedString] at hunbounded
  exact ⟨hstring, hunbounded, hstring, hunbounded⟩

theorem convertTerminatedIs_of_convertIs {table : StringArray} (hnull : NullAt h.mem p size.val)
    (hc : ConvertIs h p size table) : ConvertTerminatedIs h p table := by
  have hsize := sizeTerminated_eq hnull size.property
  refine ⟨?_, ?_⟩
  · unfold convertTerminated
    rw [Run.bind_ok hsize]
    exact hc.1
  · unfold convertTerminatedAllocated sizeTerminatedAllocated
    rw [Run.bind_ok hsize]
    exact hc.2

/-- All read paths agree, on strings whose length is an `Integer`. -/
theorem read_paths_agree (h : Heap) (p : Address) :
    (∀ (strings : List (List Byte)) (n : Natural), PointerTable h.mem p (terminated strings) →
      n.val = strings.length → strings.length * wordSize ≤ integerLast →
      (∀ s ∈ strings, s.length ≤ integerLast) →
      ∃ table : StringArray, ConvertTerminatedIs h p table ∧ ConvertIs h p n table ∧
        table.first = 0 ∧ table.last = (n.val : Int) - 1 ∧
        ∀ i : Natural,
          (n.val ≤ i.val → IndexTerminatedIs h p i outOfRange) ∧
          ∀ hi : i.val < strings.length, ∃ u, table.get? i.val = some u ∧
            u.chars = strings[i.val] ∧ IndexTerminatedIs h p i (.ok u) ∧
            IndexIs h p n i (.ok u)) ∧
    (∀ (slots : List (Option (List Byte))) (size : Natural), PointerTable h.mem p slots →
      size.val = slots.length → slots.length * wordSize ≤ integerLast →
      (∀ slot ∈ slots, (slot.getD []).length ≤ integerLast) →
      ∃ table : StringArray, ConvertIs h p size table ∧
        table.first = 0 ∧ table.last = (size.val : Int) - 1 ∧
        ∀ i : Natural,
          (size.val ≤ i.val → IndexIs h p size i outOfRange) ∧
          ∀ hi : i.val < slots.length, ∃ u, table.get? i.val = some u ∧
            u.chars = slots[i.val].getD [] ∧ IndexIs h p size i (.ok u) ∧
            (u.chars = [] ↔ slots[i.val] = none ∨ slots[i.val] = some [])) := by
  refine ⟨fun strings n ht hn hw hshort => ?_, fun slots size ht hsize hw hshort => ?_⟩
  · have hlen : (strings.map some).length = strings.length := by simp
    have hshort' : ∀ slot ∈ strings.map some, (slot.getD []).length ≤ integerLast := by
      intro slot hslot
      obtain ⟨s, hs, rfl⟩ := List.mem_map.mp hslot
      exact hshort s hs
    obtain ⟨table, hc, hfirst, hlast, helem⟩ := convert_eq ht.dropNull
      (hn.trans hlen.symm) (by rw [hlen]; exact pred_le hw) hshort'
    have hnull : NullAt h.mem p n.val := hn ▸ ht.nullAt
    refine ⟨table, convertTerminatedIs_of_convertIs hnull ⟨hc, hc⟩, ⟨hc, hc⟩, hfirst, hlast,
      fun i => ⟨fun hi => indexTerminatedIs_out hnull n.property hi, fun hi => ?_⟩⟩
    obtain ⟨u, hu, huc⟩ := helem i.val (by omega)
    have huc' : u.chars = strings[i.val] := by simpa using huc
    have hdec : decoded strings[i.val] = .ok u := by
      rw [← huc', decoded_eq u.length_le]
    refine ⟨u, hu, huc', ?_, ?_⟩
    · have := indexTerminatedIs_in ht hw hi
      rwa [hdec] at this
    · have := indexIs_in ht.dropNull (hn.trans hlen.symm) (i := i) (by omega)
        (by rw [hlen]; exact pred_le hw)
      simpa [hdec] using this
  · obtain ⟨table, hc, hfirst, hlast, helem⟩ := convert_eq ht hsize (pred_le hw) hshort
    refine ⟨table, ⟨hc, hc⟩, hfirst, hlast, fun i => ⟨fun hi => indexIs_out hi, fun hi => ?_⟩⟩
    obtain ⟨u, hu, huc⟩ := helem i.val hi
    have hdec : decoded (slots[i.val].getD []) = .ok u := by
      rw [← huc, decoded_eq u.length_le]
    refine ⟨u, hu, huc, ?_, ?_⟩
    · have := indexIs_in ht hsize hi (pred_le hw)
      rwa [hdec] at this
    · rw [huc]
      cases slots[i.val] <;> simp

theorem read_paths_agree_oneString :
    (∃ table : StringArray, ConvertTerminatedIs (Heap.ofMemory (oneString [97])) 8 table ∧
      (table.get? 0).map UnboundedString.chars = some [97]) ∧
    ∃ table : StringArray, ConvertIs (Heap.ofMemory (oneString [97])) 8 ⟨2, by decide⟩ table ∧
      (table.get? 0).map UnboundedString.chars = some [97] ∧
      (table.get? 1).map UnboundedString.chars = some [] := by
  have ht : PointerTable (Heap.ofMemory (oneString [97])).mem 8 (terminated [[97]]) :=
    pointerTable_oneString (by decide) (by decide)
  obtain ⟨hterm, hsized⟩ := read_paths_agree (Heap.ofMemory (oneString [97])) 8
  refine ⟨?_, ?_⟩
  · obtain ⟨table, hc, -, -, -, helem⟩ :=
      hterm [[97]] ⟨1, by decide⟩ ht rfl (by decide) (by decide)
    obtain ⟨u, hu, huc, -⟩ := (helem ⟨0, by decide⟩).2 (by decide)
    refine ⟨table, hc, ?_⟩
    have hu' : table.get? 0 = some u := hu
    rw [hu', Option.map_some, huc]
    rfl
  · obtain ⟨table, hc, -, -, helem⟩ :=
      hsized (terminated [[97]]) ⟨2, by decide⟩ ht rfl (by decide) (by decide)
    obtain ⟨u, hu, huc, -⟩ := (helem ⟨0, by decide⟩).2 (by decide)
    obtain ⟨w, hw, hwc, -⟩ := (helem ⟨1, by decide⟩).2 (by decide)
    have hu' : table.get? 0 = some u := hu
    have hw' : table.get? 1 = some w := hw
    refine ⟨table, hc, ?_, ?_⟩
    · rw [hu', Option.map_some, huc]
      rfl
    · rw [hw', Option.map_some, hwc]
      rfl

/-- A string that is too long to have an `Integer` length cannot be fetched at an index in range. -/
theorem long_string_out_of_range :
    ¬ ∀ (h : Heap) (p : Address) (strings : List (List Byte)) (i : Natural),
      PointerTable h.mem p (terminated strings) → strings.length * wordSize ≤ integerLast →
      (RaisesConstraintError (indexTerminated p i h).1 ↔ strings.length ≤ i.val) := by
  intro hevery
  have hlen : (List.replicate (integerLast + 1) (97 : Byte)).length = integerLast + 1 := by simp
  have hnz : (0 : Byte) ∉ List.replicate (integerLast + 1) (97 : Byte) := by
    intro h0
    have := List.eq_of_mem_replicate h0
    exact absurd this (by decide)
  have ht := pointerTable_oneString hnz (by rw [hlen]; unfold integerLast; omega)
  generalize List.replicate (integerLast + 1) (97 : Byte) = s at ht hlen
  have hw : [s].length * wordSize ≤ integerLast := by
    simp only [List.length_cons, List.length_nil]
    unfold wordSize integerLast
    omega
  have hiff := hevery (Heap.ofMemory (oneString s)) 8 [s] ⟨0, Nat.zero_le _⟩ ht hw
  have hout := (indexTerminatedIs_in (h := Heap.ofMemory (oneString s)) (i := ⟨0, Nat.zero_le _⟩)
    ht hw (by simp)).string
  have : [s].length ≤ 0 := hiff.mp ⟨.rangeCheck, by
    rw [hout]
    show Except.map _ (decoded s) = _
    rw [decoded_over (by omega)]
    rfl⟩
  simp at this

/-! ## Locality -/

/-- Run where only `S` is mapped, the call reads nothing else: it comes out as it does on the whole
heap, and not as an erroneous access. -/
def ReadsWithin {α : Type} (S : Address → Prop) (h : Heap) (m : Ada α) : Prop :=
  (m (h.only S)).1 = (m h).1 ∧ NotErroneous (m (h.only S)).1

theorem readsWithin_of_eq {α : Type} {S : Address → Prop} {m : Ada α} {r : Except Fail α}
    (hfull : m h = (r, h)) (honly : m (h.only S) = (r, h.only S)) (hr : NotErroneous r) :
    ReadsWithin S h m := by
  unfold ReadsWithin
  rw [hfull, honly]
  exact ⟨rfl, hr⟩

theorem notErroneous_map {α β : Type} {r : Except Fail α} (f : α → β) (hr : NotErroneous r) :
    NotErroneous (r.map f) := by
  cases r with
  | ok a => rintro b ⟨⟩
  | error e => rintro b ⟨⟩; exact hr b rfl

/-- One outcome of all overloads of `Index_Terminated` on the whole heap and on a part of it. -/
theorem IndexTerminatedIs.readsWithin {S : Address → Prop} {r : Except Fail UnboundedString}
    (hfull : IndexTerminatedIs h p i r) (honly : IndexTerminatedIs (h.only S) p i r)
    (hr : NotErroneous r) :
    ReadsWithin S h (indexTerminated p i) ∧ ReadsWithin S h (indexTerminatedUnbounded p i) ∧
      ReadsWithin S h (indexTerminatedAllocated ⟨p⟩ i) ∧
      ReadsWithin S h (indexTerminatedAllocatedUnbounded ⟨p⟩ i) :=
  ⟨readsWithin_of_eq hfull.string honly.string (notErroneous_map _ hr),
    readsWithin_of_eq hfull.unbounded honly.unbounded hr,
    readsWithin_of_eq hfull.allocated honly.allocated (notErroneous_map _ hr),
    readsWithin_of_eq hfull.allocatedUnbounded honly.allocatedUnbounded hr⟩

theorem IndexIs.readsWithin {S : Address → Prop} {r : Except Fail UnboundedString}
    (hfull : IndexIs h p size i r) (honly : IndexIs (h.only S) p size i r)
    (hr : NotErroneous r) :
    ReadsWithin S h (index p size i) ∧ ReadsWithin S h (indexUnbounded p size i) ∧
      ReadsWithin S h (indexAllocated ⟨p⟩ size i) ∧
      ReadsWithin S h (indexAllocatedUnbounded ⟨p⟩ size i) :=
  ⟨readsWithin_of_eq hfull.string honly.string (notErroneous_map _ hr),
    readsWithin_of_eq hfull.unbounded honly.unbounded hr,
    readsWithin_of_eq hfull.allocated honly.allocated (notErroneous_map _ hr),
    readsWithin_of_eq hfull.allocatedUnbounded honly.allocatedUnbounded hr⟩

theorem notErroneous_outOfRange : NotErroneous outOfRange := by
  rintro a ⟨⟩

/-- No over-read. The readers of terminated tables read the slots up to the first null one and the
strings; at an index out of range they read no string; the sized readers read only the slots they
are told of and the strings. -/
theorem reads_within_table (h : Heap) (p : Address) :
    (∀ strings : List (List Byte), PointerTable h.mem p (terminated strings) →
      strings.length * wordSize ≤ integerLast →
      ReadsWithin (Footprint h.mem p (terminated strings)) h (sizeTerminated p) ∧
      ReadsWithin (Footprint h.mem p (terminated strings)) h (sizeTerminatedAllocated ⟨p⟩) ∧
      ReadsWithin (Footprint h.mem p (terminated strings)) h (convertTerminated p) ∧
      ReadsWithin (Footprint h.mem p (terminated strings)) h (convertTerminatedAllocated ⟨p⟩) ∧
      ∀ i : Natural,
        ReadsWithin (Footprint h.mem p (terminated strings)) h (indexTerminated p i) ∧
        ReadsWithin (Footprint h.mem p (terminated strings)) h (indexTerminatedUnbounded p i) ∧
        ReadsWithin (Footprint h.mem p (terminated strings)) h (indexTerminatedAllocated ⟨p⟩ i) ∧
        ReadsWithin (Footprint h.mem p (terminated strings)) h
          (indexTerminatedAllocatedUnbounded ⟨p⟩ i)) ∧
    (∀ (n : Nat) (i : Natural), NullAt h.mem p n → n * wordSize ≤ integerLast → n ≤ i.val →
      IndexTerminatedIs (h.only (p.InRegion (8 * (n + 1)))) p i outOfRange) ∧
    (∀ (slots : List (Option (List Byte))) (size : Natural), PointerTable h.mem p slots →
      size.val = slots.length → slots.length * wordSize ≤ integerLast →
      ReadsWithin (Footprint h.mem p slots) h (convert p size) ∧
      ReadsWithin (Footprint h.mem p slots) h (convertAllocated ⟨p⟩ size) ∧
      ∀ i : Natural,
        ReadsWithin (Footprint h.mem p slots) h (index p size i) ∧
        ReadsWithin (Footprint h.mem p slots) h (indexUnbounded p size i) ∧
        ReadsWithin (Footprint h.mem p slots) h (indexAllocated ⟨p⟩ size i) ∧
        ReadsWithin (Footprint h.mem p slots) h (indexAllocatedUnbounded ⟨p⟩ size i)) := by
  refine ⟨fun strings ht hw => ?_, fun n i hnull hw hi => ?_, fun slots size ht hsize hw => ?_⟩
  · have ht' : PointerTable (h.only (Footprint h.mem p (terminated strings))).mem p
        (terminated strings) := ht.only
    have hn : strings.length ≤ integerLast := by unfold wordSize at *; omega
    have hsize : ReadsWithin (Footprint h.mem p (terminated strings)) h (sizeTerminated p) :=
      readsWithin_of_eq (sizeTerminated_eq ht.nullAt hn) (sizeTerminated_eq ht'.nullAt hn)
        (by rintro a ⟨⟩)
    have hconvert :
        ReadsWithin (Footprint h.mem p (terminated strings)) h (convertTerminated p) := by
      obtain ⟨r, hr, hr', hne⟩ := convert_congr ht.dropNull ht'.dropNull
        (show (⟨strings.length, hn⟩ : Natural).val = _ by simp) (by simpa using pred_le hw)
      refine readsWithin_of_eq ?_ ?_ hne
      · exact (Run.bind_ok (sizeTerminated_eq ht.nullAt hn)).trans hr
      · exact (Run.bind_ok (sizeTerminated_eq ht'.nullAt hn)).trans hr'
    refine ⟨hsize, hsize, hconvert, hconvert, fun i => ?_⟩
    by_cases hi : i.val < strings.length
    · exact (indexTerminatedIs_in ht hw hi).readsWithin (indexTerminatedIs_in ht' hw hi)
        (notErroneous_decoded _)
    · exact (indexTerminatedIs_out ht.nullAt hn (by omega)).readsWithin
        (indexTerminatedIs_out ht'.nullAt hn (by omega)) notErroneous_outOfRange
  · have hn : n ≤ integerLast := by unfold wordSize at *; omega
    exact indexTerminatedIs_out hnull.only hn hi
  · have ht' : PointerTable (h.only (Footprint h.mem p slots)).mem p slots := ht.only
    have hconvert : ReadsWithin (Footprint h.mem p slots) h (convert p size) := by
      obtain ⟨r, hr, hr', hne⟩ := convert_congr ht ht' hsize (pred_le hw)
      exact readsWithin_of_eq hr hr' hne
    refine ⟨hconvert, hconvert, fun i => ?_⟩
    by_cases hi : i.val < slots.length
    · exact (indexIs_in ht hsize hi (pred_le hw)).readsWithin (indexIs_in ht' hsize hi (pred_le hw))
        (notErroneous_decoded _)
    · exact (indexIs_out (by omega)).readsWithin (indexIs_out (by omega)) notErroneous_outOfRange

theorem reads_within_table_oneString :
    NotErroneous (convertTerminated 8 ((Heap.ofMemory (oneString [97])).only
      (Footprint (oneString [97]) 8 (terminated [[97]])))).1 ∧
    IndexTerminatedIs ((Heap.ofMemory (oneString [97])).only (Address.InRegion 8 16)) 8
      ⟨1, by decide⟩ outOfRange ∧
    NotErroneous (convert 8 ⟨2, by decide⟩ ((Heap.ofMemory (oneString [97])).only
      (Footprint (oneString [97]) 8 (terminated [[97]])))).1 := by
  have ht : PointerTable (Heap.ofMemory (oneString [97])).mem 8 (terminated [[97]]) :=
    pointerTable_oneString (by decide) (by decide)
  obtain ⟨hterm, hout, hsized⟩ := reads_within_table (Heap.ofMemory (oneString [97])) 8
  refine ⟨?_, ?_, ?_⟩
  · exact (hterm [[97]] ht (by decide)).2.2.1.2
  · exact hout 1 ⟨1, by decide⟩ ht.nullAt (by decide) (by decide)
  · exact (hsized (terminated [[97]]) ⟨2, by decide⟩ ht rfl (by decide)).1.2

end CStringVerified.CString.Arrays
