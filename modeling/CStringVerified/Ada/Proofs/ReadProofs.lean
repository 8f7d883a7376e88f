import CStringVerified.Ada.Arrays
import CStringVerified.Foundation.PointerTable

/-!
# What the readers return

A reader is run on a heap where a string, a slot or a table lies. What it returns is a function of
the bytes there, and the heap is left as it was.
-/

namespace CStringVerified

open Foundation

@[simp] theorem toUnboundedString_toString (u : UnboundedString) :
    toUnboundedString u.toString = u := rfl

theorem map_toUnboundedString (r : Except Fail UnboundedString) :
    (r.map fun u => toUnboundedString u.toString) = r := by
  cases r <;> rfl

/-- The outcome of reading a terminated string: an Ada string, if its length is an `Integer`. -/
def decoded (s : List Byte) : Except Fail UnboundedString :=
  if h : s.length ≤ integerLast then .ok ⟨s, h⟩
  else .error (.raised (.constraintError .rangeCheck))

theorem decoded_eq {s : List Byte} (hs : s.length ≤ integerLast) : decoded s = .ok ⟨s, hs⟩ :=
  dif_pos hs

theorem decoded_over {s : List Byte} (hs : integerLast < s.length) :
    decoded s = .error (.raised (.constraintError .rangeCheck)) := dif_neg (by omega)

theorem notErroneous_decoded (s : List Byte) : NotErroneous (decoded s) := by
  intro a
  unfold decoded
  split <;> simp

namespace CString

variable {h : Heap} {v : Address} {s bs : List Byte}

theorem unsafeIndex_eq {k : Nat} {b : Byte} (hv : v ≠ 0) (hk : k ≤ storageOffsetLast)
    (hb : h.mem.byte (v.offset k) = some b) : unsafeIndex v k h = (.ok b, h) := by
  unfold unsafeIndex
  rw [Run.bind_ok (checkNotNull_eq hv), Run.bind_ok (toStorageOffset_eq hk)]
  exact readByte_eq hb

theorem unsafeIndex_over {k : Nat} (hv : v ≠ 0) (hk : storageOffsetLast < k) :
    unsafeIndex v k h = (.error (.raised (.constraintError .rangeCheck)), h) := by
  unfold unsafeIndex
  rw [Run.bind_ok (checkNotNull_eq hv), Run.bind_error (toStorageOffset_over hk)]

theorem lengthBody_char (hs : CStr h.mem v s) {k : Nat} (hk : k < s.length)
    (hk' : k ≤ storageOffsetLast) : lengthBody v k h = (.ok (.inl (k + 1)), h) := by
  obtain ⟨hb, hne⟩ := hs.byte_getElem hk
  have hnul : ¬ s[k] = nul := hne
  unfold lengthBody
  rw [Run.bind_ok (unsafeIndex_eq hs.nonnull hk' hb), if_neg hnul, Run.pure_apply]

theorem lengthBody_nul (hs : CStr h.mem v s) (hlen : s.length ≤ storageOffsetLast) :
    lengthBody v s.length h = (.ok (.inr s.length), h) := by
  unfold lengthBody
  have hnul : (0 : Byte) = nul := rfl
  rw [Run.bind_ok (unsafeIndex_eq hs.nonnull hlen hs.byte_nul), if_pos hnul, Run.pure_apply]

theorem lengthBody_over (hs : CStr h.mem v s) {k : Nat} (hk : storageOffsetLast < k) :
    lengthBody v k h = (.error (.raised (.constraintError .rangeCheck)), h) := by
  unfold lengthBody
  rw [Run.bind_error (unsafeIndex_over hs.nonnull hk)]

/-- `Length` finds the first nul, unless its offset is no `Storage_Offset`. -/
theorem length_eq (hs : CStr h.mem v s) :
    length v h = (if s.length ≤ storageOffsetLast then .ok s.length
      else .error (.raised (.constraintError .rangeCheck)), h) := by
  have hlt := hs.length_lt
  unfold length
  rw [Run.bind_ok (checkNotNull_eq hs.nonnull)]
  -- round `k` reads byte `k`; the last round is the one at the nul or past `Storage_Offset'Last`
  refine Run.loop_eq (fun k i => i = k) (min s.length (storageOffsetLast + 1)) ?_ ?_ ?_ rfl
  · rintro k i hk rfl
    exact ⟨i + 1, lengthBody_char hs (by omega) (by omega), rfl⟩
  · rintro i rfl
    by_cases hlen : s.length ≤ storageOffsetLast
    · have hmin : min s.length (storageOffsetLast + 1) = s.length := by omega
      rw [hmin, if_pos hlen]
      exact Or.inl ⟨s.length, lengthBody_nul hs hlen, rfl⟩
    · rw [if_neg hlen]
      exact Or.inr ⟨_, lengthBody_over hs (by omega), rfl⟩
  · unfold sizeTCount
    omega

theorem length_found (hs : CStr h.mem v s) (hlen : s.length ≤ integerLast) :
    length v h = (.ok s.length, h) := by
  rw [length_eq hs, if_pos (storageOffset_of_integer hlen)]

/-- Copying bytes that are there. -/
theorem copyString_eq (hv : v ≠ 0) (hbs : h.mem.Holds v bs) (hlen : bs.length ≤ integerLast) :
    copyString v ⟨bs.length, hlen⟩ h = (.ok (UnboundedString.toString ⟨bs, hlen⟩), h) := by
  obtain ⟨chars, hrun, hchars⟩ :
      ∃ chars : Vector Character bs.length,
        Run.collect (fun i => do return toAda (← unsafeIndex v i)) bs.length h = (.ok chars, h) ∧
          ∀ k (hk : k < bs.length), chars[k] = bs[k] := by
    refine Run.collect_spec (fun k hk c => c = bs[k]) fun k hk => ⟨bs[k], ?_, rfl⟩
    have hk' : k ≤ storageOffsetLast := storageOffset_of_integer (by omega)
    rw [Run.bind_ok (unsafeIndex_eq hv hk' (hbs k hk)), Run.pure_apply]
    rfl
  unfold copyString
  rw [Run.bind_ok hrun, Run.pure_apply]
  congr 2
  refine Arr.ext rfl ?_ ?_
  · simp [UnboundedString.toString]
  · refine List.ext_getElem (by simp [UnboundedString.toString]) fun k h1 h2 => ?_
    have hk : k < bs.length := h2
    simpa [UnboundedString.toString] using hchars k hk

/-- `To_String` returns the characters before the nul, or the length is no `Integer`. -/
theorem toString_eq (hs : CStr h.mem v s) :
    toString v h = ((decoded s).map UnboundedString.toString, h) := by
  unfold toString
  rw [Run.bind_ok (checkNotNull_eq hs.nonnull)]
  by_cases hint : s.length ≤ integerLast
  · rw [Run.bind_ok (length_found hs hint), Run.bind_ok (toInteger_eq hint), decoded_eq hint]
    exact copyString_eq hs.nonnull (Memory.holds_append.mp hs.holds).1 hint
  · have hlength := length_eq hs
    rw [decoded_over (by omega)]
    by_cases hoff : s.length ≤ storageOffsetLast
    · rw [if_pos hoff] at hlength
      rw [Run.bind_ok hlength, Run.bind_error (toInteger_over (by omega))]
      rfl
    · rw [if_neg hoff] at hlength
      rw [Run.bind_error hlength]
      rfl

namespace Arrays

variable {p a : Address} {n : Nat} {slots : List (Option (List Byte))}

/-- Stepping by a word leads to the next slot. -/
theorem slotAt_succ (p : Address) (k : Nat) : (slotAt p k).offset wordSize = slotAt p (k + 1) := by
  unfold slotAt wordSize
  rw [Address.offset_offset, Nat.mul_succ]

theorem sizeTerminatedBody_next {size : Natural} {w : BitVec 64} (hw : h.mem.word a = some w)
    (hne : w ≠ 0) (hsize : size.val + 1 ≤ integerLast) :
    sizeTerminatedBody (a, size) h = (.ok (.inl (a.offset wordSize, ⟨size.val + 1, hsize⟩)), h) := by
  simp only [sizeTerminatedBody]
  rw [Run.bind_ok (readWord_eq hw), if_neg hne, Run.bind_ok (succNatural_eq hsize), Run.pure_apply]

theorem sizeTerminatedBody_null {size : Natural} (hw : h.mem.word a = some 0) :
    sizeTerminatedBody (a, size) h = (.ok (.inr size), h) := by
  simp only [sizeTerminatedBody]
  rw [Run.bind_ok (readWord_eq hw), if_pos rfl, Run.pure_apply]

/-- `Size_Terminated` counts the slots before the first null one. -/
theorem sizeTerminated_eq (hnull : NullAt h.mem p n) (hn : n ≤ integerLast) :
    sizeTerminated p h = (.ok ⟨n, hn⟩, h) := by
  unfold sizeTerminated
  refine Run.loop_eq (fun k state => state.1 = slotAt p k ∧ state.2.val = k) n ?_ ?_ (by omega)
    ⟨by simp [slotAt], rfl⟩
  · rintro k ⟨a, size⟩ hk ⟨ha, hsize⟩
    simp only at ha hsize
    subst ha hsize
    obtain ⟨w, hw, hne⟩ := hnull.before size.val hk
    exact ⟨_, sizeTerminatedBody_next hw hne (by omega), slotAt_succ p size.val, rfl⟩
  · rintro ⟨a, size⟩ ⟨rfl, hsize⟩
    obtain rfl : size = ⟨n, hn⟩ := Subtype.ext hsize
    exact Or.inl ⟨_, sizeTerminatedBody_null hnull.null, rfl⟩

/-- `Index_Address` is the address of the slot, as long as the product is an `Integer`. -/
theorem indexAddress_eq (size index : Natural) (hi : index.val * wordSize ≤ integerLast) :
    indexAddress p size index h = (.ok (slotAt p index.val), h) := by
  have hrange : integerFirst ≤ (index.val : Int) * (wordSize : Int) ∧
      (index.val : Int) * (wordSize : Int) ≤ integerLast := by
    unfold integerFirst
    constructor
    · omega
    · exact_mod_cast hi
  unfold indexAddress mulInteger
  rw [Run.bind_ok (checkInteger_eq hrange), Run.pure_apply]
  have hnat : ((index.val : Int) * (wordSize : Int)).toNat = 8 * index.val := by
    unfold wordSize
    omega
  rw [hnat, slotAt]

theorem indexAddress_over (size index : Natural) (hi : integerLast < index.val * wordSize) :
    indexAddress p size index h = (.error (.raised (.constraintError .overflowCheck)), h) := by
  unfold indexAddress mulInteger
  rw [Run.bind_error (checkInteger_over (by exact_mod_cast hi))]

/-- A null slot reads as the empty string. -/
theorem slotString_eq {slot : Option (List Byte)} (hslot : Slot h.mem a slot) :
    slotString a h = ((decoded (slot.getD [])).map UnboundedString.toString, h) := by
  unfold slotString
  cases slot with
  | none =>
    rw [Run.bind_ok (readWord_eq hslot), if_pos rfl, Run.pure_apply]
    rfl
  | some s =>
    obtain ⟨w, hw, hs⟩ := hslot
    rw [Run.bind_ok (readWord_eq hw), if_neg hs.nonnull]
    exact toString_eq hs

theorem indexCore_eq (ht : PointerTable h.mem p slots) (size index : Natural)
    (hi : index.val < slots.length) (hw : index.val * wordSize ≤ integerLast) :
    indexCore p size index h =
      ((decoded (slots[index.val].getD [])).map UnboundedString.toString, h) := by
  unfold indexCore
  rw [Run.bind_ok (indexAddress_eq size index hw)]
  exact slotString_eq (ht index.val hi)

theorem boundedIndex_out {α : Type} (result : AdaString → α) {size index : Natural}
    (hi : size.val ≤ index.val) :
    boundedIndex result p size index h =
      (.error (.raised (.constraintError (.message "Index out of range"))), h) := by
  unfold boundedIndex
  rw [if_pos hi]
  rfl

theorem boundedIndex_in {α : Type} (result : AdaString → α) (ht : PointerTable h.mem p slots)
    {size index : Natural} (hsize : size.val = slots.length) (hi : index.val < slots.length)
    (hw : index.val * wordSize ≤ integerLast) :
    boundedIndex result p size index h =
      ((decoded (slots[index.val].getD [])).map fun u => result u.toString, h) := by
  unfold boundedIndex
  rw [if_neg (by omega)]
  have hcore := indexCore_eq ht size index hi hw
  cases hd : decoded (slots[index.val].getD []) with
  | ok u =>
    rw [hd] at hcore
    exact Run.bind_ok hcore
  | error e =>
    rw [hd] at hcore
    exact Run.bind_error hcore

theorem boundedIndexTerminated_out {α : Type} (result : AdaString → α)
    (hnull : NullAt h.mem p n) (hn : n ≤ integerLast) {index : Natural} (hi : n ≤ index.val) :
    boundedIndexTerminated result p index h =
      (.error (.raised (.constraintError (.message "Index out of range"))), h) := by
  unfold boundedIndexTerminated
  rw [Run.bind_ok (sizeTerminated_eq hnull hn)]
  exact boundedIndex_out result hi

theorem boundedIndexTerminated_in {α : Type} (result : AdaString → α)
    {strings : List (List Byte)} (ht : PointerTable h.mem p (terminated strings))
    (hn : strings.length ≤ integerLast) {index : Natural} (hi : index.val < strings.length)
    (hw : index.val * wordSize ≤ integerLast) :
    boundedIndexTerminated result p index h =
      ((decoded strings[index.val]).map fun u => result u.toString, h) := by
  unfold boundedIndexTerminated
  rw [Run.bind_ok (sizeTerminated_eq ht.nullAt hn)]
  have hsize : (⟨strings.length, hn⟩ : Natural).val = (strings.map some).length := by simp
  have := boundedIndex_in result ht.dropNull hsize (by simpa using hi) hw
  simpa using this

/-- What `Convert` stores at one index. -/
theorem convertElement_eq (ht : PointerTable h.mem p slots) (size : Natural)
    (hw : (slots.length - 1) * wordSize ≤ integerLast) {k : Nat} (hk : k < slots.length) :
    convertElement p size k h = (decoded (slots[k].getD []), h) := by
  have hk' : k * wordSize ≤ integerLast := by unfold wordSize at *; omega
  have hi : k ≤ integerLast := by unfold wordSize at *; omega
  have hcore := indexCore_eq ht size ⟨k, hi⟩ hk hk'
  unfold convertElement
  rw [dif_pos hi]
  cases hd : decoded (slots[k].getD []) with
  | ok u =>
    simp only [hd, Except.map] at hcore
    rw [Run.bind_ok hcore, Run.pure_apply, toUnboundedString_toString]
  | error e =>
    simp only [hd, Except.map] at hcore
    rw [Run.bind_error hcore]

/-- `Convert` decodes every slot, if all of them can be decoded. -/
theorem convert_eq (ht : PointerTable h.mem p slots) {size : Natural}
    (hsize : size.val = slots.length) (hw : (slots.length - 1) * wordSize ≤ integerLast)
    (hshort : ∀ slot ∈ slots, (slot.getD []).length ≤ integerLast) :
    ∃ table, convert p size h = (.ok table, h) ∧ table.first = 0 ∧
      table.last = (size.val : Int) - 1 ∧ ∀ k (hk : k < slots.length),
        ∃ u, table.get? (k : Nat) = some u ∧ u.chars = slots[k].getD [] := by
  obtain ⟨size, hint⟩ := size
  subst hsize
  obtain ⟨v, hv, hchars⟩ :
      ∃ v : Vector UnboundedString slots.length,
        Run.collect (convertElement p ⟨slots.length, hint⟩) slots.length h = (.ok v, h) ∧
          ∀ k (hk : k < slots.length), v[k].chars = slots[k].getD [] := by
    refine Run.collect_spec (fun k hk (u : UnboundedString) => u.chars = slots[k].getD []) fun k hk => ?_
    have hs : (slots[k].getD []).length ≤ integerLast := hshort _ (List.getElem_mem hk)
    refine ⟨⟨slots[k].getD [], hs⟩, ?_, rfl⟩
    rw [convertElement_eq ht ⟨slots.length, hint⟩ hw hk, decoded_eq hs]
  refine ⟨_, Run.bind_ok hv, rfl, ?_, fun k hk => ⟨v[k], ?_, hchars k hk⟩⟩
  · simp
  · have := Arr.get?_first_add (Arr.ofVector 0 v fun _ => by omega : StringArray) k
    simpa [hk] using this

/-- The outcome of `Convert` depends on its table only, and is never erroneous. -/
theorem convert_congr {h' : Heap} (ht : PointerTable h.mem p slots)
    (ht' : PointerTable h'.mem p slots) {size : Natural} (hsize : size.val = slots.length)
    (hw : (slots.length - 1) * wordSize ≤ integerLast) :
    ∃ r, convert p size h = (r, h) ∧ convert p size h' = (r, h') ∧ NotErroneous r := by
  obtain ⟨size, hint⟩ := size
  subst hsize
  obtain ⟨r, hr, hr', hp⟩ :
      ∃ r, Run.collect (convertElement p ⟨slots.length, hint⟩) slots.length h = (r, h) ∧
        Run.collect (convertElement p ⟨slots.length, hint⟩) slots.length h' = (r, h') ∧
          ∀ e, r = .error e → ∀ a, e ≠ .erroneous a := by
    refine Run.collect_congr (fun e => ∀ a, e ≠ Fail.erroneous a) fun k hk => ?_
    refine ⟨decoded (slots[k].getD []), convertElement_eq ht _ hw hk, convertElement_eq ht' _ hw hk,
      fun e he a hea => notErroneous_decoded (slots[k].getD []) a ?_⟩
    rw [he, hea]
  cases r with
  | ok v => exact ⟨_, Run.bind_ok hr, Run.bind_ok hr', by rintro a ⟨⟩⟩
  | error e => exact ⟨.error e, Run.bind_error hr, Run.bind_error hr', by
      rintro a ⟨⟩
      exact hp _ rfl a rfl⟩

end Arrays

end CString

end CStringVerified
