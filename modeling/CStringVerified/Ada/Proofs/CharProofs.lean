import CStringVerified.Ada.Proofs.AgreementProofs

/-!
# The readers of a single string agree

`Length` counts from 0 in `size_t`, `To_String` copies from 1 on in `Integer`, for terminated and for
sized input, and the two `Index` functions check their bounds each in its own way. All of them read one
and the same string, and none of them reads beyond its nul.
-/

namespace CStringVerified.CString

open Foundation Arrays

variable {h : Heap} {p : Address} {s bs : List Byte}

/-! ## The sized readers -/

/-- `To_String` of a character array copies that many bytes. -/
theorem toStringSized_eq (hp : p ≠ 0) (hbs : h.mem.Holds p bs) (hlen : bs.length ≤ integerLast) :
    toStringSized p bs.length h = (.ok (UnboundedString.toString ⟨bs, hlen⟩), h) := by
  unfold toStringSized
  rw [Run.bind_ok (checkNotNull_eq hp), Run.bind_ok (toInteger_eq hlen)]
  exact copyString_eq hp hbs hlen

theorem indexSized_out (hp : p ≠ 0) {n i : Nat} (hi : n ≤ i) :
    indexSized p n i h =
      (.error (.raised (.constraintError (.message "index out of range"))), h) := by
  unfold indexSized
  rw [Run.bind_ok (checkNotNull_eq hp), if_pos hi]
  rfl

theorem indexSized_in (hp : p ≠ 0) {n i : Nat} {b : Byte} (hi : i < n) (hoff : i ≤ storageOffsetLast)
    (hb : h.mem.byte (p.offset i) = some b) : indexSized p n i h = (.ok b, h) := by
  unfold indexSized
  rw [Run.bind_ok (checkNotNull_eq hp), if_neg (by omega)]
  exact unsafeIndex_eq hp hoff hb

/-! ## The terminated readers -/

theorem index_out (hs : CStr h.mem p s) (hlen : s.length ≤ integerLast) {i : Nat}
    (hi : s.length ≤ i) :
    index p i h = (.error (.raised (.constraintError (.message "index out of range"))), h) := by
  unfold index
  rw [Run.bind_ok (checkNotNull_eq hs.nonnull), Run.bind_ok (length_found hs hlen), if_pos hi]
  rfl

theorem index_in (hs : CStr h.mem p s) (hlen : s.length ≤ integerLast) {i : Nat}
    (hi : i < s.length) : index p i h = (.ok s[i], h) := by
  unfold index
  rw [Run.bind_ok (checkNotNull_eq hs.nonnull), Run.bind_ok (length_found hs hlen),
    if_neg (by omega)]
  exact unsafeIndex_eq hs.nonnull (storageOffset_of_integer (by omega)) (hs.byte_getElem hi).1

/-! ## Agreement -/

/-- All readers find the string `str` of `n` characters at `p`, and none of them finds more. -/
structure ReadersAgree (h : Heap) (p : Address) (n : Nat) (str : AdaString) : Prop where
  length : CString.length p h = (.ok n, h)
  string : toString p h = (.ok str, h)
  sized : toStringSized p n h = (.ok str, h)
  first : str.first = 1
  last : str.last = n
  chars : ∀ k : Nat, 1 ≤ k → k ≤ n → ∃ b, h.mem.byte (p.offset (k - 1)) = some b ∧
    str.get? k = some (toAda b)
  outside : ∀ i, RaisesConstraintError (index p i h).1 ↔ n ≤ i
  inside : ∀ i, i < n → ∃ c, index p i h = (.ok c, h) ∧ indexSized p n i h = (.ok c, h) ∧
    str.get? (i + 1 : Nat) = some (toAda c)

/-- A character of the string made of some bytes. -/
theorem get?_toString (hlen : s.length ≤ integerLast) {k : Nat} (hk : k < s.length) :
    (UnboundedString.toString ⟨s, hlen⟩).get? (k + 1 : Nat) = some (toAda s[k]) := by
  have hfirst := Arr.get?_first_add (UnboundedString.toString ⟨s, hlen⟩) k
  have hindex : ((k + 1 : Nat) : Int) = (UnboundedString.toString ⟨s, hlen⟩).first + k := by
    show ((k + 1 : Nat) : Int) = 1 + k
    omega
  rw [hindex, hfirst]
  exact List.getElem?_eq_getElem hk

theorem readersAgree_of_cstr (hs : CStr h.mem p s) (hlen : s.length ≤ integerLast) :
    ReadersAgree h p s.length (UnboundedString.toString ⟨s, hlen⟩) := by
  have hoff : s.length ≤ storageOffsetLast := storageOffset_of_integer hlen
  have hbytes : h.mem.Holds p s := (Memory.holds_append.mp hs.holds).1
  refine ⟨length_found hs hlen, ?_, toStringSized_eq hs.nonnull hbytes hlen, rfl, rfl,
    fun k hk hkn => ?_, fun i => ?_, fun i hi => ?_⟩
  · rw [toString_eq hs, decoded_eq hlen]
    rfl
  · obtain ⟨k, rfl⟩ : ∃ j, k = j + 1 := ⟨k - 1, by omega⟩
    exact ⟨s[k], (hs.byte_getElem hkn).1, get?_toString hlen hkn⟩
  · constructor
    · rintro ⟨reason, hraised⟩
      by_contra hi
      rw [index_in hs hlen (by omega)] at hraised
      cases hraised
    · intro hi
      rw [index_out hs hlen hi]
      exact ⟨_, rfl⟩
  · exact ⟨s[i], index_in hs hlen hi,
      indexSized_in hs.nonnull hi (by omega) (hs.byte_getElem hi).1, get?_toString hlen hi⟩

/-- None of the readers reads a byte outside of `S`. -/
structure ReadersWithin (S : Address → Prop) (h : Heap) (p : Address) (n : Nat) : Prop where
  length : ReadsWithin S h (CString.length p)
  string : ReadsWithin S h (toString p)
  sized : ReadsWithin S h (toStringSized p n)
  index : ∀ i, ReadsWithin S h (CString.index p i)
  indexSized : ∀ i, ReadsWithin S h (CString.indexSized p n i)

/-- The readers need the bytes of the string and its nul only. -/
theorem readersWithin_of_cstr {S : Address → Prop} (hs : CStr h.mem p s)
    (hlen : s.length ≤ integerLast) (hS : ∀ x, p.InRegion (s.length + 1) x → S x) :
    ReadersWithin S h p s.length := by
  have hfull := readersAgree_of_cstr hs hlen
  have hs' : CStr (h.only S).mem p s := hs.congr fun x hx => Memory.byte_only_of_mem (hS x hx)
  have honly := readersAgree_of_cstr hs' hlen
  refine ⟨readsWithin_of_eq hfull.length honly.length (by rintro a ⟨⟩),
    readsWithin_of_eq hfull.string honly.string (by rintro a ⟨⟩),
    readsWithin_of_eq hfull.sized honly.sized (by rintro a ⟨⟩), fun i => ?_, fun i => ?_⟩
  · by_cases hi : i < s.length
    · exact readsWithin_of_eq (index_in hs hlen hi) (index_in hs' hlen hi) (by rintro a ⟨⟩)
    · have hi' : s.length ≤ i := Nat.le_of_not_lt hi
      exact readsWithin_of_eq (index_out hs hlen hi') (index_out hs' hlen hi') (by rintro a ⟨⟩)
  · by_cases hi : i < s.length
    · have hoff : i ≤ storageOffsetLast := storageOffset_of_integer (by omega)
      exact readsWithin_of_eq (indexSized_in hs.nonnull hi hoff (hs.byte_getElem hi).1)
        (indexSized_in hs.nonnull hi hoff (hs'.byte_getElem hi).1) (by rintro a ⟨⟩)
    · have hi' : s.length ≤ i := Nat.le_of_not_lt hi
      exact readsWithin_of_eq (indexSized_out hs.nonnull hi') (indexSized_out hs.nonnull hi')
        (by rintro a ⟨⟩)

/-- Where the first nul is at `n`, the readers agree on one string, and read no byte beyond the nul. -/
theorem char_readers_agree (h : Heap) (p : Address) (n : Nat) (hnul : FirstNul h.mem p n)
    (hn : n ≤ integerLast) : (∃ str, ReadersAgree h p n str) ∧ ReadersWithin (p.InRegion (n + 1)) h p n := by
  obtain ⟨s, rfl, hs⟩ := hnul.cstr
  exact ⟨⟨_, readersAgree_of_cstr hs hn⟩, readersWithin_of_cstr hs hn fun _ hx => hx⟩

/-- The heap where the terminated string `a` lies at 8. -/
def heapOfA : Heap := Heap.ofMemory (Memory.ofBytes 8 [97, 0])

theorem char_readers_agree_a :
    (∃ str, ReadersAgree heapOfA 8 1 str) ∧
      ReadersWithin (Address.InRegion 8 2) heapOfA 8 1 := by
  refine char_readers_agree heapOfA 8 1 ⟨fun k hk => ?_, rfl⟩ (by decide)
  obtain rfl : k = 0 := by omega
  exact ⟨97, rfl, by decide⟩

end CStringVerified.CString
