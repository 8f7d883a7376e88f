import CStringVerified.Ada.Proofs.CharProofs
import CStringVerified.Ada.Proofs.EncodeProofs

/-!
# C strings made from character arrays

`Has_Null` scans an array over its Ada bounds, `Length` scans memory from its first element on. Both find
the same nul, so what `To_C_String` accepts can be read without leaving the array.
-/

namespace CStringVerified.CString

open Foundation Arrays

/-- The array object `item` has the value `value`. -/
structure Denotes (h : Heap) (item : CharArrayAccess) (value : CharArray) : Prop where
  first : (item.first : Int) = value.first
  last : (item.last : Int) = value.last
  holds : h.mem.Holds item.base value.elems

/-- `f` is the least index of a nul. -/
structure LeastNul (value : CharArray) (f : Int) : Prop where
  nul : value.get? f = some nul
  least : ∀ i, i < f → value.get? i ≠ some CStringVerified.nul

section Creation

variable {h : Heap} {item : CharArrayAccess} {value : CharArray} {f : Int}

theorem Denotes.count (hd : Denotes h item value) : item.last + 1 - item.first = value.length := by
  have hlen := value.length_eq_bounds
  have hfirst := hd.first
  have hlast := hd.last
  omega

/-- An element of the array is the byte at its place. -/
theorem Denotes.byte (hd : Denotes h item value) {k : Nat} (hk : k < value.length) :
    h.mem.byte (item.base.offset k) = value.get? (value.first + k) := by
  rw [Arr.get?_first_add, hd.holds k hk]
  exact (List.getElem?_eq_getElem hk).symm

/-- Every element has a number, counted from the first bound. -/
theorem get?_cases {value : CharArray} {i : Int} {c : CChar} (hi : value.get? i = some c) :
    ∃ k : Nat, i = value.first + k ∧ k < value.length := by
  unfold Arr.get? at hi
  by_cases hfirst : value.first ≤ i
  · rw [if_pos hfirst] at hi
    exact ⟨(i - value.first).toNat, by omega, (List.getElem?_eq_some_iff.mp hi).1⟩
  · rw [if_neg hfirst] at hi
    cases hi

/-- The least nul of the array is the first one in memory. -/
theorem LeastNul.firstNul (hf : LeastNul value f) (hd : Denotes h item value) :
    ∃ k : Nat, f = value.first + k ∧ k < value.length ∧ FirstNul h.mem item.base k := by
  obtain ⟨k, rfl, hk⟩ := get?_cases hf.nul
  refine ⟨k, rfl, hk, fun j hj => ?_, ?_⟩
  · have hj' : j < value.elems.length := hj.trans hk
    refine ⟨value.elems[j], hd.holds j hj', fun hzero => ?_⟩
    refine hf.least (value.first + j) (by omega) ?_
    rw [Arr.get?_first_add, List.getElem?_eq_getElem hj', hzero]
    rfl
  · rw [hd.byte hk]
    exact hf.nul

/-- There is a least nul, if there is one at all. -/
theorem exists_leastNul {i : Int} (hi : value.get? i = some nul) : ∃ f, LeastNul value f := by
  obtain ⟨k, rfl, -⟩ := get?_cases hi
  have hex : ∃ k : Nat, value.get? (value.first + k) = some nul := ⟨k, hi⟩
  refine ⟨value.first + Nat.find hex, Nat.find_spec hex, fun j hj hnul => ?_⟩
  obtain ⟨l, rfl, -⟩ := get?_cases hnul
  exact Nat.find_min hex (by omega) hnul

/-- `Has_Null` goes through an array without nuls. -/
theorem hasNull_none (hd : Denotes h item value) (hnone : ∀ i, value.get? i ≠ some nul) :
    hasNull item h = (.ok false, h) := by
  have hround : ∀ (k i : Nat) (t : Heap), k < value.length → (i = item.first + k ∧ t = h) →
      ∃ i' t', hasNullBody item i t = (.ok (.inl i'), t') ∧ i' = item.first + (k + 1) ∧ t' = h := by
    rintro k i t hk ⟨rfl, rfl⟩
    have hb := hd.holds k hk
    have hne : ¬value.elems[k] = nul := by
      intro hzero
      refine hnone (value.first + k) ?_
      rw [Arr.get?_first_add, ← hzero]
      exact List.getElem?_eq_getElem hk
    have hsub : item.first + k - item.first = k := by omega
    refine ⟨item.first + (k + 1), t, ?_, rfl, rfl⟩
    unfold hasNullBody
    rw [hsub, Run.bind_ok (readByte_eq hb), if_neg hne, Run.pure_apply]
    rfl
  unfold hasNull
  rw [hd.count]
  obtain ⟨i, t, hrun, -, ht⟩ := Run.loop_exhausted (fun _ => pure false)
    (fun k i t => i = item.first + k ∧ t = h) hround ⟨rfl, rfl⟩
  rw [ht] at hrun
  exact hrun

theorem toCString_none (hd : Denotes h item value) (hnone : ∀ i, value.get? i ≠ some nul) :
    toCString item h = (.error (.raised .nullTerminationError), h) := by
  unfold toCString
  rw [Run.bind_ok (hasNull_none hd hnone), if_neg Bool.false_ne_true, raise_apply]

theorem toCString_some (hd : Denotes h item value) {k : Nat} (hk : k < value.length)
    (hnul : FirstNul h.mem item.base k) : toCString item h = (.ok item.base, h) := by
  obtain ⟨s, rfl, hs⟩ := hnul.cstr
  exact toCString_eq hs (by rw [hd.count]; exact hk)

theorem toCCharArray_eq (hd : Denotes h item value) (hne : 0 < value.length) :
    toCCharArray item h = (.ok item.base, h) := by
  have hcount := hd.count
  unfold toCCharArray firstAddress
  rw [if_pos (by omega), Run.pure_apply]

/-- Reading some of the characters of an array that has any. -/
theorem toStringSized_take (hd : Denotes h item value) (hne : 0 < value.length)
    (hlen : value.length ≤ integerLast) {size : Nat} (hsize : size ≤ value.length) :
    ∃ str, toStringSized item.base size h = (.ok str, h) ∧ str.first = 1 ∧
      str.elems = (value.elems.take size).map toAda := by
  have hbase : item.base ≠ 0 := by
    have hb := hd.holds 0 hne
    rw [Address.offset_zero] at hb
    exact Memory.ne_null_of_mapped hb
  have htake : (value.elems.take size).length = size := List.length_take_of_le hsize
  have hholds : h.mem.Holds item.base (value.elems.take size) := by
    have hall := hd.holds
    rw [← List.take_append_drop size value.elems] at hall
    exact (Memory.holds_append.mp hall).1
  have hrun := toStringSized_eq hbase hholds (htake.le.trans (hsize.trans hlen))
  simp only [htake] at hrun
  refine ⟨_, hrun, rfl, ?_⟩
  exact (List.map_id _).symm

/-- The characters before the least nul, as `To_String` returns them. -/
theorem toString_cut (hd : Denotes h item value) (hlen : value.length ≤ integerLast) {k : Nat}
    (hk : k < value.length) (hnul : FirstNul h.mem item.base k) :
    ∃ str, toString item.base h = (.ok str, h) ∧ str.first = 1 ∧
      str.elems = (value.elems.map toAda).takeWhile fun c => c ≠ toAda nul := by
  obtain ⟨s, rfl, hs⟩ := hnul.cstr
  have hslen : s.length ≤ integerLast := by omega
  have hagree := readersAgree_of_cstr hs hslen
  refine ⟨_, hagree.string, rfl, ?_⟩
  -- The array starts with the string and its nul.
  have hstart : value.elems.take (s.length + 1) = s ++ [0] := by
    refine List.ext_getElem ?_ fun j hj hj' => ?_
    · rw [List.length_take_of_le hk, List.length_append, List.length_singleton]
    · have hjv : j < value.elems.length := by
        have hjlen : j < (s ++ [0]).length := hj'
        rw [List.length_append, List.length_singleton] at hjlen
        exact lt_of_lt_of_le hjlen hk
      rw [List.getElem_take]
      exact Option.some.inj ((hd.holds j hjv).symm.trans (hs.holds j hj'))
  have hcut : cut value.elems = s := by
    rw [← List.take_append_drop (s.length + 1) value.elems, hstart, List.append_assoc]
    unfold cut
    rw [List.takeWhile_append_of_pos, List.singleton_append, List.takeWhile_cons_of_neg,
      List.append_nil]
    · decide
    · intro b hb
      exact decide_eq_true fun hzero => hs.not_mem (hzero ▸ hb)
  have hmap : value.elems.map toAda = value.elems := List.map_id _
  rw [hmap]
  exact hcut.symm

end Creation

/-- C strings and character arrays made from an array object: `To_C_String` refuses exactly the arrays
without a nul; what it accepts ends at the least nul, and is read without leaving the array; all
characters can be read through `To_C_Char_Array`, and those before the least nul are the C string. -/
structure CreationIsSound (h : Heap) (item : CharArrayAccess) (value : CharArray) : Prop where
  refused : (toCString item h).1 = .error (.raised .nullTerminationError) ↔
    ∀ i, value.get? i ≠ some nul
  accepted : ∀ f, LeastNul value f → ∃ p, toCString item h = (.ok p, h) ∧
    f - value.first < value.length ∧ length p h = (.ok (f - value.first).toNat, h) ∧
    ReadersWithin (item.base.InRegion value.length) h p (f - value.first).toNat
  characters : 0 < value.length → ∃ p, toCCharArray item h = (.ok p, h) ∧
    ∀ size, size ≤ value.length → ∃ str, toStringSized p size h = (.ok str, h) ∧ str.first = 1 ∧
      str.elems = (value.elems.take size).map toAda
  agree : ∀ f, LeastNul value f → ∃ p q str full, toCString item h = (.ok p, h) ∧
    toCCharArray item h = (.ok q, h) ∧ toString p h = (.ok str, h) ∧
    toStringSized q value.length h = (.ok full, h) ∧ str.first = full.first ∧
    str.elems = full.elems.takeWhile fun c => c ≠ toAda nul

/-- Arrays of any bounds and contents, the empty ones included. -/
theorem creation_is_sound (h : Heap) (item : CharArrayAccess) (value : CharArray)
    (hd : Denotes h item value) (hlen : value.length ≤ integerLast) :
    CreationIsSound h item value := by
  refine ⟨⟨fun hrefused i hi => ?_, fun hnone => ?_⟩, fun f hf => ?_, fun hne => ?_, fun f hf => ?_⟩
  · obtain ⟨f, hf⟩ := exists_leastNul hi
    obtain ⟨k, -, hk, hnul⟩ := hf.firstNul hd
    rw [toCString_some hd hk hnul] at hrefused
    cases hrefused
  · rw [toCString_none hd hnone]
  · obtain ⟨k, rfl, hk, hnul⟩ := hf.firstNul hd
    have hdist : value.first + k - value.first = k := by omega
    obtain ⟨s, rfl, hs⟩ := hnul.cstr
    have hslen : s.length ≤ integerLast := by omega
    refine ⟨item.base, toCString_some hd hk hnul, by omega, ?_, ?_⟩
    · rw [hdist]
      exact (readersAgree_of_cstr hs hslen).length
    · rw [hdist]
      exact readersWithin_of_cstr hs hslen fun x hx => hx.mono hk
  · exact ⟨item.base, toCCharArray_eq hd hne, fun size => toStringSized_take hd hne hlen⟩
  · obtain ⟨k, -, hk, hnul⟩ := hf.firstNul hd
    have hne : 0 < value.length := Nat.zero_lt_of_lt hk
    obtain ⟨str, hstr, hfirst, helems⟩ := toString_cut hd hlen hk hnul
    obtain ⟨full, hfull, hfirst', helems'⟩ := toStringSized_take hd hne hlen (le_refl _)
    refine ⟨item.base, item.base, str, full, toCString_some hd hk hnul, toCCharArray_eq hd hne, hstr,
      hfull, hfirst.trans hfirst'.symm, ?_⟩
    have htake : value.elems.take value.length = value.elems := List.take_length
    rw [helems, helems', htake]

/-- The array `(5 => 'a', 6 => nul)`. -/
def arrayA : CharArray := Arr.ofVector 5 #v[97, 0] (by omega)

theorem creation_is_sound_a : CreationIsSound heapOfA ⟨8, 5, 6⟩ arrayA := by
  refine creation_is_sound heapOfA ⟨8, 5, 6⟩ arrayA ⟨rfl, rfl, fun k hk => ?_⟩ (by decide)
  match k, hk with
  | 0, _ => rfl
  | 1, _ => rfl

end CStringVerified.CString
