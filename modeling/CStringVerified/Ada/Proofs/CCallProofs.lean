import CStringVerified.Ada.Proofs.OperationProofs
import CStringVerified.Ada.Proofs.AgreementProofs
import CStringVerified.Ada.Proofs.AddressProofs

/-!
# What C prints of a pointer array, and what Ada makes of it

`ccall_input_term` returns exactly for the terminated arrays whose strings an `unsigned int` can count,
and prints the strings. Where it returns, `Convert_Terminated` returns the same strings, unless their
number or the length of one of them is too large for an `Integer`; where it runs for ever,
`Convert_Terminated` ends with an exception.
-/

namespace CStringVerified.CString

open Foundation

variable {t : CState} {a : Address} {s : List Byte}

theorem printf_apply (line : List Byte) (t : CState) :
    printf line t = (.ok (), { t with out := t.out ++ line }) := rfl

theorem loadPointer_eq {w : Address} (hw : t.heap.mem.word a = some w) :
    loadPointer a t = (.ok w, t) := by
  unfold loadPointer
  rw [Run.get_bind_apply]
  simp only [hw, Run.pure_apply]

theorem loadPointer_undefined (hw : t.heap.mem.word a = none) :
    loadPointer a t = (.error (.undefined a), t) := by
  unfold loadPointer
  rw [Run.get_bind_apply]
  simp only [hw, Run.fail_apply]

theorem loadChar_eq {b : Byte} (hb : t.heap.mem.byte a = some b) : loadChar a t = (.ok b, t) := by
  unfold loadChar
  rw [Run.get_bind_apply]
  simp only [hb, Run.pure_apply]

theorem loadChar_undefined (hb : t.heap.mem.byte a = none) :
    loadChar a t = (.error (.undefined a), t) := by
  unfold loadChar
  rw [Run.get_bind_apply]
  simp only [hb, Run.fail_apply]

/-! ## Strings -/

theorem stringBody_char {before : List Byte} {b : Byte} (hb : t.heap.mem.byte a = some b)
    (hne : b ≠ 0) : stringBody (a, before) t = (.ok (.inl (a.offset 1, before ++ [b])), t) := by
  have hnul : ¬b = nul := hne
  simp only [stringBody]
  rw [Run.bind_ok (loadChar_eq hb), if_neg hnul, Run.pure_apply]

theorem stringBody_nul {before : List Byte} (hb : t.heap.mem.byte a = some 0) :
    stringBody (a, before) t = (.ok (.inr before), t) := by
  have hnul : (0 : Byte) = nul := rfl
  simp only [stringBody]
  rw [Run.bind_ok (loadChar_eq hb), if_pos hnul, Run.pure_apply]

theorem stringBody_undefined {before : List Byte} (hb : t.heap.mem.byte a = none) :
    stringBody (a, before) t = (.error (.undefined a), t) := by
  simp only [stringBody]
  rw [Run.bind_error (loadChar_undefined hb)]

/-- `%s` takes a string. -/
theorem stringAt_eq (hs : CStr t.heap.mem a s) : stringAt a t = (.ok s, t) := by
  have hlt := hs.length_lt
  unfold stringAt
  refine Run.loop_eq (fun k state => state = (a.offset k, s.take k)) s.length ?_ ?_ ?_ ?_
  · rintro k state hk rfl
    obtain ⟨hb, hne⟩ := hs.byte_getElem hk
    refine ⟨_, stringBody_char hb hne, ?_⟩
    rw [Address.offset_offset, List.take_concat_get' s k hk]
  · rintro state rfl
    refine Or.inl ⟨s, ?_, rfl⟩
    rw [stringBody_nul hs.byte_nul, List.take_length]
  · unfold sizeTCount
    omega
  · rw [Address.offset_zero, List.take_zero]

/-- Going on from any address, one comes to a nul or to where nothing is mapped: to the null address at
the latest. -/
theorem exists_end (m : Memory) (a : Address) : ∃ n, n < 2 ^ 64 ∧
    (∀ k, k < n → ∃ b, m.byte (a.offset k) = some b ∧ b ≠ 0) ∧
    (m.byte (a.offset n) = some 0 ∨ m.byte (a.offset n) = none) := by
  have hex : ∃ n, m.byte (a.offset n) = some 0 ∨ m.byte (a.offset n) = none := by
    refine ⟨(0 - a).toNat, Or.inr ?_⟩
    rw [Address.offset_toNat_sub]
    exact m.null_unmapped
  refine ⟨Nat.find hex, ?_, fun k hk => ?_, Nat.find_spec hex⟩
  · refine lt_of_le_of_lt (Nat.find_min' hex (Or.inr ?_)) (0 - a).isLt
    rw [Address.offset_toNat_sub]
    exact m.null_unmapped
  · have hnot := Nat.find_min hex hk
    cases hb : m.byte (a.offset k) with
    | none => exact absurd (Or.inr hb) hnot
    | some b =>
      refine ⟨b, rfl, fun hzero => hnot (Or.inl ?_)⟩
      rw [hb, hzero]

/-- Where no string lies, `%s` reads past the end of what is mapped. -/
theorem stringAt_undefined (h : ∀ s, ¬CStr t.heap.mem a s) :
    ∃ b, stringAt a t = (.error (.undefined b), t) := by
  obtain ⟨n, hn, hbefore, hend⟩ := exists_end t.heap.mem a
  have hunmapped : t.heap.mem.byte (a.offset n) = none := by
    rcases hend with hnul | hnone
    · obtain ⟨s, -, hs⟩ := FirstNul.cstr ⟨hbefore, hnul⟩
      exact absurd hs (h s)
    · exact hnone
  refine ⟨a.offset n, ?_⟩
  unfold stringAt
  refine Run.loop_eq (fun k state => state.1 = a.offset k) n ?_ ?_ hn ?_
  · rintro k ⟨b, before⟩ hk ⟨⟩
    obtain ⟨c, hc, hne⟩ := hbefore k hk
    exact ⟨_, stringBody_char hc hne, Address.offset_offset a k 1⟩
  · rintro ⟨b, before⟩ ⟨⟩
    exact Or.inr ⟨_, stringBody_undefined hunmapped, rfl⟩
  · exact (Address.offset_zero a).symm

namespace Arrays

variable {p : PointerArray} {strings : List (List Byte)}

/-! ## Rows -/

theorem rows_append (count : Nat) (slots slots' : List (Option (List Byte))) :
    rows count (slots ++ slots') = rows count slots ++ rows (count + slots.length) slots' := by
  induction slots generalizing count with
  | nil => rfl
  | cons slot slots ih =>
    have hcount : count + 1 + slots.length = count + (slots.length + 1) := by omega
    rw [List.cons_append, rows, rows, ih, List.length_cons, List.append_assoc, hcount]

/-- The rows of the first `k + 1` slots. -/
theorem rows_take_succ {slots : List (Option (List Byte))} {k : Nat} (hk : k < slots.length) :
    rows 0 (slots.take (k + 1)) = rows 0 (slots.take k) ++ slotRow k slots[k] := by
  have hlen : (slots.take k).length = k := by
    rw [List.length_take]
    omega
  rw [← List.take_concat_get' slots k hk, rows_append, hlen, Nat.zero_add]
  simp only [rows, List.append_nil]

/-! ## One round -/

/-- `&data [k]`. -/
theorem offset_wordSize (p : PointerArray) (k : Nat) : p.offset (wordSize * k) = slotAt p k := rfl

theorem inputTermBody_null {k : Nat} (hnull : t.heap.mem.word (slotAt p k) = some 0) :
    ccallInputTermBody p k t = (.ok (.inr k), { t with out := t.out ++ slotRow k none }) := by
  unfold ccallInputTermBody
  rw [offset_wordSize, Run.bind_ok (loadPointer_eq hnull), if_pos rfl, Run.bind_ok (printf_apply _ t)]
  rfl

theorem inputTermBody_string {k : Nat} (hslot : Slot t.heap.mem (slotAt p k) (some s)) :
    ccallInputTermBody p k t = (.ok (.inl ((k + 1) % unsignedCount)),
      { t with out := t.out ++ slotRow k (some s) }) := by
  obtain ⟨v, hv, hs⟩ := hslot
  unfold ccallInputTermBody
  rw [offset_wordSize, Run.bind_ok (loadPointer_eq hv), if_neg hs.nonnull, Run.bind_ok (stringAt_eq hs),
    Run.bind_ok (printf_apply _ t)]
  rfl

/-- A slot that neither is null nor points to a string cannot be read. -/
theorem inputTermBody_undefined {k : Nat}
    (hno : ∀ slot, ¬Slot t.heap.mem (slotAt p k) slot) :
    ∃ b, ccallInputTermBody p k t = (.error (.undefined b), t) := by
  unfold ccallInputTermBody
  rw [offset_wordSize]
  cases hw : t.heap.mem.word (slotAt p k) with
  | none => exact ⟨_, Run.bind_error (loadPointer_undefined hw)⟩
  | some v =>
    have hne : v ≠ 0 := by
      rintro rfl
      exact hno none hw
    obtain ⟨b, hb⟩ := stringAt_undefined fun s hs => hno (some s) ⟨v, hw, hs⟩
    refine ⟨b, ?_⟩
    rw [Run.bind_ok (loadPointer_eq hw), if_neg hne, Run.bind_error hb]

/-- A round at a slot that can be read and is no null one. -/
theorem inputUntermBody_slot {k size : Nat} {slot : Option (List Byte)} (hk : k ≠ size)
    (hslot : Slot t.heap.mem (slotAt p k) slot) :
    ccallInputUntermBody p size k t = (.ok (.inl ((k + 1) % unsignedCount)),
      { t with out := t.out ++ slotRow k slot }) := by
  unfold ccallInputUntermBody
  rw [if_neg hk, offset_wordSize]
  cases slot with
  | none =>
    rw [Run.bind_ok (loadPointer_eq hslot), if_pos rfl, Run.bind_ok (printf_apply _ t)]
    rfl
  | some s =>
    obtain ⟨v, hv, hs⟩ := hslot
    rw [Run.bind_ok (loadPointer_eq hv), if_neg hs.nonnull, Run.bind_ok (stringAt_eq hs),
      Run.bind_ok (printf_apply _ t)]
    rfl

/-! ## Whole arrays -/

/-- `k` rows are printed. -/
structure Printed (h : Heap) (out : List Byte) (slots : List (Option (List Byte))) (k count : Nat)
    (t : CState) : Prop where
  count : count = k % unsignedCount
  heap : t.heap = h
  out : t.out = out ++ rows 0 (slots.take k)

variable {h : Heap} {out : List Byte} {slots : List (Option (List Byte))}

theorem printed_zero (h : Heap) (out : List Byte) (slots : List (Option (List Byte))) :
    Printed h out slots 0 0 ⟨h, out⟩ := by
  refine ⟨rfl, rfl, ?_⟩
  simp only [List.take_zero, rows, List.append_nil]

theorem Printed.next {k count : Nat} (hp : Printed h out slots k count t) (hk : k < slots.length)
    (hu : k < unsignedCount) :
    count = k ∧ Printed h out slots (k + 1) ((count + 1) % unsignedCount)
      { t with out := t.out ++ slotRow count slots[k] } := by
  have hcount : count = k := hp.count.trans (Nat.mod_eq_of_lt hu)
  subst hcount
  refine ⟨rfl, rfl, hp.heap, ?_⟩
  rw [rows_take_succ hk, hp.out, List.append_assoc]

theorem inputTerm_round (ht : PointerTable h.mem p (strings.map some)) {k count : Nat}
    (hk : k < strings.length) (hu : k < unsignedCount)
    (hp : Printed h out (strings.map some) k count t) :
    ∃ count' t', ccallInputTermBody p count t = (.ok (.inl count'), t') ∧
      Printed h out (strings.map some) (k + 1) count' t' := by
  have hk' : k < (strings.map some).length := by simpa using hk
  obtain ⟨rfl, hnext⟩ := hp.next hk' hu
  have hslot := ht count hk'
  rw [← hp.heap] at hslot
  rw [List.getElem_map] at hslot hnext
  exact ⟨_, _, inputTermBody_string hslot, hnext⟩

/-- `ccall_input_term` prints the strings of a terminated array, and returns their number. -/
theorem ccallInputTerm_terminated (ht : PointerTable h.mem p (terminated strings))
    (hlen : strings.length < unsignedCount) (out : List Byte) :
    ccallInputTerm p ⟨h, out⟩ =
      (.ok strings.length, ⟨h, out ++ report (terminated strings)⟩) := by
  obtain ⟨r, t, hloop, rfl, rfl⟩ : ∃ r t, Run.loop (ccallInputTermBody p)
      (fun _ => Run.fail .diverges) unsignedCount 0 ⟨h, out ++ bytes "-- C start\n"⟩ = (r, t) ∧
        r = .ok strings.length ∧
        t = ⟨h, out ++ bytes "-- C start\n" ++ rows 0 (terminated strings)⟩ := by
    refine Run.loop_spec (Printed h _ (strings.map some))
      (fun r t => r = .ok strings.length ∧ t = ⟨h, _⟩) strings.length ?_ ?_ hlen
      (printed_zero h _ _)
    · intro k count t hk hp
      exact inputTerm_round ht.dropNull hk (by omega) hp
    · intro count t hp
      have hcount : count = strings.length := hp.count.trans (Nat.mod_eq_of_lt hlen)
      have hnull := ht.nullAt.null
      rw [← hp.heap, ← hcount] at hnull
      refine Or.inl ⟨_, _, inputTermBody_null hnull, by rw [hcount], ?_⟩
      have htake : (strings.map some).take strings.length = strings.map some :=
        List.take_of_length_le (by simp)
      rw [terminated, rows_append, List.length_map, Nat.zero_add, ← hp.heap, hp.out, htake, hcount]
      simp only [rows, List.append_nil, List.append_assoc]
  unfold ccallInputTerm
  rw [Run.bind_ok (printf_apply _ _), Run.bind_ok hloop, Run.bind_ok (printf_apply _ _),
    Run.pure_apply, report]
  simp only [List.append_assoc]

/-- It goes round for ever if `unsigned int` cannot count the strings. -/
theorem ccallInputTerm_diverges (ht : PointerTable h.mem p (strings.map some))
    (hlen : strings.length = unsignedCount) :
    (ccallInputTerm p ⟨h, out⟩).1 = .error .diverges := by
  have hround : ∀ k count t, k < unsignedCount →
      Printed h (out ++ bytes "-- C start\n") (strings.map some) k count t →
      ∃ count' t', ccallInputTermBody p count t = (.ok (.inl count'), t') ∧
        Printed h (out ++ bytes "-- C start\n") (strings.map some) (k + 1) count' t' :=
    fun k count t hk hp => inputTerm_round ht (by omega) hk hp
  obtain ⟨count, t, hloop, -⟩ := Run.loop_exhausted (fun _ => Run.fail CFail.diverges)
    (Printed h _ (strings.map some)) hround (printed_zero h _ _)
  unfold ccallInputTerm
  rw [Run.bind_ok (printf_apply _ _), Run.bind_error hloop]

/-- It is undefined if it comes to a slot that cannot be read. -/
theorem ccallInputTerm_undefined (ht : PointerTable h.mem p (strings.map some))
    (hlen : strings.length < unsignedCount)
    (hno : ∀ slot, ¬Slot h.mem (slotAt p strings.length) slot) :
    ∃ b, (ccallInputTerm p ⟨h, out⟩).1 = .error (.undefined b) := by
  obtain ⟨r, t, hloop, b, rfl⟩ : ∃ r t, Run.loop (ccallInputTermBody p)
      (fun _ => Run.fail .diverges) unsignedCount 0 ⟨h, out ++ bytes "-- C start\n"⟩ = (r, t) ∧
        ∃ b, r = .error (.undefined b) := by
    refine Run.loop_spec (Printed h _ (strings.map some))
      (fun r _ => ∃ b, r = .error (CFail.undefined b)) strings.length ?_ ?_ hlen (printed_zero h _ _)
    · intro k count t hk hp
      exact inputTerm_round ht hk (by omega) hp
    · intro count t hp
      have hcount : count = strings.length := hp.count.trans (Nat.mod_eq_of_lt hlen)
      rw [← hcount, ← hp.heap] at hno
      obtain ⟨b, hb⟩ := inputTermBody_undefined hno
      exact Or.inr ⟨_, _, hb, b, rfl⟩
  refine ⟨b, ?_⟩
  unfold ccallInputTerm
  rw [Run.bind_ok (printf_apply _ _), Run.bind_error hloop]

/-- The three ways `ccall_input_term` can go. -/
theorem ccallInputTerm_cases (h : Heap) (p : PointerArray) (out : List Byte) :
    (∃ strings : List (List Byte), PointerTable h.mem p (terminated strings) ∧
      strings.length < unsignedCount ∧ ccallInputTerm p ⟨h, out⟩ =
        (.ok strings.length, ⟨h, out ++ report (terminated strings)⟩)) ∨
    (∃ strings : List (List Byte), PointerTable h.mem p (strings.map some) ∧
      strings.length = unsignedCount ∧ (ccallInputTerm p ⟨h, out⟩).1 = .error .diverges) ∨
    ∃ b, (ccallInputTerm p ⟨h, out⟩).1 = .error (.undefined b) := by
  rcases PointerTable.strings_cases h.mem p unsignedCount with
    ⟨strings, hlen, ht⟩ | ⟨strings, hlen, ht, hno⟩
  · exact Or.inr (Or.inl ⟨strings, ht, hlen, ccallInputTerm_diverges ht hlen⟩)
  · by_cases hnull : Slot h.mem (slotAt p strings.length) none
    · have htable : PointerTable h.mem p (terminated strings) := ht.concat (by simpa using hnull)
      exact Or.inl ⟨strings, htable, hlen, ccallInputTerm_terminated htable hlen out⟩
    · refine Or.inr (Or.inr (ccallInputTerm_undefined ht hlen fun slot hslot => ?_))
      cases slot with
      | none => exact hnull hslot
      | some s => exact hno s hslot

/-- `ccall_input_unterm` prints as many slots as it is told to. -/
theorem ccallInputUnterm_eq (ht : PointerTable h.mem p slots) (hlen : slots.length < unsignedCount)
    (out : List Byte) :
    ccallInputUnterm p slots.length ⟨h, out⟩ = (.ok slots.length, ⟨h, out ++ report slots⟩) := by
  obtain ⟨r, t, hloop, rfl, rfl⟩ : ∃ r t, Run.loop (ccallInputUntermBody p slots.length)
      (fun _ => Run.fail .diverges) unsignedCount 0 ⟨h, out ++ bytes "-- C start\n"⟩ = (r, t) ∧
        r = .ok slots.length ∧ t = ⟨h, out ++ bytes "-- C start\n" ++ rows 0 slots⟩ := by
    refine Run.loop_spec (Printed h _ slots) (fun r t => r = .ok slots.length ∧ t = ⟨h, _⟩)
      slots.length ?_ ?_ hlen (printed_zero h _ _)
    · intro k count t hk hp
      obtain ⟨rfl, hnext⟩ := hp.next hk (by omega)
      have hslot := ht count hk
      rw [← hp.heap] at hslot
      exact ⟨_, _, inputUntermBody_slot (by omega) hslot, hnext⟩
    · intro count t hp
      have hcount : count = slots.length := hp.count.trans (Nat.mod_eq_of_lt hlen)
      have hbody : ccallInputUntermBody p slots.length count t = (.ok (.inr count), t) := by
        unfold ccallInputUntermBody
        rw [if_pos hcount, Run.pure_apply]
      refine Or.inl ⟨_, _, hbody, by rw [hcount], ?_⟩
      have hout := hp.out
      rw [List.take_length] at hout
      rw [← hp.heap, ← hout]
  unfold ccallInputUnterm
  rw [Run.bind_ok (printf_apply _ _), Run.bind_ok hloop, Run.bind_ok (printf_apply _ _),
    Run.pure_apply, report]
  simp only [List.append_assoc]

/-! ## What Ada makes of it -/

end Arrays

theorem readByte_ok {h h' : Heap} {b : Byte} (hrun : readByte a h = (.ok b, h')) :
    h' = h ∧ h.mem.byte a = some b := by
  have hkeep : h = h' := (readsOnly_readByte a).keeps.of_run hrun
  refine ⟨hkeep.symm, ?_⟩
  unfold readByte at hrun
  obtain ⟨_, t, hcheck, hrest⟩ := Run.bind_eq_ok hrun
  obtain rfl : h = t := (readsOnly_checkNotNull a).keeps.of_run hcheck
  rw [Run.get_bind_apply] at hrest
  cases hb : h.mem.byte a with
  | none =>
    simp only [hb, Run.fail_apply] at hrest
    cases hrest
  | some c =>
    simp only [hb, Run.pure_apply] at hrest
    cases hrest
    rfl

theorem readWord_ok {h h' : Heap} {w : Address} (hrun : readWord a h = (.ok w, h')) :
    h' = h ∧ h.mem.word a = some w := by
  have hkeep : h = h' := (readsOnly_readWord a).keeps.of_run hrun
  refine ⟨hkeep.symm, ?_⟩
  unfold readWord at hrun
  obtain ⟨_, t, hcheck, hrest⟩ := Run.bind_eq_ok hrun
  obtain rfl : h = t := (readsOnly_checkNotNull a).keeps.of_run hcheck
  rw [Run.get_bind_apply] at hrest
  cases hw : h.mem.word a with
  | none =>
    simp only [hw, Run.fail_apply] at hrest
    cases hrest
  | some c =>
    simp only [hw, Run.pure_apply] at hrest
    cases hrest
    rfl

variable {h h' : Heap}

theorem unsafeIndex_ok {i : Nat} {b : Byte} (hrun : unsafeIndex a i h = (.ok b, h')) :
    h.mem.byte (a.offset i) = some b := by
  unfold unsafeIndex at hrun
  obtain ⟨_, t, hcheck, hrest⟩ := Run.bind_eq_ok hrun
  obtain rfl : h = t := (readsOnly_checkNotNull a).keeps.of_run hcheck
  obtain ⟨offset, t, hoffset, hread⟩ := Run.bind_eq_ok hrest
  unfold toStorageOffset at hoffset
  split at hoffset
  · cases hoffset
    exact (readByte_ok hread).2
  · cases hoffset

/-- `Length` returns where the first nul is. -/
theorem length_ok {n : Nat} (hrun : length a h = (.ok n, h')) : FirstNul h.mem a n := by
  unfold length at hrun
  obtain ⟨_, t, hcheck, hloop⟩ := Run.bind_eq_ok hrun
  obtain rfl : h = t := (readsOnly_checkNotNull a).keeps.of_run hcheck
  refine Run.loop_ok (fun i t => t = h ∧ ∀ k, k < i → ∃ b, h.mem.byte (a.offset k) = some b ∧ b ≠ 0)
    (fun i _ => FirstNul h.mem a i) ?_ ?_ ?_ ⟨rfl, fun k hk => absurd hk (Nat.not_lt_zero k)⟩ hloop
  · rintro i t i' t' ⟨rfl, hbefore⟩ hbody
    obtain ⟨c, u, hc, hrest⟩ := Run.bind_eq_ok hbody
    obtain rfl : t = u := (readsOnly_unsafeIndex a i).keeps.of_run hc
    by_cases hnul : c = nul
    · rw [if_pos hnul] at hrest
      cases hrest
    · rw [if_neg hnul] at hrest
      cases hrest
      refine ⟨rfl, fun k hk => ?_⟩
      by_cases hki : k < i
      · exact hbefore k hki
      · obtain rfl : k = i := by omega
        exact ⟨c, unsafeIndex_ok hc, hnul⟩
  · rintro i t c t' ⟨rfl, hbefore⟩ hbody
    obtain ⟨b, u, hb, hrest⟩ := Run.bind_eq_ok hbody
    by_cases hnul : b = nul
    · rw [if_pos hnul] at hrest
      cases hrest
      refine ⟨hbefore, ?_⟩
      rw [unsafeIndex_ok hb, hnul]
      rfl
    · rw [if_neg hnul] at hrest
      cases hrest
  · rintro i t c t' ⟨⟩

/-- What `To_String` returns lies there as a string. -/
theorem toString_ok {str : AdaString} (hrun : toString a h = (.ok str, h')) :
    CStr h.mem a str.elems := by
  have hlength : ∃ n, length a h = (.ok n, h) := by
    unfold toString at hrun
    obtain ⟨_, t, hcheck, hrest⟩ := Run.bind_eq_ok hrun
    obtain rfl : h = t := (readsOnly_checkNotNull a).keeps.of_run hcheck
    obtain ⟨n, t, hn, -⟩ := Run.bind_eq_ok hrest
    obtain rfl : h = t := (readsOnly_length a).keeps.of_run hn
    exact ⟨n, hn⟩
  obtain ⟨n, hn⟩ := hlength
  obtain ⟨s, -, hs⟩ := (length_ok hn).cstr
  rw [toString_eq hs] at hrun
  unfold decoded at hrun
  split at hrun
  · cases hrun
    exact hs
  · cases hrun

namespace Arrays

/-- `Size_Terminated` returns where the first null slot is. -/
theorem sizeTerminated_ok {n : Natural} (hrun : sizeTerminated p h = (.ok n, h')) :
    NullAt h.mem p n.val := by
  refine Run.loop_ok (fun state t => t = h ∧ state.1 = slotAt p state.2.val ∧
      ∀ k, k < state.2.val → ∃ v, h.mem.word (slotAt p k) = some v ∧ v ≠ 0)
    (fun size _ => NullAt h.mem p size.val) ?_ ?_ ?_
    ⟨rfl, by simp [slotAt], fun k hk => absurd hk (Nat.not_lt_zero k)⟩ hrun
  · rintro ⟨a, size⟩ t state' t' ⟨rfl, ha, hbefore⟩ hbody
    obtain rfl : a = slotAt p size.val := ha
    simp only [sizeTerminatedBody] at hbody
    obtain ⟨w, u, hw, hrest⟩ := Run.bind_eq_ok hbody
    obtain ⟨rfl, hword⟩ := readWord_ok hw
    by_cases hnull : w = 0
    · rw [if_pos hnull] at hrest
      cases hrest
    · rw [if_neg hnull] at hrest
      obtain ⟨next, v, hnext, hret⟩ := Run.bind_eq_ok hrest
      unfold succNatural at hnext
      split at hnext
      · cases hnext
        cases hret
        refine ⟨rfl, slotAt_succ p size.val, fun k hk => ?_⟩
        by_cases hk' : k < size.val
        · exact hbefore k hk'
        · obtain rfl : k = size.val := by
            simp only at hk
            omega
          exact ⟨w, hword, hnull⟩
      · cases hnext
  · rintro ⟨a, size⟩ t c t' ⟨rfl, ha, hbefore⟩ hbody
    obtain rfl : a = slotAt p size.val := ha
    simp only [sizeTerminatedBody] at hbody
    obtain ⟨w, u, hw, hrest⟩ := Run.bind_eq_ok hbody
    obtain ⟨rfl, hword⟩ := readWord_ok hw
    by_cases hnull : w = 0
    · rw [if_pos hnull] at hrest
      cases hrest
      refine ⟨hbefore, ?_⟩
      rw [hword, hnull]
    · rw [if_neg hnull] at hrest
      obtain ⟨next, v, -, hret⟩ := Run.bind_eq_ok hrest
      cases hret
  · rintro state t c t' ⟨⟩

/-- What `Convert` stores at one index is what the slot points to. -/
theorem convertElement_ok {size : Natural} {k : Nat} {u : UnboundedString} {v : Address}
    (hv : h.mem.word (slotAt p k) = some v) (hne : v ≠ 0)
    (hrun : convertElement p size k h = (.ok u, h')) :
    k * wordSize ≤ integerLast ∧ CStr h.mem v u.chars := by
  unfold convertElement at hrun
  split at hrun
  · obtain ⟨str, t, hcore, hret⟩ := Run.bind_eq_ok hrun
    cases hret
    by_cases hw : k * wordSize ≤ integerLast
    · refine ⟨hw, ?_⟩
      rw [indexCore_slotString size hw] at hcore
      unfold slotString at hcore
      rw [Run.bind_ok (readWord_eq hv), if_neg hne] at hcore
      exact toString_ok hcore
    · unfold indexCore at hcore
      rw [Run.bind_error (indexAddress_over size _ (Nat.lt_of_not_le hw))] at hcore
      cases hcore
  · cases hrun

/-- What `Convert_Terminated` returns are the strings of a terminated array. -/
theorem convertTerminated_ok {table : StringArray} (hrun : convertTerminated p h = (.ok table, h')) :
    PointerTable h.mem p (terminated (table.elems.map UnboundedString.chars)) ∧
      (table.length - 1) * wordSize ≤ integerLast := by
  unfold convertTerminated at hrun
  obtain ⟨size, t, hsize, hconvert⟩ := Run.bind_eq_ok hrun
  have hnull := sizeTerminated_ok hsize
  obtain rfl : h = t := (readsOnly_sizeTerminated p).keeps.of_run hsize
  unfold convert at hconvert
  obtain ⟨v, t, hcollect, hret⟩ := Run.bind_eq_ok hconvert
  cases hret
  have helems : ∀ {k : Nat} (hk : k < size.val), ∃ w, h.mem.word (slotAt p k) = some w ∧
      k * wordSize ≤ integerLast ∧ CStr h.mem w v[k].chars := by
    intro k hk
    obtain ⟨w, hw, hne⟩ := hnull.before k hk
    have hrun := Run.collect_eq_ok (fun i => (readsOnly_convertElement p size i).keeps) hcollect hk
    exact ⟨w, hw, convertElement_ok hw hne hrun⟩
  have hlist : (Arr.ofVector 0 v fun _ => by have := size.property; omega : StringArray).elems =
      v.toList := rfl
  have hlen : (v.toList.map UnboundedString.chars).length = size.val := by simp
  refine ⟨?_, ?_⟩
  · rw [hlist]
    refine PointerTable.concat (fun k hk => ?_) ?_
    · have hk' : k < size.val := by simpa using hk
      obtain ⟨w, hw, -, hs⟩ := helems hk'
      simp only [List.getElem_map, Vector.getElem_toList]
      exact ⟨w, hw, hs⟩
    · rw [List.length_map, hlen]
      exact hnull.null
  · have hlength : (Arr.ofVector 0 v fun _ => by have := size.property; omega : StringArray).length =
        size.val := by
      rw [Arr.length, hlist, Vector.length_toList]
    rw [hlength]
    cases hn : size.val with
    | zero => exact Nat.zero_le _
    | succ n =>
      obtain ⟨-, -, hw, -⟩ := helems (k := n) (by omega)
      exact hw

/-- A terminated array whose strings and size are not too large for an `Integer` is converted. -/
theorem convertTerminated_strings (ht : PointerTable h.mem p (terminated strings))
    (hw : (strings.length - 1) * wordSize ≤ integerLast)
    (hshort : ∀ s ∈ strings, s.length ≤ integerLast) :
    ∃ table, convertTerminated p h = (.ok table, h) ∧
      table.elems.map UnboundedString.chars = strings := by
  have hint : strings.length ≤ integerLast := by
    unfold wordSize integerLast at *
    omega
  have hlen : (strings.map some).length = strings.length := List.length_map _
  have hshort' : ∀ slot ∈ strings.map some, (slot.getD []).length ≤ integerLast := by
    intro slot hslot
    obtain ⟨s, hs, rfl⟩ := List.mem_map.mp hslot
    exact hshort s hs
  obtain ⟨table, hconvert, hfirst, hlast, helem⟩ := convert_eq ht.dropNull
    (show (⟨strings.length, hint⟩ : Natural).val = _ from hlen.symm) (by rwa [hlen]) hshort'
  refine ⟨table, ?_, ?_⟩
  · unfold convertTerminated
    rw [Run.bind_ok (sizeTerminated_eq ht.nullAt hint)]
    exact hconvert
  · have hcount : table.elems.length = strings.length := by
      have hbounds := table.length_eq
      simp only at hlast
      omega
    refine List.ext_getElem (by rw [List.length_map, hcount]) fun k hk hk' => ?_
    obtain ⟨u, hu, hchars⟩ := helem k (hlen.symm ▸ hk')
    have hget := Arr.get?_first_add table k
    rw [hfirst, Int.zero_add, hu, List.getElem?_eq_getElem (hcount.symm ▸ hk')] at hget
    rw [List.getElem_map, ← Option.some.inj hget, hchars, List.getElem_map]
    rfl

/-- `Natural` cannot count the slots before the null one. -/
theorem sizeTerminated_over {n : Nat} (hn : n = integerLast)
    (hslots : ∀ k, k ≤ n → ∃ v, h.mem.word (slotAt p k) = some v ∧ v ≠ 0) :
    sizeTerminated p h = (.error (.raised (.constraintError .overflowCheck)), h) := by
  unfold sizeTerminated
  refine Run.loop_eq (fun k state => state.1 = slotAt p k ∧ state.2.val = k) n ?_ ?_
    (by omega) ⟨by simp [slotAt], rfl⟩
  · rintro k ⟨a, size⟩ hk ⟨ha, hsize⟩
    simp only at ha hsize
    subst ha hsize
    obtain ⟨w, hw, hne⟩ := hslots size.val (Nat.le_of_lt hk)
    exact ⟨_, sizeTerminatedBody_next hw hne (by omega), slotAt_succ p size.val, rfl⟩
  · rintro ⟨a, size⟩ ⟨rfl, hsize⟩
    obtain ⟨w, hw, hne⟩ := hslots n (le_refl n)
    have hsucc : ¬size.val + 1 ≤ integerLast := by
      simp only at hsize
      omega
    refine Or.inr ⟨_, ?_, rfl⟩
    simp only [sizeTerminatedBody]
    rw [Run.bind_ok (readWord_eq hw), if_neg hne, succNatural, dif_neg hsucc]
    rfl

/-- On every memory, Ada and C read the same array. What `Convert_Terminated` returns is what C prints.
What C prints is what `Convert_Terminated` returns, unless a product or a length is no `Integer`. C
runs for ever exactly if its counter can wrap around, and then Ada finds an overflow. -/
theorem convertTerminated_agrees_with_ccall (h : Heap) (p : PointerArray) (out : List Byte) :
    (∀ table h', convertTerminated p h = (.ok table, h') →
      ccallInputTerm p ⟨h, out⟩ = (.ok table.length,
        ⟨h, out ++ report (terminated (table.elems.map UnboundedString.chars))⟩)) ∧
    (∀ n t, ccallInputTerm p ⟨h, out⟩ = (.ok n, t) →
      ∃ strings : List (List Byte), strings.length = n ∧
        t = ⟨h, out ++ report (terminated strings)⟩ ∧
        ((∃ table h', convertTerminated p h = (.ok table, h') ∧
            table.elems.map UnboundedString.chars = strings) ↔
          (n - 1) * wordSize ≤ integerLast ∧ ∀ s ∈ strings, s.length ≤ integerLast)) ∧
    ((ccallInputTerm p ⟨h, out⟩).1 = .error .diverges ↔
      ∃ strings : List (List Byte), strings.length = unsignedCount ∧
        PointerTable h.mem p (strings.map some)) ∧
    ((ccallInputTerm p ⟨h, out⟩).1 = .error .diverges →
      (convertTerminated p h).1 = .error (.raised (.constraintError .overflowCheck))) := by
  have hdiverges : (ccallInputTerm p ⟨h, out⟩).1 = .error .diverges →
      ∃ strings : List (List Byte), strings.length = unsignedCount ∧
        PointerTable h.mem p (strings.map some) := by
    intro hrun
    rcases ccallInputTerm_cases h p out with ⟨_, _, _, hc⟩ | ⟨strings, ht, hlen, -⟩ | ⟨b, hc⟩
    · rw [hc] at hrun
      cases hrun
    · exact ⟨strings, hlen, ht⟩
    · rw [hc] at hrun
      cases hrun
  refine ⟨fun table h' hrun => ?_, fun n t hrun => ?_, ⟨hdiverges, fun hstrings => ?_⟩,
    fun hrun => ?_⟩
  · obtain ⟨ht, hw⟩ := convertTerminated_ok hrun
    have hlen : (table.elems.map UnboundedString.chars).length = table.length := List.length_map _
    have hcount : (table.elems.map UnboundedString.chars).length < unsignedCount := by
      have hmax : integerLast + 1 < unsignedCount := by decide
      unfold wordSize at hw
      rw [hlen]
      omega
    have hc := ccallInputTerm_terminated ht hcount out
    rwa [hlen] at hc
  · rcases ccallInputTerm_cases h p out with ⟨strings, ht, -, hc⟩ | ⟨_, _, _, hc⟩ | ⟨b, hc⟩
    · rw [hc] at hrun
      cases hrun
      refine ⟨strings, rfl, rfl, ?_, fun ⟨hw, hshort⟩ => ?_⟩
      · rintro ⟨table, h', htable, rfl⟩
        rw [List.length_map]
        refine ⟨(convertTerminated_ok htable).2, fun s hs => ?_⟩
        obtain ⟨u, -, rfl⟩ := List.mem_map.mp hs
        exact u.length_le
      · obtain ⟨table, htable, helems⟩ := convertTerminated_strings ht hw hshort
        exact ⟨table, h, htable, helems⟩
    · rw [hrun] at hc
      cases hc
    · rw [hrun] at hc
      cases hc
  · obtain ⟨strings, hlen, ht⟩ := hstrings
    exact ccallInputTerm_diverges ht hlen
  · obtain ⟨strings, hlen, ht⟩ := hdiverges hrun
    have hover := sizeTerminated_over (h := h) (p := p) rfl fun k hk => by
      have hk' : k < (strings.map some).length := by
        rw [List.length_map, hlen]
        unfold unsignedCount
        unfold integerLast at hk
        omega
      have hslot := ht k hk'
      rw [List.getElem_map] at hslot
      obtain ⟨v, hv, hs⟩ := hslot
      exact ⟨v, hv, hs.nonnull⟩
    unfold convertTerminated
    rw [Run.bind_error hover]

/-- The array with the string `"a"`. -/
theorem convertTerminated_agrees_with_ccall_oneString :
    ∃ table : StringArray, table.elems.map UnboundedString.chars = [[97]] ∧
      ccallInputTerm 8 ⟨Heap.ofMemory (oneString [97]), []⟩ =
        (.ok table.length, ⟨Heap.ofMemory (oneString [97]),
          [] ++ report (terminated (table.elems.map UnboundedString.chars))⟩) := by
  have ht : PointerTable (Heap.ofMemory (oneString [97])).mem 8 (terminated [[97]]) :=
    pointerTable_oneString (by decide) (by decide)
  obtain ⟨table, hrun, helems⟩ := convertTerminated_strings ht (by decide) (by decide)
  exact ⟨table, helems,
    (convertTerminated_agrees_with_ccall (Heap.ofMemory (oneString [97])) 8 []).1 table _ hrun⟩

end Arrays

end CStringVerified.CString
