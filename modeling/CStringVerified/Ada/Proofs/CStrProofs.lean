import CStringVerified.Ada.Proofs.CCallProofs
import CStringVerified.Ada.Proofs.CreationProofs

/-!
# C strings and character arrays handed to C

A character array is allocated, `To_C_String` and `To_C_Char_Array` make pointers of it, and C prints
what is there, at any time later.
-/

namespace CStringVerified.CString

open Foundation Arrays

variable {A : Allocator} {h h' : Heap} {t : CState} {a : Address} {chars : List Byte}

theorem cstrTerminated2_eq {s : List Byte} (hs : CStr t.heap.mem a s) :
    cstrTerminated2 a t = (.ok (), { t with
      out := t.out ++ (bytes "C: cstr_terminated2: received " ++ s ++ bytes "\n") }) := by
  unfold cstrTerminated2
  rw [Run.bind_ok (stringAt_eq hs), printf_apply]

/-- What `cstr_unterminated2` prints of some characters. -/
def hexdump (chars : List Byte) : List Byte :=
  bytes "C: cstr_unterminated2: hexdump " ++ chars.flatMap hexByte ++
    (bytes " " ++ bytes (Nat.repr chars.length) ++ bytes "\n")

theorem cstrUnterminated2_eq (hh : h.mem.Holds a chars) (hlen : chars.length < sizeTCount)
    (out : List Byte) :
    cstrUnterminated2 a chars.length ⟨h, out⟩ = (.ok (), ⟨h, out ++ hexdump chars⟩) := by
  obtain ⟨r, t, hloop, rfl, rfl⟩ : ∃ r t, Run.loop (cstrUnterminated2Body a chars.length)
      (fun _ => Run.fail .diverges) sizeTCount 0
        ⟨h, out ++ bytes "C: cstr_unterminated2: hexdump "⟩ = (r, t) ∧ r = .ok () ∧
        t = ⟨h, out ++ bytes "C: cstr_unterminated2: hexdump " ++ chars.flatMap hexByte⟩ := by
    refine Run.loop_spec (fun k index (t : CState) => index = k ∧ t.heap = h ∧
        t.out = out ++ bytes "C: cstr_unterminated2: hexdump " ++ (chars.take k).flatMap hexByte)
      (fun r t => r = .ok () ∧ t = ⟨h, _⟩) chars.length ?_ ?_ hlen ⟨rfl, rfl, by simp⟩
    · rintro k index t hk ⟨rfl, rfl, hout⟩
      refine ⟨index + 1, { t with out := t.out ++ hexByte chars[index] }, ?_, rfl, rfl, ?_⟩
      · unfold cstrUnterminated2Body
        rw [if_pos hk, Run.bind_ok (loadChar_eq (hh index hk)), Run.bind_ok (printf_apply _ _),
          Run.pure_apply]
      · rw [hout, ← List.take_concat_get' chars index hk, List.flatMap_append]
        simp
    · rintro index t ⟨rfl, rfl, hout⟩
      rw [List.take_length] at hout
      refine Or.inl ⟨(), t, ?_, rfl, by rw [← hout]⟩
      unfold cstrUnterminated2Body
      rw [if_neg (lt_irrefl _), Run.pure_apply]
  unfold cstrUnterminated2
  rw [Run.bind_ok (printf_apply _ _), Run.bind_ok hloop, printf_apply, hexdump]
  simp only [List.append_assoc]

/-! ## At any time later -/

/-- What pointers made of a character array are for C, whatever is called after they are made:
`To_C_String` refuses an array without a nul, and otherwise C gets the characters before the first one;
through `To_C_Char_Array`, C gets all characters. -/
structure ReachesC (A : Allocator) (h : Heap) (item : CharArrayAccess) (value : CharArray) : Prop where
  refused : nul ∉ value.elems → toCString item h = (.error (.raised .nullTerminationError), h)
  string : nul ∈ value.elems → ∃ p, toCString item h = (.ok p, h) ∧ ∀ ops out,
    cstrTerminated2 p ⟨runOperations A ops h, out⟩ = (.ok (), ⟨runOperations A ops h,
      out ++ (bytes "C: cstr_terminated2: received " ++ cut value.elems ++ bytes "\n")⟩)
  characters : 0 < value.length → ∃ p, toCCharArray item h = (.ok p, h) ∧ ∀ ops out size,
    size ≤ value.length → cstrUnterminated2 p size ⟨runOperations A ops h, out⟩ =
      (.ok (), ⟨runOperations A ops h, out ++ hexdump (value.elems.take size)⟩)

/-- The bytes of a live block are there after any calls. -/
theorem holds_runOperations {B : Block} {bs : List Byte} (hB : B ∈ h.live) (hsize : B.size = bs.length)
    (hh : h.mem.Holds B.base bs) (ops : List Operation) :
    (runOperations A ops h).mem.Holds B.base bs :=
  (runOperations_extends A ops h).holds hB
    (fun k hk => B.contains_offset (by rw [hsize]; exact hk)) hh

/-- A new character array reaches C, after any calls. -/
theorem newCharArray_reaches_c (A : Allocator) (value : CharArray) (item : CharArrayAccess)
    (hfirst : 0 ≤ value.first) (hlast : 0 ≤ value.last) (hnew : newCharArray A value h = (.ok item, h'))
    (ops : List Operation) : ReachesC A (runOperations A ops h') item value := by
  rcases newCharArray_spec A value h with ⟨herror, -⟩ | ⟨B, h1, hok, -, hlive, -, hsize, hholds⟩
  · rw [hnew] at herror
    cases herror
  obtain ⟨rfl, rfl⟩ := Run.ok_unique hnew hok
  have hB : B ∈ h'.live := hlive ▸ List.mem_cons_self
  have hsize' : B.size = value.elems.length := hsize
  have hlater := holds_runOperations (A := A) hB hsize' hholds
  have hB' : B ∈ (runOperations A ops h').live := (runOperations_extends A ops h').live B hB
  have hall : ∀ ops', (runOperations A ops' (runOperations A ops h')).mem.Holds B.base value.elems :=
    holds_runOperations hB' hsize' (hlater ops)
  have hd : Denotes (runOperations A ops h') ⟨B.base, value.first.toNat, value.last.toNat⟩ value :=
    ⟨Int.toNat_of_nonneg hfirst, Int.toNat_of_nonneg hlast, hlater ops⟩
  refine ⟨fun hno => ?_, fun hnul => ?_, fun hne => ?_⟩
  · refine toCString_none hd fun i hi => hno ?_
    obtain ⟨k, rfl, -⟩ := get?_cases hi
    rw [Arr.get?_first_add] at hi
    exact List.mem_of_getElem? hi
  · obtain ⟨rest, hrest⟩ := eq_cut_append hnul
    have hcut : (cut value.elems).length < value.elems.length := by
      have hlen := congrArg List.length hrest
      simp only [List.length_append, List.length_singleton] at hlen
      omega
    refine ⟨B.base, toCString_eq (cstr_cut_of_mem (hlater ops) hnul) ?_, fun ops' out => ?_⟩
    · rw [hd.count]
      exact hcut
    · exact cstrTerminated2_eq (cstr_cut_of_mem (hall ops') hnul)
  · refine ⟨B.base, toCCharArray_eq hd hne, fun ops' out size hle => ?_⟩
    have htake : (value.elems.take size).length = size := List.length_take_of_le hle
    have hpart := hall ops'
    rw [← List.take_append_drop size value.elems] at hpart
    have hlt := B.size_lt
    have hdump := cstrUnterminated2_eq (Memory.holds_append.mp hpart).1 (by
      rw [htake]
      unfold sizeTCount
      have hle' : size ≤ value.elems.length := hle
      omega) out
    rwa [htake] at hdump

theorem newCharArray_reaches_c_a :
    ∃ item h', newCharArray Allocator.bump arrayA heapOfA = (.ok item, h') ∧
      ReachesC Allocator.bump h' item arrayA := by
  have hok : (newCharArray Allocator.bump arrayA heapOfA).1 = .ok ⟨8, 5, 6⟩ := by rfl
  have hnew := Run.run_of_fst hok
  exact ⟨_, _, hnew, newCharArray_reaches_c Allocator.bump arrayA ⟨8, 5, 6⟩ (by decide) (by decide) hnew []⟩

end CStringVerified.CString
