import CStringVerified.Ada.Proofs.ReadProofs

/-!
# What the encoders build

The encoders allocate a table, clear it, and then fill the slots one by one with pointers to new
strings. Every block they allocate is away from the blocks that were live before, so a table built
earlier outlives any further calls, also those that run out of memory half way.
-/

namespace CStringVerified

open Foundation

/-- `To_C` appends one nul. -/
theorem toC_elems (u : UnboundedString) : (toC u.toString).elems = u.chars ++ [0] := by
  have hmap : u.chars.map toCChar = u.chars := List.map_id u.chars
  simp [toC, UnboundedString.toString, nul, hmap]

namespace CString

variable {A : Allocator} {h : Heap} {s : List Byte}

/-- The call failed because the allocator refused one of its requests. -/
def Refused (A : Allocator) (h h' : Heap) (requests : List Nat) (e : Fail) : Prop :=
  e = .raised .storageError ∧ A.Refuses h h' requests

/-- A new character array lies in a block of its own. -/
theorem newCharArray_spec (A : Allocator) (value : CharArray) (h : Heap) :
    (newCharArray A value h = (.error (.raised .storageError), h) ∧
      A.place h value.length = none) ∨
      ∃ (B : Block) (h' : Heap),
        newCharArray A value h = (.ok ⟨B.base, value.first.toNat, value.last.toNat⟩, h') ∧
        h.Extends h' ∧ h'.live = B :: h.live ∧ (∀ c ∈ h.live, B.Disjoint c) ∧
        B.size = value.length ∧ h'.mem.Holds B.base value.elems := by
  unfold newCharArray
  rcases new_spec A h value.length with ⟨hplace, hnew⟩ | ⟨B, hnew, hsize, hfresh⟩
  · exact Or.inl ⟨Run.bind_error hnew, hplace⟩
  · refine Or.inr ⟨B, (h.addBlock B (A.fill h)).overwrite B.base value.elems, ?_, ?_, rfl, hfresh,
      hsize, ?_⟩
    · have hmap : ∀ k, k < value.elems.length →
          ((h.addBlock B (A.fill h)).mem.byte (B.base.offset k)).isSome :=
        fun k hk => Memory.mapped_map (B.contains_offset (by rw [hsize]; exact hk))
      rw [Run.bind_ok hnew, Run.bind_ok (writeBytes_eq B.nonnull hmap), Run.pure_apply]
    · refine Heap.extends_overwrite (fun x hx => ?_) hfresh (Heap.extends_addBlock hfresh)
      exact hx.mono (le_of_eq hsize.symm)
    · refine Memory.holds_overwrite ?_ fun k hk => ?_
      · have hlt := B.size_lt
        rw [hsize] at hlt
        exact le_of_lt hlt
      · exact Memory.mapped_map (B.contains_offset (by rw [hsize]; exact hk))

/-- `Has_Null` finds the nul of a string that ends within the bounds. -/
theorem hasNull_eq {item : CharArrayAccess} (hs : CStr h.mem item.base s)
    (hlen : s.length < item.last + 1 - item.first) : hasNull item h = (.ok true, h) := by
  unfold hasNull
  refine Run.loop_eq (fun k i => i = item.first + k) s.length ?_ ?_ hlen rfl
  · rintro k i hk rfl
    obtain ⟨hb, hne⟩ := hs.byte_getElem hk
    have hnul : ¬ s[k] = nul := hne
    have hsub : item.first + k - item.first = k := by omega
    refine ⟨_, ?_, rfl⟩
    unfold hasNullBody
    rw [hsub, Run.bind_ok (readByte_eq hb), if_neg hnul, Run.pure_apply]
    rfl
  · rintro i rfl
    have hnul : (0 : Byte) = nul := rfl
    have hsub : item.first + s.length - item.first = s.length := by omega
    refine Or.inl ⟨true, ?_, rfl⟩
    unfold hasNullBody
    rw [hsub, Run.bind_ok (readByte_eq hs.byte_nul), if_pos hnul, Run.pure_apply]

theorem toCString_eq {item : CharArrayAccess} (hs : CStr h.mem item.base s)
    (hlen : s.length < item.last + 1 - item.first) : toCString item h = (.ok item.base, h) := by
  unfold toCString
  rw [Run.bind_ok (hasNull_eq hs hlen), if_pos rfl]
  unfold firstAddress
  rw [if_pos (by omega), Run.pure_apply]

namespace Arrays

variable {h0 : Heap} {T : Block} {first last : Int} {slots : List (Option (List Byte))}

/-- Assigning to a slot of a table that lies in a live block. -/
theorem assign_eq {k n : Nat} (hT : T ∈ h.live) (hsize : T.size = 8 * n)
    (hn : n = (last - first + 1).toNat) (hk : k < n) (v : Address) :
    (TableAccess.mk T.base first last).assign (first + k) v h =
      (.ok (), h.overwrite (slotAt T.base k) (wordBytes v)) := by
  have hslot : (TableAccess.mk T.base first last).slotAddress (first + k) h =
      (.ok (slotAt T.base k), h) := by
    have hk' : (first + (k : Int) - first).toNat * wordSize = 8 * k := by
      unfold wordSize
      omega
    unfold TableAccess.slotAddress
    rw [if_pos (by constructor <;> simp only <;> omega), Run.pure_apply, hk']
    rfl
  have hin : ∀ i, i < 8 → T.Contains ((slotAt T.base k).offset i) := by
    intro i hi
    rw [slotAt, Address.offset_offset]
    exact T.contains_offset (by omega)
  have hnonnull : slotAt T.base k ≠ 0 := by
    intro hnull
    have := hin 0 (by omega)
    rw [Address.offset_zero, hnull] at this
    exact T.not_contains_null this
  unfold TableAccess.assign
  rw [Run.bind_ok hslot]
  refine writeBytes_eq hnonnull fun i hi => h.live_mapped T hT _ (hin i ?_)
  simpa using hi

/-- Writing a slot of a new table does not disturb the blocks that were there before it. -/
theorem extends_assign {k n : Nat} (hsize : T.size = 8 * n) (hk : k < n)
    (hfresh : ∀ c ∈ h0.live, T.Disjoint c) (he : h0.Extends h) (v : Address) :
    h0.Extends (h.overwrite (slotAt T.base k) (wordBytes v)) := by
  refine Heap.extends_overwrite (fun x hx => ?_) hfresh he
  rw [length_wordBytes] at hx
  obtain ⟨i, hi, rfl⟩ := (Address.inRegion_iff _ _ _).mp hx
  rw [slotAt, Address.offset_offset]
  exact T.contains_offset (by omega)

/-- One round of the first loop. -/
theorem clearSlot_spec {n k : Nat} (hsize : T.size = 8 * n) (hn : n = (last - first + 1).toNat)
    (hk : k < n) (hfresh : ∀ c ∈ h0.live, T.Disjoint c) (hT : T ∈ h.live) (he : h0.Extends h)
    (hnull : ∀ j, j < k → h.mem.word (slotAt T.base j) = some 0) :
    ∃ b h', clearSlot ⟨T.base, first, last⟩ (first + k) () h = (.ok b, h') ∧
      h'.live = h.live ∧ h0.Extends h' ∧
        ∀ j, j < k + 1 → h'.mem.word (slotAt T.base j) = some 0 := by
  have hT8 := T.size_lt
  refine ⟨(), h.overwrite (slotAt T.base k) (wordBytes 0), assign_eq hT hsize hn hk 0, rfl,
    extends_assign hsize hk hfresh he 0, fun j hj => ?_⟩
  by_cases hjk : j = k
  · subst hjk
    refine word_overwrite_self fun i hi => h.live_mapped T hT _ ?_
    rw [slotAt, Address.offset_offset]
    exact T.contains_offset (by omega)
  · rw [Heap.mem_overwrite, word_overwrite_slot (by omega) (by omega) hjk]
    exact hnull j (by omega)

/-- The first loop clears the table. -/
theorem clear_spec {n : Nat} (hT : T ∈ h.live) (hsize : T.size = 8 * n)
    (hn : n = (last - first + 1).toNat) (hfresh : ∀ c ∈ h0.live, T.Disjoint c)
    (he : h0.Extends h) :
    ∃ h', Run.forUp first last () (clearSlot ⟨T.base, first, last⟩) h = (.ok (), h') ∧
      h0.Extends h' ∧ Owned h' T (List.replicate n none) ∧ h'.live = h.live := by
  have hT8 := T.size_lt
  obtain ⟨_, h', hrun, hlive, he', hnull⟩ := Run.forUp_ok
    (fun k (_ : Unit) t => t.live = h.live ∧ h0.Extends t ∧
      ∀ j, j < k → t.mem.word (slotAt T.base j) = some 0)
    (fun k _ t hk hinv => by
      obtain ⟨b, t', hround, hlive, hrest⟩ := clearSlot_spec hsize hn (by rw [hn]; exact hk) hfresh
        (hinv.1 ▸ hT) hinv.2.1 hinv.2.2
      exact ⟨b, t', hround, hlive.trans hinv.1, hrest⟩)
    ⟨rfl, he, fun j hj => absurd hj (Nat.not_lt_zero j)⟩
  rw [← hn] at hnull
  refine ⟨h', hrun, he', ⟨hlive ▸ hT, by simpa using hsize, fun k hk => ?_⟩, hlive⟩
  rw [List.getElem_replicate]
  exact hnull k (by simpa using hk)

/-- The slots after the second loop has filled the first `k` of `n`. -/
def slotsAfter (strings : StringArray) (n k : Nat) : List (Option (List Byte)) :=
  (List.range n).map fun j => if j < k then strings.elems[j]?.map UnboundedString.chars else none

@[simp] theorem length_slotsAfter (strings : StringArray) (n k : Nat) :
    (slotsAfter strings n k).length = n := by
  simp [slotsAfter]

theorem slotsAfter_zero (strings : StringArray) (n : Nat) :
    slotsAfter strings n 0 = List.replicate n none := by
  refine List.ext_getElem (by simp) fun j h1 h2 => ?_
  simp [slotsAfter]

theorem set_slotsAfter {strings : StringArray} {n k : Nat} {u : UnboundedString}
    (hu : strings.elems[k]? = some u) :
    (slotsAfter strings n k).set k (some u.chars) = slotsAfter strings n (k + 1) := by
  refine List.ext_getElem (by simp) fun j h1 h2 => ?_
  rw [List.getElem_set]
  simp only [slotsAfter, List.getElem_map, List.getElem_range]
  by_cases hjk : k = j
  · subst hjk
    simp [hu]
  · rw [if_neg hjk]
    by_cases hj : j < k
    · rw [if_pos hj, if_pos (by omega)]
    · rw [if_neg hj, if_neg (by omega)]

/-- One round of the second loop: a new string, and a pointer to it in the slot; or there is no room
for the string. -/
theorem fillSlot_spec {strings : StringArray} {k : Nat} {u : UnboundedString}
    (ho : Owned h T slots) (hlen : slots.length = (last - first + 1).toNat) (hk : k < slots.length)
    (hfirst : strings.first = first) (hu : strings.elems[k]? = some u)
    (hfresh : ∀ c ∈ h0.live, T.Disjoint c) (he : h0.Extends h) :
    (∃ (b : Unit) (h' : Heap) (B : Block),
      fillSlot A strings ⟨T.base, first, last⟩ (first + k) () h = (.ok b, h') ∧
      h0.Extends h' ∧ Owned h' T (slots.set k (some u.chars)) ∧ h'.live = B :: h.live ∧
        B.size = u.chars.length + 1) ∨
    (fillSlot A strings ⟨T.base, first, last⟩ (first + k) () h =
      (.error (.raised .storageError), h) ∧ A.place h (u.chars.length + 1) = none) := by
  have helem : element strings (first + k) h = (.ok u, h) := by
    unfold element
    rw [← hfirst, Arr.get?_first_add, hu]
    rfl
  have hchars : (toC u.toString).elems = u.chars ++ [0] := toC_elems u
  have hlength : (toC u.toString).length = u.chars.length + 1 := by
    rw [Arr.length, hchars]
    simp
  unfold fillSlot
  rw [Run.bind_ok helem]
  rcases newCharArray_spec A (toC u.toString) h with ⟨hnew, hplace⟩ |
      ⟨B, h', hnew, he', hlive, hBfresh, hBsize, hBholds⟩
  · rw [hlength] at hplace
    exact Or.inr ⟨Run.bind_error hnew, hplace⟩
  · have hB : B ∈ h'.live := hlive ▸ List.mem_cons_self
    have hsize : B.size = u.chars.length + 1 := hBsize.trans hlength
    rw [hchars] at hBholds
    have ho' := ho.of_extends he'
    have hdisj : T.Disjoint B := (hBfresh T ho.live).symm
    have hcut := length_cut_le u.chars
    have hto : toCString ⟨B.base, 0, u.chars.length⟩ h' = (.ok B.base, h') :=
      toCString_eq (cstr_cut hBholds) (by simp only; omega)
    refine Or.inl ⟨(), h'.overwrite (slotAt T.base k) (wordBytes B.base), B, ?_, ?_, ?_, hlive, hsize⟩
    · rw [Run.bind_ok hnew]
      refine (Run.bind_ok hto).trans ?_
      exact assign_eq ho'.live ho'.size_eq hlen hk B.base
    · exact extends_assign ho.size_eq hk hfresh (he.trans he') B.base
    · exact ho'.store hk hB hdisj hsize hBholds

/-- The request for string `k`, and those before it. -/
theorem requests_string {strings : StringArray} {n k : Nat} {u : UnboundedString}
    (hu : strings.elems[k]? = some u) (hk : k < n - 1) :
    (requests strings n)[k + 1]? = some (u.chars.length + 1) ∧
      (requests strings n).take (k + 1 + 1) =
        (requests strings n).take (k + 1) ++ [u.chars.length + 1] := by
  have hget : (requests strings n)[k + 1]? = some (u.chars.length + 1) := by
    rw [requests, List.getElem?_cons_succ, List.getElem?_map, List.getElem?_take_of_lt hk, hu]
    rfl
  refine ⟨hget, ?_⟩
  rw [List.take_add_one, hget]
  rfl

/-- The second loop fills all slots but the last, or there is no room for one of the strings. -/
theorem fill_spec {strings : StringArray} {n : Nat} (ho : Owned h T (slotsAfter strings n 0))
    (hn : n = (last - strings.first + 1).toNat) (hle : n ≤ strings.elems.length + 1)
    (hfresh : ∀ c ∈ h0.live, T.Disjoint c) (he : h0.Extends h)
    (hserved : h0.Served h ((requests strings n).take 1)) :
    (∃ b h', Run.forUp strings.first (last - 1) () (fillSlot A strings ⟨T.base, strings.first, last⟩) h =
        (.ok b, h') ∧ h0.Extends h' ∧ Owned h' T (slotsAfter strings n (n - 1))) ∨
    ∃ e h', Run.forUp strings.first (last - 1) () (fillSlot A strings ⟨T.base, strings.first, last⟩) h =
        (.error e, h') ∧ h0.Extends h' ∧ Refused A h0 h' (requests strings n) e := by
  have hcount : (last - 1 - strings.first + 1).toNat = n - 1 := by omega
  rw [← hcount]
  refine Or.imp_left ?_ (Run.forUp_spec
    (fun k (_ : Unit) t => h0.Extends t ∧ Owned t T (slotsAfter strings n k) ∧
      h0.Served t ((requests strings n).take (k + 1)))
    (fun e t => h0.Extends t ∧ Refused A h0 t (requests strings n) e) ?_ ⟨he, ho, hserved⟩)
  · rintro ⟨b, h', hrun, he', ho', -⟩
    exact ⟨b, h', hrun, he', ho'⟩
  · rintro k _ t hk ⟨het, hot, hst⟩
    have hk' : k < strings.elems.length := by omega
    have hu : strings.elems[k]? = some strings.elems[k] := List.getElem?_eq_getElem hk'
    obtain ⟨hget, htake⟩ := requests_string (n := n) hu (by omega)
    rcases fillSlot_spec (A := A) hot (by rw [length_slotsAfter]; exact hn)
      (by rw [length_slotsAfter]; omega) rfl hu hfresh het with
      ⟨b, t', B, hrun, het', hot', hlive, hsize⟩ | ⟨hrun, hplace⟩
    · refine Or.inl ⟨b, t', hrun, het', ?_, ?_⟩
      · rwa [set_slotsAfter hu] at hot'
      · rw [htake, ← hsize]
        exact (hst.addBlock B (A.fill t)).congr hlive
    · exact Or.inr ⟨_, t, hrun, het, rfl, k + 1, _, hget, hst, hplace⟩

/-- The encoder returns a table of its own, or a request was refused. Either way nothing that was
live before is touched. -/
theorem encode_spec (A : Allocator) (h : Heap) (strings : StringArray) (tableLast : Int) (n : Nat)
    (hn : n = (tableLast - strings.first + 1).toNat) (hfirst : strings.first ≤ tableLast)
    (hlast : tableLast ≤ strings.last + 1) (hlow : 0 ≤ strings.first)
    (hhigh : tableLast ≤ integerLast) :
    ∃ r h', encode A strings tableLast h = (r, h') ∧ h.Extends h' ∧
      ((∃ e, r = .error e ∧ Refused A h h' (requests strings n) e) ∨
        ∃ T : Block, r = .ok ⟨T.base⟩ ∧ Owned h' T (slotsAfter strings n (n - 1))) := by
  have hlen := strings.length_eq
  unfold encode newTable
  rcases new_spec A h ((tableLast - strings.first + 1).toNat * wordSize) with
    ⟨hplace, hnew⟩ | ⟨T, hnew, hsize, hfresh⟩
  · rw [← hn] at hplace
    exact ⟨_, h, Run.bind_error (Run.bind_error hnew), Heap.Extends.refl h,
      Or.inl ⟨_, rfl, rfl, 0, _, rfl, Heap.served_nil h, hplace⟩⟩
  · have hTsize : T.size = 8 * n := by
      rw [hsize, hn]
      exact Nat.mul_comm _ _
    have hT : T ∈ (h.addBlock T (A.fill h)).live := List.mem_cons_self
    obtain ⟨h1, hclear, he1, ho1, hlive1⟩ := clear_spec hT hTsize hn hfresh
      (Heap.extends_addBlock hfresh)
    rw [← slotsAfter_zero strings n] at ho1
    have hserved : h.Served h1 ((requests strings n).take 1) := by
      have hblock := ((Heap.served_nil h).addBlock T (A.fill h)).congr hlive1
      rwa [List.nil_append, hsize, ← hn] at hblock
    have hsub : subInteger tableLast 1 h1 = (.ok (tableLast - 1), h1) :=
      checkInteger_eq (by unfold integerFirst; omega)
    have hnewTable : (new A ((tableLast - strings.first + 1).toNat * wordSize) >>= fun block =>
        pure (TableAccess.mk block.base strings.first tableLast)) h =
        (.ok (TableAccess.mk T.base strings.first tableLast), h.addBlock T (A.fill h)) := by
      rw [Run.bind_ok hnew, Run.pure_apply]
    rw [Run.bind_ok hnewTable, Run.bind_ok hclear, Run.bind_ok hsub]
    rcases fill_spec (A := A) ho1 hn (by omega) hfresh he1 hserved with
      ⟨_, h2, hfill, he2, ho2⟩ | ⟨e, h2, hfill, he2, hrefused⟩
    · refine ⟨.ok ⟨T.base⟩, h2, ?_, he2, Or.inr ⟨T, rfl, ho2⟩⟩
      rw [Run.bind_ok hfill]
      unfold TableAccess.slotAddress
      rw [if_pos ⟨le_refl _, hfirst⟩]
      simp
    · exact ⟨.error e, h2, Run.bind_error hfill, he2, Or.inl ⟨e, rfl, hrefused⟩⟩

theorem first_nonneg {strings : StringArray} (hne : 0 < strings.length) :
    0 ≤ strings.first ∧ strings.first ≤ strings.last ∧ strings.last ≤ integerLast := by
  have hle := strings.first_le_last hne
  obtain ⟨hlow, hhigh⟩ := strings.bounds hle
  exact ⟨hlow, hle, hhigh⟩

/-- `Convert_To_C_Terminated` of a non-empty array fills every slot but the extra one. -/
theorem convertToCTerminated_spec (A : Allocator) (h : Heap) (strings : StringArray)
    (hne : 0 < strings.length) (hlast : strings.last < integerLast) :
    ∃ r h', convertToCTerminated A strings h = (r, h') ∧ h.Extends h' ∧
      ((∃ e, r = .error e ∧ Refused A h h' (requests strings (strings.length + 1)) e) ∨
        ∃ T : Block, r = .ok ⟨T.base⟩ ∧
          Owned h' T (slotsAfter strings (strings.length + 1) strings.length)) := by
  obtain ⟨hlow, hle, -⟩ := first_nonneg hne
  have hbounds := strings.length_eq_bounds
  have hadd : addInteger strings.last 1 h = (.ok (strings.last + 1), h) :=
    checkInteger_eq (by unfold integerFirst; omega)
  obtain ⟨r, h', hrun, he, hcase⟩ := encode_spec A h strings
    (strings.last + 1) (strings.length + 1) (by omega) (by omega) (by omega) hlow
    (by omega)
  refine ⟨r, h', ?_, he, hcase⟩
  unfold convertToCTerminated
  rw [if_neg (by omega)]
  exact (Run.bind_ok hadd).trans hrun

/-- `Convert_To_C` of a non-empty array fills every slot but the last. -/
theorem convertToC_spec (A : Allocator) (h : Heap) (strings : StringArray)
    (hne : 0 < strings.length) :
    ∃ r h', convertToC A strings h = (r, h') ∧ h.Extends h' ∧
      ((∃ e, r = .error e ∧ Refused A h h' (requests strings strings.length) e) ∨
        ∃ T : Block, r = .ok ⟨T.base⟩ ∧
          Owned h' T (slotsAfter strings strings.length (strings.length - 1))) := by
  obtain ⟨hlow, hle, hhigh⟩ := first_nonneg hne
  have hbounds := strings.length_eq_bounds
  obtain ⟨r, h', hrun, he, hcase⟩ := encode_spec A h strings
    strings.last strings.length (by omega) hle (by omega) hlow hhigh
  refine ⟨r, h', ?_, he, hcase⟩
  unfold convertToC
  rw [if_neg (by omega)]
  exact hrun

/-! ## Further calls -/

theorem convertToCTerminated_extends (A : Allocator) (strings : StringArray) (h : Heap) :
    h.Extends (convertToCTerminated A strings h).2 := by
  by_cases hne : strings.length = 0
  · unfold convertToCTerminated
    rw [if_pos hne]
    exact Heap.Extends.refl h
  · by_cases hlast : strings.last < integerLast
    · obtain ⟨r, h', hrun, he, -⟩ := convertToCTerminated_spec A h strings (by omega) hlast
      rw [hrun]
      exact he
    · have hover : addInteger strings.last 1 h =
          (.error (.raised (.constraintError .overflowCheck)), h) :=
        checkInteger_over (by omega)
      have hrun : convertToCTerminated A strings h =
          (.error (.raised (.constraintError .overflowCheck)), h) := by
        unfold convertToCTerminated
        rw [if_neg hne]
        exact Run.bind_error hover
      rw [hrun]
      exact Heap.Extends.refl h

theorem convertToC_extends (A : Allocator) (strings : StringArray) (h : Heap) :
    h.Extends (convertToC A strings h).2 := by
  by_cases hne : strings.length = 0
  · unfold convertToC
    rw [if_pos hne]
    exact Heap.Extends.refl h
  · obtain ⟨r, h', hrun, he, -⟩ := convertToC_spec A h strings (by omega)
    rw [hrun]
    exact he

/-- A call of an encoder touches nothing that was live before it. -/
theorem run_extends (A : Allocator) (call : EncodeCall) (h : Heap) :
    h.Extends (call.run A h).2 := by
  cases call with
  | terminated strings => exact convertToCTerminated_extends A strings h
  | sized strings => exact convertToC_extends A strings h

theorem runCalls_extends (A : Allocator) (calls : List EncodeCall) (h : Heap) :
    h.Extends (runCalls A calls h) := by
  induction calls generalizing h with
  | nil => exact Heap.Extends.refl h
  | cons call calls ih => exact (run_extends A call h).trans (ih _)

end Arrays

end CString

end CStringVerified
