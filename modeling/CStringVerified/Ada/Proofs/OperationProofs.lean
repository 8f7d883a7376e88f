import CStringVerified.Ada.Session
import CStringVerified.Ada.Proofs.FailureProofs

/-!
# What calls leave alone

The readers of both packages leave the heap as it is, however they end. The calls that allocate write
into new blocks only. So after any calls a live block is still live, and holds what it held.
-/

namespace CStringVerified

open Foundation

/-- A byte of the word at an address is not mapped. -/
def Unmapped (h : Heap) (a : Address) : Prop := ∃ k, k < 8 ∧ h.mem.byte (a.offset k) = none

/-- A call ends with an erroneous access only where something is not mapped. -/
abbrev Blames {α : Type} (m : Ada α) : Prop :=
  Run.Fails (fun e h => ∀ a, e = Fail.erroneous a → Unmapped h a) m

/-- A call that leaves the heap as it is. -/
structure ReadsOnly {α : Type} (m : Ada α) : Prop where
  keeps : Run.Keeps (· = ·) m
  blames : Blames m

theorem readsOnly_pure {α : Type} (a : α) : ReadsOnly (pure a : Ada α) :=
  ⟨Run.keeps_pure a, Run.fails_pure a⟩

theorem readsOnly_raise {α : Type} (e : Exn) : ReadsOnly (raise e : Ada α) :=
  ⟨Run.keeps_fail _, Run.fails_fail fun _ _ => nofun⟩

theorem ReadsOnly.bind {α β : Type} {m : Ada α} {f : α → Ada β} (hm : ReadsOnly m)
    (hf : ∀ a, ReadsOnly (f a)) : ReadsOnly (m >>= f) :=
  ⟨hm.keeps.bind fun a => (hf a).keeps, hm.blames.bind fun a => (hf a).blames⟩

theorem readsOnly_loop {β γ : Type} {body : β → Ada (β ⊕ γ)} {exhausted : β → Ada γ}
    (hb : ∀ b, ReadsOnly (body b)) (he : ∀ b, ReadsOnly (exhausted b)) (fuel : Nat) (b : β) :
    ReadsOnly (Run.loop body exhausted fuel b) :=
  ⟨Run.keeps_loop (fun b => (hb b).keeps) (fun b => (he b).keeps) fuel b,
    Run.fails_loop (fun b => (hb b).blames) (fun b => (he b).blames) fuel b⟩

theorem readsOnly_collect {α : Type} {f : Nat → Ada α} (hf : ∀ k, ReadsOnly (f k)) (n : Nat) :
    ReadsOnly (Run.collect f n) :=
  ⟨Run.keeps_collect (fun k => (hf k).keeps) n, Run.fails_collect (fun k => (hf k).blames) n⟩

/-- A read that fails only where something is not mapped. -/
theorem readsOnly_read {α : Type} {m : Ada α} {a : Address} (f : Heap → Option α)
    (hsome : ∀ h b, f h = some b → m h = (.ok b, h))
    (hnone : ∀ h, f h = none → m h = (.error (.erroneous a), h) ∧ Unmapped h a) : ReadsOnly m := by
  refine ⟨fun h => ?_, fun h e h' hrun => ?_⟩
  · cases hb : f h with
    | none => rw [(hnone h hb).1]
    | some b => rw [hsome h b hb]
  · cases hb : f h with
    | none =>
      rw [(hnone h hb).1] at hrun
      cases hrun
      rintro b ⟨⟩
      exact (hnone h hb).2
    | some b =>
      rw [hsome h b hb] at hrun
      cases hrun

theorem readsOnly_failCheck {α : Type} (r : Reason) : ReadsOnly (failCheck r : Ada α) :=
  readsOnly_raise _

theorem readsOnly_checkInteger (n : Int) : ReadsOnly (checkInteger n) := by
  unfold checkInteger
  split
  · exact readsOnly_pure _
  · exact readsOnly_failCheck _

theorem readsOnly_toInteger (n : Nat) : ReadsOnly (toInteger n) := by
  unfold toInteger
  split
  · exact readsOnly_pure _
  · exact readsOnly_failCheck _

theorem readsOnly_succNatural (n : Natural) : ReadsOnly (succNatural n) := by
  unfold succNatural
  split
  · exact readsOnly_pure _
  · exact readsOnly_failCheck _

theorem readsOnly_toStorageOffset (n : Nat) : ReadsOnly (toStorageOffset n) := by
  unfold toStorageOffset
  split
  · exact readsOnly_pure _
  · exact readsOnly_failCheck _

theorem readsOnly_checkNotNull (a : Address) : ReadsOnly (checkNotNull a) := by
  unfold checkNotNull
  split
  · exact readsOnly_failCheck _
  · exact readsOnly_pure _

theorem readsOnly_readByte (a : Address) : ReadsOnly (readByte a) := by
  refine (readsOnly_checkNotNull a).bind fun _ => readsOnly_read (a := a) (fun h => h.mem.byte a) ?_ ?_
  · intro h b hb
    simp only [Run.get_bind_apply, hb, Run.pure_apply]
  · intro h hb
    refine ⟨?_, 0, by decide, ?_⟩
    · simp only [Run.get_bind_apply, hb, Run.fail_apply]
    · rwa [Address.offset_zero]

/-- A word that cannot be read has a byte that is not mapped. -/
theorem unmapped_of_word {h : Heap} {a : Address} (hw : h.mem.word a = none) : Unmapped h a := by
  by_contra hmapped
  have hbytes : ∀ k (hk : k < 8), ∃ b, h.mem.byte (a.offset k) = some b := by
    intro k hk
    cases hb : h.mem.byte (a.offset k) with
    | none => exact absurd ⟨k, hk, hb⟩ hmapped
    | some b => exact ⟨b, rfl⟩
  have hholds : h.mem.Holds a ((List.range 8).map fun k => (h.mem.byte (a.offset k)).getD 0) := by
    intro k hk
    have hk8 : k < 8 := by simpa using hk
    obtain ⟨b, hb⟩ := hbytes k hk8
    rw [List.getElem_map, List.getElem_range, hb]
    rfl
  have hread := hholds.bytes_eq
  rw [List.length_map, List.length_range] at hread
  rw [Memory.word, hread] at hw
  cases hw

theorem readsOnly_readWord (a : Address) : ReadsOnly (readWord a) := by
  refine (readsOnly_checkNotNull a).bind fun _ => readsOnly_read (a := a) (fun h => h.mem.word a) ?_ ?_
  · intro h w hw
    simp only [Run.get_bind_apply, hw, Run.pure_apply]
  · intro h hw
    refine ⟨?_, unmapped_of_word hw⟩
    simp only [Run.get_bind_apply, hw, Run.fail_apply]

/-- A call that touches no live block, and whose failures are its own. -/
structure Frames {α : Type} (call : Ada α) : Prop where
  keeps : Run.Keeps Heap.Extends call
  blames : Blames call

theorem ReadsOnly.frames {α : Type} {call : Ada α} (h : ReadsOnly call) : Frames call :=
  ⟨h.keeps.mono fun s _ hst => hst ▸ Heap.Extends.refl s, h.blames⟩

theorem Frames.forget {α : Type} {call : Ada α} (h : Frames call) : Frames (CString.Arrays.forget call) :=
  ⟨h.keeps.bind fun _ => Run.keeps_pure (), h.blames.bind fun _ => Run.fails_pure ()⟩

namespace CString

theorem readsOnly_unsafeIndex (item : Address) (i : Nat) : ReadsOnly (unsafeIndex item i) := by
  refine (readsOnly_checkNotNull item).bind fun _ => ?_
  exact (readsOnly_toStorageOffset i).bind fun offset => readsOnly_readByte _

theorem readsOnly_length (item : Address) : ReadsOnly (length item) := by
  refine (readsOnly_checkNotNull item).bind fun _ => ?_
  refine readsOnly_loop (fun i => ?_) (fun _ => readsOnly_raise _) _ _
  refine (readsOnly_unsafeIndex item i).bind fun char => ?_
  split
  · exact readsOnly_pure _
  · exact readsOnly_pure _

theorem readsOnly_copyString (item : Address) (count : Natural) :
    ReadsOnly (copyString item count) := by
  refine (readsOnly_collect (fun i => ?_) _).bind fun result => readsOnly_pure _
  exact (readsOnly_unsafeIndex item i).bind fun char => readsOnly_pure _

theorem readsOnly_toString (item : Address) : ReadsOnly (toString item) := by
  refine (readsOnly_checkNotNull item).bind fun _ => (readsOnly_length item).bind fun size => ?_
  exact (readsOnly_toInteger size).bind fun last => readsOnly_copyString item last

theorem readsOnly_toStringSized (item : Address) (size : Nat) :
    ReadsOnly (toStringSized item size) := by
  refine (readsOnly_checkNotNull item).bind fun _ => ?_
  exact (readsOnly_toInteger size).bind fun last => readsOnly_copyString item last

theorem readsOnly_indexSized (item : Address) (size i : Nat) :
    ReadsOnly (indexSized item size i) := by
  refine (readsOnly_checkNotNull item).bind fun _ => ?_
  split
  · exact (readsOnly_raise _).bind fun _ => readsOnly_unsafeIndex item i
  · exact readsOnly_unsafeIndex item i

theorem readsOnly_index (item : Address) (i : Nat) : ReadsOnly (index item i) := by
  refine (readsOnly_checkNotNull item).bind fun _ => (readsOnly_length item).bind fun size => ?_
  split
  · exact (readsOnly_raise _).bind fun _ => readsOnly_unsafeIndex item i
  · exact readsOnly_unsafeIndex item i

theorem readsOnly_firstAddress (item : CharArrayAccess) : ReadsOnly (firstAddress item) := by
  unfold firstAddress
  split
  · exact readsOnly_pure _
  · exact readsOnly_failCheck _

theorem readsOnly_toCString (item : CharArrayAccess) : ReadsOnly (toCString item) := by
  have hnull : ReadsOnly (hasNull item) := by
    refine readsOnly_loop (fun i => ?_) (fun _ => readsOnly_pure _) _ _
    refine (readsOnly_readByte _).bind fun char => ?_
    split
    · exact readsOnly_pure _
    · exact readsOnly_pure _
  refine hnull.bind fun found => ?_
  split
  · exact readsOnly_firstAddress item
  · exact readsOnly_raise _

namespace Arrays

theorem readsOnly_sizeTerminated (pointer : PointerArray) : ReadsOnly (sizeTerminated pointer) := by
  refine readsOnly_loop (fun state => ?_) (fun _ => readsOnly_failCheck _) _ _
  refine (readsOnly_readWord state.1).bind fun objPointer => ?_
  split
  · exact readsOnly_pure _
  · exact (readsOnly_succNatural state.2).bind fun size => readsOnly_pure _

theorem readsOnly_slotString (a : Address) : ReadsOnly (slotString a) := by
  refine (readsOnly_readWord a).bind fun pointer => ?_
  split
  · exact readsOnly_pure _
  · exact readsOnly_toString pointer

theorem readsOnly_indexCore (pointer : PointerArray) (size i : Natural) :
    ReadsOnly (indexCore pointer size i) := by
  have haddress : ReadsOnly (indexAddress pointer size i) :=
    (readsOnly_checkInteger _).bind fun offset => readsOnly_pure _
  exact haddress.bind fun a => readsOnly_slotString a

theorem readsOnly_boundedIndex {α : Type} (result : AdaString → α) (pointer : PointerArray)
    (size i : Natural) : ReadsOnly (boundedIndex result pointer size i) := by
  have hcore : ReadsOnly (do
      let core ← indexCore pointer size i
      pure (result core)) :=
    (readsOnly_indexCore pointer size i).bind fun core => readsOnly_pure _
  unfold boundedIndex
  split
  · exact (readsOnly_raise _).bind fun _ => hcore
  · exact hcore

theorem readsOnly_boundedIndexTerminated {α : Type} (result : AdaString → α)
    (pointer : PointerArray) (i : Natural) :
    ReadsOnly (boundedIndexTerminated result pointer i) :=
  (readsOnly_sizeTerminated pointer).bind fun size => readsOnly_boundedIndex result pointer size i

theorem readsOnly_convertElement (pointer : PointerArray) (size : Natural) (i : Nat) :
    ReadsOnly (convertElement pointer size i) := by
  unfold convertElement
  split
  · exact (readsOnly_indexCore pointer size _).bind fun s => readsOnly_pure _
  · exact readsOnly_failCheck _

theorem readsOnly_convert (pointer : PointerArray) (size : Natural) :
    ReadsOnly (convert pointer size) :=
  (readsOnly_collect (readsOnly_convertElement pointer size) _).bind fun _ => readsOnly_pure _

theorem readsOnly_convertTerminated (pointer : PointerArray) :
    ReadsOnly (convertTerminated pointer) :=
  (readsOnly_sizeTerminated pointer).bind fun size => readsOnly_convert pointer size

theorem newCharArray_extends (A : Allocator) (value : CharArray) :
    Run.Keeps Heap.Extends (newCharArray A value) := by
  intro h
  rcases newCharArray_spec A value h with ⟨hnew, -⟩ | ⟨B, h', hnew, he, -⟩
  · rw [hnew]
    exact Heap.Extends.refl h
  · rw [hnew]
    exact he

/-! ## All calls -/

/-- The slots of the sized encoder, seen from outside: the last string is missing. -/
theorem map_cut_slotsAfter_sized {strings : StringArray} (hne : 0 < strings.length) :
    (slotsAfter strings strings.length (strings.length - 1)).map (Option.map cut) =
      terminated (strings.elems.dropLast.map fun u => cut u.chars) := by
  have hlen : strings.elems.length = strings.length := rfl
  refine List.ext_getElem ?_ fun i h1 h2 => ?_
  · simp only [List.length_map, length_slotsAfter, length_terminated, List.length_dropLast, hlen]
    omega
  · have hi : i < strings.elems.length := by
      rw [List.length_map, length_slotsAfter] at h1
      exact h1
    rw [getElem_map_slotsAfter strings hi h1]
    by_cases hlast : i < strings.length - 1
    · have hi' : i < (strings.elems.dropLast.map fun u => cut u.chars).length := by
        rwa [List.length_map, List.length_dropLast]
      rw [if_pos hlast, getElem_terminated hi' h2, List.getElem_map, List.getElem_dropLast]
    · rw [if_neg hlast]
      simp only [terminated]
      rw [List.getElem_append_right]
      · simp
      · simp only [List.length_map, List.length_dropLast, hlen]
        omega

/-- An encoder raises an exception, for one of the reasons there are, or makes an array of its strings. -/
theorem encodeCall_cases (A : Allocator) (call : EncodeCall) (h : Heap) :
    (∃ e h', call.run A h = (.error (.raised e), h') ∧ call.Unserved A h h') ∨
      ∃ h' T slots, call.run A h = (.ok ⟨T.base⟩, h') ∧ call.strings.length ≠ 0 ∧ Owned h' T slots ∧
        slots.map (Option.map cut) = terminated call.texts := by
  cases call with
  | terminated strings =>
    simp only [EncodeCall.run]
    by_cases hempty : strings.length = 0
    · refine Or.inl ⟨.lengthError, h, ?_, .empty hempty⟩
      unfold convertToCTerminated
      rw [if_pos hempty]
      rfl
    by_cases hlast : strings.last < integerLast
    · obtain ⟨r, h', hrun, -, hcase⟩ :=
        convertToCTerminated_spec A h strings (Nat.pos_of_ne_zero hempty) hlast
      rcases hcase with ⟨e, rfl, rfl, hrefuses⟩ | ⟨T, rfl, howned⟩
      · exact Or.inl ⟨_, h', hrun, .storage hrefuses⟩
      · exact Or.inr ⟨h', T, _, hrun, hempty, howned, map_cut_slotsAfter strings⟩
    · have hhigh := (first_nonneg (Nat.pos_of_ne_zero hempty)).2.2
      exact Or.inl ⟨_, h, convertToCTerminated_over hempty hlast,
        .overflow rfl (le_antisymm hhigh (Int.not_lt.mp hlast))⟩
  | sized strings =>
    simp only [EncodeCall.run]
    by_cases hempty : strings.length = 0
    · refine Or.inl ⟨.lengthError, h, ?_, .empty hempty⟩
      unfold convertToC
      rw [if_pos hempty]
      rfl
    have hne := Nat.pos_of_ne_zero hempty
    obtain ⟨r, h', hrun, -, hcase⟩ := convertToC_spec A h strings hne
    rcases hcase with ⟨e, rfl, rfl, hrefuses⟩ | ⟨T, rfl, howned⟩
    · exact Or.inl ⟨_, h', hrun, .storage hrefuses⟩
    · exact Or.inr ⟨h', T, _, hrun, hempty, howned, map_cut_slotsAfter_sized hne⟩

theorem newCharArray_frames (A : Allocator) (value : CharArray) : Frames (newCharArray A value) := by
  refine ⟨newCharArray_extends A value, fun h e h' hrun => ?_⟩
  rcases newCharArray_spec A value h with ⟨hnew, -⟩ | ⟨B, h1, hnew, -⟩
  · rw [hnew] at hrun
    cases hrun
    exact nofun
  · rw [hnew] at hrun
    cases hrun

theorem encode_frames (A : Allocator) (call : EncodeCall) : Frames (call.run A) := by
  refine ⟨fun h => run_extends A call h, fun h e h' hrun => ?_⟩
  rcases encodeCall_cases A call h with ⟨exn, h1, hcall, -⟩ | ⟨h1, T, slots, hcall, -⟩
  · rw [hcall] at hrun
    cases hrun
    exact nofun
  · rw [hcall] at hrun
    cases hrun

/-- No call touches a live block. -/
theorem operation_frames (A : Allocator) (op : Operation) : Frames (op.run A) := by
  cases op with
  | length item => exact (readsOnly_length item).frames.forget
  | toString item => exact (readsOnly_toString item).frames.forget
  | toStringSized item size => exact (readsOnly_toStringSized item size).frames.forget
  | indexChar item i => exact (readsOnly_index item i).frames.forget
  | indexCharSized item size i => exact (readsOnly_indexSized item size i).frames.forget
  | newCharArray value => exact (newCharArray_frames A value).forget
  | toCString item => exact (readsOnly_toCString item).frames.forget
  | toCCharArray item => exact (readsOnly_firstAddress item).frames.forget
  | sizeTerminated pointer => exact (readsOnly_sizeTerminated pointer).frames.forget
  | index pointer size i => exact (readsOnly_boundedIndex id pointer size i).frames.forget
  | indexUnbounded pointer size i => exact (readsOnly_boundedIndex _ pointer size i).frames.forget
  | indexTerminated pointer i => exact (readsOnly_boundedIndexTerminated id pointer i).frames.forget
  | indexTerminatedUnbounded pointer i =>
    exact (readsOnly_boundedIndexTerminated _ pointer i).frames.forget
  | convert pointer size => exact (readsOnly_convert pointer size).frames.forget
  | convertTerminated pointer => exact (readsOnly_convertTerminated pointer).frames.forget
  | encode call => exact (encode_frames A call).forget
  | deallocateTerminated pointer => exact (readsOnly_pure ()).frames
  | deallocate pointer size => exact (readsOnly_pure ()).frames

theorem runOperations_extends (A : Allocator) (ops : List Operation) (h : Heap) :
    h.Extends (runOperations A ops h) := by
  induction ops generalizing h with
  | nil => exact Heap.Extends.refl h
  | cons op ops ih => exact ((operation_frames A op).keeps h).trans (ih _)

end Arrays

end CString

end CStringVerified
