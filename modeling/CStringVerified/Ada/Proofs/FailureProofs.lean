import CStringVerified.Ada.Proofs.RoundTripProofs

/-!
# When the encoders fail

Both encoders refuse an empty array. Apart from that, the bounds of the table are computed in `Integer`:
one more than `Strings'Last` is an `Integer` unless `Strings'Last` is the last one, while `'Last - 1`
always is. No index check fails, and `To_C_String` always finds the nul that `To_C` has appended.
-/

namespace CStringVerified.CString.Arrays

open Foundation

/-- An encoder, called in `h` to make a table with `n` slots, raises `Length_Error` exactly for an empty
array, and returns for all others, unless the allocator refuses one of its requests. -/
def FailsExactly (A : Allocator) (h : Heap) (strings : StringArray) (n : Nat)
    (encoder : Ada AllocatedPointerArray) : Prop :=
  ((encoder h).1 = .error (.raised .lengthError) ↔ strings.length = 0) ∧
    (strings.length ≠ 0 → (∃ pa, (encoder h).1 = .ok pa) ∨
      (encoder h).1 = .error (.raised .storageError) ∧
        A.Refuses h (encoder h).2 (requests strings n))

variable {A : Allocator} {h h' : Heap} {strings : StringArray} {n : Nat}
  {encoder : Ada AllocatedPointerArray}

theorem failsExactly_empty (hempty : strings.length = 0)
    (hr : (encoder h).1 = .error (.raised .lengthError)) : FailsExactly A h strings n encoder :=
  ⟨⟨fun _ => hempty, fun _ => hr⟩, fun hne => absurd hempty hne⟩

theorem failsExactly_ok {pa : AllocatedPointerArray} (hne : strings.length ≠ 0)
    (hrun : encoder h = (.ok pa, h')) : FailsExactly A h strings n encoder := by
  unfold FailsExactly
  rw [hrun]
  exact ⟨⟨nofun, fun hempty => absurd hempty hne⟩, fun _ => Or.inl ⟨pa, rfl⟩⟩

theorem failsExactly_refused (hne : strings.length ≠ 0)
    (hrun : encoder h = (.error (.raised .storageError), h'))
    (hrefuses : A.Refuses h h' (requests strings n)) : FailsExactly A h strings n encoder := by
  unfold FailsExactly
  rw [hrun]
  exact ⟨⟨nofun, fun hempty => absurd hempty hne⟩, fun _ => Or.inr ⟨rfl, hrefuses⟩⟩

/-- `Convert_To_C` fails exactly for an empty array, whatever the bounds. -/
theorem convertToC_failsExactly (A : Allocator) (h : Heap) (strings : StringArray) :
    FailsExactly A h strings strings.length (convertToC A strings) := by
  by_cases hempty : strings.length = 0
  · refine failsExactly_empty hempty ?_
    unfold convertToC
    rw [if_pos hempty]
    rfl
  · obtain ⟨r, h', hrun, -, hcase⟩ := convertToC_spec A h strings (Nat.pos_of_ne_zero hempty)
    rcases hcase with ⟨e, rfl, rfl, hrefuses⟩ | ⟨T, rfl, -⟩
    · exact failsExactly_refused hempty hrun hrefuses
    · exact failsExactly_ok hempty hrun

/-- `Convert_To_C_Terminated` overflows at the end of `Natural`. -/
theorem convertToCTerminated_over (hne : strings.length ≠ 0) (hlast : ¬strings.last < integerLast) :
    convertToCTerminated A strings h =
      (.error (.raised (.constraintError .overflowCheck)), h) := by
  unfold convertToCTerminated
  rw [if_neg hne]
  exact Run.bind_error (checkInteger_over (by omega))

theorem convertToCTerminated_failsExactly_iff (A : Allocator) (h : Heap) (strings : StringArray) :
    FailsExactly A h strings (strings.length + 1) (convertToCTerminated A strings) ↔
      strings.length = 0 ∨ strings.last < integerLast := by
  by_cases hempty : strings.length = 0
  · refine iff_of_true (failsExactly_empty hempty ?_) (Or.inl hempty)
    unfold convertToCTerminated
    rw [if_pos hempty]
    rfl
  · by_cases hlast : strings.last < integerLast
    · obtain ⟨r, h', hrun, -, hcase⟩ :=
        convertToCTerminated_spec A h strings (Nat.pos_of_ne_zero hempty) hlast
      refine iff_of_true ?_ (Or.inr hlast)
      rcases hcase with ⟨e, rfl, rfl, hrefuses⟩ | ⟨T, rfl, -⟩
      · exact failsExactly_refused hempty hrun hrefuses
      · exact failsExactly_ok hempty hrun
    · refine iff_of_false (fun hexact => ?_) (fun hcase => hcase.elim hempty hlast)
      have hanswer := hexact.2 hempty
      rw [convertToCTerminated_over hempty hlast] at hanswer
      rcases hanswer with ⟨pa, hpa⟩ | ⟨hstorage, -⟩
      · cases hpa
      · cases hstorage

/-- The encoders fail exactly for the empty arrays, as long as the allocator serves their requests, unless
the array ends at `Natural'Last`. -/
theorem encoders_fail_exactly_iff (A : Allocator) (h : Heap) (strings : StringArray) :
    FailsExactly A h strings (strings.length + 1) (convertToCTerminated A strings) ∧
        FailsExactly A h strings strings.length (convertToC A strings) ↔
      strings.length = 0 ∨ strings.last < integerLast := by
  rw [← convertToCTerminated_failsExactly_iff A h strings]
  exact ⟨fun hboth => hboth.1, fun hexact => ⟨hexact, convertToC_failsExactly A h strings⟩⟩

/-- The array `(Natural'Last => "")`. -/
def lastEmpty : StringArray where
  first := 2147483647
  last := 2147483647
  elems := [⟨[], by decide⟩]
  length_eq := rfl
  bounds := by decide

/-- One string at `Natural'Last`: `Constraint_Error`, although the array is not empty. -/
theorem last_index_overflows :
    (convertToCTerminated Allocator.bump lastEmpty emptyHeap).1 =
        .error (.raised (.constraintError .overflowCheck)) ∧
      ¬FailsExactly Allocator.bump emptyHeap lastEmpty (lastEmpty.length + 1)
        (convertToCTerminated Allocator.bump lastEmpty) := by
  have hrun : (convertToCTerminated Allocator.bump lastEmpty emptyHeap).1 =
      .error (.raised (.constraintError .overflowCheck)) := by rfl
  refine ⟨hrun, fun hexact => ?_⟩
  have hanswer := hexact.2 (by decide)
  rw [hrun] at hanswer
  rcases hanswer with ⟨pa, hpa⟩ | ⟨hstorage, -⟩
  · cases hpa
  · cases hstorage

end CStringVerified.CString.Arrays
