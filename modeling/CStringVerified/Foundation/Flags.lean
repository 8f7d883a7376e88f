import Mathlib.Data.BitVec

/-!
# Sets of flags

A word that holds a set of flags, each of which is a word with some bits of its own. A flag is set by
an `or` and tested by an `and`.
-/

namespace Foundation

variable {w : Nat} {vals table : List (BitVec w)} {val : BitVec w}

/-- The flags are set one after the other. -/
def setFlags (flags : BitVec w) (vals : List (BitVec w)) : BitVec w :=
  vals.foldl (fun flags val => flags ||| val) flags

/-- The flags of a table that can be told apart: none is empty, and no two share a bit. -/
structure Separate (table : List (BitVec w)) : Prop where
  ne_zero : ∀ val ∈ table, val ≠ 0
  disjoint : ∀ u ∈ table, ∀ v ∈ table, u ≠ v → u &&& v = 0

theorem setFlags_append (flags : BitVec w) (us vs : List (BitVec w)) :
    setFlags flags (us ++ vs) = setFlags (setFlags flags us) vs := List.foldl_append

theorem getLsbD_setFlags (flags : BitVec w) (vals : List (BitVec w)) (i : Nat) :
    (setFlags flags vals).getLsbD i = true ↔
      flags.getLsbD i = true ∨ ∃ val ∈ vals, val.getLsbD i = true := by
  induction vals generalizing flags with
  | nil => simp [setFlags]
  | cons val vals ih =>
    rw [setFlags, List.foldl_cons]
    refine (ih (flags ||| val)).trans ?_
    rw [BitVec.getLsbD_or, Bool.or_eq_true, List.exists_mem_cons_iff, or_assoc]

/-- Two words have a bit in common. -/
theorem and_ne_zero_iff {u v : BitVec w} :
    u &&& v ≠ 0 ↔ ∃ i, u.getLsbD i = true ∧ v.getLsbD i = true := by
  constructor
  · intro hne
    by_contra hnone
    refine hne (BitVec.zero_iff_eq_false.mpr fun i => Bool.eq_false_iff.mpr fun hbit => ?_)
    rw [BitVec.getLsbD_and, Bool.and_eq_true] at hbit
    exact hnone ⟨i, hbit⟩
  · rintro ⟨i, hu, hv⟩ hzero
    have hbit := BitVec.zero_iff_eq_false.mp hzero i
    rw [BitVec.getLsbD_and, hu, hv] at hbit
    cases hbit

/-- The test finds the flags that were set, in whatever order and however often that was. -/
theorem Separate.test_iff (h : Separate table) (hvals : ∀ v ∈ vals, v ∈ table) (hval : val ∈ table) :
    setFlags 0 vals &&& val ≠ 0 ↔ val ∈ vals := by
  rw [and_ne_zero_iff]
  constructor
  · rintro ⟨i, hset, hbit⟩
    rcases (getLsbD_setFlags 0 vals i).mp hset with hzero | ⟨v, hv, hvbit⟩
    · exact absurd hzero (by simp)
    · by_cases heq : v = val
      · exact heq ▸ hv
      · exact absurd (h.disjoint v (hvals v hv) val hval heq) (and_ne_zero_iff.mpr ⟨i, hvbit, hbit⟩)
  · intro hmem
    have hself : val &&& val ≠ 0 := by
      rw [BitVec.and_self]
      exact h.ne_zero val hval
    obtain ⟨i, hbit, -⟩ := and_ne_zero_iff.mp hself
    exact ⟨i, (getLsbD_setFlags 0 vals i).mpr (Or.inr ⟨val, hmem, hbit⟩), hbit⟩

end Foundation
