import Mathlib.Data.List.DropRight
import Mathlib.Tactic.Basic

/-!
# The last segment of a list

A list is cut into segments by a separator. Separators at its end do not count, so the last segment is
what stands between them and the separator before, or the start of the list.
-/

namespace Foundation

variable {α : Type} {sep : α} {l before b b' : List α}

/-- `b` is what stands between the last separator and those at the end of `l`. -/
def IsLastSegment (sep : α) (l b : List α) : Prop :=
  b ≠ [] ∧ sep ∉ b ∧ ∃ before k, l = before ++ b ++ List.replicate k sep ∧
    (before = [] ∨ before.getLast? = some sep)

/-- A list without separators is its own last segment. -/
theorem isLastSegment_self (hne : b ≠ []) (hb : sep ∉ b) : IsLastSegment sep b b :=
  ⟨hne, hb, [], 0, by simp, Or.inl rfl⟩

/-- What follows a separator is the last segment. -/
theorem isLastSegment_append (l : List α) (hne : b ≠ []) (hb : sep ∉ b) :
    IsLastSegment sep (l ++ sep :: b) b :=
  ⟨hne, hb, l ++ [sep], 0, by simp, Or.inr List.getLast?_concat⟩

/-- There is none in a list of separators. -/
theorem IsLastSegment.exists_ne (h : IsLastSegment sep l b) : ∃ c ∈ l, c ≠ sep := by
  obtain ⟨hne, hb, before, k, rfl, -⟩ := h
  obtain ⟨c, hc⟩ := List.exists_mem_of_ne_nil b hne
  exact ⟨c, List.mem_append_left _ (List.mem_append_right _ hc), fun heq => hb (heq ▸ hc)⟩

theorem getLast?_append_ne (hne : b ≠ []) (hb : sep ∉ b) : (before ++ b).getLast? ≠ some sep := by
  rw [List.getLast?_append_of_ne_nil _ hne]
  intro hlast
  exact hb (List.mem_of_getLast? hlast)

/-! ## Reading from the end -/

section Reading

variable [DecidableEq α]

/-- The last segment, read from the end of the list. -/
def lastSegment (sep : α) (l : List α) : List α :=
  (l.rdropWhile fun c => c = sep).rtakeWhile fun c => c ≠ sep

theorem rdropWhile_append_replicate (h : l.getLast? ≠ some sep) (k : Nat) :
    (l ++ List.replicate k sep).rdropWhile (fun c => c = sep) = l := by
  induction k with
  | zero =>
    rw [List.replicate_zero, List.append_nil, List.rdropWhile_eq_self_iff]
    intro hne heq
    refine h ?_
    rw [List.getLast?_eq_some_getLast hne, of_decide_eq_true heq]
  | succ k ih =>
    rw [List.replicate_succ', ← List.append_assoc, List.rdropWhile_concat, if_pos (decide_eq_true rfl)]
    exact ih

theorem rtakeWhile_append (hb : sep ∉ b) (hbefore : before = [] ∨ before.getLast? = some sep) :
    (before ++ b).rtakeWhile (fun c => c ≠ sep) = b := by
  induction b using List.reverseRecOn with
  | nil =>
    rw [List.append_nil, List.rtakeWhile_eq_nil_iff]
    intro hne hlast
    have hsep := hbefore.resolve_left hne
    rw [List.getLast?_eq_some_getLast hne] at hsep
    exact of_decide_eq_true hlast (Option.some.inj hsep)
  | append_singleton b c ih =>
    rw [List.mem_append, not_or, List.mem_singleton] at hb
    have hc : c ≠ sep := fun h => hb.2 h.symm
    rw [← List.append_assoc, List.rtakeWhile_concat, if_pos (decide_eq_true hc), ih hb.1]

/-- The last segment is what is read. -/
theorem IsLastSegment.eq (h : IsLastSegment sep l b) : b = lastSegment sep l := by
  obtain ⟨hne, hb, before, k, rfl, hbefore⟩ := h
  rw [lastSegment, rdropWhile_append_replicate (getLast?_append_ne hne hb), rtakeWhile_append hb hbefore]

/-- There is one last segment at most. -/
theorem IsLastSegment.unique (h : IsLastSegment sep l b) (h' : IsLastSegment sep l b') : b' = b :=
  h'.eq.trans h.eq.symm

end Reading

end Foundation
