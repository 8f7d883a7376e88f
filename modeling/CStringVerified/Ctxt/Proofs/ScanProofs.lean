import CStringVerified.Ctxt.MkCtxt
import Mathlib.Data.Nat.Find

/-!
# What a round of `mk-ctxt` prints

A round that reads less than `buf` holds looks backwards for a newline, starting one behind what was
read and stopping before the first character. What it prints is what was read, unless the scan finds a
newline in it.
-/

namespace CStringVerified.Ctxt

open Foundation Foundation.Run

/-! ## The scan -/

/-- What the scan from `i` on leaves. -/
def stripFrom (cells : List Byte) : Nat → List Byte
  | 0 => cells
  | i + 1 => if cells[i + 1]? = some newline then cells.set (i + 1) 0 else stripFrom cells i

/-- What a read and the scan after it leave. -/
def roundCells (cells chunk : List Byte) : List Byte :=
  let filled := chunk ++ cells.drop chunk.length
  if chunk.length ≠ bufSize then stripFrom filled chunk.length else filled

section Scan

variable {cells chunk : List Byte} {i : Nat}

@[simp] theorem length_stripFrom (cells : List Byte) (i : Nat) :
    (stripFrom cells i).length = cells.length := by
  induction i with
  | zero => rfl
  | succ i ih =>
    rw [stripFrom]
    split
    · exact List.length_set
    · exact ih

/-- Where there is no newline, nothing is replaced. -/
theorem stripFrom_eq (h : ∀ j, 0 < j → j ≤ i → cells[j]? ≠ some newline) :
    stripFrom cells i = cells := by
  induction i with
  | zero => rfl
  | succ i ih =>
    rw [stripFrom, if_neg (h (i + 1) (Nat.succ_pos i) (Nat.le_refl _))]
    exact ih fun j hpos hj => h j hpos (Nat.le_succ_of_le hj)

/-- The first newline that the scan meets is replaced. -/
theorem stripFrom_set {k : Nat} (hpos : 0 < k) (hk : k ≤ i) (hnewline : cells[k]? = some newline)
    (h : ∀ j, k < j → j ≤ i → cells[j]? ≠ some newline) : stripFrom cells i = cells.set k 0 := by
  induction i with
  | zero => omega
  | succ i ih =>
    rw [stripFrom]
    by_cases hlast : k = i + 1
    · rw [← hlast, if_pos hnewline]
    · rw [if_neg (h (i + 1) (by omega) (Nat.le_refl _))]
      exact ih (by omega) fun j hj hji => h j hj (Nat.le_succ_of_le hji)

theorem length_roundCells (h : chunk.length ≤ cells.length) :
    (roundCells cells chunk).length = cells.length := by
  have hfilled : (chunk ++ cells.drop chunk.length).length = cells.length := by
    rw [List.length_append, List.length_drop]
    omega
  unfold roundCells
  dsimp only
  split
  · rw [length_stripFrom, hfilled]
  · exact hfilled

/-- The last newline of a chunk behind its first character. -/
theorem exists_last_newline (h : newline ∈ chunk.tail) :
    ∃ k, 0 < k ∧ k < chunk.length ∧ chunk[k]? = some newline ∧
      ∀ j, k < j → chunk[j]? ≠ some newline := by
  obtain ⟨i, hi⟩ := List.mem_iff_getElem?.mp h
  rw [List.getElem?_tail] at hi
  have hlt : ∀ {j}, chunk[j]? = some newline → j < chunk.length := fun hj =>
    (List.getElem?_eq_some_iff.mp hj).1
  have hspec := Nat.findGreatest_spec (P := fun k => 0 < k ∧ chunk[k]? = some newline)
    (Nat.le_of_lt (hlt hi)) ⟨Nat.succ_pos i, hi⟩
  refine ⟨_, hspec.1, hlt hspec.2, hspec.2, fun j hj hnewline => ?_⟩
  exact Nat.findGreatest_is_greatest hj (Nat.le_of_lt (hlt hnewline)) ⟨by omega, hnewline⟩

/-- The scan finds nothing to replace among what was read, or it replaces the last newline there. -/
theorem roundCells_cases (hne : chunk ≠ []) :
    (chunk.length ≠ bufSize ∧ cells[chunk.length]? = some newline ∧
      roundCells cells chunk = (chunk ++ cells.drop chunk.length).set chunk.length 0) ∨
    ((chunk.length = bufSize ∨ cells[chunk.length]? ≠ some newline ∧ newline ∉ chunk.tail) ∧
      roundCells cells chunk = chunk ++ cells.drop chunk.length) ∨
    (chunk.length ≠ bufSize ∧ cells[chunk.length]? ≠ some newline ∧ ∃ k, 0 < k ∧ k < chunk.length ∧
      chunk[k]? = some newline ∧ (∀ j, k < j → chunk[j]? ≠ some newline) ∧
      roundCells cells chunk = (chunk ++ cells.drop chunk.length).set k 0) := by
  have hpos := List.length_pos_iff.mpr hne
  have hread : ∀ j, j < chunk.length → (chunk ++ cells.drop chunk.length)[j]? = chunk[j]? :=
    fun j hj => List.getElem?_append_left hj
  have hbehind : (chunk ++ cells.drop chunk.length)[chunk.length]? = cells[chunk.length]? := by
    rw [List.getElem?_append_right (Nat.le_refl _), Nat.sub_self, List.getElem?_drop, Nat.add_zero]
  unfold roundCells
  dsimp only
  by_cases hfull : chunk.length = bufSize
  · rw [if_neg (not_not_intro hfull)]
    exact Or.inr (Or.inl ⟨Or.inl hfull, rfl⟩)
  · rw [if_pos hfull]
    by_cases hstale : cells[chunk.length]? = some newline
    · refine Or.inl ⟨hfull, hstale, ?_⟩
      exact stripFrom_set hpos (Nat.le_refl _) (hbehind.trans hstale) fun j hj hji => by omega
    · by_cases htail : newline ∈ chunk.tail
      · obtain ⟨k, hk, hklt, hnewline, hlast⟩ := exists_last_newline htail
        refine Or.inr (Or.inr ⟨hfull, hstale, k, hk, hklt, hnewline, hlast, ?_⟩)
        refine stripFrom_set hk (Nat.le_of_lt hklt) ((hread k hklt).trans hnewline) fun j hj hji => ?_
        rcases Nat.lt_or_eq_of_le hji with hlt | rfl
        · rw [hread j hlt]
          exact hlast j hj
        · rwa [hbehind]
      · refine Or.inr (Or.inl ⟨Or.inr ⟨hstale, htail⟩, stripFrom_eq fun j hj hji => ?_⟩)
        rcases Nat.lt_or_eq_of_le hji with hlt | rfl
        · rw [hread j hlt]
          intro hnewline
          refine htail (List.mem_iff_getElem?.mpr ⟨j - 1, ?_⟩)
          rwa [List.getElem?_tail, Nat.sub_add_cancel hj]
        · rwa [hbehind]

/-- The round prints all it read. -/
def KeepsChunk (cells chunk : List Byte) : Prop :=
  chunk.length = bufSize ∨ cells[chunk.length]? = some newline ∨ newline ∉ chunk.tail

/-- The round looks for a newline at the end of what it read, and reaches it. -/
def StripsChunk (cells chunk : List Byte) : Prop :=
  chunk.length ≠ bufSize ∧ cells[chunk.length]? ≠ some newline ∧ 2 ≤ chunk.length

/-- What is in `buf` then, if the round prints all it read. -/
def keptCells (cells chunk : List Byte) : List Byte :=
  let filled := chunk ++ cells.drop chunk.length
  if chunk.length ≠ bufSize ∧ cells[chunk.length]? = some newline then filled.set chunk.length 0
  else filled

theorem take_set_ne {k : Nat} (h : chunk[k]? = some newline) :
    ((chunk ++ cells.drop chunk.length).set k 0).take chunk.length = chunk.set k 0 ∧
      chunk.set k 0 ≠ chunk := by
  have hlt := (List.getElem?_eq_some_iff.mp h).1
  constructor
  · rw [List.set_append_left _ _ hlt]
    exact List.take_left' List.length_set
  · intro heq
    have hk := congrArg (fun l : List Byte => l[k]?) heq
    rw [List.getElem?_set_self hlt, h] at hk
    exact absurd hk (by decide)

theorem roundCells_kept (hne : chunk ≠ []) :
    ((roundCells cells chunk).take chunk.length = chunk ↔ KeepsChunk cells chunk) ∧
      (KeepsChunk cells chunk → roundCells cells chunk = keptCells cells chunk) := by
  unfold KeepsChunk keptCells
  dsimp only
  rcases @roundCells_cases cells _ hne with ⟨hfull, hstale, heq⟩ | ⟨hkept, heq⟩ |
    ⟨hfull, hstale, k, hk, hklt, hnewline, -, heq⟩
  · rw [heq, if_pos ⟨hfull, hstale⟩]
    refine ⟨iff_of_true ?_ (Or.inr (Or.inl hstale)), fun _ => rfl⟩
    rw [List.take_set_of_le (Nat.le_refl _), List.take_left]
  · rw [heq, if_neg ?_]
    · refine ⟨iff_of_true List.take_left ?_, fun _ => rfl⟩
      exact hkept.imp_right fun hand => Or.inr hand.2
    · rintro ⟨hfull, hstale⟩
      exact (hkept.resolve_left hfull).1 hstale
  · have hnot : ¬(chunk.length = bufSize ∨ cells[chunk.length]? = some newline ∨
        newline ∉ chunk.tail) := by
      refine not_or.mpr ⟨hfull, not_or.mpr ⟨hstale, not_not_intro ?_⟩⟩
      refine List.mem_iff_getElem?.mpr ⟨k - 1, ?_⟩
      rwa [List.getElem?_tail, Nat.sub_add_cancel hk]
    rw [heq, (take_set_ne hnewline).1]
    exact ⟨iff_of_false (@take_set_ne cells _ _ hnewline).2 hnot, fun h => absurd h hnot⟩

/-- Where what was read ends with a newline, the round may print a nul for it. -/
theorem roundCells_stripped (hlast : chunk.getLast? = some newline) :
    (roundCells cells chunk).take chunk.length = chunk.dropLast ++ [0] ↔ StripsChunk cells chunk := by
  obtain ⟨init, rfl⟩ := List.getLast?_eq_some_iff.mp hlast
  have hne : init ++ [newline] ≠ [] := List.append_ne_nil_of_right_ne_nil init (List.cons_ne_nil _ _)
  have hend : (init ++ [newline])[init.length]? = some newline := by
    rw [List.getElem?_append_right (Nat.le_refl _), Nat.sub_self]
    rfl
  have hdiff : init ++ [newline] ≠ init ++ [0] := fun heq =>
    absurd (List.cons.inj (List.append_cancel_left heq)).1 (by decide)
  unfold StripsChunk
  rw [List.dropLast_concat]
  rcases @roundCells_cases cells _ hne with ⟨hfull, hstale, heq⟩ | ⟨hkept, heq⟩ |
    ⟨hfull, hstale, k, hk, hklt, hnewline, hgreatest, heq⟩
  · rw [heq, List.take_set_of_le (Nat.le_refl _), List.take_left]
    exact iff_of_false hdiff fun hstrips => hstrips.2.1 hstale
  · rw [heq, List.take_left]
    refine iff_of_false hdiff fun hstrips => ?_
    obtain ⟨-, htail⟩ := hkept.resolve_left hstrips.1
    have hinit : init ≠ [] := by
      rintro rfl
      exact absurd hstrips.2.2 (by decide)
    rw [List.tail_append_of_ne_nil hinit] at htail
    exact htail (List.mem_append_right _ (List.mem_singleton_self _))
  · have hlen : (init ++ [newline]).length = init.length + 1 := List.length_append
    obtain rfl : k = init.length := by
      by_contra hother
      exact hgreatest init.length (by omega) hend
    rw [heq, (take_set_ne hnewline).1]
    refine iff_of_true ?_ ⟨hfull, hstale, by omega⟩
    rw [List.set_append_right _ _ (Nat.le_refl _), Nat.sub_self]
    rfl

end Scan

end CStringVerified.Ctxt
