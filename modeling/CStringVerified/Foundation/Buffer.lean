import Mathlib.Data.List.TakeWhile

/-!
# Arrays of C

An array has a fixed size, and may hold anything. A write that leaves the array has no result, and
neither has the C string of an array without a nul. What is known about an array is how it starts.
-/

namespace Foundation

/-- An array of `n` elements. -/
structure CArray (α : Type) (n : Nat) where
  cells : List α
  length_eq : cells.length = n

/-- An array of `n` characters. -/
abbrev Buffer (n : Nat) := CArray Char n

namespace CArray

variable {α : Type} {n : Nat}

/-- `memcpy (b + i, text, length)`. -/
def memcpy (b : CArray α n) (i : Nat) (text : List α) : Option (CArray α n) :=
  if h : i + text.length ≤ n then
    some
      { cells := b.cells.take i ++ text ++ b.cells.drop (i + text.length)
        length_eq := by
          have hlen := b.length_eq
          simp only [List.length_append, List.length_take, List.length_drop]
          omega }
  else none

/-- `b [i] = c`. -/
def store (b : CArray α n) (i : Nat) (c : α) : Option (CArray α n) := b.memcpy i [c]

/-- `b [i]`. -/
def load (b : CArray α n) (i : Nat) : Option α := b.cells[i]?

/-- An array that holds the same everywhere. -/
def fill (n : Nat) (c : α) : CArray α n := ⟨List.replicate n c, List.length_replicate⟩

variable {b b' : CArray α n} {i : Nat} {c : α} {text more : List α}

theorem memcpy_none (h : n < i + text.length) : b.memcpy i text = none := dif_neg (by omega)

theorem store_none (h : n ≤ i) : b.store i c = none :=
  memcpy_none (by rw [List.length_singleton]; omega)

/-- Copying behind what the array starts with. -/
theorem memcpy_starts (h : text <+: b.cells) (hfit : text.length + more.length ≤ n) :
    ∃ b', b.memcpy text.length more = some b' ∧ text ++ more <+: b'.cells := by
  refine ⟨_, dif_pos hfit, ?_⟩
  show text ++ more <+: b.cells.take text.length ++ more ++ b.cells.drop (text.length + more.length)
  rw [← List.prefix_iff_eq_take.mp h]
  exact List.prefix_append _ _

/-- Storing a character behind what the array starts with. -/
theorem store_starts (h : text <+: b.cells) (hfit : text.length < n) :
    ∃ b', b.store text.length c = some b' ∧ text ++ [c] <+: b'.cells :=
  memcpy_starts h hfit

theorem load_starts (h : text <+: b.cells) (hi : i < text.length) : b.load i = some text[i] := by
  obtain ⟨rest, hrest⟩ := h
  rw [load, ← hrest, List.getElem?_append_left hi]
  exact List.getElem?_eq_getElem hi

theorem memcpy_cells (h : text.length ≤ n) :
    ∃ b', b.memcpy 0 text = some b' ∧ b'.cells = text ++ b.cells.drop text.length :=
  ⟨_, dif_pos (by omega), by simp⟩

theorem store_cells (h : i < n) : ∃ b', b.store i c = some b' ∧ b'.cells = b.cells.set i c := by
  refine ⟨_, dif_pos h, ?_⟩
  have hi : i < b.cells.length := h.trans_eq b.length_eq.symm
  rw [List.set_eq_take_append_cons_drop, if_pos hi]
  exact List.append_assoc _ _ _

theorem load_cells (h : i < n) : ∃ c, b.load i = some c ∧ b.cells[i]? = some c :=
  ⟨_, List.getElem?_eq_getElem (h.trans_eq b.length_eq.symm),
    List.getElem?_eq_getElem (h.trans_eq b.length_eq.symm)⟩

/-- The C string that starts with the array. -/
def cString (b : Buffer n) : Option (List Char) :=
  if '\x00' ∈ b.cells then some (b.cells.takeWhile fun c => c ≠ '\x00') else none

/-- An array that starts with a nul behind some text has a C string. -/
theorem cString_starts {b : Buffer n} {text : List Char} (h : text ++ ['\x00'] <+: b.cells) :
    b.cString = some (text.takeWhile fun c => c ≠ '\x00') := by
  obtain ⟨rest, hrest⟩ := h
  have hmem : '\x00' ∈ b.cells := by
    rw [← hrest]
    exact List.mem_append_left _ (List.mem_append_right _ (List.mem_singleton_self _))
  rw [cString, if_pos hmem, ← hrest, List.append_assoc, List.takeWhile_append]
  split
  · rename_i hall
    rw [List.singleton_append, List.takeWhile_cons_of_neg (by decide), List.append_nil]
    exact congrArg some (List.IsPrefix.eq_of_length (List.takeWhile_prefix _) hall).symm
  · rfl

/-- A string that is copied to the start of an array, its nul last. -/
theorem string_copied {b : Buffer n} {text : List Char} (hnul : '\x00' ∉ text) (hfit : text.length < n) :
    ∃ b₁ b₂, b.memcpy 0 text = some b₁ ∧ b₁.store text.length '\x00' = some b₂ ∧
      b₂.cString = some text := by
  obtain ⟨b₁, hcopy, hstarts⟩ := @memcpy_starts _ _ b [] text List.nil_prefix (by
    rw [List.length_nil]
    omega)
  obtain ⟨b₂, hstore, hstarts'⟩ := store_starts (c := '\x00') hstarts hfit
  have hall : ∀ c ∈ text, decide (c ≠ '\x00') = true := fun c hc =>
    decide_eq_true fun heq => hnul (heq ▸ hc)
  refine ⟨b₁, b₂, hcopy, hstore, ?_⟩
  rw [cString_starts hstarts', List.nil_append, List.takeWhile_eq_self_iff.mpr hall]

end CArray

/-- An array of nuls. -/
def Buffer.zero (n : Nat) : Buffer n := .fill n '\x00'

end Foundation
