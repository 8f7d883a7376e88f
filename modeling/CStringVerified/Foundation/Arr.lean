import Mathlib.Data.Vector.Basic

/-!
# Arrays with bounds

An array carries its two bounds, as in Ada: a non-empty array has them inside its index subtype
`lo .. hi`, a null array may have any `last < first`.
-/

namespace Foundation

/-- An array with index subtype `lo .. hi`. -/
@[ext]
structure Arr (lo hi : Int) (α : Type) where
  /-- `'First`. -/
  first : Int
  /-- `'Last`. -/
  last : Int
  /-- The elements in index order. -/
  elems : List α
  length_eq : elems.length = (last - first + 1).toNat
  bounds : first ≤ last → lo ≤ first ∧ last ≤ hi
deriving DecidableEq

namespace Arr

variable {lo hi : Int} {α : Type}

/-- `'Length`. -/
def length (a : Arr lo hi α) : Nat := a.elems.length

/-- The element at an index, if the index is within the bounds. -/
def get? (a : Arr lo hi α) (i : Int) : Option α :=
  if a.first ≤ i then a.elems[(i - a.first).toNat]? else none

/-- An array from its first bound and its elements. -/
def ofVector {n : Nat} (first : Int) (v : Vector α n)
    (h : 0 < n → lo ≤ first ∧ first + n - 1 ≤ hi) : Arr lo hi α where
  first := first
  last := first + n - 1
  elems := v.toList
  length_eq := by simp; omega
  bounds := fun hle => h (by omega)

variable {a : Arr lo hi α} {n : Nat} {first : Int} {v : Vector α n}
  {h : 0 < n → lo ≤ first ∧ first + n - 1 ≤ hi}

@[simp] theorem first_ofVector : (ofVector first v h : Arr lo hi α).first = first := rfl

@[simp] theorem last_ofVector : (ofVector first v h : Arr lo hi α).last = first + n - 1 := rfl

@[simp] theorem elems_ofVector : (ofVector first v h : Arr lo hi α).elems = v.toList := rfl

theorem length_eq_bounds (a : Arr lo hi α) : (a.length : Int) = max (a.last - a.first + 1) 0 := by
  have := a.length_eq
  unfold length
  omega

theorem first_le_last (ha : 0 < a.length) : a.first ≤ a.last := by
  have := a.length_eq_bounds
  omega

/-- The element number `k`, counted from the first bound. -/
theorem get?_first_add (a : Arr lo hi α) (k : Nat) : a.get? (a.first + k) = a.elems[k]? := by
  have h1 : (a.first + k - a.first).toNat = k := by omega
  rw [get?, if_pos (by omega), h1]

end Arr

end Foundation
