import CStringVerified.Ada.Types

/-!
# The package `C_String`

Pointers are addresses, the value 0 being null; `size_t` values are natural numbers below
`sizeTCount`. The functions keep the names of the source; where the source overloads a name for the
two pointer types, the version with a size is `...Sized`.
-/

namespace CStringVerified.CString

open Foundation

/-- `Item [Index]`, without checking for a terminating null. -/
def unsafeIndex (item : Address) (index : Nat) : Ada CChar := do
  checkNotNull item
  let offset ← toStorageOffset index
  let newAddress := item.offset offset
  readByte newAddress

/-- One round of the loop of `Length`. -/
def lengthBody (item : Address) (i : Nat) : Ada (Nat ⊕ Nat) := do
  let char ← unsafeIndex item i
  if char = nul then pure (.inr i) else pure (.inl (i + 1))

/-- `Length`: the loop counts through `size_t'Range`. -/
def length (item : Address) : Ada Nat := do
  checkNotNull item
  Run.loop (lengthBody item)
    (fun _ => raise (.constraintError (.message "no terminating null found"))) sizeTCount 0

/-- The characters `0 .. count - 1` at `item`, as a string from 1 on. -/
def copyString (item : Address) (count : Natural) : Ada AdaString := do
  let result ← Run.collect (fun i => do return toAda (← unsafeIndex item i)) count.val
  pure (Arr.ofVector 1 result fun _ => by have := count.property; omega)

/-- `To_String` of a terminated string. -/
def toString (item : Address) : Ada AdaString := do
  checkNotNull item
  let size ← length item
  let last ← toInteger size
  copyString item last

/-- `To_String` of a character array. -/
def toStringSized (item : Address) (size : Nat) : Ada AdaString := do
  checkNotNull item
  let last ← toInteger size
  copyString item last

/-- `Index` of a terminated string. -/
def index (item : Address) (index : Nat) : Ada CChar := do
  checkNotNull item
  let size ← length item
  if size ≤ index then
    raise (.constraintError (.message "index out of range"))
  unsafeIndex item index

/-- `Index` of a character array. -/
def indexSized (item : Address) (size index : Nat) : Ada CChar := do
  checkNotNull item
  if size ≤ index then
    raise (.constraintError (.message "index out of range"))
  unsafeIndex item index

/-! ## Ada to C -/

/-- A `char_array_access` that is not null: where the characters lie, and the bounds. -/
structure CharArrayAccess where
  base : Address
  first : Nat
  last : Nat

/-- One round of the loop of `Has_Null`, at index `i`. -/
def hasNullBody (item : CharArrayAccess) (i : Nat) : Ada (Nat ⊕ Bool) := do
  let char ← readByte (item.base.offset (i - item.first))
  if char = nul then pure (.inr true) else pure (.inl (i + 1))

/-- `Has_Null`. -/
def hasNull (item : CharArrayAccess) : Ada Bool :=
  Run.loop (hasNullBody item) (fun _ => pure false) (item.last + 1 - item.first) item.first

/-- `Item.all (Item'First)'Address`. -/
def firstAddress (item : CharArrayAccess) : Ada Address :=
  if item.first ≤ item.last then pure item.base else failCheck .indexCheck

/-- `To_C_String` of an array that holds a nul. -/
def toCString (item : CharArrayAccess) : Ada Address := do
  if ← hasNull item then
    firstAddress item
  else
    raise .nullTerminationError

/-- `To_C_Char_Array`. -/
def toCCharArray (item : CharArrayAccess) : Ada Address := firstAddress item

/-- `new C.char_array'(value)`. -/
def newCharArray (A : Allocator) (value : CharArray) : Ada CharArrayAccess := do
  let block ← new A value.length
  writeBytes block.base value.elems
  pure { base := block.base, first := value.first.toNat, last := value.last.toNat }

end CStringVerified.CString
