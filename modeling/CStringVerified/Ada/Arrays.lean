import CStringVerified.Ada.CString

/-!
# The package `C_String.Arrays`

A pointer array is the address of its first slot. The overloads of the source that differ in the
result type or in the pointer type have names of their own: `...Unbounded` returns an
`Unbounded_String`, `...Allocated` takes an `Allocated_Pointer_Array_t`.
-/

namespace CStringVerified.CString.Arrays

open Foundation

/-- `System.Word_Size / System.Storage_Unit`. -/
def wordSize : Nat := 8

/-- `Pointer_Array_t`. -/
abbrev PointerArray := Address

/-- `Allocated_Pointer_Array_t`, a type derived from `Pointer_Array_t`. -/
structure AllocatedPointerArray where
  pointer : PointerArray

/-- `String_Array_t`. -/
abbrev StringArray := Arr 0 integerLast UnboundedString

/-! ## Find NULL -/

/-- One round of the loop of `Size_Terminated`, on `Current_Address` and `Size`. -/
def sizeTerminatedBody (state : Address × Natural) :
    Ada ((Address × Natural) ⊕ Natural) := do
  let (currentAddress, size) := state
  let objPointer ← readWord currentAddress
  if objPointer = 0 then
    pure (.inr size)
  else
    let currentAddress := currentAddress.offset wordSize
    let size ← succNatural size
    pure (.inl (currentAddress, size))

/-- `Size_Terminated`. The loop has no bound of its own; `Size + 1` overflows in the round the fuel
ends with. -/
def sizeTerminated (pointer : PointerArray) : Ada Natural :=
  Run.loop sizeTerminatedBody (fun _ => failCheck .overflowCheck) (integerLast + 1)
    (pointer, ⟨0, Nat.zero_le _⟩)

/-! ## Fetch one string -/

/-- `Index_Address`: the product is one of `Integer`s. -/
def indexAddress (arrayPointer : PointerArray) (_size index : Natural) : Ada Address := do
  let addressOffset ← mulInteger index.val wordSize
  let addressCurrent := arrayPointer.offset addressOffset.toNat
  pure addressCurrent

/-- The string a slot points to: the part of `Index_Core` after the address is known. -/
def slotString (addressCurrent : Address) : Ada AdaString := do
  let pointer ← readWord addressCurrent
  if pointer = 0 then
    pure (Arr.ofVector 1 #v[] (by omega))
  else
    CString.toString pointer

/-- `Index_Core`. -/
def indexCore (arrayPointer : PointerArray) (size index : Natural) : Ada AdaString := do
  let addressCurrent ← indexAddress arrayPointer size index
  slotString addressCurrent

/-- The bodies of the `Index` functions: they differ in the conversion of the result. -/
def boundedIndex {α : Type} (result : AdaString → α) (pointer : PointerArray)
    (size index : Natural) : Ada α := do
  if size.val ≤ index.val then
    raise (.constraintError (.message "Index out of range"))
  let core ← indexCore pointer size index
  pure (result core)

/-- The bodies of the `Index_Terminated` functions. -/
def boundedIndexTerminated {α : Type} (result : AdaString → α) (pointer : PointerArray)
    (index : Natural) : Ada α := do
  let size ← sizeTerminated pointer
  boundedIndex result pointer size index

/-- `Index`. -/
def index : PointerArray → Natural → Natural → Ada AdaString := boundedIndex id

/-- `Index`, unbounded. -/
def indexUnbounded : PointerArray → Natural → Natural → Ada UnboundedString :=
  boundedIndex toUnboundedString

/-- `Index_Terminated`. -/
def indexTerminated : PointerArray → Natural → Ada AdaString := boundedIndexTerminated id

/-- `Index_Terminated`, unbounded. -/
def indexTerminatedUnbounded : PointerArray → Natural → Ada UnboundedString :=
  boundedIndexTerminated toUnboundedString

/-! ## Convert all strings -/

/-- One round of the loop of `Convert`: the element at `Table_Index`. -/
def convertElement (pointer : PointerArray) (size : Natural) (tableIndex : Nat) :
    Ada UnboundedString := do
  if h : tableIndex ≤ integerLast then
    return toUnboundedString (← indexCore pointer size ⟨tableIndex, h⟩)
  else
    failCheck .rangeCheck

/-- `Convert`. -/
def convert (pointer : PointerArray) (size : Natural) : Ada StringArray := do
  let table ← Run.collect (convertElement pointer size) size.val
  pure (Arr.ofVector 0 table fun _ => by have := size.property; omega)

/-- `Convert_Terminated`. -/
def convertTerminated (pointer : PointerArray) : Ada StringArray := do
  let size ← sizeTerminated pointer
  convert pointer size

/-! ## The overloads for allocated arrays -/

section Allocated

variable (pointer : AllocatedPointerArray)

/-- `Size_Terminated` of an allocated array. -/
def sizeTerminatedAllocated : Ada Natural := sizeTerminated pointer.pointer

/-- `Index` of an allocated array. -/
def indexAllocated : Natural → Natural → Ada AdaString := index pointer.pointer

/-- `Index` of an allocated array, unbounded. -/
def indexAllocatedUnbounded : Natural → Natural → Ada UnboundedString :=
  indexUnbounded pointer.pointer

/-- `Index_Terminated` of an allocated array. -/
def indexTerminatedAllocated : Natural → Ada AdaString := indexTerminated pointer.pointer

/-- `Index_Terminated` of an allocated array, unbounded. -/
def indexTerminatedAllocatedUnbounded : Natural → Ada UnboundedString :=
  indexTerminatedUnbounded pointer.pointer

/-- `Convert` of an allocated array. -/
def convertAllocated : Natural → Ada StringArray := convert pointer.pointer

/-- `Convert_Terminated` of an allocated array. -/
def convertTerminatedAllocated : Ada StringArray := do
  let size ← sizeTerminatedAllocated pointer
  convert pointer.pointer size

end Allocated

/-! ## Convert Ada to C -/

/-- `Strings (Index)`. -/
def element (strings : StringArray) (index : Int) : Ada UnboundedString :=
  match strings.get? index with
  | some s => pure s
  | none => failCheck .indexCheck

/-- `access Table_t`: where the table lies, and its bounds. -/
structure TableAccess where
  base : Address
  first : Int
  last : Int

/-- `Pointer_Array.all (Index)'Address`. -/
def TableAccess.slotAddress (table : TableAccess) (index : Int) : Ada Address :=
  if table.first ≤ index ∧ index ≤ table.last then
    pure (table.base.offset ((index - table.first).toNat * wordSize))
  else
    failCheck .indexCheck

/-- `Pointer_Array.all (Index) := value`. -/
def TableAccess.assign (table : TableAccess) (index : Int) (value : Address) : Ada Unit := do
  let slot ← table.slotAddress index
  writeBytes slot (wordBytes value)

/-- `new Table_t`. -/
def newTable (A : Allocator) (first last : Int) : Ada TableAccess := do
  let block ← new A ((last - first + 1).toNat * wordSize)
  pure { base := block.base, first := first, last := last }

/-- One round of the first loop: clear a slot. -/
def clearSlot (pointerArray : TableAccess) (index : Int) (_ : Unit) : Ada Unit :=
  pointerArray.assign index 0

/-- One round of the second loop: store a new C string in a slot. -/
def fillSlot (A : Allocator) (strings : StringArray) (pointerArray : TableAccess) (index : Int)
    (_ : Unit) : Ada Unit := do
  let newString ← element strings index
  let newCString ← CString.newCharArray A (toC newString.toString)
  let pointer ← CString.toCString newCString
  pointerArray.assign index pointer

/-- The block the two encoders share: `Table_t` ranges over `Strings'First .. tableLast`. -/
def encode (A : Allocator) (strings : StringArray) (tableLast : Int) :
    Ada AllocatedPointerArray := do
  let pointerArray ← newTable A strings.first tableLast
  Run.forUp pointerArray.first pointerArray.last () (clearSlot pointerArray)
  let fillLast ← subInteger pointerArray.last 1
  Run.forUp pointerArray.first fillLast () (fillSlot A strings pointerArray)
  let address ← pointerArray.slotAddress strings.first
  pure ⟨address⟩

/-- `Convert_To_C_Terminated`. -/
def convertToCTerminated (A : Allocator) (strings : StringArray) : Ada AllocatedPointerArray := do
  if strings.length = 0 then
    raise .lengthError
  let tableLast ← addInteger strings.last 1
  encode A strings tableLast

/-- `Convert_To_C`. -/
def convertToC (A : Allocator) (strings : StringArray) : Ada AllocatedPointerArray := do
  if strings.length = 0 then
    raise .lengthError
  encode A strings strings.last

/-! ## Deallocation and further calls -/

/-- `Deallocate_Terminated`. -/
def deallocateTerminated (_pointer : AllocatedPointerArray) : Ada Unit := pure ()

/-- `Deallocate`. -/
def deallocate (_pointer : AllocatedPointerArray) (_size : Natural) : Ada Unit := pure ()

/-- A call of one of the two encoders. -/
inductive EncodeCall
  | terminated (strings : StringArray)
  | sized (strings : StringArray)

/-- Make the call. -/
def EncodeCall.run (A : Allocator) : EncodeCall → Ada AllocatedPointerArray
  | .terminated strings => convertToCTerminated A strings
  | .sized strings => convertToC A strings

/-- The requests of an encoder that makes a table with `n` slots: one for the table, and one for each
string but that of the last slot. -/
def requests (strings : StringArray) (n : Nat) : List Nat :=
  n * wordSize :: (strings.elems.take (n - 1)).map fun u => u.chars.length + 1

/-- The heap after some calls, each made whether or not the one before raised an exception. -/
def runCalls (A : Allocator) : List EncodeCall → Heap → Heap
  | [], h => h
  | call :: calls, h => runCalls A calls (call.run A h).2

end CStringVerified.CString.Arrays
