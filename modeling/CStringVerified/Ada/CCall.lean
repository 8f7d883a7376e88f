import CStringVerified.Ada.Arrays

/-!
# C code that is handed what the packages make

The functions of `ccall.c` and `cstr.c` that take a pointer array, a C string or a character array.
They read memory and print. An `unsigned int` is 32 bits wide, and a count of that type wraps around.
-/

namespace CStringVerified.CString

open Foundation Arrays

/-- The number of values of `unsigned int`. -/
def unsignedCount : Nat := 4294967296

/-- How a C function ends other than by returning. -/
inductive CFail
  /-- It reads where nothing is mapped. -/
  | undefined (a : Address)
  /-- It never ends. -/
  | diverges
deriving DecidableEq

/-- What C code works on: the heap, and what was printed so far. -/
structure CState where
  heap : Heap
  out : List Byte

/-- C code. -/
abbrev CCode := Run CFail CState

/-! ## Printing -/

/-- The bytes of a text. -/
def bytes (s : String) : List Byte := s.toList.map fun c => BitVec.ofNat 8 c.toNat

/-- `printf`, of what the conversions made. -/
def printf (line : List Byte) : CCode Unit :=
  Run.modify fun s => { s with out := s.out ++ line }

/-- `*a` for a pointer to a pointer. -/
def loadPointer (a : Address) : CCode Address := do
  let s ← Run.get
  match s.heap.mem.word a with
  | some w => pure w
  | none => Run.fail (.undefined a)

/-- `*a` for a pointer to a character. -/
def loadChar (a : Address) : CCode Byte := do
  let s ← Run.get
  match s.heap.mem.byte a with
  | some b => pure b
  | none => Run.fail (.undefined a)

/-- One round of `%s`, on the next character and those before it. -/
def stringBody (state : Address × List Byte) : CCode ((Address × List Byte) ⊕ List Byte) := do
  let (a, before) := state
  let b ← loadChar a
  if b = nul then pure (.inr before) else pure (.inl (a.offset 1, before ++ [b]))

/-- `%s`: the characters before the nul. The fuel is the size of the address space. -/
def stringAt (a : Address) : CCode (List Byte) :=
  Run.loop stringBody (fun _ => Run.fail .diverges) sizeTCount (a, [])

/-- `%.2hhx`. -/
def hexByte (b : Byte) : List Byte :=
  let digits := Nat.toDigits 16 b.toNat
  bytes (String.ofList (List.replicate (2 - digits.length) '0' ++ digits))

/-! ## `ccall.c` -/

/-- `"[%u] %s\n"`. -/
def row (count : Nat) (string : List Byte) : List Byte :=
  bytes "[" ++ bytes (Nat.repr count) ++ bytes "] " ++ string ++ bytes "\n"

/-- One round of the loop of `ccall_input_term`. -/
def ccallInputTermBody (data : PointerArray) (count : Nat) : CCode (Nat ⊕ Nat) := do
  let index ← loadPointer (data.offset (wordSize * count))
  if index = 0 then
    printf (row count (bytes "NULL"))
    pure (.inr count)
  else
    let string ← stringAt index
    printf (row count string)
    pure (.inl ((count + 1) % unsignedCount))

/-- `ccall_input_term`. When all values of `unsigned int` have been counted, the count is 0 again, and
the loop goes round as it did before. -/
def ccallInputTerm (data : PointerArray) : CCode Nat := do
  printf (bytes "-- C start\n")
  let count ← Run.loop (ccallInputTermBody data) (fun _ => Run.fail .diverges) unsignedCount 0
  printf (bytes "-- C exit\n")
  pure count

/-- One round of the loop of `ccall_input_unterm`. -/
def ccallInputUntermBody (data : PointerArray) (size count : Nat) : CCode (Nat ⊕ Nat) := do
  if count = size then
    pure (.inr count)
  else
    let index ← loadPointer (data.offset (wordSize * count))
    if index = 0 then
      printf (row count (bytes "NULL"))
    else
      let string ← stringAt index
      printf (row count string)
    pure (.inl ((count + 1) % unsignedCount))

/-- `ccall_input_unterm`. -/
def ccallInputUnterm (data : PointerArray) (size : Nat) : CCode Nat := do
  printf (bytes "-- C start\n")
  let count ← Run.loop (ccallInputUntermBody data size) (fun _ => Run.fail .diverges)
    unsignedCount 0
  printf (bytes "-- C exit\n")
  pure count

/-! ## `cstr.c` -/

/-- `cstr_terminated2`. -/
def cstrTerminated2 (str : Address) : CCode Unit := do
  let string ← stringAt str
  printf (bytes "C: cstr_terminated2: received " ++ string ++ bytes "\n")

/-- One round of the loop of `cstr_unterminated2`. -/
def cstrUnterminated2Body (str : Address) (size index : Nat) : CCode (Nat ⊕ Unit) := do
  if index < size then
    let char ← loadChar (str.offset index)
    printf (hexByte char)
    pure (.inl (index + 1))
  else
    pure (.inr ())

/-- `cstr_unterminated2`. -/
def cstrUnterminated2 (str : Address) (size : Nat) : CCode Unit := do
  printf (bytes "C: cstr_unterminated2: hexdump ")
  Run.loop (cstrUnterminated2Body str size) (fun _ => Run.fail .diverges) sizeTCount 0
  printf (bytes " " ++ bytes (Nat.repr size) ++ bytes "\n")

end CStringVerified.CString
