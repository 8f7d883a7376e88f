import CStringVerified.Ada.CCall
import CStringVerified.Foundation.PointerTable

/-!
# Programs that use the packages

A program calls the subprograms of the two packages as often as it likes and in any order, keeps the
pointer arrays the encoders return, and hands them to C. It handles every exception, so an exception
ends the call it comes from and nothing else.

A `Shelf` says what such a program is to see: it holds the calls that were served, with no memory and
no pointers, and C prints what was put into it.
-/

namespace CStringVerified.CString.Arrays

open Foundation

/-! ## Calls -/

/-- A call of a subprogram of `C_String` or `C_String.Arrays`, or of `new` for a character array. The
overloads for allocated arrays are these calls at the address of the array. -/
inductive Operation
  | length (item : Address)
  | toString (item : Address)
  | toStringSized (item : Address) (size : Nat)
  | indexChar (item : Address) (i : Nat)
  | indexCharSized (item : Address) (size i : Nat)
  | newCharArray (value : CharArray)
  | toCString (item : CharArrayAccess)
  | toCCharArray (item : CharArrayAccess)
  | sizeTerminated (pointer : PointerArray)
  | index (pointer : PointerArray) (size i : Natural)
  | indexUnbounded (pointer : PointerArray) (size i : Natural)
  | indexTerminated (pointer : PointerArray) (i : Natural)
  | indexTerminatedUnbounded (pointer : PointerArray) (i : Natural)
  | convert (pointer : PointerArray) (size : Natural)
  | convertTerminated (pointer : PointerArray)
  | encode (call : EncodeCall)
  | deallocateTerminated (pointer : AllocatedPointerArray)
  | deallocate (pointer : AllocatedPointerArray) (size : Natural)

/-- Make a call and forget what it returns. -/
def forget {α : Type} (call : Ada α) : Ada Unit := do
  let _ ← call
  pure ()

/-- Make the call. -/
def Operation.run (A : Allocator) : Operation → Ada Unit
  | .length item => forget (CString.length item)
  | .toString item => forget (CString.toString item)
  | .toStringSized item size => forget (CString.toStringSized item size)
  | .indexChar item i => forget (CString.index item i)
  | .indexCharSized item size i => forget (CString.indexSized item size i)
  | .newCharArray value => forget (CString.newCharArray A value)
  | .toCString item => forget (CString.toCString item)
  | .toCCharArray item => forget (CString.toCCharArray item)
  | .sizeTerminated pointer => forget (Arrays.sizeTerminated pointer)
  | .index pointer size i => forget (Arrays.index pointer size i)
  | .indexUnbounded pointer size i => forget (Arrays.indexUnbounded pointer size i)
  | .indexTerminated pointer i => forget (Arrays.indexTerminated pointer i)
  | .indexTerminatedUnbounded pointer i => forget (Arrays.indexTerminatedUnbounded pointer i)
  | .convert pointer size => forget (Arrays.convert pointer size)
  | .convertTerminated pointer => forget (Arrays.convertTerminated pointer)
  | .encode call => forget (call.run A)
  | .deallocateTerminated pointer => Arrays.deallocateTerminated pointer
  | .deallocate pointer size => Arrays.deallocate pointer size

/-- The heap after some calls, each made whether or not the one before raised an exception. -/
def runOperations (A : Allocator) : List Operation → Heap → Heap
  | [], h => h
  | op :: ops, h => runOperations A ops (op.run A h).2

/-- `Strings` of the call. -/
def EncodeCall.strings : EncodeCall → StringArray
  | .terminated strings => strings
  | .sized strings => strings

/-- The slots of the table of the call. -/
def EncodeCall.slots : EncodeCall → Nat
  | .terminated strings => strings.length + 1
  | .sized strings => strings.length

/-! ## Sessions -/

/-- An array the program keeps, with `Strings'Length`. -/
structure Kept where
  pointer : AllocatedPointerArray
  count : Nat

/-- What a program has: the heap, the arrays it keeps, what was printed, and what C returned to it. -/
structure Session where
  heap : Heap
  kept : List Kept
  out : List Byte
  returned : List Nat

/-- One step of a program. -/
inductive Action
  /-- Call an encoder and keep what it returns. -/
  | encode (call : EncodeCall)
  /-- Make another call. -/
  | operation (op : Operation)
  /-- Hand array `i` to `ccall_input_term`. -/
  | inputTerm (i : Nat)
  /-- Hand array `i` to `ccall_input_unterm`, with a size that is no larger than the count kept. -/
  | inputUnterm (i size : Nat)

/-- Why a program ends before its last step. -/
inductive Crash
  | ada (a : Address)
  | c (e : CFail)

namespace Session

/-- Call a C function. -/
def callC (s : Session) (function : CCode Nat) : Except Crash Session :=
  match function ⟨s.heap, s.out⟩ with
  | (.ok count, t) =>
    .ok { s with heap := t.heap, out := t.out, returned := s.returned ++ [count] }
  | (.error e, _) => .error (.c e)

/-- Make a step. There is nothing to hand over if there is no array `i`. -/
def act (A : Allocator) (s : Session) : Action → Except Crash Session
  | .encode call =>
    match call.run A s.heap with
    | (.ok pointer, h) => .ok { s with heap := h, kept := s.kept ++ [⟨pointer, call.strings.length⟩] }
    | (.error (.raised _), h) => .ok { s with heap := h }
    | (.error (.erroneous a), _) => .error (.ada a)
  | .operation op =>
    match op.run A s.heap with
    | (.ok _, h) => .ok { s with heap := h }
    | (.error (.raised _), h) => .ok { s with heap := h }
    | (.error (.erroneous a), _) => .error (.ada a)
  | .inputTerm i =>
    match s.kept[i]? with
    | some array => s.callC (ccallInputTerm array.pointer.pointer)
    | none => .ok s
  | .inputUnterm i size =>
    match s.kept[i]? with
    | some array =>
      if size ≤ array.count then s.callC (ccallInputUnterm array.pointer.pointer size) else .ok s
    | none => .ok s

/-- Make some steps. -/
def run (A : Allocator) (s : Session) : List Action → Except Crash Session
  | [] => .ok s
  | action :: actions =>
    match s.act A action with
    | .ok s' => s'.run A actions
    | .error crash => .error crash

end Session

/-! ## What is to be seen -/

/-- The row of a slot, null or not. -/
def slotRow (count : Nat) : Option (List Byte) → List Byte
  | none => row count (bytes "NULL")
  | some string => row count string

/-- The rows of some slots, counted from `count` on. -/
def rows (count : Nat) : List (Option (List Byte)) → List Byte
  | [] => []
  | slot :: slots => slotRow count slot ++ rows (count + 1) slots

/-- What C prints of some slots. -/
def report (slots : List (Option (List Byte))) : List Byte :=
  bytes "-- C start\n" ++ rows 0 slots ++ bytes "-- C exit\n"

/-- The strings C finds before the null slot, up to their first nul: all of them, but for the last one
of a sized array. -/
def EncodeCall.texts : EncodeCall → List (List Byte)
  | .terminated strings => strings.elems.map fun u => cut u.chars
  | .sized strings => strings.elems.dropLast.map fun u => cut u.chars

/-- Why a call is not served that was made in `before` and has left `after`: the array is empty, there is
no index for the null slot, or the allocator has refused a request of the call. -/
inductive EncodeCall.Unserved (A : Allocator) (before after : Heap) (call : EncodeCall) : Prop
  | empty (h : call.strings.length = 0)
  | overflow {strings : StringArray} (hcall : call = .terminated strings)
      (hlast : strings.last = integerLast)
  | storage (h : A.Refuses before after (requests call.strings call.slots))

/-- The heap after a step that is made in `h`. C leaves it as it is. -/
def Action.after (A : Allocator) (h : Heap) : Action → Heap
  | .encode call => (call.run A h).2
  | .operation op => (op.run A h).2
  | .inputTerm _ => h
  | .inputUnterm _ _ => h

/-- The calls that were served, what was printed, and what C returned. -/
structure Shelf where
  kept : List EncodeCall
  out : List Byte
  returned : List Nat

namespace Shelf

/-- C prints some slots and returns a number. -/
def shown (t : Shelf) (slots : List (Option (List Byte))) (count : Nat) : Shelf :=
  { t with out := t.out ++ report slots, returned := t.returned ++ [count] }

/-- What a step does to a shelf, where `before` and `after` are the heaps the calls of the step leave:
they say only which requests the allocator has refused. -/
inductive Acts (A : Allocator) (before after : Heap) : Shelf → Action → Shelf → Prop
  | stored (t : Shelf) {call : EncodeCall} (hne : call.strings.length ≠ 0) :
      Acts A before after t (.encode call) { t with kept := t.kept ++ [call] }
  | refused (t : Shelf) {call : EncodeCall} (h : call.Unserved A before after) :
      Acts A before after t (.encode call) t
  | operation (t : Shelf) (op : Operation) : Acts A before after t (.operation op) t
  | inputTerm (t : Shelf) {i : Nat} {call : EncodeCall} (h : t.kept[i]? = some call) :
      Acts A before after t (.inputTerm i) (t.shown (terminated call.texts) call.texts.length)
  | inputTermNone (t : Shelf) {i : Nat} (h : t.kept[i]? = none) :
      Acts A before after t (.inputTerm i) t
  | inputUnterm (t : Shelf) {i size : Nat} {call : EncodeCall} (h : t.kept[i]? = some call)
      (hsize : size ≤ call.strings.length) :
      Acts A before after t (.inputUnterm i size) (t.shown ((terminated call.texts).take size) size)
  | inputUntermNone (t : Shelf) {i size : Nat}
      (h : ∀ call, t.kept[i]? = some call → call.strings.length < size) :
      Acts A before after t (.inputUnterm i size) t

/-- What some steps do to a shelf, the first of them made in `h`. -/
inductive Runs (A : Allocator) : Heap → Shelf → List Action → Shelf → Prop
  | nil (h : Heap) (t : Shelf) : Runs A h t [] t
  | cons {h : Heap} {t t' t'' : Shelf} {action : Action} {actions : List Action}
      (hact : Acts A h (action.after A h) t action t')
      (hrest : Runs A (action.after A h) t' actions t'') : Runs A h t (action :: actions) t''

end Shelf

end CStringVerified.CString.Arrays
