import CStringVerified.Foundation.Run
import CStringVerified.Foundation.Heap
import CStringVerified.Foundation.Arr

/-!
# The Ada types and checks the packages use

`Integer` is 32 bits wide, addresses and `size_t` are 64 bits wide, `Word_Size` is 8. Predefined
operations are checked (`-gnato`): an operation whose result does not fit raises `Constraint_Error`.
Reading or writing memory where nothing is mapped is erroneous and has an outcome of its own.
-/

namespace CStringVerified

open Foundation

/-- `Integer'Last`, which is also `Natural'Last`. -/
def integerLast : Nat := 2147483647

/-- `Integer'First`. -/
def integerFirst : Int := -2147483648

/-- `System.Storage_Elements.Storage_Offset'Last`. -/
def storageOffsetLast : Nat := 9223372036854775807

/-- The number of values of `Interfaces.C.size_t`. -/
def sizeTCount : Nat := 18446744073709551616

/-- The subtype `Natural`. -/
abbrev Natural := { n : Nat // n ≤ integerLast }

/-- `Character`, by its position. -/
abbrev Character := BitVec 8

/-- `Interfaces.C.char`. -/
abbrev CChar := Byte

/-- `Interfaces.C.nul`. -/
def nul : CChar := 0

/-- `Interfaces.C.To_C` of a character. -/
def toCChar (c : Character) : CChar := c

/-- `Interfaces.C.To_Ada` of a character. -/
def toAda (c : CChar) : Character := c

/-- `String`. -/
abbrev AdaString := Arr 1 integerLast Character

/-- `Ada.Strings.Unbounded.Unbounded_String`. -/
structure UnboundedString where
  /-- The characters of the string. -/
  chars : List Character
  length_le : chars.length ≤ integerLast
deriving DecidableEq

/-- `Interfaces.C.char_array`. -/
abbrev CharArray := Arr 0 18446744073709551615 CChar

/-- `Ada.Strings.Unbounded.To_Unbounded_String`. -/
def toUnboundedString (s : AdaString) : UnboundedString where
  chars := s.elems
  length_le := by
    have h1 := s.length_eq
    have h2 := s.bounds
    unfold integerLast at *
    omega

/-- `Ada.Strings.Unbounded.To_String`. -/
def UnboundedString.toString (s : UnboundedString) : AdaString where
  first := 1
  last := s.chars.length
  elems := s.chars
  length_eq := by simp
  bounds := by
    have := s.length_le
    omega

/-- `Interfaces.C.To_C` of a string, with the appended nul: an array from 0 on. -/
def toC (s : AdaString) : CharArray where
  first := 0
  last := s.elems.length
  elems := s.elems.map toCChar ++ [nul]
  length_eq := by simp
  bounds := by
    have h1 := s.length_eq
    have h2 := s.bounds
    unfold integerLast at *
    omega

/-! ## Exceptions and checks -/

/-- Why `Constraint_Error` was raised: by a raise statement with a message, or by a check. -/
inductive Reason
  | message (text : String)
  | accessCheck
  | rangeCheck
  | overflowCheck
  | indexCheck
deriving DecidableEq, Repr

/-- The exceptions the packages raise or let pass. -/
inductive Exn
  | constraintError (reason : Reason)
  | storageError
  | lengthError
  | nullTerminationError
deriving DecidableEq, Repr

/-- How a call ends other than by returning. -/
inductive Fail
  | raised (e : Exn)
  | erroneous (a : Address)
deriving DecidableEq

/-- Ada code running over the heap. -/
abbrev Ada := Run Fail Heap

/-- A raise statement. -/
def raise {α : Type} (e : Exn) : Ada α := Run.fail (.raised e)

/-- A failed check. -/
def failCheck {α : Type} (r : Reason) : Ada α := raise (.constraintError r)

/-- The call ended with `Constraint_Error`. -/
def RaisesConstraintError {α : Type} (r : Except Fail α) : Prop :=
  ∃ reason, r = .error (.raised (.constraintError reason))

/-- The call did not touch memory that is not there. -/
def NotErroneous {α : Type} (r : Except Fail α) : Prop := ∀ a, r ≠ .error (.erroneous a)

/-- An `Integer` result. -/
def checkInteger (n : Int) : Ada Int :=
  if integerFirst ≤ n ∧ n ≤ integerLast then pure n else failCheck .overflowCheck

/-- `+` on `Integer`. -/
def addInteger (a b : Int) : Ada Int := checkInteger (a + b)

/-- `-` on `Integer`. -/
def subInteger (a b : Int) : Ada Int := checkInteger (a - b)

/-- `*` on `Integer`. -/
def mulInteger (a b : Int) : Ada Int := checkInteger (a * b)

/-- `Integer (n)` for a `size_t`. -/
def toInteger (n : Nat) : Ada Natural :=
  if h : n ≤ integerLast then pure ⟨n, h⟩ else failCheck .rangeCheck

/-- `n + 1` on `Natural`. -/
def succNatural (n : Natural) : Ada Natural :=
  if h : n.val + 1 ≤ integerLast then pure ⟨n.val + 1, h⟩ else failCheck .overflowCheck

/-- `Storage_Offset (n)` for a `size_t`. -/
def toStorageOffset (n : Nat) : Ada Nat :=
  if n ≤ storageOffsetLast then pure n else failCheck .rangeCheck

/-- A null exclusion. -/
def checkNotNull (a : Address) : Ada Unit :=
  if a = 0 then failCheck .accessCheck else pure ()

/-- `p.all` for an access to a character. -/
def readByte (a : Address) : Ada Byte := do
  checkNotNull a
  let h ← Run.get
  match h.mem.byte a with
  | some b => pure b
  | none => Run.fail (.erroneous a)

/-- `p.all` for an access to an access value. -/
def readWord (a : Address) : Ada Address := do
  checkNotNull a
  let h ← Run.get
  match h.mem.word a with
  | some w => pure w
  | none => Run.fail (.erroneous a)

/-- The bytes of a region that are written must all be mapped. -/
def writeBytes (a : Address) (bs : List Byte) : Ada Unit := do
  checkNotNull a
  let h ← Run.get
  if (List.range bs.length).all fun k => (h.mem.byte (a.offset k)).isSome then
    Run.set (h.overwrite a bs)
  else
    Run.fail (.erroneous a)

/-- An allocator: a block of `n` bytes, not initialised. -/
def new (A : Allocator) (n : Nat) : Ada Block := do
  let h ← Run.get
  match A.place h n with
  | some b => do
    Run.set (h.addBlock b (A.fill h))
    pure b
  | none => raise .storageError

section Lemmas

variable {h : Heap} {a : Address}

@[simp] theorem raise_apply {α : Type} (e : Exn) : (raise e : Ada α) h = (.error (.raised e), h) :=
  rfl

@[simp] theorem failCheck_apply {α : Type} (r : Reason) :
    (failCheck r : Ada α) h = (.error (.raised (.constraintError r)), h) := rfl

theorem checkNotNull_eq (ha : a ≠ 0) : checkNotNull a h = (.ok (), h) := by
  rw [checkNotNull, if_neg ha, Run.pure_apply]

theorem readByte_eq {b : Byte} (hb : h.mem.byte a = some b) : readByte a h = (.ok b, h) := by
  unfold readByte
  rw [Run.bind_ok (checkNotNull_eq (Memory.ne_null_of_mapped hb)), Run.get_bind_apply]
  simp only [hb, Run.pure_apply]

theorem readWord_eq {w : BitVec 64} (hw : h.mem.word a = some w) : readWord a h = (.ok w, h) := by
  have ha : a ≠ 0 := by
    obtain ⟨b, hb⟩ := Memory.mapped_of_word hw (k := 0) (by omega)
    rw [Address.offset_zero] at hb
    exact Memory.ne_null_of_mapped hb
  unfold readWord
  rw [Run.bind_ok (checkNotNull_eq ha), Run.get_bind_apply]
  simp only [hw, Run.pure_apply]

theorem writeBytes_eq {bs : List Byte} (ha : a ≠ 0)
    (hmap : ∀ k, k < bs.length → (h.mem.byte (a.offset k)).isSome) :
    writeBytes a bs h = (.ok (), h.overwrite a bs) := by
  unfold writeBytes
  rw [Run.bind_ok (checkNotNull_eq ha), Run.get_bind_apply, if_pos (by simpa using hmap),
    Run.set_apply]

theorem storageOffset_of_integer {n : Nat} (hn : n ≤ integerLast) : n ≤ storageOffsetLast :=
  Nat.le_trans hn (by decide)

theorem toStorageOffset_eq {n : Nat} (hn : n ≤ storageOffsetLast) :
    toStorageOffset n h = (.ok n, h) := by
  rw [toStorageOffset, if_pos hn, Run.pure_apply]

theorem toStorageOffset_over {n : Nat} (hn : storageOffsetLast < n) :
    toStorageOffset n h = (.error (.raised (.constraintError .rangeCheck)), h) := by
  rw [toStorageOffset, if_neg (by omega), failCheck_apply]

theorem toInteger_eq {n : Nat} (hn : n ≤ integerLast) : toInteger n h = (.ok ⟨n, hn⟩, h) := by
  rw [toInteger, dif_pos hn, Run.pure_apply]

theorem toInteger_over {n : Nat} (hn : integerLast < n) :
    toInteger n h = (.error (.raised (.constraintError .rangeCheck)), h) := by
  rw [toInteger, dif_neg (by omega), failCheck_apply]

theorem succNatural_eq {n : Natural} (hn : n.val + 1 ≤ integerLast) :
    succNatural n h = (.ok ⟨n.val + 1, hn⟩, h) := by
  rw [succNatural, dif_pos hn, Run.pure_apply]

theorem checkInteger_eq {n : Int} (hn : integerFirst ≤ n ∧ n ≤ integerLast) :
    checkInteger n h = (.ok n, h) := by
  rw [checkInteger, if_pos hn, Run.pure_apply]

theorem checkInteger_over {n : Int} (hn : (integerLast : Int) < n) :
    checkInteger n h = (.error (.raised (.constraintError .overflowCheck)), h) := by
  rw [checkInteger, if_neg (by omega), failCheck_apply]

/-- A request either is refused, or gets a block away from all live ones. -/
theorem new_spec (A : Allocator) (h : Heap) (n : Nat) :
    (A.place h n = none ∧ new A n h = (.error (.raised .storageError), h)) ∨
      ∃ b, new A n h = (.ok b, h.addBlock b (A.fill h)) ∧ b.size = n ∧
        ∀ c ∈ h.live, b.Disjoint c := by
  unfold new
  rw [Run.get_bind_apply]
  match hp : A.place h n with
  | none => exact Or.inl ⟨rfl, rfl⟩
  | some b => exact Or.inr ⟨b, rfl, A.size_eq hp, A.fresh hp⟩

end Lemmas

end CStringVerified
