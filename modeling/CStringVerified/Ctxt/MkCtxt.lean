import CStringVerified.Foundation.Buffer
import CStringVerified.Foundation.FileSystem
import CStringVerified.Foundation.Run

/-!
# `mk-ctxt`

The C program in `mk-mk-ctxt`, which prints the file `stdin` as the initialiser of an array of
characters. The values that go to `printf` are kept, not the text they become. An access outside of
`buf` ends with `Crash.overrun`.
-/

namespace CStringVerified.Ctxt

open Foundation

/-- How a run ends abruptly. -/
inductive Crash
  | overrun
  | diverges
deriving DecidableEq, Repr

abbrev Byte := BitVec 8

/-- `'\n'`. -/
def newline : Byte := 10

/-- `sizeof (buf)`. -/
def bufSize : Nat := 1024

/-- What a `read` delivers. -/
structure Chunk where
  bytes : List Byte
  ne_nil : bytes ≠ []
  fits : bytes.length ≤ bufSize

/-- A call of `printf`. -/
inductive Printed
  /-- `"char %s[] = {\n"` -/
  | opening (name : Text)
  /-- `"0x%.2x, "` -/
  | element (ch : BitVec 32)
  /-- `"\n"` -/
  | lineBreak
  /-- `"0x00,\n};\n"` -/
  | closing
  /-- `"const unsigned int %s_len = %u;\n"` -/
  | length (name : Text) (bytes : Nat)
deriving DecidableEq

/-- `stdin` is what the calls of `read` deliver before the end of the file; a `none` fails. -/
structure State where
  stdin : List (Option Chunk)
  stdout : List Printed
  flushes : Bool
  buf : CArray Byte bufSize
  bytes : Nat
  line : Nat

/-- The program when it starts. -/
def start (chunks : List Chunk) (flushes : Bool) : State where
  stdin := chunks.map some
  stdout := []
  flushes := flushes
  buf := .fill bufSize 0
  bytes := 0
  line := 0

/-- The `int` that a `char` becomes. -/
def toInt (charSigned : Bool) (c : Byte) : BitVec 32 :=
  if charSigned then c.signExtend 32 else c.setWidth 32

def printf (call : Printed) : Run Crash State Unit :=
  Run.modify fun s => { s with stdout := s.stdout ++ [call] }

/-- `read (0, buf, sizeof (buf))`, with no result for -1. -/
def read : Run Crash State (Option Nat) := do
  let s ← Run.get
  match s.stdin with
  | [] => pure (some 0)
  | none :: stdin => do
    Run.set { s with stdin := stdin }
    pure none
  | some chunk :: stdin => do
    let buf ← Run.orFail .overrun (s.buf.memcpy 0 chunk.bytes)
    Run.set { s with stdin := stdin, buf := buf }
    pure (some chunk.bytes.length)

/-- The loop that goes back from `buf [i]`, but not to `buf [0]`, for a newline to replace. -/
def stripNewline : Nat → Run Crash State Unit
  | 0 => pure ()
  | i + 1 => do
    let s ← Run.get
    let c ← Run.orFail .overrun (s.buf.load (i + 1))
    if c = newline then
      let buf ← Run.orFail .overrun (s.buf.store (i + 1) 0)
      Run.set { s with buf := buf }
    else
      stripNewline i

/-- The loop that prints from `buf [num]` on, so many characters being left. -/
def printBytes (charSigned : Bool) (num : Nat) : Nat → Run Crash State Unit
  | 0 => pure ()
  | left + 1 => do
    let s ← Run.get
    let c ← Run.orFail .overrun (s.buf.load num)
    printf (.element (toInt charSigned c))
    Run.modify fun s => { s with bytes := s.bytes + 1, line := s.line + 6 }
    if 72 ≤ s.line + 6 then
      Run.modify fun s => { s with line := 0 }
      printf .lineBreak
    printBytes charSigned (num + 1) left

/-- One round of the main loop. -/
def round (charSigned : Bool) (done : Bool) : Run Crash State (Bool ⊕ Option Int) := do
  if done then
    pure (.inr none)
  else
    match ← read with
    | none => pure (.inr (some 112))
    | some r => do
      if r ≠ bufSize then
        stripNewline r
      printBytes charSigned 0 r
      pure (.inl (r = 0))

/-- `main`. -/
def main (charSigned : Bool) (argv : List Text) : Run Crash State Int :=
  match argv with
  | [_, name] => do
    printf (.opening name)
    let s ← Run.get
    match ← Run.loop (round charSigned) (fun _ => Run.fail .diverges) (s.stdin.length + 2) false with
    | some code => pure code
    | none => do
      printf .closing
      let s ← Run.get
      printf (.length name s.bytes)
      pure (if s.flushes then 0 else 111)
  | _ => pure 100

/-- The elements of the array. -/
def elements (stdout : List Printed) : List (BitVec 32) :=
  stdout.filterMap fun
    | .element ch => some ch
    | .closing => some 0
    | _ => none

end CStringVerified.Ctxt
