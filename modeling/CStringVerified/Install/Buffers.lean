import CStringVerified.Foundation.Buffer
import CStringVerified.Install.Core

/-!
# The functions of `install-core.c` that work on arrays

`install_rmkdir`, `base_name` and `libname` with the arrays, indices and counts of the C code. An access
outside of an array ends with `Crash.overrun`, and so does handing on an array that holds no nul.
-/

namespace CStringVerified.Install

open Foundation

variable {σ : Type}

/-- Go on with a result of the array operations, which there must be. -/
def inBounds {α : Type} : Option α → Run Crash σ α
  | some a => pure a
  | none => Run.fail .overrun

theorem inBounds_bind_apply {α β : Type} (a : α) (f : α → Run Crash σ β) (s : σ) :
    (inBounds (some a) >>= f) s = f a s := rfl

/-! ## `install_rmkdir` -/

/-- What `install_rmkdir` uses of the platform. -/
structure Callbacks (σ : Type) where
  makeDir : Text → Mode → Run Crash σ Int
  errno : σ → Errno
  setErrno : Errno → σ → σ

/-- The POSIX platform. -/
def posixCallbacks : Callbacks World := ⟨iposixMkdir, World.errno, fun e w => w.withErrno e⟩

/-- `strchr`: how far on the character is. -/
def strchr (s : Text) (c : Char) : Option Nat := s.findIdx? fun c' => c' = c

/-- The variables of the loop. `ptr` is how far on in `dir` it points; `last` is `end`. -/
structure RmkdirVars where
  pathBuf : Buffer installMaxPathlen
  len : Nat
  buflen : Nat
  bufpos : Nat
  last : Bool
  ptr : Nat

/-- One round of the loop. -/
def rmkdirRoundC (cb : Callbacks σ) (dir : Text) (perm : Mode) (v : RmkdirVars) :
    Run Crash σ (RmkdirVars ⊕ Int) := do
  if v.len = 0 then
    pure (.inr 1)
  else
    let ptr2 := strchr (dir.drop v.ptr) '/'
    let pos := ptr2.getD v.len
    let last := v.last || ptr2.isNone
    if v.buflen ≤ pos + 1 then
      pure (.inr 1)
    else
      let pathBuf ← inBounds (v.pathBuf.memcpy v.bufpos ((dir.drop v.ptr).take pos))
      let bufpos := v.bufpos + pos
      let buflen := v.buflen - pos
      let pathBuf ← inBounds (pathBuf.store bufpos '/')
      let bufpos := bufpos + 1
      let buflen := buflen - 1
      let pathBuf ← inBounds (pathBuf.store bufpos '\x00')
      let path ← inBounds pathBuf.cString
      let r ← cb.makeDir path perm
      let s ← Run.get
      if r = -1 ∧ (last ∨ (cb.errno s ≠ eexist ∧ cb.errno s ≠ eisdir)) then
        pure (.inr 0)
      else
        let ptr := v.ptr + pos
        let len := v.len - pos
        if len ≠ 0 then
          let ptr := ptr + 1
          let len := len - 1
          if len = 0 then pure (.inr 1) else pure (.inl ⟨pathBuf, len, buflen, bufpos, last, ptr⟩)
        else
          pure (.inl ⟨pathBuf, len, buflen, bufpos, last, ptr⟩)

/-- `install_rmkdir`, with what is in `path_buf` when it is called. -/
def installRmkdirC (cb : Callbacks σ) (pathBuf : Buffer installMaxPathlen) (dir : Text) (perm : Mode) :
    Run Crash σ Int := do
  let v : RmkdirVars := ⟨pathBuf, dir.length, installMaxPathlen, 0, false, 0⟩
  if installMaxPathlen ≤ v.len then
    Run.modify (cb.setErrno enametoolong)
    pure 0
  else
    Run.loop (rmkdirRoundC cb dir perm) (fun _ => Run.fail .diverges) (dir.length + 1) v

/-! ## `base_name` -/

/-- `s [i]`, where `s` is a string and ends with its nul. -/
def charAt (s : Text) (i : Nat) : Option Char := (s ++ ['\x00'])[i]?

/-- What `memcpy` reads from `s + i`. -/
def charsAt (s : Text) (i count : Nat) : Option Text :=
  if i + count ≤ s.length + 1 then some (((s ++ ['\x00']).drop i).take count) else none

/-- Go back from `t` over slashes, but not beyond the start of `dir`. -/
def skipSlashesC (dir : Text) : Nat → Run Crash σ Nat
  | 0 => pure 0
  | t + 1 => do
    let c ← inBounds (charAt dir (t + 1))
    if c = '/' then skipSlashesC dir t else pure (t + 1)

/-- `(t == s) && (t [0] == '/')`. -/
def onlySlashes (dir : Text) (t : Nat) : Run Crash σ Bool := do
  if t = 0 then
    let c ← inBounds (charAt dir t)
    pure (c = '/')
  else
    pure false

/-- Go back from `u` to the start of the component. -/
def skipNameC (dir : Text) : Nat → Run Crash σ Nat
  | 0 => pure 0
  | u + 1 => do
    let c ← inBounds (charAt dir u)
    if c ≠ '/' then skipNameC dir u else pure (u + 1)

/-- `base_name`, with what is in its `path_buf` when it is called: the result, and what is in `path_buf`
then. -/
def baseNameC (pathBuf : Buffer installMaxPathlen) (dir : Text) :
    Run Crash σ (Int × Buffer installMaxPathlen) := do
  let len := dir.length
  if len = 0 then
    let pathBuf ← inBounds (pathBuf.store 0 '.')
    let pathBuf ← inBounds (pathBuf.store 1 '\x00')
    pure (1, pathBuf)
  else if installMaxPathlen ≤ len then
    pure (0, pathBuf)
  else
    let t ← skipSlashesC dir (len - 1)
    if ← onlySlashes dir t then
      let pathBuf ← inBounds (pathBuf.store 0 '/')
      let pathBuf ← inBounds (pathBuf.store 1 '\x00')
      pure (1, pathBuf)
    else
      let u ← skipNameC dir t
      let nlen := t - u + 1
      let name ← inBounds (charsAt dir u nlen)
      let pathBuf ← inBounds (pathBuf.memcpy 0 name)
      let pathBuf ← inBounds (pathBuf.store nlen '\x00')
      pure (1, pathBuf)

/-! ## `libname` -/

/-- Look for the end of the first word in `read_buf`, from `s` on, `r` characters being left. -/
def cleanScan (readBuf : Buffer installMaxPathlen) (s : Nat) :
    Nat → Sys (Buffer installMaxPathlen × Nat)
  | 0 => pure (readBuf, s)
  | r + 1 => do
    let c ← inBounds (readBuf.load s)
    if isBlank c then
      let readBuf ← inBounds (readBuf.store s '\x00')
      pure (readBuf, s)
    else
      cleanScan readBuf (s + 1) r

/-- `libname`, with what is in `read_buf` when it is called: the result, and what is in `buf` then. -/
def libnameC (readBuf buf : Buffer installMaxPathlen) (name : Text) :
    Sys (Int × Buffer installMaxPathlen) := do
  match ← fopenRead name with
  | none => pure (0, buf)
  | some fp => do
    let text ← fread fp installMaxPathlen
    let readBuf ← inBounds (readBuf.memcpy 0 text)
    let r := text.length
    if r < installMaxPathlen ∧ (← ferror fp) then
      let _ ← fclose fp
      pure (0, buf)
    else
      let (readBuf, s) ← cleanScan readBuf 0 r
      let buf ← inBounds (buf.memcpy 0 (readBuf.cells.take s))
      let buf ← inBounds (buf.store s '\x00')
      let closed ← fclose fp
      pure (if closed ≠ 0 then 0 else 1, buf)

end CStringVerified.Install
