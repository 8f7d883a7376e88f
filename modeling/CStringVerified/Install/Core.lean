import CStringVerified.Install.Types

/-!
# The building blocks of `install-core.c`

Copying a file, looking up owner and group, checking an installed file, making directories, and the
functions on names. A `goto ERR` of `install_file_copy` is a message handed to the part after the
label.
-/

namespace CStringVerified.Install

open Foundation

/-! ## `install_file_copy` -/

/-- Go on if the condition holds, else leave with the message. -/
def step (condition : Sys Bool) (message : String) (next : Sys (Option String)) :
    Sys (Option String) := do
  if ← condition then next else pure (some message)

/-- One round of the loop that writes what was read. -/
def writeRound (fdDst : Handle) (text : Text) : Sys (Text ⊕ Option String) := do
  if text = [] then
    pure (.inr none)
  else
    let w ← fwrite text fdDst
    if w = 0 then
      if ← feof fdDst then
        pure (.inr none)
      else if ← ferror fdDst then
        pure (.inr (some "write error"))
      else
        pure (.inl text)
    else
      pure (.inl (text.drop w))

/-- One round of the copy loop. -/
def copyRound (fdSrc fdDst : Handle) (_ : Unit) : Sys (Unit ⊕ Option String) := do
  let r ← fread fdSrc 65536
  if r = [] then
    if ← feof fdSrc then
      pure (.inr none)
    else if ← ferror fdSrc then
      pure (.inr (some "read error"))
    else
      pure (.inl ())
  else
    match ← Run.loop (writeRound fdDst) (fun _ => crash .diverges) (r.length + 1) r with
    | none => pure (.inl ())
    | some message => pure (.inr (some message))

/-- The number of characters in the file of a stream: what bounds the rounds of the copy loop. -/
def fileLength (h : Handle) : Sys Nat := do
  let s ← stream h
  let w ← Run.get
  pure ((w.os.fs.inode s.ino).elim 0 fun n => n.data.length)

/-- The copy loop. -/
def copyLoop (fdSrc fdDst : Handle) : Sys (Option String) := do
  let n ← fileLength fdSrc
  Run.loop (copyRound fdSrc fdDst) (fun _ => crash .diverges) (n + 2) ()

/-- Hand the file over to its owner, if it is not the current user's. -/
def copyOwnership (dstTmp : Text) (processUid uid gid : Id) (next : Sys (Option String)) :
    Sys (Option String) := do
  let canChangeOwner ← iposixCanSetOwnership processUid
  let wantChangeOwner := iposixUidCompare processUid uid = 0
  if canChangeOwner = 0 ∧ wantChangeOwner then
    pure (some "current user ID is restricted from setting file ownership")
  else if canChangeOwner = 1 ∧ wantChangeOwner then
    step (return (← iposixFileOwnershipSet dstTmp uid gid) ≠ 0) "could not set file ownership" next
  else
    next

/-- What happens after both files are open, up to the `rename`. -/
def copySteps (dst dstTmp : Text) (processUid uid gid : Id) (mode : Mode) (fdSrc fdDst : Handle) :
    Sys (Option String) := do
  match ← copyLoop fdSrc fdDst with
  | some message => pure (some message)
  | none =>
    step (return (← fflush fdDst) = 0) "write error" <|
    step (if iposixSupportsPosixModes = 1 then return (← iposixFileModeSet dstTmp mode) ≠ 0
        else pure true)
      "could not set file permissions" <|
    copyOwnership dstTmp processUid uid gid <|
    step (return (← fclose fdDst) ≠ -1) "could not close destination file" <|
    step (return (← fclose fdSrc) ≠ -1) "could not close source file" <|
    step (return (← rename dstTmp dst) ≠ -1) "could not rename temporary file" <|
    pure none

/-- `(void) fclose (fd)`, if the stream was opened. -/
def closeIfOpen : Option Handle → Sys Unit
  | none => pure ()
  | some h => do
    let _ ← fclose h
    pure ()

/-- The part after `ERR`. -/
def copyErr (dstTmp : Text) (fdSrc fdDst : Option Handle) : Sys Unit := do
  closeIfOpen fdDst
  closeIfOpen fdSrc
  let _ ← unlink dstTmp
  pure ()

/-- `install_file_copy`. -/
def installFileCopy (src dst : Text) (uid gid : Id) (mode : Mode) : Sys Status := do
  match ← iposixUidCurrent with
  | none => statusError "could not fetch current user ID"
  | some processUid => do
    assert (iposixUidValid processUid)
    match snprintf installMaxPathlen (dst ++ ['.', 't', 'm', 'p']) with
    | none => statusError "could not format string"
    | some dstTmp => do
      match ← fopenRead src with
      | none => statusError "could not open source file"
      | some fdSrc => do
        match ← fopenWrite dstTmp with
        | none => do
          let status ← statusError "could not open destination file"
          copyErr dstTmp (some fdSrc) none
          pure status
        | some fdDst => do
          match ← copySteps dst dstTmp processUid uid gid mode fdSrc fdDst with
          | none => statusOk
          | some message => do
            let status ← statusError message
            copyErr dstTmp (some fdSrc) (some fdDst)
            pure status

/-! ## `install_uidgid_lookup` -/

/-- `install_uidgid_lookup`: the status, and the two IDs. -/
def installUidgidLookup (user group : Option Text) : Sys (Status × Id × Id) := do
  let uid ← match user with
    | some user => iposixUidLookup user
    | none => iposixUidCurrent
  match uid with
  | none => do
    let status ← statusError
      (if user.isSome then "could not lookup user ID" else "could not fetch current user ID")
    pure (status, nullId, nullId)
  | some uid => do
    let gid ← match group with
      | some group => iposixGidLookup group
      | none => iposixGidCurrent
    match gid with
    | none => do
      let status ← statusError
        (if group.isSome then "could not lookup group ID" else "could not fetch current group ID")
      pure (status, uid, nullId)
    | some gid => do
      assert (iposixUidValid uid)
      assert (iposixGidValid gid)
      let status ← statusOk
      pure (status, uid, gid)

/-! ## `install_file_check` -/

/-- The text of `%o`. -/
def octal (m : Mode) : String := String.ofList (Nat.toDigits 8 m.toNat)

/-- The size of a file, if a file is wanted. -/
def wantedSize (typeWant : FileType) (file : Text) : Sys (Option Nat) :=
  if typeWant = .file then iposixFileSize file else pure (some 0)

/-- The checks of the ownership. -/
def checkOwnership (uidWant gidWant : Id) (fileDst : Text) : Sys Status := do
  match ← iposixFileOwnershipGet fileDst with
  | none => statusError "could not determine destination file ownership"
  | some (uidGot, gidGot) =>
    if iposixUidCompare uidWant uidGot = 0 then
      statusError ("uid " ++ iposixUidFormat uidGot ++ " not " ++ iposixUidFormat uidWant)
    else if iposixGidCompare gidWant gidGot = 0 then
      statusError ("gid " ++ iposixGidFormat gidGot ++ " not " ++ iposixGidFormat gidWant)
    else
      statusOk

/-- The check of the permissions, and what follows. -/
def checkMode (modeWant : Mode) (uidWant gidWant : Id) (fileDst : Text) : Sys Status := do
  if iposixSupportsPosixModes = 1 then
    match ← iposixFileModeGet fileDst with
    | none => statusError "could not determine destination file mode"
    | some modeGot =>
      if modeGot ≠ modeWant then
        statusError ("mode " ++ octal modeGot ++ " not " ++ octal modeWant)
      else
        checkOwnership uidWant gidWant fileDst
  else
    checkOwnership uidWant gidWant fileDst

/-- The check of the size, and what follows. -/
def checkSize (typeWant : FileType) (sizeWant : Nat) (modeWant : Mode) (uidWant gidWant : Id)
    (fileDst : Text) : Sys Status := do
  match ← wantedSize typeWant fileDst with
  | none => statusError "could not determine destination file size"
  | some sizeGot =>
    if sizeWant ≠ sizeGot then
      statusError ("size " ++ toString sizeGot ++ " not " ++ toString sizeWant)
    else
      checkMode modeWant uidWant gidWant fileDst

/-- `install_file_check`. The type is compared only where the platform has no symbolic links. -/
def installFileCheck (fileSrc : Text) (modeWant : Mode) (typeWant : FileType)
    (uidWant gidWant : Id) (fileDst : Text) : Sys Status := do
  iposixErrorReset
  let noFollow := typeWant = .symlink
  match installFileTypeNameLookup typeWant with
  | none => statusError "unknown source filetype"
  | some typeWantName => do
    match ← wantedSize typeWant fileSrc with
    | none => statusError "could not determine source file size"
    | some sizeWant => do
      match ← installFileType fileDst noFollow with
      | none => statusError "could not determine destination file type"
      | some typeGot => do
        match installFileTypeNameLookup typeGot with
        | none => statusError "unknown destination file type"
        | some typeGotName =>
          if (iposixSupportsSymlinks = 0 ∧ typeWant ≠ .symlink) ∧ typeWant ≠ typeGot then
            statusError ("filetype " ++ typeGotName ++ " not " ++ typeWantName)
          else
            checkSize typeWant sizeWant modeWant uidWant gidWant fileDst

/-! ## `install_rmkdir` -/

/-- One round of the loop, on what is in `path_buf` and what is left of the path. -/
def rmkdirRound (perm : Mode) (state : Text × Text) : Sys ((Text × Text) ⊕ Int) := do
  let pathBuf := state.1
  let ptr := state.2
  let buflen := installMaxPathlen - pathBuf.length
  if ptr = [] then
    pure (.inr 1)
  else
    let pos := (ptr.takeWhile fun c => c ≠ '/').length
    let last : Bool := '/' ∉ ptr
    if buflen ≤ pos + 1 then
      pure (.inr 1)
    else
      let pathBuf := pathBuf ++ ptr.take pos ++ ['/']
      let r ← iposixMkdir pathBuf perm
      let w ← Run.get
      if r = -1 ∧ (last ∨ (w.errno ≠ eexist ∧ w.errno ≠ eisdir)) then
        pure (.inr 0)
      else
        match ptr.drop pos with
        | [] => pure (.inl (pathBuf, []))
        | [_] => pure (.inr 1)
        | _ :: ptr => pure (.inl (pathBuf, ptr))

/-- `install_rmkdir`. -/
def installRmkdir (dir : Text) (perm : Mode) : Sys Int := do
  if installMaxPathlen ≤ dir.length then
    Run.modify fun w => w.withErrno enametoolong
    pure 0
  else
    Run.loop (rmkdirRound perm) (fun _ => crash .diverges) (dir.length + 1) ([], dir)

/-! ## Names -/

/-- Go back from `t` over slashes, but not beyond the start. -/
def skipSlashes (dir : Text) : Nat → Nat
  | 0 => 0
  | t + 1 => if dir[t + 1]? = some '/' then skipSlashes dir t else t + 1

/-- Go back from `u` to the start of the component. -/
def skipName (dir : Text) : Nat → Nat
  | 0 => 0
  | u + 1 => if dir[u]? ≠ some '/' then skipName dir u else u + 1

/-- `base_name`. -/
def baseName (dir : Text) : Option Text :=
  if dir = [] then
    some ['.']
  else if installMaxPathlen ≤ dir.length then
    none
  else
    let t := skipSlashes dir (dir.length - 1)
    if t = 0 ∧ dir[t]? = some '/' then
      some ['/']
    else
      let u := skipName dir t
      some ((dir.drop u).take (t - u + 1))

/-- `str_ends`. -/
def strEnds (s ending : Text) : Bool :=
  let elen := min ending.length s.length
  s.drop (s.length - elen) = ending

/-- The characters `libname` stops at. -/
def isBlank (c : Char) : Bool := c = ' ' || c = '\t' || c = '\n' || c = '\r'

/-- `libname`: the C string that is in the buffer then. The buffer has room for
`INSTALL_MAX_PATHLEN` characters, the last one being the nul. -/
def libname (name : Text) : Sys (Option Text) := do
  match ← fopenRead name with
  | none => pure none
  | some fp => do
    let readBuf ← fread fp installMaxPathlen
    if readBuf.length < installMaxPathlen ∧ (← ferror fp) then
      let _ ← fclose fp
      pure none
    else
      let token := readBuf.takeWhile fun c => !isBlank c
      if installMaxPathlen ≤ token.length then
        crash .overrun
      else
        let closed ← fclose fp
        pure (if closed ≠ 0 then none else some (token.takeWhile fun c => c ≠ '\x00'))

end CStringVerified.Install
