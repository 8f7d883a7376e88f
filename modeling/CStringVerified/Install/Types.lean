import CStringVerified.Install.World

/-!
# The types of `install.h`, and the POSIX platform

A pointer that may be `NULL` is an option. A status keeps the value of `errno` whose text the C code
keeps.
-/

namespace CStringVerified.Install

open Foundation

def installNoFlags : BitVec 32 := 0
def installDryrun : BitVec 32 := 1

inductive InstallOp
  | instCopy
  | instCopyExec
  | instSymlink
  | instMkdir
  | instLiblink
deriving DecidableEq, Repr

inductive StatusCode
  | ok
  | error
  | fatal
deriving DecidableEq, Repr

/-- `struct install_status_t`. -/
structure Status where
  status : StatusCode
  message : Option String
  errorMessage : Option Errno
deriving DecidableEq

/-- `INSTALL_STATUS_INIT`. -/
def installStatusInit : Status := ⟨.fatal, none, none⟩

/-- `struct install_item`. -/
structure Item where
  op : InstallOp
  src : Option Text
  dst : Option Text
  dir : Option Text
  owner : Option Text
  group : Option Text
  perm : BitVec 32
deriving DecidableEq

def installMaxPathlen : Nat := 1024

/-- The value of `INSTALL_NULL_UID` and `INSTALL_NULL_GID`. -/
def nullId : Id := -1

def intMax : Nat := 2147483647

/-- `snprintf` into a buffer: what the buffer holds then, or nothing if the result is negative. -/
def snprintf (size : Nat) (text : Text) : Option Text :=
  if text.length ≤ intMax then some (text.take (size - 1)) else none

/-- `install_status_assign`. -/
def installStatusAssign (code : StatusCode) (message : Option String) : Sys Status := do
  let w ← Run.get
  pure ⟨code, message, some w.errno⟩

def statusOk : Sys Status := installStatusAssign .ok none

def statusError (message : String) : Sys Status := installStatusAssign .error (some message)

/-! ## File types -/

inductive FileType
  | file
  | characterSpecial
  | directory
  | symlink
  | socket
  | fifo
deriving DecidableEq, Repr

/-- An entry of `file_type_lookups`. -/
structure FileTypeLookup where
  check : Mode → Bool
  name : String
  type : FileType

def fileTypeLookups : List FileTypeLookup :=
  [⟨sIsreg, "file", .file⟩,
    ⟨sIschr, "character_special", .characterSpecial⟩,
    ⟨sIsdir, "directory", .directory⟩,
    ⟨sIslnk, "symlink", .symlink⟩,
    ⟨sIssock, "socket", .socket⟩,
    ⟨sIsfifo, "fifo", .fifo⟩]

/-- The first entry for an `st_mode`. -/
def fileTypeOf (m : Mode) : Option FileType :=
  (fileTypeLookups.find? fun e => e.check m).map FileTypeLookup.type

/-- `install_file_type`. -/
def installFileType (file : Text) (nofollow : Bool) : Sys (Option FileType) := do
  let sb ← if nofollow then lstat file else stat file
  pure (sb.bind fun sb => fileTypeOf sb.stMode)

/-- `install_file_type_name_lookup`. -/
def installFileTypeNameLookup (type : FileType) : Option String :=
  (fileTypeLookups.find? fun e => e.type = type).map FileTypeLookup.name

/-! ## The platform -/

/-- `iposix_error_reset`. -/
def iposixErrorReset : Sys Unit := Run.modify fun w => w.withErrno 0

def iposixUidCompare (a b : Id) : Int := if a = b then 1 else 0

def iposixGidCompare (a b : Id) : Int := if a = b then 1 else 0

def iposixUidValid (uid : Id) : Bool := uid ≠ -1

def iposixGidValid (gid : Id) : Bool := gid ≠ -1

/-- The text of `snprintf (buffer, INSTALL_FMT_UID, "%d", uid.value)`. -/
def iposixUidFormat (uid : Id) : String := toString uid.toInt

def iposixGidFormat (gid : Id) : String := toString gid.toInt

def iposixUidCurrent : Sys (Option Id) := do
  let w ← Run.get
  pure (some w.env.uid)

def iposixGidCurrent : Sys (Option Id) := do
  let w ← Run.get
  pure (some w.env.gid)

def iposixUidLookup (user : Text) : Sys (Option Id) := do
  let w ← Run.get
  pure (w.env.passwd user)

def iposixGidLookup (group : Text) : Sys (Option Id) := do
  let w ← Run.get
  pure (w.env.group group)

/-- `iposix_mkdir`: 1 for success, 0 for failure. -/
def iposixMkdir (dir : Text) (mode : Mode) : Sys Int := do
  let r ← mkdir dir mode
  pure (if r = 0 then 1 else 0)

def iposixFileModeSet (file : Text) (mode : Mode) : Sys Int := do
  let r ← chmod file mode
  pure (if r = 0 then 1 else 0)

/-- `iposix_file_mode_get`. -/
def iposixFileModeGet (file : Text) : Sys (Option Mode) := do
  let sb ← stat file
  pure (sb.map fun sb => sb.stMode &&& 0o755)

def iposixFileOwnershipSet (file : Text) (uid gid : Id) : Sys Int := do
  let r ← chown file uid gid
  pure (if r = -1 then 0 else 1)

def iposixFileOwnershipGet (file : Text) : Sys (Option (Id × Id)) := do
  let sb ← stat file
  pure (sb.map fun sb => (sb.stUid, sb.stGid))

def iposixFileSize (file : Text) : Sys (Option Nat) := do
  let sb ← stat file
  pure (sb.map Node.stSize)

def iposixFileLink (src dst : Text) : Sys Int := do
  let r ← symlink src dst
  pure (if r = -1 then 0 else 1)

/-- `iposix_can_set_ownership`: only the superuser can. -/
def iposixCanSetOwnership (uid : Id) : Sys Int := do
  assert (uid ≠ -1)
  pure (if uid = 0 then 1 else 0)

def iposixSupportsSymlinks : Int := 1

def iposixSupportsPosixModes : Int := 1

/-- `iposix_init`. -/
def iposixInit : Sys Status := do
  Run.modify fun w => { w with globals := { w.globals with execSuffix := [] } }
  pure { installStatusInit with status := .ok }

end CStringVerified.Install
