import CStringVerified.Install.Core

/-!
# The operators and translations of `install-core.c`

A translation returns the item with its names replaced, or the message of its error. The operators
run on a translated item. The texts that go to the info callback are left out, with the sizes that
are looked up for them being looked up all the same.
-/

namespace CStringVerified.Install

open Foundation

/-! ## Install operators -/

/-- What follows a successful `install_uidgid_lookup`. -/
def withIds (item : Item) (next : Id → Id → Sys Status) : Sys Status := do
  let (status, uid, gid) ← installUidgidLookup item.owner item.group
  if status.status ≠ .ok then pure status else next uid gid

/-- The flags do not ask for a dry run. -/
def notDryrun (flags : BitVec 32) : Bool := flags &&& installDryrun = installNoFlags

/-- `inst_copy`. -/
def instCopy (item : Item) (flags : BitVec 32) : Sys Status :=
  withIds item fun uid gid => do
    let src ← deref item.src
    let _ ← iposixFileSize src
    if notDryrun flags then
      let dst ← deref item.dst
      let status ← installFileCopy src dst uid gid item.perm
      if status.status ≠ .ok then pure status else statusOk
    else
      statusOk

/-- Make the link, unless it is a dry run. -/
def makeLink (item : Item) (flags : BitVec 32) : Sys Int := do
  if notDryrun flags then
    let src ← deref item.src
    let dst ← deref item.dst
    iposixFileLink src dst
  else
    pure 1

/-- `inst_link`. -/
def instLink (item : Item) (flags : BitVec 32) : Sys Status := do
  match ← getcwd installMaxPathlen with
  | none => statusError "could not get current working directory"
  | some pathBuf => do
    let dir ← deref item.dir
    let r ← chdir dir
    if r = -1 then
      statusError "could not change directory"
    else
      let linked ← makeLink item flags
      let restored ← chdir pathBuf
      if restored = -1 then
        statusError "could not restore current working directory"
      else if linked = 0 then
        statusError "could not make symbolic link"
      else
        statusOk

/-- Hand the directory over to its owner, if it is not the current user's. -/
def mkdirOwnership (dir : Text) (processUid uid gid : Id) : Sys Status := do
  if iposixUidCompare processUid uid = 0 then
    let canSet ← iposixCanSetOwnership processUid
    if canSet = 1 then
      let r ← iposixFileOwnershipSet dir uid gid
      if r = 0 then statusError "could not set file ownership" else statusOk
    else
      statusError "current user ID is restricted from setting file ownership"
  else
    statusOk

/-- `inst_mkdir`. -/
def instMkdir (item : Item) (flags : BitVec 32) : Sys Status :=
  withIds item fun uid gid => do
    match ← iposixUidCurrent with
    | none => statusError "could not fetch current user ID"
    | some processUid =>
      if notDryrun flags then
        let dir ← deref item.dir
        let r ← installRmkdir dir item.perm
        if r = 0 then
          statusError "could not create directory"
        else
          mkdirOwnership dir processUid uid gid
      else
        statusOk

def instLiblink (item : Item) (flags : BitVec 32) : Sys Status := instLink item flags

/-! ## Translations -/

/-- A translation that went wrong. -/
def tranError (message : String) : Sys (Except String Item) := pure (.error message)

/-- The real name of a library, if the name is one of a virtual library file. -/
def realName (name : Text) : Sys (Option Text) :=
  if strEnds name ['.', 'v', 'l', 'b'] then libname name else pure (some name)

/-- `ntran_copy`. -/
def ntranCopy (item : Item) : Sys (Except String Item) := do
  match item.src, item.dir with
  | none, _ => tranError "source file undefined"
  | some _, none => tranError "directory undefined"
  | some src, some dir => do
    let dst := item.dst.getD src
    match ← realName src with
    | none => tranError "could not build library name"
    | some srcName => do
      match ← realName dst with
      | none => tranError "could not build library name"
      | some dstName =>
        match baseName dstName with
        | none => tranError "invalid destination path"
        | some base => do
          let w ← Run.get
          let path := match w.globals.fakeRoot with
            | some root => joinPath root (joinPath dir base)
            | none => joinPath dir base
          match snprintf installMaxPathlen path with
          | none => tranError "could not format destination path"
          | some dstTmp => pure (.ok { item with src := some srcName, dst := some dstTmp })

/-- `ntran_copy_exec`. -/
def ntranCopyExec (item : Item) : Sys (Except String Item) := do
  match ← ntranCopy item with
  | .error message => tranError message
  | .ok item => do
    let src ← deref item.src
    let dst ← deref item.dst
    let w ← Run.get
    match snprintf installMaxPathlen (src ++ w.globals.execSuffix) with
    | none => tranError "could not format source path"
    | some srcName =>
      match snprintf installMaxPathlen (dst ++ w.globals.execSuffix) with
      | none => tranError "could not format destination path"
      | some dstName => pure (.ok { item with src := some srcName, dst := some dstName })

/-- The directory of an item, prefixed with the fake root if there is one. -/
def rootedDir (dir : Text) : Sys (Option Text) := do
  let w ← Run.get
  match w.globals.fakeRoot with
  | some root => pure (snprintf installMaxPathlen (joinPath root dir))
  | none => pure (some dir)

/-- The checks and the directory that `ntran_link` and `ntran_liblink` begin with. -/
def linkPrefix (item : Item) (next : Text → Text → Text → Sys (Except String Item)) :
    Sys (Except String Item) := do
  match item.src, item.dir, item.dst with
  | none, _, _ => tranError "source file undefined"
  | some _, none, _ => tranError "directory undefined"
  | some _, some _, none => tranError "destination file undefined"
  | some src, some dir, some dst => do
    match ← rootedDir dir with
    | none => tranError "could not format destination path"
    | some dirName => next src dst dirName

/-- `ntran_link`. -/
def ntranLink (item : Item) : Sys (Except String Item) :=
  linkPrefix item fun _ _ dirName => pure (.ok { item with dir := some dirName })

/-- The source of a library link: the base name of the real name of a virtual library file. -/
def liblinkSource (src : Text) (next : Text → Sys (Except String Item)) :
    Sys (Except String Item) := do
  if strEnds src ['.', 'v', 'l', 'b'] then
    match ← libname src with
    | none => tranError "could not build library name"
    | some srcTmp =>
      match baseName srcTmp with
      | none => tranError "invalid source path"
      | some srcName => next srcName
  else
    next src

/-- `ntran_liblink`. -/
def ntranLiblink (item : Item) : Sys (Except String Item) :=
  linkPrefix item fun src dst dirName =>
    liblinkSource src fun srcName =>
      match baseName dst with
      | none => tranError "invalid destination path"
      | some base => do
        let w ← Run.get
        match snprintf installMaxPathlen (base ++ w.globals.dlibSuffix) with
        | none => tranError "could not format destination path"
        | some dstTmp =>
          pure (.ok { item with src := some srcName, dst := some dstTmp, dir := some dirName })

/-- `ntran_mkdir`. -/
def ntranMkdir (item : Item) : Sys (Except String Item) := do
  let item := { item with dst := item.dst <|> item.src }
  let w ← Run.get
  match w.globals.fakeRoot with
  | none => pure (.ok item)
  | some _ => do
    let dir ← deref item.dir
    match ← rootedDir dir with
    | none => tranError "could not format destination path"
    | some dirName => pure (.ok { item with dir := some dirName })

/-- `ntran_chk_link` and `ntran_chk_liblink`: the link translation, and then `dir/dst`. -/
def ntranChk (ntran : Item → Sys (Except String Item)) (item : Item) :
    Sys (Except String Item) := do
  match ← ntran item with
  | .error message => tranError message
  | .ok item => do
    let dir ← deref item.dir
    let dst ← deref item.dst
    match snprintf installMaxPathlen (joinPath dir dst) with
    | none => tranError "could not format destination path"
    | some dstName => pure (.ok { item with dst := some dstName })

def ntranChkLink : Item → Sys (Except String Item) := ntranChk ntranLink

def ntranChkLiblink : Item → Sys (Except String Item) := ntranChk ntranLiblink

/-! ## Check operators -/

/-- `++install_failed`, unless the status is good. -/
def countFailure (status : Status) : Sys Status := do
  if status.status ≠ .ok then
    Run.modify fun w => { w with failed := w.failed + 1 }
  pure status

/-- Check one file against another, and count a failure. -/
def compareFiles (typeWant : FileType) (src dst : Item → Option Text) (item : Item)
    (uid gid : Id) : Sys Status := do
  let fileSrc ← deref (src item)
  let fileDst ← deref (dst item)
  let status ← installFileCheck fileSrc item.perm typeWant uid gid fileDst
  countFailure status

/-- The check operators: look up the IDs, and compare. -/
def instchkFile (typeWant : FileType) (src dst : Item → Option Text) (item : Item)
    (_flags : BitVec 32) : Sys Status :=
  withIds item (compareFiles typeWant src dst item)

def instchkCopy : Item → BitVec 32 → Sys Status := instchkFile .file Item.src Item.dst

def instchkLink : Item → BitVec 32 → Sys Status := instchkFile .symlink Item.src Item.dst

def instchkMkdir : Item → BitVec 32 → Sys Status := instchkFile .directory Item.dir Item.dir

def instchkLiblink : Item → BitVec 32 → Sys Status := instchkLink

/-! ## Deinstall operators -/

/-- The deinstall operators: remove something, unless it is a dry run. -/
def deinstRemove (remove : Sys Int) (message : String) (flags : BitVec 32) : Sys Status := do
  if notDryrun flags then
    let r ← remove
    if r = -1 then statusError message else statusOk
  else
    statusOk

/-- `deinst_copy`. -/
def deinstCopy (item : Item) (flags : BitVec 32) : Sys Status :=
  deinstRemove (do unlink (← deref item.dst)) "could not unlink file" flags

/-- `deinst_link`. -/
def deinstLink (item : Item) (flags : BitVec 32) : Sys Status := do
  if notDryrun flags then
    let dir ← deref item.dir
    let dst ← deref item.dst
    match snprintf installMaxPathlen (joinPath dir dst) with
    | none => statusError "could not format string"
    | some pathBuf => deinstRemove (unlink pathBuf) "could not unlink" flags
  else
    statusOk

/-- `deinst_mkdir`. -/
def deinstMkdir (item : Item) (flags : BitVec 32) : Sys Status :=
  deinstRemove (do rmdir (← deref item.dir)) "could not remove directory" flags

def deinstLiblink : Item → BitVec 32 → Sys Status := deinstLink

/-! ## Operator tables -/

/-- `struct instop`. -/
structure Instop where
  oper : Item → BitVec 32 → Sys Status
  trans : Item → Sys (Except String Item)

def installOpers : InstallOp → Instop
  | .instCopy => ⟨instCopy, ntranCopy⟩
  | .instCopyExec => ⟨instCopy, ntranCopyExec⟩
  | .instSymlink => ⟨instLink, ntranLink⟩
  | .instMkdir => ⟨instMkdir, ntranMkdir⟩
  | .instLiblink => ⟨instLiblink, ntranLiblink⟩

def instchkOpers : InstallOp → Instop
  | .instCopy => ⟨instchkCopy, ntranCopy⟩
  | .instCopyExec => ⟨instchkCopy, ntranCopyExec⟩
  | .instSymlink => ⟨instchkLink, ntranChkLink⟩
  | .instMkdir => ⟨instchkMkdir, ntranMkdir⟩
  | .instLiblink => ⟨instchkLiblink, ntranChkLiblink⟩

def deinstOpers : InstallOp → Instop
  | .instCopy => ⟨deinstCopy, ntranCopy⟩
  | .instCopyExec => ⟨deinstCopy, ntranCopyExec⟩
  | .instSymlink => ⟨deinstLink, ntranLink⟩
  | .instMkdir => ⟨deinstMkdir, ntranMkdir⟩
  | .instLiblink => ⟨deinstLiblink, ntranLiblink⟩

end CStringVerified.Install
