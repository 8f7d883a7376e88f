import CStringVerified.Install.Operators

/-!
# The interface of `install-core.c`, and the three tools

`install`, `install_check` and `deinstall` run one item; the tools initialise, run all items of a
table, and exit.
-/

namespace CStringVerified.Install

open Foundation

/-! ## `install_init` -/

/-- The characters a library suffix may consist of. -/
def isSuffixChar (c : Char) : Bool :=
  c = '.' || ('0' ≤ c && c ≤ '9') || ('A' ≤ c && c ≤ 'Z') || ('a' ≤ c && c ≤ 'z')

/-- `install_suffix_sanitize`: the suffix ends before the first character it may not have. -/
def installSuffixSanitize (buffer : Text) : Text := buffer.takeWhile isSuffixChar

/-- The size of the suffix buffers. -/
def suffixSize : Nat := 16

/-- A message with a name in it, in a buffer of `INSTALL_MAX_PATHLEN` characters. -/
def namedMessage (before : String) (name : Text) (after : String) : String :=
  String.ofList ((before.toList ++ name ++ after.toList).take (installMaxPathlen - 1))

/-- The check of the fake root: the message of the error, if there is one. -/
def checkFakeRoot (fakeRoot : Option Text) : Sys (Option String) := do
  match fakeRoot with
  | none => pure none
  | some root => do
    match ← stat root with
    | none => pure (some (namedMessage "fake root " root " does not exist"))
    | some sb =>
      pure (if sIsdir sb.stMode then none
        else some (namedMessage "fake root " root " is not a directory"))

/-- The part of `install_init` that reads the suffix from an open file. -/
def readSuffix (suffixFile : Text) (fp : Handle) : Sys Status := do
  Run.modify fun w => { w with globals := { w.globals with execSuffix := [], dlibSuffix := ['.'] } }
  let suffix ← fread fp (suffixSize - 2)
  if suffix = [] then
    let error ← ferror fp
    let eof ← feof fp
    let status ←
      if eof then statusError (namedMessage "" suffixFile " is empty")
      else if error then statusError (namedMessage "error reading " suffixFile "")
      else pure installStatusInit
    let _ ← fclose fp
    pure status
  else
    Run.modify fun w =>
      { w with globals := { w.globals with dlibSuffix := installSuffixSanitize ('.' :: suffix) } }
    let closed ← fclose fp
    if closed ≠ 0 then
      statusError (namedMessage "could not close " suffixFile "")
    else
      iposixInit

/-- `install_init`. -/
def installInit (suffixFile : Text) : Sys Status := do
  let w ← Run.get
  match ← checkFakeRoot w.globals.fakeRoot with
  | some message => statusError message
  | none => do
    match ← fopenRead suffixFile with
    | none => statusError (namedMessage "could not open " suffixFile "")
    | some fp => readSuffix suffixFile fp

/-! ## One item -/

/-- The body of the three interface functions: translate, then operate. -/
def runOper (opers : InstallOp → Instop) (item : Item) (flags : BitVec 32) : Sys Status := do
  iposixErrorReset
  let status ← match ← (opers item.op).trans item with
    | .error message => statusError message
    | .ok translated => (opers item.op).oper translated flags
  let _ ← fflushAll
  pure status

def install (item : Item) (flags : BitVec 32) : Sys Status := runOper installOpers item flags

def installCheck (item : Item) : Sys Status := runOper instchkOpers item 0

def deinstall (item : Item) (flags : BitVec 32) : Sys Status := runOper deinstOpers item flags

/-! ## All items -/

/-- The loop of the tools over the items, in the order they are handled in: the statuses, up to a
fatal one. -/
def runItems (run : Item → Sys Status) : List Item → Sys (List Status)
  | [] => pure []
  | item :: items => do
    let status ← run item
    if status.status = .fatal then
      pure [status]
    else do
      let rest ← runItems run items
      pure (status :: rest)

def exitSuccess : Nat := 0
def exitFailure : Nat := 1

/-- How the loop ended. -/
def endedFatally (statuses : List Status) : Bool := statuses.any fun s => s.status = .fatal

/-- The part of `main` before the loop: set the fake root, and initialise. -/
def initTool (ctxtFakeroot : Text) : Sys Status := do
  if ctxtFakeroot ≠ [] then
    Run.modify fun w => { w with globals := { w.globals with fakeRoot := some ctxtFakeroot } }
  installInit ['c', 'o', 'n', 'f', '-', 's', 'o', 's', 'u', 'f', 'f', 'i', 'x']

/-- `main` of a tool: the statuses it reports, and its exit status. -/
def runTool (ctxtFakeroot : Text) (run : Item → Sys Status) (items : List Item)
    (exit : Sys Nat) : Sys (List Status × Nat) := do
  let status ← initTool ctxtFakeroot
  if status.status ≠ .ok then
    pure ([status], exitFailure)
  else do
    let statuses ← runItems run items
    if endedFatally statuses then
      pure (statuses, exitFailure)
    else do
      let code ← exit
      pure (statuses, code)

/-- The flags of `installer` and `deinstaller`: any argument asks for a dry run. -/
def toolFlags (argc : Nat) : BitVec 32 := if 1 < argc then installDryrun else 0

/-- `main` of `instchk`. -/
def instchkMain (ctxtFakeroot : Text) (insthier : List Item) : Sys (List Status × Nat) :=
  runTool ctxtFakeroot installCheck insthier do
    let w ← Run.get
    pure (if w.failed ≠ 0 then 1 else exitSuccess)

/-- `main` of `installer`. -/
def installerMain (argc : Nat) (ctxtFakeroot : Text) (insthier : List Item) :
    Sys (List Status × Nat) :=
  runTool ctxtFakeroot (fun item => install item (toolFlags argc)) insthier (pure exitSuccess)

/-- `main` of `deinstaller`: its loop counts down from the last item. With no items it would start
beyond the table. -/
def deinstallerMain (argc : Nat) (ctxtFakeroot : Text) (insthier : List Item) :
    Sys (List Status × Nat) :=
  runTool ctxtFakeroot (fun item => deinstall item (toolFlags argc)) insthier.reverse
    (if insthier = [] then crash .overrun else pure exitSuccess)

end CStringVerified.Install
