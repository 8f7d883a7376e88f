import CStringVerified.Foundation.Run
import CStringVerified.Foundation.FileSystem

/-!
# The world of the installer

What the system calls and the C library act on. Every call that may be refused is refused when
`Env.faults` says so for the moment it is made; `Env.chunks` says how much `fread` and `fwrite`
transfer at most. `stat`, `lstat` and the calls that only ask for an ID always tell the truth: search
permission is not modelled, and only the calls that change or open something may be refused. All calls
are logged. A device keeps nothing of what is written to it, a FIFO has a reader and a writer, and reading
leaves every file as it is.
-/

namespace CStringVerified.Install

open Foundation

/-- How a run of the C code ends abruptly. -/
inductive Crash
  | assertion
  | nullPointer
  | overrun
  | diverges
deriving DecidableEq, Repr

/-- An open stream. -/
structure Stream where
  ino : Nat
  pos : Nat
  eof : Bool
  err : Bool
  closed : Bool
deriving DecidableEq

/-- A stream pointer. -/
abbrev Handle := Nat

/-- A call to the system or the C library. -/
inductive Call
  | stat (path : Text)
  | lstat (path : Text)
  | fopenRead (path : Text)
  | fopenWrite (path : Text)
  | fread (h : Handle)
  | fwrite (h : Handle)
  | fflush (h : Handle)
  | fflushAll
  | fclose (h : Handle)
  | unlink (path : Text)
  | rename (old new : Text)
  | chmod (path : Text) (mode : Mode)
  | chown (path : Text) (uid gid : Id)
  | mkdir (path : Text) (mode : Mode)
  | rmdir (path : Text)
  | symlink (target path : Text)
  | chdir (path : Text)
  | getcwd
deriving DecidableEq

/-- A call that was made, the directory it was made in, and whether it succeeded. -/
structure Entry where
  call : Call
  cwd : Loc
  ok : Bool
deriving DecidableEq

/-- What calls may change. -/
structure Os where
  fs : FileSystem
  cwd : Loc
  streams : List Stream

/-- What stays as it is: the process, the user database, what the system leaves open to decide, and how
calls fare. -/
structure Env where
  umask : Mode
  uid : Id
  gid : Id
  /-- The supplementary groups. -/
  groups : List Id
  passwd : Text → Option Id
  group : Text → Option Id
  /-- The error of the call made at a moment, if it is refused. -/
  faults : Nat → Option Errno
  /-- How many characters a read or write at a moment transfers at most, at least one. -/
  chunks : Nat → Nat
  /-- Whether a new file has the group of its directory in any case. -/
  bsdGroups : Bool
  /-- Which set-user-ID and set-group-ID bits `chown` clears. -/
  chownClears : Mode → Mode
  /-- Which of them writing clears. -/
  writeClears : Mode → Mode

namespace Env

variable (env : Env)

/-- A node that the process creates in a directory. -/
def newNode (stMode : Mode) (data : Text) (dir : Node) : Node where
  stMode := stMode
  stUid := env.uid
  stGid := if env.bsdGroups || dir.stMode &&& 0o2000 ≠ 0 then dir.stGid else env.gid
  data := data

/-- A permission mode, reduced by the umask. -/
def masked (mode : Mode) : Mode := mode &&& ~~~(env.umask &&& 0o777)

def newFile (dir : Node) : Node := env.newNode (sIfreg ||| env.masked 0o666) [] dir

/-- Where the group is not that of the directory in any case, the set-group-ID bit is handed down. -/
def newDir (mode : Mode) (dir : Node) : Node :=
  env.newNode (sIfdir ||| env.masked (mode &&& 0o1777) |||
    if env.bsdGroups then 0 else dir.stMode &&& 0o2000) [] dir

def newLink (target : Text) (dir : Node) : Node := env.newNode (sIflnk ||| 0o777) target dir

/-- A file that was opened for writing. -/
def emptied (n : Node) : Node :=
  if sIsreg n.stMode then
    { n with data := [], stMode := n.stMode &&& ~~~(env.writeClears n.stMode &&& 0o6000) }
  else n

/-- The process is in the group, or the superuser's. -/
def inGroup (gid : Id) : Bool := env.uid = 0 || env.gid = gid || env.groups.contains gid

/-- What `chmod` makes of a node: the set-group-ID bit is for the members of its group. -/
def withPerm (mode : Mode) (n : Node) : Node :=
  { n with
    stMode := (n.stMode &&& sIfmt) |||
      (mode &&& if env.inGroup n.stGid then 0o7777 else 0o5777) }

/-- What `chown` makes of a node. -/
def chowned (uid gid : Id) (n : Node) : Node :=
  { n with
    stUid := if uid = -1 then n.stUid else uid
    stGid := if gid = -1 then n.stGid else gid
    stMode := n.stMode &&& ~~~(env.chownClears n.stMode &&& 0o6000) }

end Env

/-- The global variables that are set before the first item. -/
structure Globals where
  fakeRoot : Option Text
  execSuffix : Text
  dlibSuffix : Text

/-- `failed` is `install_failed`. -/
structure World where
  os : Os
  env : Env
  globals : Globals
  failed : Nat
  errno : Errno
  tick : Nat
  log : List Entry

/-- C code running in a world. -/
abbrev Sys := Run Crash World

namespace World

/-- The world after a call was made. -/
def record (w : World) (call : Call) (ok : Bool) : World :=
  { w with tick := w.tick + 1, log := w.log ++ [⟨call, w.os.cwd, ok⟩] }

def withErrno (w : World) (e : Errno) : World := { w with errno := e }

def withOs (w : World) (os : Os) : World := { w with os := os }

variable (w : World) (call : Call) (ok : Bool) (e : Errno) (os : Os)

@[simp] theorem os_record : (w.record call ok).os = w.os := rfl
@[simp] theorem env_record : (w.record call ok).env = w.env := rfl
@[simp] theorem globals_record : (w.record call ok).globals = w.globals := rfl
@[simp] theorem failed_record : (w.record call ok).failed = w.failed := rfl
@[simp] theorem log_record : (w.record call ok).log = w.log ++ [⟨call, w.os.cwd, ok⟩] := rfl
@[simp] theorem os_withErrno : (w.withErrno e).os = w.os := rfl
@[simp] theorem env_withErrno : (w.withErrno e).env = w.env := rfl
@[simp] theorem globals_withErrno : (w.withErrno e).globals = w.globals := rfl
@[simp] theorem failed_withErrno : (w.withErrno e).failed = w.failed := rfl
@[simp] theorem log_withErrno : (w.withErrno e).log = w.log := rfl
@[simp] theorem os_withOs : (w.withOs os).os = os := rfl
@[simp] theorem env_withOs : (w.withOs os).env = w.env := rfl
@[simp] theorem globals_withOs : (w.withOs os).globals = w.globals := rfl
@[simp] theorem failed_withOs : (w.withOs os).failed = w.failed := rfl
@[simp] theorem log_withOs : (w.withOs os).log = w.log := rfl

/-- How a pathname is looked up; the empty one is not. -/
def route (w : World) (path : Text) : Except Errno Route :=
  if path = [] then .error enoent else .ok (Foundation.route w.os.cwd path)

/-- The superuser in the root directory of a file system, with an empty user database and no fake
root. No call is refused, and set-ID bits are cleared as on Linux. -/
def ofFiles (es : List (Loc × Node)) : World where
  os := ⟨.ofList es, [], []⟩
  env :=
    { umask := 0o022
      uid := 0
      gid := 0
      groups := []
      passwd := fun _ => none
      group := fun _ => none
      faults := fun _ => none
      chunks := fun _ => 65536
      bsdGroups := false
      chownClears := fun m =>
        if sIsdir m then 0 else if m &&& 0o10 = 0 then 0o4000 else 0o6000
      writeClears := fun _ => 0 }
  globals := ⟨none, [], ['.', 's', 'o']⟩
  failed := 0
  errno := 0
  tick := 0
  log := []

end World

/-! ## Calls -/

/-- A failed assertion, or another end of the process. -/
def crash {α : Type} (c : Crash) : Sys α := Run.fail c

def assert (p : Bool) : Sys Unit := if p then pure () else crash .assertion

/-- Use a pointer that must not be null. -/
def deref {α : Type} : Option α → Sys α
  | some a => pure a
  | none => crash .nullPointer

/-- A call that may be refused. -/
def sysCall {α : Type} (call : Call) (f : World → Except Errno (α × Os)) : Sys (Option α) := fun w =>
  match w.env.faults w.tick with
  | some e => (.ok none, (w.record call false).withErrno e)
  | none =>
    match f w with
    | .error e => (.ok none, (w.record call false).withErrno e)
    | .ok (a, os) => (.ok (some a), (w.record call true).withOs os)

/-- A call that changes the file system only. -/
def fsCall (call : Call) (f : World → Except Errno FileSystem) : Sys Int := do
  let r ← sysCall call fun w => (f w).map fun fs => ((), { w.os with fs := fs })
  pure (if r.isSome then 0 else -1)

/-- A call that asks what there is. -/
def query {α : Type} (call : Call) (f : World → Except Errno α) : Sys (Option α) := fun w =>
  match f w with
  | .error e => (.ok none, (w.record call false).withErrno e)
  | .ok a => (.ok (some a), w.record call true)

def stat (path : Text) : Sys (Option Node) :=
  query (.stat path) fun w => do
    let p ← w.route path
    w.os.fs.stat p

def lstat (path : Text) : Sys (Option Node) :=
  query (.lstat path) fun w => do
    let p ← w.route path
    w.os.fs.lstat p

/-- `mkdir`: the mode is reduced by the umask. -/
def mkdir (path : Text) (mode : Mode) : Sys Int :=
  fsCall (.mkdir path mode) fun w => do
    let p ← w.route path
    w.os.fs.create p true (w.env.newDir mode)

def rmdir (path : Text) : Sys Int :=
  fsCall (.rmdir path) fun w => do
    let p ← w.route path
    w.os.fs.rmdir p

def unlink (path : Text) : Sys Int :=
  fsCall (.unlink path) fun w => do
    let p ← w.route path
    w.os.fs.unlink p

/-- `rename` of something that is no directory. -/
def rename (old new : Text) : Sys Int :=
  fsCall (.rename old new) fun w => do
    let p ← w.route old
    let q ← w.route new
    w.os.fs.rename p q

def symlink (target path : Text) : Sys Int :=
  fsCall (.symlink target path) fun w => do
    let p ← w.route path
    if target = [] then
      throw enoent
    w.os.fs.create p false (w.env.newLink target)

/-- `chmod`, for the owner and the superuser. -/
def chmod (path : Text) (mode : Mode) : Sys Int :=
  fsCall (.chmod path mode) fun w => do
    let p ← w.route path
    w.os.fs.update p fun n =>
      if w.env.uid ≠ 0 ∧ w.env.uid ≠ n.stUid then .error eperm else .ok (w.env.withPerm mode n)

/-- `chown`, for the superuser. -/
def chown (path : Text) (uid gid : Id) : Sys Int :=
  fsCall (.chown path uid gid) fun w => do
    let p ← w.route path
    w.os.fs.update p fun n =>
      if w.env.uid ≠ 0 then .error eperm else .ok (w.env.chowned uid gid n)

/-- `getcwd` with a buffer of `size` characters. -/
def getcwd (size : Nat) : Sys (Option Text) :=
  sysCall .getcwd fun w =>
    match w.os.fs.find ⟨[], w.os.cwd, false⟩ with
    | .ok (loc, some n) =>
      if loc ≠ w.os.cwd ∨ !sIsdir n.stMode then .error enoent
      else if size < (render w.os.cwd).length + 1 then .error erange
      else .ok (render w.os.cwd, w.os)
    | _ => .error enoent

def chdir (path : Text) : Sys Int := do
  let r ← sysCall (.chdir path) fun w => do
    let p ← w.route path
    match ← w.os.fs.resolve p with
    | (_, none) => throw enoent
    | (l, some n) => if sIsdir n.stMode then pure ((), { w.os with cwd := l }) else throw enotdir
  pure (if r.isSome then 0 else -1)

/-! ## Streams -/

/-- The stream of a handle. -/
def stream (h : Handle) : Sys Stream := do
  let w ← Run.get
  deref w.os.streams[h]?

def modifyStream (h : Handle) (f : Stream → Stream) : Sys Unit :=
  Run.modify fun w => w.withOs { w.os with streams := w.os.streams.modify h f }

def openStream (os : Os) (i : Nat) : Handle × Os :=
  (os.streams.length, { os with streams := os.streams ++ [⟨i, 0, false, false, false⟩] })

/-- The number of the file at a location that is opened. A socket cannot be opened. -/
def World.opened (w : World) (loc : Loc) (n : Node) : Except Errno Nat :=
  if sIssock n.stMode then .error enxio else (w.os.fs.ino loc).elim (.error enoent) .ok

/-- `fopen (path, "rb")`. -/
def fopenRead (path : Text) : Sys (Option Handle) :=
  sysCall (.fopenRead path) fun w => do
    let p ← w.route path
    match ← w.os.fs.resolve p with
    | (_, none) => throw enoent
    | (l, some n) => do
      let i ← w.opened l n
      pure (openStream w.os i)

/-- Opening for writing: the number of the file, and the file system in which it is empty. -/
def World.emptied (w : World) (p : Route) : Except Errno (Nat × FileSystem) := do
  match ← w.os.fs.resolve p with
  | (l, none) =>
    match w.os.fs.node l.dropLast with
    | none => throw enoent
    | some d => pure (w.os.fs.inodes.length, w.os.fs.put l (w.env.newFile d))
  | (l, some n) =>
    if sIsdir n.stMode then throw eisdir
    let i ← w.opened l n
    pure (i, w.os.fs.set i (w.env.emptied n))

/-- `fopen (path, "wb")`: the file is created, or emptied. -/
def fopenWrite (path : Text) : Sys (Option Handle) :=
  sysCall (.fopenWrite path) fun w => do
    let p ← w.route path
    let (i, fs) ← w.emptied p
    pure (openStream { w.os with fs := fs } i)

/-- How many of `n` characters are transferred. -/
def World.transfer (w : World) (n : Nat) : Nat := min n (max 1 (w.env.chunks w.tick))

/-- `fread` of at most `size` characters. A failed read sets the error indicator. -/
def fread (h : Handle) (size : Nat) : Sys Text := do
  let s ← stream h
  let r ← sysCall (.fread h) fun w =>
    match w.os.fs.inode s.ino with
    | none => .error enoent
    | some n =>
      if sIsdir n.stMode then .error eisdir
      else
        let rest := n.data.drop s.pos
        let count := min rest.length (w.transfer size)
        let s' : Stream :=
          { s with
            pos := s.pos + count
            eof := s.eof || (rest.length < size && count = rest.length) }
        .ok (rest.take count, { w.os with streams := w.os.streams.set h s' })
  match r with
  | some text => pure text
  | none => do
    modifyStream h fun s => { s with err := true }
    pure []

/-- `fwrite`: the number of characters written. A failed write sets the error indicator. -/
def fwrite (text : Text) (h : Handle) : Sys Nat := do
  let s ← stream h
  let r ← sysCall (.fwrite h) fun w =>
    match w.os.fs.inode s.ino with
    | none => .error enoent
    | some n =>
      let count := w.transfer text.length
      .ok (count, { w.os with fs := w.os.fs.set s.ino (n.withData (n.data ++ text.take count)) })
  match r with
  | some count => pure count
  | none => do
    modifyStream h fun s => { s with err := true }
    pure 0

def feof (h : Handle) : Sys Bool := do
  let s ← stream h
  pure s.eof

def ferror (h : Handle) : Sys Bool := do
  let s ← stream h
  pure s.err

def fflush (h : Handle) : Sys Int := do
  let r ← sysCall (.fflush h) fun w => .ok ((), w.os)
  pure (if r.isSome then 0 else -1)

/-- `fflush (NULL)`. -/
def fflushAll : Sys Int := do
  let r ← sysCall .fflushAll fun w => .ok ((), w.os)
  pure (if r.isSome then 0 else -1)

/-- `fclose`: the stream is gone, also when the call fails. -/
def fclose (h : Handle) : Sys Int := do
  let r ← sysCall (.fclose h) fun w => .ok ((), w.os)
  modifyStream h fun s => { s with closed := true }
  pure (if r.isSome then 0 else -1)

end CStringVerified.Install
