import CStringVerified.Foundation.Process
import CStringVerified.Foundation.Transitions
import Mathlib.Logic.Function.Basic

/-!
# Processes, descriptors and record locks

A small kernel: processes that open files, take and drop an exclusive lock on a whole file, fork,
replace themselves by a command, wait for a child and end. Which process moves next, whether its
call succeeds, which descriptor an `open` hands out, when a command ends and when a process is
killed are all choices of the action, so that a run is any interleaving whatsoever. What a command
does is not modelled: it may end at any time, or never.

The rules of the locks are those of `fcntl`: a lock belongs to a process and a file, a child has
none of its parent's locks, and a process drops its lock on a file when it closes a descriptor of
the file or ends.

What the programs are is left open: a `Machine` says how a program goes on and which program a
process starts with. A map between two machines carries the runs of one to those of the other
(`Machine.Maps.step`).
-/

namespace Foundation

namespace Kernel

/-- The place of a process in the process table. -/
abbrev Pid := Nat

/-- What a file is, whatever names it has. -/
abbrev File := Nat

/-- The lock types that are used. -/
inductive LockType where
  | F_WRLCK
  | F_UNLCK
  deriving DecidableEq

/-- The system calls that are used; `fprintf` stands for a write to the standard error stream. -/
inductive Sys where
  /-- `open (path, O_WRONLY | O_TRUNC | O_CREAT, mode)` -/
  | openFile (path : String)
  /-- `fcntl (fd, F_SETLKW, &fl)` on the whole file -/
  | setlkw (fd : Int) (type : LockType)
  | fork
  | close (fd : Int)
  | execvp (argv : List String)
  /-- `waitpid (pid, &status, 0)` -/
  | waitpid (pid : Int)
  | fprintf (text : String)

/-- What a call gives back: its value, the status that `waitpid` stores, and the error, as
`strerror` tells it, of a call that fails. -/
structure Reply where
  value : Int
  status : Nat := 0
  errno : String := ""

/-- How a program ends itself. -/
inductive Ending where
  | exit (code : Int)
  | abort

/-- What a process runs: a program, a command that has taken its place, or nothing any more. An
ended process keeps its status, and whether its parent has taken notice of it. -/
inductive Image (P : Type) where
  | code (prog : P)
  | command (argv : List String)
  | ended (status : Nat) (reaped : Bool)

/-- A process. `args` are the arguments that it was started with, or that the process it was forked
from was. -/
structure Proc (P : Type) where
  parent : Option Pid
  args : List String
  fds : Int → Option File
  image : Image P

/-- The kernel: the names of the files, how many files were made, which process has the lock on
which file, the process table and what was written to the standard error streams. -/
structure State (P : Type) where
  files : String → Option File
  made : Nat
  owner : File → Option Pid
  procs : List (Proc P)
  stderr : List (Pid × String)

/-- What the programs are: how one goes on, and the one that a process starts with. -/
structure Machine (P : Type) where
  view : P → Ending ⊕ (Sys × (Reply → P))
  start : List String → P

/-- The number that programs know a process by. -/
def pidOf (p : Pid) : Int := p + 1

/-- The place of the process that programs know by a number. -/
def placeOf (pid : Int) : Option Pid := if 0 < pid then some (pid - 1).toNat else none

/-- The status of a process that ended with a code: the code is cut to a byte. -/
def exited (code : Int) : Nat := (code % 256).toNat * 256

/-- The status of a process that was ended by a signal. -/
def signalled (signal : Nat) : Nat := signal % 128

/-- The exit code in a status. -/
def WEXITSTATUS (status : Nat) : Int := (status / 256 % 256 : Nat)

def SIGABRT : Nat := 6

/-- What may happen next. -/
inductive Action where
  /-- The program of `p` goes on: it ends, or its call succeeds, with the descriptor `fd` if it is
  an `open`. -/
  | succeeds (p : Pid) (fd : Nat)
  /-- The call that `p` makes fails. -/
  | fails (p : Pid) (errno : String)
  /-- The command that `p` runs ends with a code. -/
  | ends (p : Pid) (code : Int)
  /-- A signal kills `p`. -/
  | killed (p : Pid) (signal : Nat)
  /-- A process is started. -/
  | started (args : List String)
  /-- Somebody removes the name of a file. -/
  | removed (path : String)

/-- The process whose action it is. -/
def Action.actor : Action → Option Pid
  | succeeds p _ | fails p _ | ends p _ | killed p _ => some p
  | started _ | removed _ => none

/-- The action of a program that goes on. -/
def Action.proceeds : Action → Bool
  | succeeds _ _ => true
  | fails _ _ | ends _ _ | killed _ _ | started _ | removed _ => false

/-- A program goes on, a command ends, or a process is started. -/
def Action.calm : Action → Bool
  | succeeds _ _ | ends _ _ | started _ => true
  | fails _ _ | killed _ _ | removed _ => false

variable {P Q : Type}

/-- The process goes on as a program. -/
def Proc.goOn (proc : Proc P) (prog : P) : Proc P := { proc with image := .code prog }

/-- The process is over. -/
def Proc.finished (proc : Proc P) (status : Nat) : Proc P :=
  { proc with fds := fun _ => none, image := .ended status false }

namespace State

/-- Replace an entry of the process table. -/
def put (s : State P) (p : Pid) (proc : Proc P) : State P := { s with procs := s.procs.set p proc }

/-- Give `p` the lock on `f`. -/
def lock (s : State P) (p : Pid) (f : File) : State P :=
  { s with owner := Function.update s.owner f (some p) }

/-- Drop the lock of `p` on `f`, if it has it. -/
def unlock (s : State P) (p : Pid) (f : File) : State P :=
  { s with owner := fun g => if g = f ∧ s.owner g = some p then none else s.owner g }

/-- Drop all locks of `p`. -/
def unlockAll (s : State P) (p : Pid) : State P :=
  { s with owner := fun g => if s.owner g = some p then none else s.owner g }

/-- End `p`: its locks and descriptors go. -/
def terminate (s : State P) (p : Pid) (proc : Proc P) (status : Nat) : State P :=
  (s.unlockAll p).put p (proc.finished status)

/-- Make sure that a path names a file. -/
def create (s : State P) (path : String) : State P :=
  match s.files path with
  | some _ => s
  | none => { s with files := Function.update s.files path (some s.made), made := s.made + 1 }

/-- The file that a path names once it was made sure that there is one. -/
def created (s : State P) (path : String) : File := (s.files path).getD s.made

end State

/-- A call that succeeds. It is not possible where the call has to wait, or can only fail. -/
def call (s : State P) (p : Pid) (proc : Proc P) (fd : Nat) : Sys → (Reply → P) → Option (State P)
  | .openFile path, k =>
    if proc.fds fd = none then
      some ((s.create path).put p
        { proc with fds := Function.update proc.fds fd (some (s.created path))
                    image := .code (k { value := fd }) })
    else none
  | .setlkw d .F_WRLCK, k => do
    let f ← proc.fds d
    if s.owner f = none ∨ s.owner f = some p then
      some ((s.lock p f).put p (proc.goOn (k { value := 0 })))
    else none
  | .setlkw d .F_UNLCK, k => do
    let f ← proc.fds d
    some ((s.unlock p f).put p (proc.goOn (k { value := 0 })))
  | .fork, k =>
    some ({ s with procs := s.procs ++ [{ proc.goOn (k { value := 0 }) with parent := some p }] }.put p
      (proc.goOn (k { value := pidOf s.procs.length })))
  | .close d, k => do
    let f ← proc.fds d
    some ((s.unlock p f).put p
      { proc with fds := Function.update proc.fds d none, image := .code (k { value := 0 }) })
  | .execvp argv, _ => some (s.put p { proc with image := .command argv })
  | .waitpid pid, k => do
    let c ← placeOf pid
    let child ← s.procs[c]?
    match child.image with
    | .ended status false =>
      if child.parent = some p then
        some ((s.put c { child with image := .ended status true }).put p
          (proc.goOn (k { value := pid, status := status })))
      else none
    | _ => none
  | .fprintf text, k =>
    some ({ s with stderr := s.stderr ++ [(p, text)] }.put p (proc.goOn (k { value := 0 })))

/-- The program of a process goes on: it ends, or its call succeeds. -/
def advance (s : State P) (p : Pid) (proc : Proc P) (fd : Nat) :
    Ending ⊕ (Sys × (Reply → P)) → Option (State P)
  | .inl (.exit code) => some (s.terminate p proc (exited code))
  | .inl .abort => some (s.terminate p proc (signalled SIGABRT))
  | .inr (c, k) => call s p proc fd c k

/-- The call of a process fails. -/
def refuse (s : State P) (p : Pid) (proc : Proc P) (errno : String) :
    Ending ⊕ (Sys × (Reply → P)) → Option (State P)
  | .inl _ => none
  | .inr (_, k) => some (s.put p (proc.goOn (k { value := -1, errno := errno })))

/-- The call that a program goes on with. -/
def callOf : Ending ⊕ (Sys × (Reply → P)) → Option Sys
  | .inl _ => none
  | .inr (c, _) => some c

/-- One step of the kernel. -/
def step (m : Machine P) (s : State P) : Action → Option (State P)
  | .succeeds p fd => do
    let proc ← s.procs[p]?
    match proc.image with
    | .code prog => advance s p proc fd (m.view prog)
    | _ => none
  | .fails p errno => do
    let proc ← s.procs[p]?
    match proc.image with
    | .code prog => refuse s p proc errno (m.view prog)
    | _ => none
  | .ends p code => do
    let proc ← s.procs[p]?
    match proc.image with
    | .command _ => some (s.terminate p proc (exited code))
    | _ => none
  | .killed p signal => do
    let proc ← s.procs[p]?
    match proc.image with
    | .ended _ _ => none
    | _ => some (s.terminate p proc (signalled signal))
  | .started args =>
    some { s with
      procs := s.procs ++ [{ parent := none, args, fds := fun _ => none
                             image := .code (m.start args) }] }
  | .removed path => some { s with files := Function.update s.files path none }

/-- The call that a process is about to make. -/
def pending (m : Machine P) (s : State P) (p : Pid) : Option Sys := do
  let proc ← s.procs[p]?
  match proc.image with
  | .code prog => callOf (m.view prog)
  | _ => none

/-- The states before anything was started: files have names, nobody has a lock. -/
structure Fresh (s : State P) : Prop where
  files : ∀ path f, s.files path = some f → f < s.made
  owner : ∀ f, s.owner f = none
  procs : s.procs = []
  stderr : s.stderr = []

end Kernel

end Foundation
