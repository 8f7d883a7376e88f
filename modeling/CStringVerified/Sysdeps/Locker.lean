import CStringVerified.Foundation.Kernel

/-!
# `SYSDEPS/sd-locker.c`, `SYSDEPS/sd-locker_posix.c`

`sd-locker id file command [arguments]` runs the command while it has an exclusive lock on the file,
and ends with the exit code of the command. Many of them are started at once, by a parallel build.

The functions keep their names, less the prefixes where both files have one of the name
(`sd_locker_posix_lock_acquire` is `posixLockAcquire`). The two static variables `sd_locker_state`
and `posix_state`, with `errno`, are the private state of the program.
-/

namespace Sysdeps

open Foundation Foundation.Kernel

/-- `EXIT_SUCCESS` -/
def EXIT_SUCCESS : Int := 0

/-- `EXIT_FAILURE` -/
def EXIT_FAILURE : Int := 1

/-- `sd_locker_state`, `posix_state` and `errno`, as they are when the program starts. -/
structure Globals where
  lockFile : String := ""
  id : Int := 0
  exitCode : Int := 0
  locked : Int := 0
  lockFd : Int := 0
  errno : String := ""

/-- The programs of this directory. -/
abbrev Code := Script Sys Reply Ending Globals

/-- A program of this directory as a whole, or what is left of it. -/
abbrev Program := Process Sys Reply Ending

/-- `exit (code)` -/
def exit {α : Type} (code : Int) : Code α := Script.finish (.exit code)

/-- `assert (cond)` -/
def assert (cond : Bool) : Code Unit := if cond then pure () else Script.finish .abort

/-- A system call: one that fails sets `errno`. -/
def sys (c : Sys) : Code Reply := do
  let reply ← Script.perform c
  if reply.value = -1 then
    Script.modify fun g => { g with errno := reply.errno }
  pure reply

/-- The blanks that `atoi` skips. -/
def isBlank (c : Char) : Bool := c = ' ' || (9 ≤ c.toNat && c.toNat ≤ 13)

/-- `atoi`, for texts whose value fits: blanks, a sign, digits, and anything after these. -/
def atoi (text : String) : Int :=
  let digits (l : List Char) : Int :=
    ((l.takeWhile Char.isDigit).foldl (fun n c => n * 10 + (c.toNat - '0'.toNat)) 0 : Nat)
  match text.toList.dropWhile isBlank with
  | '-' :: rest => -digits rest
  | '+' :: rest => digits rest
  | rest => digits rest

/-- `sd_locker_fatal` -/
def sdLockerFatal {α : Type} (message : String) : Code α := do
  let g ← Script.get
  let _ ← sys (.fprintf ("sd-locker: " ++ toString g.id ++ ": " ++ message ++ " - " ++ g.errno ++ "\n"))
  exit EXIT_FAILURE

/-- `sd_locker_posix_lock_acquire` -/
def posixLockAcquire : Code Unit := do
  let g ← Script.get
  assert (g.locked = 0)
  if (← sys (.setlkw g.lockFd .F_WRLCK)).value = -1 then
    sdLockerFatal "fcntl"

/-- `sd_locker_posix_lock_release` -/
def posixLockRelease : Code Unit := do
  let g ← Script.get
  assert (g.locked = 1)
  if (← sys (.setlkw g.lockFd .F_UNLCK)).value = -1 then
    sdLockerFatal "fcntl"

/-- `sd_locker_posix_lock_file_open` -/
def posixLockFileOpen : Code Unit := do
  let g ← Script.get
  let reply ← sys (.openFile g.lockFile)
  Script.modify fun g => { g with lockFd := reply.value }
  if reply.value = -1 then
    sdLockerFatal "open"

/-- `sd_locker_posix_lock_file_close` -/
def posixLockFileClose : Code Unit := do
  let g ← Script.get
  assert (g.lockFd ≠ -1)
  if (← sys (.close g.lockFd)).value = -1 then
    sdLockerFatal "close"

/-- `sd_locker_posix_execute`: both the parent and the child go on after `fork`. -/
def posixExecute (argv : List String) : Code Unit := do
  assert (0 < argv.length)
  let processId := (← sys .fork).value
  if processId = -1 then
    sdLockerFatal "fork"
  if processId = 0 then
    let g ← Script.get
    if (← sys (.close g.lockFd)).value = -1 then
      sdLockerFatal "close"
    if (← sys (.execvp argv)).value = -1 then
      sdLockerFatal "execvp"
  else
    let reply ← sys (.waitpid processId)
    if reply.value = -1 then
      sdLockerFatal "waitpid"
    Script.modify fun g => { g with exitCode := WEXITSTATUS reply.status }

/-- `sd_locker_lock_file_open` -/
def sdLockerLockFileOpen : Code Unit := posixLockFileOpen

/-- `sd_locker_lock_file_close` -/
def sdLockerLockFileClose : Code Unit := posixLockFileClose

/-- `sd_locker_lock_acquire` -/
def sdLockerLockAcquire : Code Unit := do
  posixLockAcquire
  Script.modify fun g => { g with locked := 1 }

/-- `sd_locker_lock_release` -/
def sdLockerLockRelease : Code Unit := do
  posixLockRelease
  Script.modify fun g => { g with locked := 0 }

/-- `sd_locker_execute` -/
def sdLockerExecute (argv : List String) : Code Unit := do
  let g ← Script.get
  assert (g.locked = 1)
  assert (0 < argv.length)
  posixExecute argv

/-- `usage` -/
def usage {α : Type} : Code α := do
  let _ ← sys (.fprintf "sd-locker: usage: id file command [arguments]\n")
  exit EXIT_FAILURE

/-- What `main` does after `argc` was checked. -/
def lockAndExecute (id : String) (lockFile : String) (command : List String) : Code Int := do
  Script.modify fun g => { g with id := atoi id, lockFile := lockFile, exitCode := EXIT_SUCCESS }
  sdLockerLockFileOpen
  sdLockerLockAcquire
  sdLockerExecute command
  sdLockerLockRelease
  sdLockerLockFileClose
  let g ← Script.get
  pure g.exitCode

/-- `main` -/
def main : List String → Code Int
  | _ :: id :: lockFile :: command :: arguments =>
    lockAndExecute id lockFile (command :: arguments)
  | _ => usage

/-- The machine on which every process is started as a locker, and `main` returns to `exit`. -/
def locker : Machine Program where
  view := Process.view
  start argv := (main argv).program Ending.exit {}

end Sysdeps
