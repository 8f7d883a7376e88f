import CStringVerified.Foundation.KernelRules
import CStringVerified.Sysdeps.Locker

/-!
# The stages of a locker

A locker is at one of a few places of its text. `Stage` lists them with the data that later parts
need, `Stage.view` says which call each makes and where it goes on after the reply, and `Stage.code`
gives back the text that is left. `stages_locker`: the machine of the stages maps to that of the
programs, so a run of lockers is the image of a run of stages, call by call.
-/

namespace Sysdeps

open Foundation Foundation.Kernel

/-- What a locker was told to do. -/
structure Job where
  id : Int
  lockFile : String
  command : List String
  nonempty : 0 < command.length

/-- A descriptor that `open` returned: not the value of a call that fails. -/
abbrev Descriptor := { fd : Int // fd ≠ -1 }

/-- Where a locker is. -/
inductive Stage where
  /-- Before `open`. -/
  | opening (j : Job)
  /-- Before the `fcntl` that waits for the lock. -/
  | acquiring (j : Job) (fd : Descriptor)
  /-- Before `fork`, with the lock. -/
  | forking (j : Job) (fd : Descriptor)
  /-- The child, before it closes the lock file. -/
  | childClosing (j : Job) (fd : Descriptor)
  /-- The child, before `execvp`. -/
  | executing (j : Job) (fd : Descriptor)
  /-- The parent, before `waitpid`. -/
  | waiting (j : Job) (fd : Descriptor) (pid : Int)
  /-- Before the `fcntl` that gives the lock back. -/
  | releasing (j : Job) (fd : Descriptor) (exitCode : Int)
  /-- Before the lock file is closed. -/
  | closing (j : Job) (fd : Descriptor) (exitCode : Int)
  /-- `main` returns. -/
  | returning (exitCode : Int)
  /-- Before a message is written that ends the program. -/
  | reporting (text : String)
  /-- After it. -/
  | failed

/-- What `usage` writes. -/
def usageText : String := "sd-locker: usage: id file command [arguments]\n"

/-- What `sd_locker_fatal` writes. -/
def Job.message (j : Job) (message errno : String) : String :=
  "sd-locker: " ++ toString j.id ++ ": " ++ message ++ " - " ++ errno ++ "\n"

namespace Stage

/-- The stage after a call: the next one, or the end of a locker whose call failed. -/
def orFatal (j : Job) (message : String) (r : Reply) (next : Stage) : Stage :=
  if r.value = -1 then .reporting (j.message message r.errno) else next

/-- How a locker goes on from a stage. -/
def view : Stage → Ending ⊕ (Sys × (Reply → Stage))
  | opening j =>
    .inr (.openFile j.lockFile, fun r =>
      if h : r.value = -1 then .reporting (j.message "open" r.errno)
      else .acquiring j ⟨r.value, h⟩)
  | acquiring j fd => .inr (.setlkw fd.1 .F_WRLCK, fun r => orFatal j "fcntl" r (.forking j fd))
  | forking j fd =>
    .inr (.fork, fun r =>
      orFatal j "fork" r (if r.value = 0 then .childClosing j fd else .waiting j fd r.value))
  | childClosing j fd => .inr (.close fd.1, fun r => orFatal j "close" r (.executing j fd))
  | executing j fd => .inr (.execvp j.command, fun r => orFatal j "execvp" r (.releasing j fd 0))
  | waiting j fd pid =>
    .inr (.waitpid pid, fun r =>
      orFatal j "waitpid" r (.releasing j fd (WEXITSTATUS r.status)))
  | releasing j fd exitCode =>
    .inr (.setlkw fd.1 .F_UNLCK, fun r => orFatal j "fcntl" r (.closing j fd exitCode))
  | closing j fd exitCode =>
    .inr (.close fd.1, fun r => orFatal j "close" r (.returning exitCode))
  | returning exitCode => .inl (.exit exitCode)
  | reporting text => .inr (.fprintf text, fun _ => .failed)
  | failed => .inl (.exit EXIT_FAILURE)

/-- Where a program that was started with these arguments begins. -/
def start : List String → Stage
  | _ :: id :: lockFile :: command :: arguments =>
    .opening { id := atoi id, lockFile, command := command :: arguments, nonempty := Nat.succ_pos _ }
  | _ => .reporting usageText

end Stage

/-- The machine of the stages. -/
def stages : Machine Stage where
  view := Stage.view
  start := Stage.start

/-! ## The text that is left -/

/-- The variables of a locker that works on a job. -/
def Job.globals (j : Job) (lockFd locked exitCode : Int) : Globals :=
  { lockFile := j.lockFile, id := j.id, exitCode, locked, lockFd }

/-- The end of `main`. -/
def afterRelease : Code Int := do
  sdLockerLockFileClose
  let g ← Script.get
  pure g.exitCode

/-- The end of `main`, from the release of the lock on. -/
def afterExecute : Code Int := do
  sdLockerLockRelease
  afterRelease

/-- The end of the child's part of `sd_locker_posix_execute`. -/
def execPart (argv : List String) : Code Unit := do
  if (← sys (.execvp argv)).value = -1 then
    sdLockerFatal "execvp"

/-- The part of `sd_locker_posix_execute` that is the child's. -/
def childPart (argv : List String) : Code Unit := do
  let g ← Script.get
  if (← sys (.close g.lockFd)).value = -1 then
    sdLockerFatal "close"
  execPart argv

/-- The part of `sd_locker_posix_execute` that is the parent's. -/
def parentPart (processId : Int) : Code Unit := do
  let reply ← sys (.waitpid processId)
  if reply.value = -1 then
    sdLockerFatal "waitpid"
  Script.modify fun g => { g with exitCode := WEXITSTATUS reply.status }

/-- The program of a whole text. -/
def Job.code (j : Job) (text : Code Int) (lockFd locked exitCode : Int) :
    Program :=
  text.program Ending.exit (j.globals lockFd locked exitCode)

/-- What is left of the program at a stage. -/
def Stage.code : Stage → Program
  | opening j =>
    j.code (do
      sdLockerLockFileOpen
      sdLockerLockAcquire
      sdLockerExecute j.command
      afterExecute) 0 0 0
  | acquiring j fd =>
    j.code (do
      sdLockerLockAcquire
      sdLockerExecute j.command
      afterExecute) fd.1 0 0
  | forking j fd =>
    j.code (do
      sdLockerExecute j.command
      afterExecute) fd.1 1 0
  | childClosing j fd =>
    j.code (do
      childPart j.command
      afterExecute) fd.1 1 0
  | executing j fd =>
    j.code (do
      execPart j.command
      afterExecute) fd.1 1 0
  | waiting j fd pid =>
    j.code (do
      parentPart pid
      afterExecute) fd.1 1 0
  | releasing j fd exitCode => j.code afterExecute fd.1 1 exitCode
  | closing j fd exitCode =>
    j.code afterRelease fd.1 0 exitCode
  | returning exitCode => .ret (.exit exitCode)
  | reporting text => .call (.fprintf text) fun _ => .ret (.exit EXIT_FAILURE)
  | failed => .ret (.exit EXIT_FAILURE)

/-! ## The stages are those of the programs -/

/-- A call that the program makes: its reply, and `errno` if it failed. -/
@[simp] theorem sys_apply (c : Sys) (g : Globals) :
    sys c g = .call c fun r =>
      .ret (.ok r, if r.value = -1 then { g with errno := r.errno } else g) := by
  simp only [sys, Script.bind_apply, Script.perform_apply, Process.call_bind, Process.ret_bind]
  congr 1
  funext r
  split
  · rfl
  · rfl

/-- An error message, and the end. -/
@[simp] theorem sdLockerFatal_apply {α : Type} (message : String) (g : Globals) :
    (sdLockerFatal message : Code α) g =
      .call (.fprintf ("sd-locker: " ++ toString g.id ++ ": " ++ message ++ " - " ++ g.errno ++ "\n"))
        fun r => .ret (.error (.exit EXIT_FAILURE),
          if r.value = -1 then { g with errno := r.errno } else g) := by
  simp [sdLockerFatal, exit]

/-- An assertion that holds. -/
theorem assert_of {cond : Bool} (h : cond = true) : assert cond = pure () := if_pos h

/-- The file is closed where there is a descriptor. -/
theorem posixLockFileClose_apply {g : Globals} (h : g.lockFd ≠ -1) :
    posixLockFileClose g =
      (do if (← sys (.close g.lockFd)).value = -1 then sdLockerFatal "close" : Code Unit) g := by
  show (assert (g.lockFd ≠ -1) >>= _ : Code Unit) g = _
  rw [assert_of (decide_eq_true h)]
  rfl

/-- The command is executed where there is one. -/
theorem sdLockerExecute_apply {argv : List String} {g : Globals} (hargv : 0 < argv.length)
    (hlocked : g.locked = 1) :
    sdLockerExecute argv g =
      (do
        let processId := (← sys .fork).value
        if processId = -1 then
          sdLockerFatal "fork"
        if processId = 0 then
          childPart argv
        else
          parentPart processId : Code Unit) g := by
  show (assert (g.locked = 1) >>= fun _ => assert (0 < argv.length) >>= fun _ =>
    assert (0 < argv.length) >>= _ : Code Unit) g = _
  rw [assert_of (decide_eq_true hlocked), assert_of (decide_eq_true hargv)]
  rfl

/-- A program that makes a call, and its continuation after each reply. -/
theorem view_call {c : Sys} {k : Reply → Program} {k' : Reply → Stage}
    (h : ∀ r, k r = (k' r).code) :
    (Process.call c k).view = Sum.map id (Prod.map id (Stage.code ∘ ·)) (Sum.inr (c, k')) :=
  congrArg (fun k => Sum.inr (c, k)) (funext h)

/-- What is left of the program at a stage goes on as the stage does. -/
theorem code_view (st : Stage) :
    st.code.view = st.view.map id (Prod.map id (Stage.code ∘ ·)) := by
  cases st with
  | opening j =>
    refine view_call fun r => ?_
    by_cases h : r.value = -1
    · simp [h, Stage.code, Job.message, Job.globals]
    · simp [h, Stage.code, Job.globals, Job.code, Script.program]
  | acquiring j fd =>
    refine view_call fun r => ?_
    by_cases h : r.value = -1
    · simp [h, Stage.code, Stage.orFatal, Job.message, Job.globals]
    · simp [h, Stage.code, Stage.orFatal, Job.globals, Job.code, Script.program]
  | forking j fd =>
    have hcode := sdLockerExecute_apply (g := j.globals fd.1 1 0) j.nonempty rfl
    rw [Stage.code, Job.code, Script.program, Script.bind_apply, hcode]
    refine view_call fun r => ?_
    by_cases h : r.value = -1
    · simp [h, Stage.code, Stage.orFatal, Job.message, Job.globals]
    · by_cases h0 : r.value = 0
      · simp [h0, Stage.code, Stage.orFatal, Job.globals, Job.code, Script.program]
      · simp [h, h0, Stage.code, Stage.orFatal, Job.globals, Job.code, Script.program]
  | childClosing j fd =>
    refine view_call fun r => ?_
    by_cases h : r.value = -1
    · simp [h, Stage.code, Stage.orFatal, Job.message, Job.globals]
    · simp [h, Stage.code, Stage.orFatal, Job.globals, Job.code, Script.program]
  | executing j fd =>
    refine view_call fun r => ?_
    by_cases h : r.value = -1
    · simp [h, Stage.code, Stage.orFatal, Job.message, Job.globals]
    · simp [h, Stage.code, Stage.orFatal, Job.globals, Job.code, Script.program]
  | waiting j fd pid =>
    refine view_call fun r => ?_
    by_cases h : r.value = -1
    · simp [h, Stage.code, Stage.orFatal, Job.message, Job.globals]
    · simp [h, Stage.code, Stage.orFatal, Job.globals, Job.code, Script.program]
  | releasing j fd exitCode =>
    refine view_call fun r => ?_
    by_cases h : r.value = -1
    · simp [h, Stage.code, Stage.orFatal, Job.message, Job.globals]
    · simp [h, Stage.code, Stage.orFatal, Job.globals, Job.code, Script.program]
  | closing j fd exitCode =>
    have hcode := posixLockFileClose_apply (g := j.globals fd.1 0 exitCode) fd.2
    rw [Stage.code, Job.code, Script.program, afterRelease, sdLockerLockFileClose,
      Script.bind_apply, hcode]
    refine view_call fun r => ?_
    by_cases h : r.value = -1
    · simp [h, Stage.code, Stage.orFatal, Job.message, Job.globals]
    · simp [h, Stage.code, Stage.orFatal, Job.globals]
  | returning exitCode => rfl
  | reporting text => rfl
  | failed => rfl

/-- What is left at the first stage is the whole program. -/
theorem code_start (args : List String) : locker.start args = (Stage.start args).code := by
  match args with
  | _ :: id :: lockFile :: command :: arguments => rfl
  | [] | [_] | [_, _] | [_, _, _] =>
    simp [locker, main, usage, Script.program, Stage.start, Stage.code, usageText, exit]

/-- Runs of lockers are the images of runs of stages. -/
theorem stages_locker : stages.Maps Stage.code locker where
  view := code_view
  start := code_start

/-- A run of lockers is the image of a run of stages. -/
theorem exists_stages {s t : State Program} {as : List Action} (h : Fresh s)
    (hrun : run (step locker) s as = some t) : ∃ u v : State Stage, Fresh u ∧
      u.map Stage.code = s ∧ run (step stages) u as = some v ∧ v.map Stage.code = t := by
  obtain ⟨u, hu, rfl⟩ := h.preimage Stage.code
  rw [stages_locker.run] at hrun
  obtain ⟨v, hv, rfl⟩ := Option.map_eq_some_iff.mp hrun
  exact ⟨u, v, hu, rfl, hv, rfl⟩

end Sysdeps
