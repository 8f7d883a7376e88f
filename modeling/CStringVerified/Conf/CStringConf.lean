import CStringVerified.Foundation.Memory
import CStringVerified.Foundation.Run

/-!
# `c_string-conf`

The C program `c_string-conf.c`. A pointer into a string is what lies from it to the end of the array, the
nul included. Reading behind that end ends with `Stop.overrun`.
-/

namespace CStringVerified.Conf

open Foundation

/-- How a run ends other than by returning from `main`. -/
inductive Stop
  | exit (status : Int)
  | overrun
  | diverges
deriving DecidableEq, Repr

/-- The bytes of a string, its nul left out. -/
abbrev Bytes := List Byte

/-- The bytes of a string literal. -/
def ascii (text : String) : Bytes := text.toList.map fun c => BitVec.ofNat 8 c.toNat

/-! ## `str_diff` -/

section StrDiff

variable {σ : Type}

/-- `*p`. -/
def load : Bytes → Run Stop σ Byte
  | [] => Run.fail .overrun
  | c :: _ => pure c

/-- `u = *s; if (u != *t) break; if (!u) break; ++s; ++t;`, with `u` and `t` after a `break`. -/
def strDiffStep (p : Bytes × Bytes) : Run Stop σ ((Bytes × Bytes) ⊕ (Byte × Bytes)) := do
  let (s, t) := p
  let u ← load s
  let c ← load t
  if u ≠ c then
    pure (.inr (u, t))
  else if u = 0 then
    pure (.inr (u, t))
  else
    pure (.inl (s.tail, t.tail))

/-- `str_diff`, of pointers to the starts of two strings. -/
def strDiff (s t : Bytes) : Run Stop σ Int := do
  let (u, t) ← Run.loop (Run.unrolled strDiffStep 4) (fun _ => Run.fail .diverges) (s.length + 1) (s, t)
  let c ← load t
  pure ((u.toNat : Int) - c.toNat)

end StrDiff

/-! ## The operators -/

def flagIncdir : BitVec 32 := 0x0001
def flagDlibdir : BitVec 32 := 0x0002
def flagSlibdir : BitVec 32 := 0x0004
def flagNewline : BitVec 32 := 0x0008
def flagVersion : BitVec 32 := 0x0010
def flagCompile : BitVec 32 := 0x0020
def flagHelp : BitVec 32 := 0x0040
def flagCflags : BitVec 32 := 0x0080
def flagLdflags : BitVec 32 := 0x0100

/-- The functions `flag_help`, `flag_incdir` and so on. -/
inductive FlagFunc
  | help
  | incdir
  | cflags
  | dlibdir
  | slibdir
  | ldflags
  | version
  | newline
deriving DecidableEq, Repr

/-- An entry of `flags`. -/
structure Flag where
  flag : Bytes
  func : Option FlagFunc
  val : BitVec 32
  desc : Bytes
deriving DecidableEq

def flags : List Flag :=
  [⟨ascii "help", some .help, flagHelp, ascii "this message"⟩,
    ⟨ascii "compile", none, flagCompile, ascii "modify output for use as compiler flags"⟩,
    ⟨ascii "incdir", some .incdir, flagIncdir, ascii "print include directory"⟩,
    ⟨ascii "cflags", some .cflags, flagCflags, ascii "output required compiler flags"⟩,
    ⟨ascii "dlibdir", some .dlibdir, flagDlibdir, ascii "print dynamic library directory"⟩,
    ⟨ascii "slibdir", some .slibdir, flagSlibdir, ascii "print static library directory"⟩,
    ⟨ascii "ldflags", some .ldflags, flagLdflags, ascii "output required linker flags"⟩,
    ⟨ascii "version", some .version, flagVersion, ascii "print library version"⟩,
    ⟨ascii "newline", some .newline, flagNewline, ascii "print trailing newline"⟩]

/-- The strings that are compiled in, and what `fflush (0)` returns when so much was printed. -/
structure Env where
  ctxtIncdir : Bytes
  ctxtDlibdir : Bytes
  ctxtSlibdir : Bytes
  ctxtVersion : Bytes
  fflush : Bytes → Int

/-- `called` holds the functions of the table that were called. -/
structure State where
  flag : BitVec 32
  stdout : Bytes
  called : List FlagFunc

/-- `c_string-conf` running. -/
abbrev Prog := Run Stop State

def printf (text : Bytes) : Prog Unit :=
  Run.modify fun s => { s with stdout := s.stdout ++ text }

def exit {α : Type} (status : Int) : Prog α := Run.fail (.exit status)

def progname : Bytes := ascii "c_string-conf"

def usage : Prog Unit := printf (progname ++ ascii ": [help] ops ...\n")

/-- The loop of `help`. -/
def helpFlags : List Flag → Prog Unit
  | [] => pure ()
  | f :: fs => do
    printf (f.flag ++ ascii " - " ++ f.desc ++ ascii "\n")
    helpFlags fs

def help : Prog Unit := do
  usage
  printf (ascii "possible operators:\n")
  helpFlags flags
  exit 0

/-- `flag_dlibdir` and `flag_slibdir`. -/
def libdir (dir : Bytes) : Prog Unit := do
  let s ← Run.get
  if s.flag &&& flagCompile ≠ 0 then
    printf (ascii "-L")
  printf (dir ++ ascii " ")

/-- What a function of the table does. -/
def FlagFunc.run (env : Env) : FlagFunc → Prog Unit
  | .help => Conf.help
  | .incdir => do
    let s ← Run.get
    if s.flag &&& flagCompile ≠ 0 then
      printf (ascii "-I" ++ env.ctxtIncdir ++ ascii " ")
    else
      printf (env.ctxtIncdir ++ ascii " ")
  | .cflags => pure ()
  | .dlibdir => libdir env.ctxtDlibdir
  | .slibdir => libdir env.ctxtSlibdir
  | .ldflags => printf (ascii "-lc_string ")
  | .version => printf (env.ctxtVersion ++ ascii " ")
  | .newline => printf (ascii "\n")

/-- Call a function of the table. -/
def call (env : Env) (func : FlagFunc) : Prog Unit := do
  Run.modify fun s => { s with called := s.called ++ [func] }
  func.run env

/-! ## The program -/

/-- The inner loop of `parse_flags`: look an argument up in the table. -/
def parseFlag (arg : Bytes) : List Flag → Prog Unit
  | [] => pure ()
  | f :: fs => do
    if (← strDiff (arg ++ [0]) (f.flag ++ [0])) = 0 then
      Run.modify fun s => { s with flag := s.flag ||| f.val }
    else
      parseFlag arg fs

/-- The outer loop of `parse_flags`. -/
def parseArgs : List Bytes → Prog Unit
  | [] => pure ()
  | arg :: args => do
    parseFlag arg flags
    parseArgs args

/-- `parse_flags`. -/
def parseFlags (argv : List Bytes) : Prog Unit := do
  let argc : Int := argv.length - 1
  let argv := argv.tail
  if argc = 0 then
    usage
    exit 111
  else
    Run.modify fun s => { s with flag := 0 }
    parseArgs argv

/-- `call_flags`. -/
def callFlags (env : Env) : List Flag → Prog Unit
  | [] => pure ()
  | f :: fs => do
    let s ← Run.get
    if s.flag &&& f.val ≠ 0 then
      match f.func with
      | some func => call env func
      | none => pure ()
    callFlags env fs

/-- `main`. -/
def main (env : Env) (argv : List Bytes) : Prog Int := do
  parseFlags argv
  callFlags env flags
  let s ← Run.get
  if env.fflush s.stdout ≠ 0 then pure 112 else pure 0

/-- What is seen of a run that ends. -/
structure Outcome where
  stdout : Bytes
  called : List FlagFunc
  status : Int
deriving DecidableEq

/-- Run the program. There is no outcome of a run that does not end with an exit status. -/
def run (env : Env) (argv : List Bytes) : Option Outcome :=
  match main env argv ⟨0, [], []⟩ with
  | (.ok status, s) => some ⟨s.stdout, s.called, status⟩
  | (.error (.exit status), s) => some ⟨s.stdout, s.called, status⟩
  | (.error _, _) => none

end CStringVerified.Conf
