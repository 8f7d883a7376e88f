import Mathlib.Data.Finset.Basic
import CStringVerified.Conf.Proofs.ParseFlagsProofs

/-!
# `c_string-conf` depends on the set of operators

`outcome` says what a run prints, calls and returns when a set of operators is asked for. Every run is
the one of the set of operators that occur among its arguments, so neither the order of the arguments
nor a repeated or unknown one makes a difference.
-/

namespace CStringVerified.Conf

open Foundation Foundation.Run

variable {env : Env} {arg : Bytes} {args args' : List Bytes} {func : FlagFunc} {f : Flag} {fs : List Flag}
  {ops : Finset Bytes}

/-! ## What is to be printed -/

def helpLine (f : Flag) : Bytes := f.flag ++ ascii " - " ++ f.desc ++ ascii "\n"

def helpText : Bytes :=
  progname ++ ascii ": [help] ops ...\n" ++ ascii "possible operators:\n" ++ flags.flatMap helpLine

/-- What an operator prints. -/
def printed (env : Env) (compile : Bool) : FlagFunc → Bytes
  | .help => helpText
  | .incdir => (if compile then ascii "-I" else []) ++ env.ctxtIncdir ++ ascii " "
  | .cflags => []
  | .dlibdir => (if compile then ascii "-L" else []) ++ env.ctxtDlibdir ++ ascii " "
  | .slibdir => (if compile then ascii "-L" else []) ++ env.ctxtSlibdir ++ ascii " "
  | .ldflags => ascii "-lc_string "
  | .version => env.ctxtVersion ++ ascii " "
  | .newline => ascii "\n"

/-- The operators that occur among the arguments. -/
def recognised (args : List Bytes) : Finset Bytes :=
  (flags.map Flag.flag).toFinset.filter fun op => op ∈ args

/-- The functions of a set of operators, in the order of the table. -/
def performed (ops : Finset Bytes) : List FlagFunc :=
  (flags.filter fun f => f.flag ∈ ops).filterMap Flag.func

/-- What a set of operators without `help` prints. -/
def output (env : Env) (ops : Finset Bytes) : Bytes :=
  (performed ops).flatMap (printed env (ascii "compile" ∈ ops))

/-- What is seen of a run that is asked for a set of operators. -/
def outcome (env : Env) (ops : Finset Bytes) : Outcome :=
  if ascii "help" ∈ ops then
    ⟨helpText, [.help], 0⟩
  else
    ⟨output env ops, performed ops, if env.fflush (output env ops) ≠ 0 then 112 else 0⟩

/-! ## The functions of the table -/

theorem libdir_eq (dir : Bytes) (st : State) :
    libdir dir st = (.ok (), { st with stdout := st.stdout ++
      ((if st.flag &&& flagCompile ≠ 0 then ascii "-L" else []) ++ dir ++ ascii " ") }) := by
  rw [libdir, get_bind_apply]
  by_cases hcompile : st.flag &&& flagCompile ≠ 0
  · rw [if_pos hcompile, if_pos hcompile, List.append_assoc, ← List.append_assoc st.stdout]
    rfl
  · rw [if_neg hcompile, if_neg hcompile]
    rfl

/-- A function other than `flag_help` prints what it is to print, and returns. -/
theorem run_eq (hfunc : func ≠ .help) (st : State) :
    func.run env st =
      (.ok (), { st with stdout := st.stdout ++ printed env (st.flag &&& flagCompile ≠ 0) func }) := by
  have hdir : ∀ (p : Prop) [Decidable p] (opt : Bytes),
      (if decide p then opt else []) = if p then opt else [] := by
    intro p _ opt
    exact if_congr decide_eq_true_iff rfl rfl
  cases func with
  | help => exact absurd rfl hfunc
  | incdir =>
    rw [FlagFunc.run, get_bind_apply, printed, hdir]
    by_cases hcompile : st.flag &&& flagCompile ≠ 0
    · rw [if_pos hcompile, if_pos hcompile]
      rfl
    · rw [if_neg hcompile, if_neg hcompile]
      rfl
  | cflags =>
    rw [FlagFunc.run, printed, List.append_nil]
    rfl
  | dlibdir =>
    rw [FlagFunc.run, libdir_eq, printed, hdir]
  | slibdir =>
    rw [FlagFunc.run, libdir_eq, printed, hdir]
  | ldflags => rfl
  | version => rfl
  | newline => rfl

theorem helpFlags_eq (fs : List Flag) (st : State) :
    helpFlags fs st = (.ok (), { st with stdout := st.stdout ++ fs.flatMap helpLine }) := by
  induction fs generalizing st with
  | nil =>
    rw [List.flatMap_nil, List.append_nil]
    rfl
  | cons f fs ih =>
    rw [List.flatMap_cons, ← List.append_assoc]
    exact ih { st with stdout := st.stdout ++ helpLine f }

/-- `help` does not return. -/
theorem help_eq (st : State) :
    help st = (.error (.exit 0), { st with stdout := st.stdout ++ helpText }) := by
  have htext : st.stdout ++ helpText = st.stdout ++ (progname ++ ascii ": [help] ops ...\n") ++
      ascii "possible operators:\n" ++ flags.flatMap helpLine := by
    rw [helpText, ← List.append_assoc, ← List.append_assoc]
  have hlines := helpFlags_eq flags { st with stdout := st.stdout ++
    (progname ++ ascii ": [help] ops ...\n") ++ ascii "possible operators:\n" }
  have hend : (helpFlags flags >>= fun _ => (exit 0 : Prog Unit)) _ = _ := bind_ok hlines
  rw [htext]
  exact hend

/-! ## `call_flags` -/

/-- The functions of the entries whose flag is set. -/
def funcsOf (flag : BitVec 32) (fs : List Flag) : List FlagFunc :=
  (fs.filter fun f => flag &&& f.val ≠ 0).filterMap Flag.func

theorem funcsOf_cons (flag : BitVec 32) (f : Flag) (fs : List Flag) :
    funcsOf flag (f :: fs) =
      (if flag &&& f.val ≠ 0 then f.func.toList else []) ++ funcsOf flag fs := by
  rw [funcsOf, List.filter_cons]
  by_cases htest : flag &&& f.val ≠ 0
  · rw [if_pos (decide_eq_true htest), if_pos htest]
    cases hfunc : f.func with
    | none => exact List.filterMap_cons_none hfunc
    | some func => exact List.filterMap_cons_some hfunc
  · rw [if_neg fun h => htest (of_decide_eq_true h), if_neg htest]
    rfl

/-- Unless help is asked for, all functions whose flag is set are called, one after the other. -/
theorem callFlags_eq (st : State) (hhelp : ∀ f ∈ fs, st.flag &&& f.val ≠ 0 → f.func ≠ some .help) :
    callFlags env fs st = (.ok (), ⟨st.flag,
      st.stdout ++ (funcsOf st.flag fs).flatMap (printed env (st.flag &&& flagCompile ≠ 0)),
      st.called ++ funcsOf st.flag fs⟩) := by
  induction fs generalizing st with
  | nil =>
    simp only [funcsOf, List.filter_nil, List.filterMap_nil, List.flatMap_nil, List.append_nil]
    rfl
  | cons f fs ih =>
    have hrest := fun g hg => hhelp g (List.mem_cons_of_mem f hg)
    rw [callFlags, get_bind_apply, funcsOf_cons]
    by_cases htest : st.flag &&& f.val ≠ 0
    · rw [if_pos htest, if_pos htest]
      match hfunc : f.func with
      | none =>
        rw [Option.toList_none, List.nil_append]
        exact ih st hrest
      | some func =>
        have hne : func ≠ .help := fun h =>
          hhelp f List.mem_cons_self htest (hfunc.trans (congrArg some h))
        rw [Option.toList_some, List.singleton_append, List.flatMap_cons, ← List.append_assoc,
          List.append_cons]
        exact (bind_ok (run_eq hne _)).trans (ih _ hrest)
    · rw [if_neg htest, if_neg htest, List.nil_append]
      exact ih st hrest

/-- `flag_help` is the first function of the table, and the last that is called. -/
theorem callFlags_help (st : State) (hhelp : st.flag &&& flagHelp ≠ 0) :
    callFlags env flags st =
      (.error (.exit 0), ⟨st.flag, st.stdout ++ helpText, st.called ++ [.help]⟩) := by
  rw [flags, callFlags, get_bind_apply, if_pos hhelp]
  exact bind_error (help_eq { st with called := st.called ++ [.help] })

/-! ## The set of operators -/

theorem mem_recognised (hf : f ∈ flags) : f.flag ∈ recognised args ↔ f.flag ∈ args := by
  rw [recognised, Finset.mem_filter, List.mem_toFinset]
  exact and_iff_right (List.mem_map_of_mem hf)

/-- Arguments among which the same operators occur ask for the same set. -/
theorem recognised_congr (h : ∀ f ∈ flags, f.flag ∈ args ↔ f.flag ∈ args') :
    recognised args = recognised args' := by
  refine Finset.filter_congr fun op hop => ?_
  obtain ⟨f, hf, rfl⟩ := List.mem_map.mp (List.mem_toFinset.mp hop)
  exact h f hf

/-- The flags that are set are those of the set of operators. -/
theorem recognised_test (hf : f ∈ flags) :
    setFlags 0 (requested args) &&& f.val ≠ 0 ↔ f.flag ∈ recognised args :=
  (requested_test hf).trans (mem_recognised hf).symm

theorem funcsOf_requested : funcsOf (setFlags 0 (requested args)) flags = performed (recognised args) := by
  rw [funcsOf, performed]
  congr 1
  exact List.filter_congr fun f hf => decide_eq_decide.mpr (recognised_test hf)

theorem performed_sublist (ops : Finset Bytes) :
    (performed ops).Sublist (flags.filterMap Flag.func) := List.filter_sublist.filterMap Flag.func

theorem flags_func_injective :
    ∀ f ∈ flags, ∀ g ∈ flags, f.func = g.func → f.func.isSome → f = g := by decide

theorem mem_performed (hf : f ∈ flags) (hfunc : f.func = some func) :
    func ∈ performed ops ↔ f.flag ∈ ops := by
  rw [performed, List.mem_filterMap]
  constructor
  · rintro ⟨g, hg, hgfunc⟩
    obtain ⟨hgmem, hop⟩ := List.mem_filter.mp hg
    have heq := flags_func_injective f hf g hgmem (hfunc.trans hgfunc.symm) (hfunc ▸ rfl)
    exact heq ▸ of_decide_eq_true hop
  · intro hop
    exact ⟨f, List.mem_filter.mpr ⟨hf, decide_eq_true hop⟩, hfunc⟩

/-- An operator that was asked for is performed once, and no other is performed. -/
theorem count_performed (hf : f ∈ flags) (hfunc : f.func = some func) :
    (performed ops).count func = if f.flag ∈ ops then 1 else 0 := by
  have hnodup : (performed ops).Nodup := (performed_sublist ops).nodup (by decide)
  rw [hnodup.count]
  exact if_congr (mem_performed hf hfunc) rfl rfl

/-- The operators whose output `compile` changes. -/
theorem printed_compile (env : Env) (func : FlagFunc) :
    printed env true func ≠ printed env false func ↔
      func = .incdir ∨ func = .dlibdir ∨ func = .slibdir := by
  have hopt : ∀ opt dir : Bytes, opt ≠ [] → opt ++ dir ++ ascii " " ≠ [] ++ dir ++ ascii " " := by
    intro opt dir hne heq
    exact hne (List.append_cancel_right (List.append_cancel_right heq))
  cases func with
  | incdir => exact iff_of_true (hopt _ _ (by decide)) (by decide)
  | dlibdir => exact iff_of_true (hopt _ _ (by decide)) (by decide)
  | slibdir => exact iff_of_true (hopt _ _ (by decide)) (by decide)
  | _ => exact iff_of_false (fun h => h rfl) (by decide)

/-! ## Whole runs -/

theorem requested_compile :
    setFlags 0 (requested args) &&& flagCompile ≠ 0 ↔ ascii "compile" ∈ recognised args :=
  recognised_test (List.mem_cons_of_mem _ List.mem_cons_self : (⟨ascii "compile", none, flagCompile,
    ascii "modify output for use as compiler flags"⟩ : Flag) ∈ flags)

theorem requested_help :
    setFlags 0 (requested args) &&& flagHelp ≠ 0 ↔ ascii "help" ∈ recognised args :=
  recognised_test (List.mem_cons_self : (⟨ascii "help", some .help, flagHelp, ascii "this message"⟩ : Flag) ∈
    flags)

theorem flags_help : ∀ f ∈ flags, f.func = some .help → f.flag = ascii "help" := by decide

/-- Every run is the one of the set of operators that occur among its arguments. -/
theorem run_eq_outcome (env : Env) (prog : Bytes) (hne : args ≠ []) (hargs : ∀ arg ∈ args, 0 ∉ arg) :
    run env (prog :: args) = some (outcome env (recognised args)) := by
  have hparse := parseFlags_eq prog hne hargs ⟨0, [], []⟩
  rw [run, main, bind_ok hparse, outcome]
  by_cases hmem : ascii "help" ∈ recognised args
  · rw [if_pos hmem, bind_error (callFlags_help _ (requested_help.mpr hmem))]
    rfl
  · have hnohelp : ∀ f ∈ flags, setFlags 0 (requested args) &&& f.val ≠ 0 → f.func ≠ some .help := by
      intro f hf htest hfunc
      exact hmem (flags_help f hf hfunc ▸ (recognised_test hf).mp htest)
    have hcompile : decide (setFlags 0 (requested args) &&& flagCompile ≠ 0) =
        decide (ascii "compile" ∈ recognised args) := decide_eq_decide.mpr requested_compile
    rw [if_neg hmem, bind_ok (callFlags_eq _ hnohelp), funcsOf_requested, hcompile, get_bind_apply,
      List.nil_append, List.nil_append, ← output]
    by_cases hflush : env.fflush (output env (recognised args)) ≠ 0
    · rw [if_pos hflush, if_pos hflush]
      rfl
    · rw [if_neg hflush, if_neg hflush]
      rfl

theorem run_congr (env : Env) (prog prog' : Bytes) (hne : args ≠ []) (hargs : ∀ arg ∈ args, 0 ∉ arg)
    (hne' : args' ≠ []) (hargs' : ∀ arg ∈ args', 0 ∉ arg) (h : recognised args' = recognised args) :
    run env (prog' :: args') = run env (prog :: args) := by
  rw [run_eq_outcome env prog hne hargs, run_eq_outcome env prog' hne' hargs', h]

/-- The order of the arguments makes no difference. -/
theorem run_perm (env : Env) (prog : Bytes) (hne : args ≠ []) (hargs : ∀ arg ∈ args, 0 ∉ arg)
    (h : args'.Perm args) : run env (prog :: args') = run env (prog :: args) :=
  run_congr env prog prog hne hargs (fun hnil => hne (h.symm.trans (.of_eq hnil)).eq_nil)
    (fun arg harg => hargs arg (h.mem_iff.mp harg)) (recognised_congr fun _ _ => h.mem_iff)

/-- A repeated argument makes no difference, and neither does one that is no operator. -/
theorem run_insert (env : Env) (prog : Bytes) {before after : List Bytes} (hne : before ++ after ≠ [])
    (hargs : ∀ arg ∈ before ++ after, 0 ∉ arg) (harg : 0 ∉ arg)
    (hextra : arg ∈ before ++ after ∨ ∀ f ∈ flags, arg ≠ f.flag) :
    run env (prog :: (before ++ arg :: after)) = run env (prog :: (before ++ after)) := by
  have hmem : ∀ a, a ∈ before ++ arg :: after ↔ a = arg ∨ a ∈ before ++ after := by
    intro a
    rw [List.mem_append, List.mem_cons, List.mem_append, or_left_comm]
  refine run_congr env prog prog hne hargs
    (List.append_ne_nil_of_right_ne_nil before (List.cons_ne_nil arg after)) ?_ ?_
  · intro a ha
    rcases (hmem a).mp ha with rfl | hold
    · exact harg
    · exact hargs a hold
  · refine recognised_congr fun f hf => (hmem f.flag).trans (or_iff_right_of_imp ?_)
    rintro rfl
    exact hextra.resolve_right fun hnone => hnone f hf rfl

/-- With `help` only the help text is printed. -/
theorem run_help (env : Env) (prog : Bytes) (hargs : ∀ arg ∈ args, 0 ∉ arg) (hmem : ascii "help" ∈ args) :
    run env (prog :: args) = some ⟨helpText, [.help], 0⟩ := by
  have hrec : ascii "help" ∈ recognised args := Finset.mem_filter.mpr ⟨by decide, hmem⟩
  rw [run_eq_outcome env prog (List.ne_nil_of_mem hmem) hargs, outcome, if_pos hrec]

/-- Every operator that occurs among the arguments is performed once, in the order of the table, and
nothing else is. -/
structure Performs (env : Env) (args : List Bytes) (out : Outcome) : Prop where
  order : out.called.Sublist (flags.filterMap Flag.func)
  once : ∀ f ∈ flags, ∀ func, f.func = some func →
    out.called.count func = if f.flag ∈ args then 1 else 0
  stdout : out.stdout = out.called.flatMap (printed env (ascii "compile" ∈ args))
  status : out.status = if env.fflush out.stdout ≠ 0 then 112 else 0

theorem run_performs (env : Env) (prog : Bytes) (hne : args ≠ []) (hargs : ∀ arg ∈ args, 0 ∉ arg)
    (hmem : ascii "help" ∉ args) : ∃ out, run env (prog :: args) = some out ∧ Performs env args out := by
  have hhelp : ascii "help" ∉ recognised args := fun h => hmem (Finset.mem_filter.mp h).2
  have hcompile : decide (ascii "compile" ∈ recognised args) = decide (ascii "compile" ∈ args) :=
    decide_eq_decide.mpr ⟨fun h => (Finset.mem_filter.mp h).2,
      fun h => Finset.mem_filter.mpr ⟨by decide, h⟩⟩
  refine ⟨_, run_eq_outcome env prog hne hargs, ?_⟩
  rw [outcome, if_neg hhelp]
  refine ⟨performed_sublist _, ?_, ?_, rfl⟩
  · intro f hf func hfunc
    exact (count_performed hf hfunc).trans (if_congr (mem_recognised hf) rfl rfl)
  · show output env (recognised args) = _
    rw [output, hcompile]

/-- What a run prints and returns depends on the set of operators that occur among its arguments, and
an operator is recognised byte by byte. -/
theorem conf_depends_on_operators (env : Env) (prog : Bytes) {args : List Bytes} (hne : args ≠ [])
    (hargs : ∀ arg ∈ args, 0 ∉ arg) :
    run env (prog :: args) = some (outcome env (recognised args)) ∧
    (∀ prog' args', args' ≠ [] → (∀ arg ∈ args', 0 ∉ arg) → recognised args' = recognised args →
      run env (prog' :: args') = run env (prog :: args)) ∧
    (∀ args', args'.Perm args → run env (prog :: args') = run env (prog :: args)) ∧
    (∀ before arg after, before ++ after = args → 0 ∉ arg →
      (arg ∈ args ∨ ∀ f ∈ flags, arg ≠ f.flag) →
      run env (prog :: (before ++ arg :: after)) = run env (prog :: args)) ∧
    (ascii "help" ∈ args → run env (prog :: args) = some ⟨helpText, [.help], 0⟩) ∧
    (ascii "help" ∉ args → ∃ out, run env (prog :: args) = some out ∧ Performs env args out) ∧
    (∀ func, printed env true func ≠ printed env false func ↔
      func = .incdir ∨ func = .dlibdir ∨ func = .slibdir) ∧
    (∀ (arg : Bytes) (st : State), 0 ∉ arg → st.flag = 0 →
      ∃ st', parseFlag arg flags st = (.ok (), st') ∧ Recognises arg st'.flag) ∧
    ∀ (s t : Bytes) (st : State), 0 ∉ s → 0 ∉ t →
      ∃ d, strDiff (s ++ [0]) (t ++ [0]) st = (.ok d, st) ∧ Compares s t d := by
  refine ⟨run_eq_outcome env prog hne hargs, ?_, fun args' h => run_perm env prog hne hargs h, ?_,
    fun hmem => run_help env prog hargs hmem, fun hmem => run_performs env prog hne hargs hmem,
    printed_compile env, fun arg st harg hclear => parseFlag_recognises harg st hclear,
    fun s t st hs ht => strDiff_spec hs ht st⟩
  · intro prog' args' hne' hargs' h
    exact run_congr env prog prog' hne hargs hne' hargs' h
  · rintro before arg after rfl harg hextra
    exact run_insert env prog hne hargs harg hextra

/-- An installation below `/usr`. -/
def usrEnv : Env where
  ctxtIncdir := ascii "/usr/include"
  ctxtDlibdir := ascii "/usr/lib"
  ctxtSlibdir := ascii "/usr/lib"
  ctxtVersion := ascii "0.13"
  fflush _ := 0

/-- The flag for the compiler stands before the directory, also where `compile` comes last. -/
theorem conf_incdir_compile :
    run usrEnv [progname, ascii "newline", ascii "incdir", ascii "dir", ascii "incdir", ascii "compile"] =
      some ⟨ascii "-I/usr/include \n", [.incdir, .newline], 0⟩ :=
  (conf_depends_on_operators usrEnv progname (by decide) (by decide)).1.trans (by decide)

end CStringVerified.Conf
