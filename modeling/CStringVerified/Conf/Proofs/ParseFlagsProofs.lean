import CStringVerified.Foundation.Flags
import CStringVerified.Conf.Proofs.StrDiffProofs

/-!
# The flags that arguments set

`parse_flags` looks every argument up in the table and sets the flag of the entry it finds. Afterwards
the flag of an operator is set if and only if the operator was among the arguments.
-/

namespace CStringVerified.Conf

open Foundation Foundation.Run

variable {arg : Bytes} {args : List Bytes} {f g : Flag} {fs : List Flag}

/-! ## The table -/

theorem flags_ne_zero : ∀ f ∈ flags, f.val ≠ 0 := by decide

/-- No two operators share a bit. -/
theorem flags_disjoint : ∀ f ∈ flags, ∀ g ∈ flags, f ≠ g → f.val &&& g.val = 0 := by decide

theorem flags_separate : Separate (flags.map Flag.val) where
  ne_zero := List.forall_mem_map.mpr flags_ne_zero
  disjoint := List.forall_mem_map.mpr fun f hf => List.forall_mem_map.mpr fun g hg hne =>
    flags_disjoint f hf g hg fun h => hne (congrArg Flag.val h)

theorem flags_val_injective (hf : f ∈ flags) (hg : g ∈ flags) (h : f.val = g.val) : f = g := by
  by_contra hne
  have hzero := flags_disjoint f hf g hg hne
  rw [h, BitVec.and_self] at hzero
  exact flags_ne_zero g hg hzero

theorem flags_nul : ∀ f ∈ flags, (0 : Byte) ∉ f.flag := by decide

/-- The entry of an operator. -/
def lookup (fs : List Flag) (arg : Bytes) : Option Flag := fs.find? fun f => f.flag = arg

theorem lookup_flag : ∀ f ∈ flags, lookup flags f.flag = some f := by decide

theorem lookup_some (h : lookup fs arg = some f) : f ∈ fs ∧ f.flag = arg := by
  have hflag := List.find?_some h
  exact ⟨List.mem_of_find?_eq_some h, of_decide_eq_true hflag⟩

/-! ## One argument -/

/-- The flags that an argument sets. -/
def valOf (fs : List Flag) (arg : Bytes) : List (BitVec 32) := ((lookup fs arg).map Flag.val).toList

/-- An argument sets the flag of the operator it equals, and nothing else. -/
theorem parseFlag_eq (harg : 0 ∉ arg) (hfs : ∀ f ∈ fs, 0 ∉ f.flag) (st : State) :
    parseFlag arg fs st = (.ok (), { st with flag := setFlags st.flag (valOf fs arg) }) := by
  induction fs with
  | nil => rfl
  | cons f fs ih =>
    obtain ⟨d, hdiff, hzero, -⟩ := strDiff_spec harg (hfs f List.mem_cons_self) st
    rw [parseFlag, bind_ok hdiff]
    by_cases heq : arg = f.flag
    · have hfind : lookup (f :: fs) arg = some f :=
        List.find?_cons_of_pos (decide_eq_true heq.symm)
      rw [if_pos (hzero.mpr heq), valOf, hfind]
      rfl
    · have hfind : lookup (f :: fs) arg = lookup fs arg :=
        List.find?_cons_of_neg fun h => heq (of_decide_eq_true h).symm
      rw [if_neg fun h => heq (hzero.mp h), valOf, hfind]
      exact ih fun g hg => hfs g (List.mem_cons_of_mem f hg)

/-! ## All arguments -/

/-- The flags that arguments set, in their order. -/
def requested (args : List Bytes) : List (BitVec 32) := args.flatMap (valOf flags)

theorem parseArgs_eq (hargs : ∀ arg ∈ args, 0 ∉ arg) (st : State) :
    parseArgs args st = (.ok (), { st with flag := setFlags st.flag (requested args) }) := by
  induction args generalizing st with
  | nil => rfl
  | cons arg args ih =>
    have hfirst := parseFlag_eq (hargs arg List.mem_cons_self) flags_nul st
    rw [parseArgs, bind_ok hfirst, ih fun a ha => hargs a (List.mem_cons_of_mem arg ha)]
    rw [requested, requested, List.flatMap_cons, setFlags_append]

/-- The first string is the name of the program. -/
theorem parseFlags_eq (prog : Bytes) (hne : args ≠ []) (hargs : ∀ arg ∈ args, 0 ∉ arg) (st : State) :
    parseFlags (prog :: args) st = (.ok (), { st with flag := setFlags 0 (requested args) }) := by
  have hargc : ((prog :: args).length : Int) - 1 ≠ 0 := by
    have hlen := List.length_pos_iff.mpr hne
    rw [List.length_cons]
    omega
  rw [parseFlags, if_neg hargc, List.tail_cons, modify_bind_apply]
  exact parseArgs_eq hargs { st with flag := 0 }

theorem mem_valOf (hf : f ∈ flags) : f.val ∈ valOf flags arg ↔ f.flag = arg := by
  rw [valOf, Option.mem_toList, Option.map_eq_some_iff]
  constructor
  · rintro ⟨g, hfind, hval⟩
    obtain ⟨hg, rfl⟩ := lookup_some hfind
    rw [flags_val_injective hg hf hval]
  · rintro rfl
    exact ⟨f, lookup_flag f hf, rfl⟩

theorem valOf_subset : ∀ v ∈ valOf flags arg, v ∈ flags.map Flag.val := by
  intro v hv
  rw [valOf, Option.mem_toList, Option.map_eq_some_iff] at hv
  obtain ⟨g, hfind, rfl⟩ := hv
  exact List.mem_map_of_mem (lookup_some hfind).1

/-- The flag of an operator is set if and only if the operator was asked for. -/
theorem requested_test (hf : f ∈ flags) :
    setFlags 0 (requested args) &&& f.val ≠ 0 ↔ f.flag ∈ args := by
  have hall : ∀ v ∈ requested args, v ∈ flags.map Flag.val := by
    intro v hv
    obtain ⟨arg, -, hmem⟩ := List.mem_flatMap.mp hv
    exact valOf_subset v hmem
  rw [flags_separate.test_iff hall (List.mem_map_of_mem hf), requested, List.mem_flatMap]
  constructor
  · rintro ⟨arg, harg, hmem⟩
    exact (mem_valOf hf).mp hmem ▸ harg
  · intro harg
    exact ⟨f.flag, harg, (mem_valOf hf).mpr rfl⟩

/-- A flag is set if and only if the argument equals the name of an operator, and then it is the flag of
that operator. -/
structure Recognises (arg : Bytes) (flag : BitVec 32) : Prop where
  set_iff : flag ≠ 0 ↔ ∃ f ∈ flags, arg = f.flag
  test_iff : ∀ f ∈ flags, (flag &&& f.val ≠ 0 ↔ arg = f.flag)

theorem parseFlag_recognises (harg : 0 ∉ arg) (st : State) (hclear : st.flag = 0) :
    ∃ st', parseFlag arg flags st = (.ok (), st') ∧ Recognises arg st'.flag := by
  have hone : requested [arg] = valOf flags arg := List.flatMap_singleton (valOf flags) arg
  have htest : ∀ f ∈ flags, (setFlags st.flag (valOf flags arg) &&& f.val ≠ 0 ↔ arg = f.flag) := by
    intro f hf
    rw [hclear, ← hone, requested_test hf, List.mem_singleton, eq_comm]
  refine ⟨_, parseFlag_eq harg flags_nul st, ⟨?_, ?_⟩, htest⟩
  · intro hset
    match hfind : lookup flags arg with
    | none =>
      refine absurd ?_ hset
      show setFlags st.flag (valOf flags arg) = 0
      rw [valOf, hfind, hclear]
      rfl
    | some f => exact ⟨f, (lookup_some hfind).1, (lookup_some hfind).2.symm⟩
  · rintro ⟨f, hf, heq⟩ hzero
    refine (htest f hf).mpr heq ?_
    rw [show setFlags st.flag (valOf flags arg) = 0 from hzero]
    exact BitVec.zero_and

end CStringVerified.Conf
