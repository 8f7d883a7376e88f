import CStringVerified.Conf.CStringConf

/-!
# What `str_diff` returns

The loop of `str_diff` is a plain loop, written out four times. It ends at the first bytes that differ,
or at the nuls of two equal strings.
-/

namespace CStringVerified.Conf

open Foundation Foundation.Run

/-- `a` and `b` are the first elements in which two lists differ. -/
def FirstDiff (s t : Bytes) (a b : Byte) : Prop :=
  ∃ before s' t', s = before ++ a :: s' ∧ t = before ++ b :: t' ∧ a ≠ b

/-- `d` is what a comparison of two strings is to return: 0 for equal strings, and the difference of the
first bytes that differ, without sign, for others. -/
structure Compares (s t : Bytes) (d : Int) : Prop where
  zero_iff : d = 0 ↔ s = t
  first : s ≠ t → ∃ a b, FirstDiff (s ++ [0]) (t ++ [0]) a b ∧ d = (a.toNat : Int) - b.toNat

section StrDiff

variable {σ : Type} {s t : Bytes} {a b : Byte}

theorem FirstDiff.cons (h : FirstDiff s t a b) (c : Byte) : FirstDiff (c :: s) (c :: t) a b := by
  obtain ⟨before, s', t', rfl, rfl, hne⟩ := h
  exact ⟨c :: before, s', t', rfl, rfl, hne⟩

/-- A round that finds different bytes leaves the loop. -/
theorem strDiffStep_ne (hne : a ≠ b) (st : σ) :
    strDiffStep (a :: s, b :: t) st = (.ok (.inr (a, b :: t)), st) := by
  show (if a ≠ b then _ else _ : Run Stop σ _) st = _
  rw [if_pos hne]
  rfl

/-- So does one that finds two nuls. -/
theorem strDiffStep_nul (st : σ) :
    strDiffStep (0 :: s, 0 :: t) st = (.ok (.inr (0, 0 :: t)), st) := rfl

theorem strDiffStep_eq (ha : a ≠ 0) (st : σ) :
    strDiffStep (a :: s, a :: t) st = (.ok (.inl (s, t)), st) := by
  show (if a ≠ a then _ else if a = 0 then _ else _ : Run Stop σ _) st = _
  rw [if_neg (not_not_intro rfl), if_neg ha]
  rfl

/-- Where the loop ends. -/
theorem strDiff_loop (hs : 0 ∉ s) (ht : 0 ∉ t) {fuel : Nat} (hfuel : s.length < fuel) (st : σ) :
    ∃ u c t', loop strDiffStep (fun _ => fail .diverges) fuel (s ++ [0], t ++ [0]) st =
        (.ok (u, c :: t'), st) ∧
      (s = t ∧ u = c ∨ s ≠ t ∧ FirstDiff (s ++ [0]) (t ++ [0]) u c) := by
  induction s generalizing t fuel with
  | nil =>
    obtain ⟨fuel, rfl⟩ := Nat.exists_eq_succ_of_ne_zero (Nat.ne_zero_of_lt hfuel)
    cases t with
    | nil => exact ⟨0, 0, [], loop_return (strDiffStep_nul st), Or.inl ⟨rfl, rfl⟩⟩
    | cons c t =>
      have hc : (0 : Byte) ≠ c := fun h => ht (h ▸ List.mem_cons_self)
      have hstep : strDiffStep (0 :: [], c :: (t ++ [0])) st = (.ok (.inr (0, c :: (t ++ [0]))), st) :=
        strDiffStep_ne hc st
      exact ⟨0, c, t ++ [0], loop_return hstep,
        Or.inr ⟨(List.cons_ne_nil c t).symm, [], [], t ++ [0], rfl, rfl, hc⟩⟩
  | cons a s ih =>
    obtain ⟨fuel, rfl⟩ := Nat.exists_eq_succ_of_ne_zero (Nat.ne_zero_of_lt hfuel)
    have ha : a ≠ 0 := fun h => hs (h ▸ List.mem_cons_self)
    cases t with
    | nil =>
      exact ⟨a, 0, [], loop_return (strDiffStep_ne ha st),
        Or.inr ⟨List.cons_ne_nil _ _, [], s ++ [0], [], rfl, rfl, ha⟩⟩
    | cons c t =>
      by_cases hac : a = c
      · subst hac
        obtain ⟨u, c, t', hloop, hcase⟩ := ih (fun h => hs (List.mem_cons_of_mem a h))
          (fun h => ht (List.mem_cons_of_mem a h)) (Nat.lt_of_succ_lt_succ hfuel)
        refine ⟨u, c, t', (loop_continue (strDiffStep_eq ha st)).trans hloop, ?_⟩
        rcases hcase with ⟨rfl, hu⟩ | ⟨hne, hdiff⟩
        · exact Or.inl ⟨rfl, hu⟩
        · exact Or.inr ⟨fun h => hne (List.cons.inj h).2, hdiff.cons a⟩
      · have hstep : strDiffStep (a :: (s ++ [0]), c :: (t ++ [0])) st =
            (.ok (.inr (a, c :: (t ++ [0]))), st) := strDiffStep_ne hac st
        exact ⟨a, c, t ++ [0], loop_return hstep,
          Or.inr ⟨fun h => hac (List.cons.inj h).1, [], s ++ [0], t ++ [0], rfl, rfl, hac⟩⟩

/-- `str_diff` compares two strings, and ends at the latest at their nuls. -/
theorem strDiff_spec (hs : 0 ∉ s) (ht : 0 ∉ t) (st : σ) :
    ∃ d, strDiff (s ++ [0]) (t ++ [0]) st = (.ok d, st) ∧ Compares s t d := by
  have hfuel : s.length < 4 * ((s ++ [0]).length + 1) := by
    rw [List.length_append]
    omega
  obtain ⟨u, c, t', hloop, hcase⟩ := strDiff_loop hs ht hfuel st
  rw [← loop_unrolled] at hloop
  refine ⟨(u.toNat : Int) - c.toNat, bind_ok hloop, ?_, ?_⟩
  · rcases hcase with ⟨heq, rfl⟩ | ⟨hne, -, -, -, -, -, hdiff⟩
    · exact iff_of_true (Int.sub_self _) heq
    · refine iff_of_false (fun hzero => hdiff (BitVec.eq_of_toNat_eq ?_)) hne
      omega
  · intro hne
    rcases hcase with ⟨heq, -⟩ | ⟨-, hdiff⟩
    · exact absurd heq hne
    · exact ⟨u, c, hdiff, rfl⟩

end StrDiff

end CStringVerified.Conf
